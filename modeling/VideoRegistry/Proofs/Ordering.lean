import VideoRegistry.Proofs.Lists
import VideoRegistry.Proofs.Outcome
import VideoRegistry.Proofs.Route
import VideoRegistry.Registry.Order

/-!
# What ordering the lists achieves

Ordering walks through every list and places an entry when it leaves it.  The
walk stands on the first route to the entry, and when it leaves, everything that
the entry uses in the list is placed or lies on that route.  So a used struct can
only follow its user if the route to the user leads through it.  A walk through a
closed registry cannot fail.
-/

namespace VideoRegistry

/-- A list may use a struct that is in it or that its provider has. -/
def Sources.Offers (sources : Sources) (name : String) : Prop :=
  name ∈ sources.listed ∨ name ∈ sources.provided

namespace Registry

variable {registry : Registry} {listed : List String}

/-- `name` may stand right behind `front`: a walk first found it at the end of
`route`, nothing on the route is placed before it, and what it uses in the list
is placed before it or stands on the route. -/
structure PlacedOn (registry : Registry) (listed front route : List String)
    (name : String) : Prop where
  isFirst : registry.IsFirstRoute listed route name
  unplaced : ∀ other ∈ route, other ∉ front
  members : ∀ member, registry.Uses name member → member ∈ listed →
    member ∈ front ∨ member ∈ route

/-- Every name in a list was placed behind those in front of it. -/
def WellPlaced (registry : Registry) (listed settled : List String) : Prop :=
  ∀ front name back, settled = front ++ name :: back →
    ∃ route, registry.PlacedOn listed front route name

/-- The state of a walk that stands on `path` and has placed `settled`. -/
structure Walking (registry : Registry) (listed path settled : List String) :
    Prop where
  isRoute : registry.IsRoute listed path
  unplaced : ∀ name ∈ path, name ∉ settled
  mem_listed : ∀ name ∈ settled, name ∈ listed
  nodup : settled.Nodup
  members : ∀ name ∈ settled, ∀ member, registry.Uses name member →
    member ∈ listed → member ∈ settled ∨ member ∈ path
  earlier : ∀ stretch taken rest, path = stretch ++ taken :: rest →
    ∀ other, Before other taken (registry.choices listed stretch) →
      other ∈ listed → other ∉ stretch →
        ∀ name, registry.ReachesAvoiding listed stretch other name →
          name ∈ settled
  wellPlaced : registry.WellPlaced listed settled

namespace Walking

variable {path settled : List String} {name : String}

/-- What was chosen before and does not lie on the path is placed, and with it
everything that it reaches off the path. -/
theorem settles {other : String}
    (hwalk : registry.Walking listed path settled) (hother : other ∈ settled)
    (hreaches : registry.ReachesAvoiding listed path other name) :
    name ∈ settled := by
  induction hreaches with
  | refl => exact hother
  | tail _ hstep ih =>
      obtain ⟨huses, hlisted, havoided⟩ := hstep
      exact (hwalk.members _ ih _ huses hlisted).resolve_right havoided

/-- The path of a walk is the first route to where the walk stands. -/
theorem isFirstRoute (hwalk : registry.Walking listed path settled)
    (hlast : path.getLast? = some name) :
    registry.IsFirstRoute listed path name := by
  refine ⟨hwalk.isRoute, hlast, ?_⟩
  rintro other hroute hother
    ⟨stretch, taken, left, rest, restLeft, rfl, hpath, hbefore⟩
  have hend : name ∈ taken :: rest := by
    rw [List.getLast?_append_of_ne_nil _ (List.cons_ne_nil taken rest)] at hother
    exact List.mem_of_getLast? hother
  have hnew : taken ∉ stretch := notMem_of_nodup_append hroute.nodup
  have hlisted := (hroute.choice stretch taken rest rfl).1
  exact hwalk.unplaced name (List.mem_of_getLast? hlast)
    (hwalk.earlier stretch left restLeft hpath taken hbefore hlisted hnew name
      (hroute.reachesAvoiding hend))

/-- A walk goes on to the first choice that is not placed and not on its
path. -/
theorem enter {passed rest : List String}
    (hwalk : registry.Walking listed path settled)
    (hchoices : registry.choices listed path = passed ++ name :: rest)
    (hpassed : ∀ other ∈ passed, other ∈ listed →
      other ∈ settled ∨ other ∈ path)
    (hlisted : name ∈ listed) (hplaced : name ∉ settled) (hpath : name ∉ path) :
    registry.Walking listed (path ++ [name]) settled where
  isRoute := hwalk.isRoute.snoc hpath hlisted (by simp [hchoices])
  unplaced other hother := by
    rcases List.mem_append.1 hother with hother | hother
    · exact hwalk.unplaced other hother
    · exact List.mem_singleton.1 hother ▸ hplaced
  mem_listed := hwalk.mem_listed
  nodup := hwalk.nodup
  members other hother member huses hmember := by
    rcases hwalk.members other hother member huses hmember with hmem | hmem
    · exact Or.inl hmem
    · exact Or.inr (List.mem_append_left _ hmem)
  earlier stretch taken back hsplit other hbefore hother havoided := by
    rcases append_singleton_eq_append_cons hsplit with
      ⟨rfl, rfl, -⟩ | ⟨short, -, hshort⟩
    · have hnew : taken ∉ passed := fun hmem =>
        (hpassed taken hmem hlisted).elim hplaced hpath
      rw [hchoices, before_split hnew] at hbefore
      have hsettled := (hpassed other hbefore hother).resolve_right havoided
      exact fun name hreaches => hwalk.settles hsettled hreaches
    · exact hwalk.earlier stretch taken short hshort other hbefore hother havoided
  wellPlaced := hwalk.wellPlaced

/-- A walk places the struct it stands on once its member structs are placed or
lie on the path. -/
theorem leave (hwalk : registry.Walking listed (path ++ [name]) settled)
    (hmembers : ∀ member, registry.Uses name member → member ∈ listed →
      member ∈ settled ∨ member ∈ path ++ [name]) :
    registry.Walking listed path (settled ++ [name]) where
  isRoute := hwalk.isRoute.of_append
  unplaced other hother hmem := by
    rcases List.mem_append.1 hmem with hmem | hmem
    · exact hwalk.unplaced other (List.mem_append_left _ hother) hmem
    · exact (List.nodup_append'.1 hwalk.isRoute.nodup).2.2 hother hmem
  mem_listed other hother := by
    rcases List.mem_append.1 hother with hother | hother
    · exact hwalk.mem_listed other hother
    · obtain rfl := List.mem_singleton.1 hother
      exact (hwalk.isRoute.choice path other [] rfl).1
  nodup := List.nodup_append_comm.1 (List.nodup_cons.2
    ⟨hwalk.unplaced name (by simp), hwalk.nodup⟩)
  members other hother member huses hmember := by
    have hcases : member ∈ settled ∨ member ∈ path ++ [name] := by
      rcases List.mem_append.1 hother with hother | hother
      · exact hwalk.members other hother member huses hmember
      · exact hmembers member (List.mem_singleton.1 hother ▸ huses) hmember
    simp only [List.mem_append] at hcases ⊢
    tauto
  earlier stretch taken rest hsplit other hbefore hother havoided found
      hreaches := by
    refine List.mem_append_left _ (hwalk.earlier stretch taken (rest ++ [name])
      ?_ other hbefore hother havoided found hreaches)
    rw [hsplit, List.append_assoc, List.cons_append]
  wellPlaced front placed back hsplit := by
    rcases append_singleton_eq_append_cons hsplit with
      ⟨rfl, rfl, -⟩ | ⟨short, -, hshort⟩
    · exact ⟨path ++ [placed], hwalk.isFirstRoute (by simp), hwalk.unplaced,
        hmembers⟩
    · exact hwalk.wellPlaced front placed short hshort

end Walking

/-- A walk over the members of `user` leaves it on the same path, with all of
them placed that are in the list and not on the path.  `passed` are the members
that it dealt with before. -/
theorem placeMembers_walking {sources : Sources} {user : String}
    {above passed waiting used settled after : List String}
    (hwaiting : ∀ name, name ∈ waiting ↔
      name ∈ sources.listed ∧ name ∉ above ++ [user])
    (hused : registry.memberStructs user = passed ++ used)
    (hpassed : ∀ name ∈ passed, name ∈ sources.listed →
      name ∈ settled ∨ name ∈ above ++ [user])
    (hwalk : registry.Walking sources.listed (above ++ [user]) settled)
    (hrun : registry.placeMembers sources user waiting used settled =
      .ok after) :
    registry.Walking sources.listed (above ++ [user]) after ∧
      settled <+: after ∧
      ∀ name, registry.Uses user name → name ∈ sources.listed →
        name ∈ after ∨ name ∈ above ++ [user] := by
  induction user, waiting, used, settled
    using placeMembers.induct registry sources
    generalizing above passed after with
  | case1 user waiting settled =>
      rw [placeMembers] at hrun
      obtain rfl := Except.ok.inj hrun
      rw [List.append_nil] at hused
      exact ⟨hwalk, List.prefix_refl _, fun name huses =>
        hpassed name (hused ▸ huses)⟩
  | case2 user waiting settled name rest hplaced ih =>
      rw [placeMembers, if_pos hplaced] at hrun
      have hstill : ∀ other ∈ passed ++ [name], other ∈ sources.listed →
          other ∈ settled ∨ other ∈ above ++ [user] :=
        List.forall_mem_append.2
          ⟨hpassed, List.forall_mem_singleton.2 fun _ => Or.inl hplaced⟩
      exact ih hwaiting (by simp [hused]) hstill hwalk hrun
  | case3 user waiting settled name rest hplaced hmem ihdeep ihrest =>
      rw [placeMembers, if_neg hplaced, dif_pos hmem] at hrun
      obtain ⟨walked, hdeep, hrun⟩ := bind_eq_ok_iff.1 hrun
      obtain ⟨hlisted, hpath⟩ := (hwaiting name).1 hmem
      have hchoices : registry.choices sources.listed (above ++ [user]) =
          passed ++ name :: rest := by simp [hused]
      have hentered := hwalk.enter hchoices hpassed hlisted hplaced hpath
      have hwaitingDeep : ∀ other, other ∈ without name waiting ↔
          other ∈ sources.listed ∧ other ∉ (above ++ [user]) ++ [name] := by
        intro other
        rw [mem_without, hwaiting, List.mem_append (s := above ++ [user])]
        simp [and_assoc]
      obtain ⟨hwalked, hgrown, hmembers⟩ := ihdeep hwaitingDeep
        (List.nil_append _).symm (by simp) hentered hdeep
      have hstill : ∀ other ∈ passed ++ [name], other ∈ sources.listed →
          other ∈ walked ++ [name] ∨ other ∈ above ++ [user] := by
        rw [List.forall_mem_append]
        constructor
        · intro other hother hlisted
          rcases hpassed other hother hlisted with hmem | hmem
          · exact Or.inl (List.mem_append_left _ (hgrown.subset hmem))
          · exact Or.inr hmem
        · exact List.forall_mem_singleton.2 fun _ => Or.inl (by simp)
      obtain ⟨hafter, hprefix, hcovered⟩ := ihrest walked hwaiting
        (by simp [hused]) hstill (hwalked.leave hmembers) hrun
      exact ⟨hafter, hgrown.trans ((List.prefix_append _ _).trans hprefix),
        hcovered⟩
  | case4 user waiting settled name rest hplaced hmem hsource ih =>
      rw [placeMembers, if_neg hplaced, dif_neg hmem, if_pos hsource] at hrun
      have hstill : ∀ other ∈ passed ++ [name], other ∈ sources.listed →
          other ∈ settled ∨ other ∈ above ++ [user] := by
        rw [List.forall_mem_append]
        refine ⟨hpassed, List.forall_mem_singleton.2 ?_⟩
        intro hlisted
        by_contra hneither
        exact hmem ((hwaiting name).2
          ⟨hlisted, fun hpath => hneither (Or.inr hpath)⟩)
      exact ih hwaiting (by simp [hused]) hstill hwalk hrun
  | case5 user waiting settled name rest hplaced hmem hsource =>
      rw [placeMembers, if_neg hplaced, dif_neg hmem, if_neg hsource] at hrun
      cases hrun

/-- An entry that is not placed yet is placed behind what a walk from it places;
from a type that is no struct there is nowhere to walk to. -/
theorem placeList_cons {sources : Sources} {name : String}
    {rest settled : List String} :
    registry.placeList sources settled (name :: rest) =
      if name ∈ settled then registry.placeList sources settled rest
      else registry.placeMembers sources name (without name sources.listed)
          (registry.memberStructs name) settled >>= fun walked =>
        registry.placeList sources (walked ++ [name]) rest := by
  rw [placeList]
  by_cases hstruct : registry.isStruct name = true
  · rw [if_pos hstruct]
  · rw [if_neg hstruct, memberStructs_eq_nil hstruct, placeMembers]
    rfl

/-- The entries of a list are placed one after the other, each behind what it
uses.  `passed` are the entries dealt with before. -/
theorem placeList_walking {sources : Sources}
    {passed names settled after : List String}
    (hlisted : sources.listed = passed ++ names)
    (hpassed : ∀ name ∈ passed, name ∈ settled)
    (hwalk : registry.Walking sources.listed [] settled)
    (hrun : registry.placeList sources settled names = .ok after) :
    registry.Walking sources.listed [] after ∧
      ∀ name ∈ sources.listed, name ∈ after := by
  induction names generalizing passed settled with
  | nil =>
      rw [placeList] at hrun
      obtain rfl := Except.ok.inj hrun
      rw [List.append_nil] at hlisted
      exact ⟨hwalk, hlisted ▸ hpassed⟩
  | cons name rest ih =>
      have hrest : sources.listed = (passed ++ [name]) ++ rest := by
        simp [hlisted]
      rw [placeList_cons] at hrun
      split at hrun
      · next hplaced =>
          have hstill : ∀ other ∈ passed ++ [name], other ∈ settled :=
            List.forall_mem_append.2
              ⟨hpassed, List.forall_mem_singleton.2 hplaced⟩
          exact ih hrest hstill hwalk hrun
      · next hplaced =>
          have hchoices : registry.choices sources.listed [] =
              passed ++ name :: rest := hlisted
          have hentered := hwalk.enter hchoices
            (fun other hother _ => Or.inl (hpassed other hother))
            (by simp [hlisted]) hplaced (by simp)
          obtain ⟨walked, hmembers, hrun⟩ := bind_eq_ok_iff.1 hrun
          obtain ⟨hwalked, hgrown, hcovered⟩ :=
            placeMembers_walking (fun other => by simp [mem_without])
              (List.nil_append _).symm (by simp) hentered hmembers
          have hstill : ∀ other ∈ passed ++ [name], other ∈ walked ++ [name] :=
            List.forall_mem_append.2
              ⟨fun other hother => List.mem_append_left _
                (hgrown.subset (hpassed other hother)), by simp⟩
          exact ih hrest hstill (hwalked.leave hcovered) hrun

/-- What ordering makes of a list: the same names, each once and behind what it
uses, cycles apart. -/
structure Arranges (registry : Registry) (listed arranged : List String) :
    Prop where
  mem_iff : ∀ name, name ∈ arranged ↔ name ∈ listed
  nodup : arranged.Nodup
  wellPlaced : registry.WellPlaced listed arranged

theorem Arranges.perm {arranged : List String}
    (harranges : registry.Arranges listed arranged) (hnodup : listed.Nodup) :
    arranged.Perm listed :=
  (List.perm_ext_iff_of_nodup harranges.nodup hnodup).2 harranges.mem_iff

/-- A used struct of the same list is placed before its user, unless it lies on
the way on which the walk first found the user. -/
theorem Arranges.before_iff {arranged : List String} {user used : String}
    (harranges : registry.Arranges listed arranged) (huser : user ∈ arranged)
    (hused : used ∈ arranged) (huses : registry.Uses user used) :
    Before used user arranged ↔
      ∀ route, registry.IsFirstRoute listed route user → used ∉ route := by
  obtain ⟨front, back, rfl⟩ := List.append_of_mem huser
  have hnew : user ∉ front := notMem_of_nodup_append harranges.nodup
  obtain ⟨route, hplaced⟩ := harranges.wellPlaced front user back rfl
  rw [before_split hnew]
  constructor
  · intro hfront other hother hmem
    have hroute : other = route := hother.unique hplaced.isFirst
    exact hplaced.unplaced used (hroute ▸ hmem) hfront
  · intro havoided
    have hlisted : used ∈ listed := (harranges.mem_iff used).1 hused
    exact (hplaced.members used huses hlisted).resolve_right
      (havoided route hplaced.isFirst)

/-- Only a struct that leads back to its user within the list is placed behind
it. -/
theorem Arranges.before_or_reachesWithin {arranged : List String}
    {user used : String} (harranges : registry.Arranges listed arranged)
    (huser : user ∈ arranged) (hused : used ∈ arranged)
    (huses : registry.Uses user used) :
    Before used user arranged ∨ registry.ReachesWithin arranged used user := by
  by_cases hbefore : Before used user arranged
  · exact Or.inl hbefore
  · rw [harranges.before_iff huser hused huses] at hbefore
    simp only [not_forall, not_not, exists_prop] at hbefore
    obtain ⟨route, hfirst, hmem⟩ := hbefore
    have hback := hfirst.isRoute.reachesWithin hfirst.last hmem
    exact Or.inr (hback.mono fun name => (harranges.mem_iff name).2)

theorem Arranges.before_or_reaches {arranged : List String}
    {user used : String} (harranges : registry.Arranges listed arranged)
    (huser : user ∈ arranged) (hused : used ∈ arranged)
    (huses : registry.Uses user used) (hne : used ≠ user) :
    Before used user arranged ∨ registry.Reaches used user :=
  (harranges.before_or_reachesWithin huser hused huses).imp_right
    fun hback => hback.reaches hne

theorem Walking.nil : registry.Walking listed [] [] where
  isRoute := IsRoute.nil
  unplaced := by simp
  mem_listed := by simp
  nodup := List.nodup_nil
  members := by simp
  earlier := by simp
  wellPlaced := by simp [WellPlaced]

theorem placeList_arranges {sources : Sources} {after : List String}
    (hrun : registry.placeList sources [] sources.listed = .ok after) :
    registry.Arranges sources.listed after := by
  obtain ⟨hwalk, hcovered⟩ :=
    placeList_walking (List.nil_append _).symm (by simp) Walking.nil hrun
  exact ⟨fun name => ⟨hwalk.mem_listed name, hcovered name⟩, hwalk.nodup,
    hwalk.wellPlaced⟩

/-- `arranged` is what the walk over a list makes of it, wherever else its structs
may come from. -/
def Places (registry : Registry) (listed arranged : List String) : Prop :=
  ∃ sources : Sources, sources.listed = listed ∧
    registry.placeList sources [] listed = .ok arranged

theorem Places.arranges {arranged : List String}
    (hplaces : registry.Places listed arranged) :
    registry.Arranges listed arranged := by
  obtain ⟨sources, rfl, hrun⟩ := hplaces
  exact placeList_arranges hrun

/-! ## The lists as they went in

Ordering reads the list of a provider as it stands by then, rewritten or not.  No
walk looks at more than the names in it, and those stay. -/

/-- What the extension that the one at a position depends on provides to it. -/
def providedTo (registry : Registry) (position : Nat) (extension : Extension) :
    List String :=
  match extension.depends with
  | some provider => if provider = position then [] else registry.listOf provider
  | none => []

/-- Where the structs in the list of the extension at a position may come
from. -/
def sourcesAt (registry : Registry) (position : Nat) (extension : Extension) :
    Sources :=
  ⟨extension.name, extension.types, registry.providedTo position extension⟩

/-- Orders every list with all others as they went in. -/
def orderFrom (registry : Registry) (position : Nat) :
    List Extension → Checked (List Extension)
  | [] => .ok []
  | extension :: rest => do
      let types ← registry.placeList (registry.sourcesAt position extension) []
        extension.types
      let ordered ← registry.orderFrom (position + 1) rest
      return { extension with types := types } :: ordered

theorem placeMembers_congr {extension : String} {listed provided other : List String}
    (hprovided : ∀ name, name ∈ other ↔ name ∈ provided)
    (user : String) (waiting used settled : List String) :
    registry.placeMembers ⟨extension, listed, other⟩ user waiting used settled =
      registry.placeMembers ⟨extension, listed, provided⟩ user waiting used
        settled := by
  have hoffers : ∀ name, (decide (name ∈ listed) || decide (name ∈ other)) =
      (decide (name ∈ listed) || decide (name ∈ provided)) := by
    simp [hprovided]
  induction user, waiting, used, settled
    using placeMembers.induct registry ⟨extension, listed, provided⟩ with
  | case1 user waiting settled => rw [placeMembers, placeMembers]
  | case2 user waiting settled name rest hplaced ih =>
      rw [placeMembers, if_pos hplaced, placeMembers, if_pos hplaced, ih]
  | case3 user waiting settled name rest hplaced hmem ihdeep ihrest =>
      rw [placeMembers, if_neg hplaced, dif_pos hmem, ihdeep, placeMembers,
        if_neg hplaced, dif_pos hmem]
      exact congrArg _ (funext ihrest)
  | case4 user waiting settled name rest hplaced hmem hsource ih =>
      rw [placeMembers, if_neg hplaced, dif_neg hmem,
        if_pos ((hoffers name).trans hsource), placeMembers, if_neg hplaced,
        dif_neg hmem, if_pos hsource, ih]
  | case5 user waiting settled name rest hplaced hmem hsource =>
      rw [placeMembers, if_neg hplaced, dif_neg hmem,
        if_neg (fun h => hsource ((hoffers name).symm.trans h)), placeMembers,
        if_neg hplaced, dif_neg hmem, if_neg hsource]

/-- No walk looks at more of a provider's list than the names in it. -/
theorem placeList_congr {extension : String} {listed provided other : List String}
    (hprovided : ∀ name, name ∈ other ↔ name ∈ provided)
    (settled names : List String) :
    registry.placeList ⟨extension, listed, other⟩ settled names =
      registry.placeList ⟨extension, listed, provided⟩ settled names := by
  induction names generalizing settled with
  | nil => rw [placeList, placeList]
  | cons name rest ih =>
      rw [placeList_cons, placeList_cons]
      simp only [placeMembers_congr hprovided, ih]

/-- The lists that are done hold the names that they held before. -/
def SameNames (done before : List Extension) : Prop :=
  List.Forall₂ (fun ordered extension : Extension =>
    ∀ name, name ∈ ordered.types ↔ name ∈ extension.types) done before

theorem SameNames.mem_provided_iff {done before rest : List Extension}
    {extension : Extension} (hdone : SameNames done before)
    (hextensions : registry.extensions = before ++ extension :: rest)
    (name : String) :
    name ∈ extension.provided (done ++ { extension with types := [] } :: rest) ↔
      name ∈ registry.providedTo done.length extension := by
  rw [Extension.provided, providedTo]
  cases extension.depends with
  | none => rfl
  | some provider =>
      have hlength : done.length = before.length := hdone.length_eq
      simp only [Option.bind_some, listOf, hextensions]
      rcases Nat.lt_trichotomy provider done.length with hlt | rfl | hgt
      · have hlt' : provider < before.length := hlength ▸ hlt
        rw [if_neg (Nat.ne_of_lt hlt), List.getElem?_append_left hlt,
          List.getElem?_append_left hlt', List.getElem?_eq_getElem hlt,
          List.getElem?_eq_getElem hlt']
        exact hdone.get hlt hlt' name
      · simp
      · obtain ⟨offset, rfl⟩ : ∃ offset, provider = done.length + (offset + 1) :=
          ⟨provider - (done.length + 1), by omega⟩
        rw [if_neg (Nat.ne_of_gt hgt), List.getElem?_append_right (by omega),
          List.getElem?_append_right (by omega), hlength]
        simp

/-- Going on behind lists with the names that they held before comes to what all lists
as they went in come to. -/
theorem orderBehind_eq {done before rest : List Extension}
    (hdone : SameNames done before)
    (hextensions : registry.extensions = before ++ rest) :
    registry.orderBehind done rest =
      (done ++ ·) <$> registry.orderFrom done.length rest := by
  induction rest generalizing done before with
  | nil => simp [orderBehind, orderFrom]
  | cons extension rest ih =>
      rw [orderBehind, orderFrom, sourcesAt]
      simp only [placeList_congr (hdone.mem_provided_iff hextensions)]
      cases hrun : registry.placeList ⟨extension.name, extension.types,
          registry.providedTo done.length extension⟩ [] extension.types with
      | error fault => rfl
      | ok types =>
          -- The list that is done now holds its names as well.
          have hnames := (placeList_arranges hrun).mem_iff
          have hdone' : SameNames (done ++ [{ extension with types := types }])
              (before ++ [extension]) :=
            List.rel_append hdone (.cons hnames .nil)
          have hrest := ih hdone' (by simp [hextensions])
          rw [List.length_append, List.length_singleton] at hrest
          change registry.orderBehind (done ++ [{ extension with types }]) rest = _
          rw [hrest]
          cases registry.orderFrom (done.length + 1) rest with
          | error fault => rfl
          | ok ordered => exact congrArg Except.ok (List.append_assoc done _ _)

/-- Lists that were rewritten already provide what they provided before. -/
theorem order_eq (registry : Registry) :
    registry.order = do
      let extensions ← registry.orderFrom 0 registry.extensions
      return { registry with extensions := extensions } := by
  rw [order, orderBehind_eq .nil (List.nil_append _).symm]
  simp

theorem orderFrom_spec {position : Nat} {extensions ordered : List Extension}
    (hrun : registry.orderFrom position extensions = .ok ordered) :
    ordered.map bare = extensions.map bare ∧
      ∀ (offset : Nat) (before after : Extension),
        extensions[offset]? = some before → ordered[offset]? = some after →
          registry.placeList (registry.sourcesAt (position + offset) before) []
            before.types = .ok after.types := by
  induction extensions generalizing position ordered with
  | nil =>
      rw [orderFrom] at hrun
      obtain rfl := Except.ok.inj hrun
      exact ⟨rfl, by simp⟩
  | cons first rest ih =>
      rw [orderFrom] at hrun
      obtain ⟨types, hlist, hrun⟩ := bind_eq_ok_iff.1 hrun
      obtain ⟨orderedRest, hfrom, hrun⟩ := bind_eq_ok_iff.1 hrun
      obtain rfl := pure_eq_ok_iff.1 hrun
      obtain ⟨hbare, hplaces⟩ := ih hfrom
      refine ⟨by rw [List.map_cons, List.map_cons, hbare]; rfl, ?_⟩
      intro offset before after hbefore hafter
      cases offset with
      | zero =>
          obtain rfl := Option.some.inj hbefore
          obtain rfl := Option.some.inj hafter
          exact hlist
      | succ offset =>
          rw [← Nat.add_assoc, Nat.add_right_comm]
          exact hplaces offset before after (by simpa using hbefore)
            (by simpa using hafter)

/-- Every list of an ordered registry is the one of a walk, and there are no
others. -/
theorem order_placeList {ordered : Registry}
    (hrun : registry.order = .ok ordered) (position : Nat) :
    (∃ extension, registry.extensions[position]? = some extension ∧
      registry.placeList (registry.sourcesAt position extension) []
        extension.types = .ok (ordered.listOf position)) ∨
      registry.listOf position = [] ∧ ordered.listOf position = [] := by
  rw [order_eq] at hrun
  obtain ⟨extensions, hfrom, hrun⟩ := bind_eq_ok_iff.1 hrun
  obtain rfl := pure_eq_ok_iff.1 hrun
  obtain ⟨hbare, hplaces⟩ := orderFrom_spec hfrom
  have hlength : extensions.length = registry.extensions.length := by
    simpa using congrArg List.length hbare
  by_cases hposition : position < extensions.length
  · have hbefore := List.getElem?_eq_getElem (hlength ▸ hposition)
    have hafter := List.getElem?_eq_getElem hposition
    have hordered : Registry.listOf { registry with extensions } position =
        extensions[position].types := listOf_eq hafter
    have hwalk := hplaces position _ _ hbefore hafter
    rw [Nat.zero_add] at hwalk
    exact Or.inl ⟨_, hbefore, hordered ▸ hwalk⟩
  · have hnone : registry.extensions[position]? = none :=
      List.getElem?_eq_none (by omega)
    have hnone' : extensions[position]? = none :=
      List.getElem?_eq_none (by omega)
    exact Or.inr ⟨by simp [listOf, hnone], by simp [listOf, hnone']⟩

theorem order_places {ordered : Registry} (hrun : registry.order = .ok ordered)
    (position : Nat) :
    registry.Places (registry.listOf position) (ordered.listOf position) := by
  rcases order_placeList hrun position with
    ⟨extension, hextension, hwalk⟩ | ⟨hlisted, hordered⟩
  · rw [listOf_eq hextension]
    exact ⟨_, rfl, hwalk⟩
  · rw [hlisted, hordered]
    exact ⟨⟨"", [], []⟩, rfl, by rw [placeList]⟩

/-- What ordering the lists of a registry achieves. -/
structure Orders (registry ordered : Registry) : Prop where
  types_eq : ordered.types = registry.types
  ownership_eq : ordered.ownership = registry.ownership
  bare_eq : ordered.extensions.map bare = registry.extensions.map bare
  arranges : ∀ position,
    registry.Arranges (registry.listOf position) (ordered.listOf position)

theorem order_spec {ordered : Registry} (hrun : registry.order = .ok ordered) :
    registry.Orders ordered := by
  have harranges := fun position => (order_places hrun position).arranges
  rw [order_eq] at hrun
  obtain ⟨extensions, hfrom, hrun⟩ := bind_eq_ok_iff.1 hrun
  obtain rfl := pure_eq_ok_iff.1 hrun
  exact ⟨rfl, rfl, (orderFrom_spec hfrom).1, harranges⟩

/-- Ordering keeps lists and ownership in step. -/
theorem Orders.inStep {ordered : Registry} (horders : registry.Orders ordered)
    (hstep : registry.InStep) : ordered.InStep := by
  intro name position
  rw [horders.ownership_eq, hstep name position]
  exact ((horders.arranges position).mem_iff name).symm

theorem Orders.listsDistinct {ordered : Registry}
    (horders : registry.Orders ordered) : ordered.ListsDistinct := by
  intro extension hextension
  obtain ⟨position, hposition⟩ := List.getElem?_of_mem hextension
  have hnodup := (horders.arranges position).nodup
  rwa [listOf_eq hposition] at hnodup

/-! ## When ordering comes to an end -/

/-- What a list may use is what is in it or in the list of its provider. -/
theorem offers_iff {position : Nat} {extension : Extension} {name : String}
    (hextension : registry.extensions[position]? = some extension) :
    (registry.sourcesAt position extension).Offers name ↔
      registry.Provides position name := by
  rw [Sources.Offers, Provides, listOf_eq hextension, sourcesAt, providedTo]
  simp only [provider?, hextension, Option.bind_some]
  cases extension.depends with
  | none => simp
  | some provider =>
      by_cases hself : provider = position
      · simp [hself, listOf_eq hextension]
      · simp [hself]

theorem exists_placeMembers {sources : Sources} {user : String}
    {waiting used settled : List String}
    (hmembers : ∀ user ∈ sources.listed, ∀ member, registry.Uses user member →
      sources.Offers member)
    (hwaiting : ∀ name ∈ waiting, name ∈ sources.listed)
    (hused : ∀ name ∈ used, sources.Offers name) :
    ∃ after, registry.placeMembers sources user waiting used settled =
      .ok after := by
  induction user, waiting, used, settled
    using placeMembers.induct registry sources with
  | case1 user waiting settled =>
      rw [placeMembers]
      exact ⟨settled, rfl⟩
  | case2 user waiting settled name rest hplaced ih =>
      rw [placeMembers, if_pos hplaced]
      exact ih hwaiting (List.forall_mem_cons.1 hused).2
  | case3 user waiting settled name rest hplaced hmem ihdeep ihrest =>
      rw [placeMembers, if_neg hplaced, dif_pos hmem]
      obtain ⟨walked, hwalked⟩ := ihdeep
        (fun other hother => hwaiting other (mem_without.1 hother).1)
        (hmembers name (hwaiting name hmem))
      obtain ⟨after, hafter⟩ :=
        ihrest walked hwaiting (List.forall_mem_cons.1 hused).2
      exact ⟨after, bind_eq_ok_iff.2 ⟨walked, hwalked, hafter⟩⟩
  | case4 user waiting settled name rest hplaced hmem hsource ih =>
      rw [placeMembers, if_neg hplaced, dif_neg hmem, if_pos hsource]
      exact ih hwaiting (List.forall_mem_cons.1 hused).2
  | case5 user waiting settled name rest hplaced hmem hsource =>
      apply absurd _ hsource
      simpa [Sources.Offers] using (List.forall_mem_cons.1 hused).1

theorem exists_placeList {sources : Sources} {names settled : List String}
    (hmembers : ∀ user ∈ sources.listed, ∀ member, registry.Uses user member →
      sources.Offers member)
    (hnames : ∀ name ∈ names, name ∈ sources.listed) :
    ∃ after, registry.placeList sources settled names = .ok after := by
  induction names generalizing settled with
  | nil => exact ⟨settled, by rw [placeList]⟩
  | cons name rest ih =>
      obtain ⟨hname, hrest⟩ := List.forall_mem_cons.1 hnames
      rw [placeList_cons]
      split
      · exact ih hrest
      · have hwaiting : ∀ other ∈ without name sources.listed,
            other ∈ sources.listed := fun other hother => (mem_without.1 hother).1
        obtain ⟨walked, hwalked⟩ :=
          exists_placeMembers hmembers hwaiting (hmembers name hname)
        obtain ⟨after, hafter⟩ := ih hrest
        exact ⟨after, bind_eq_ok_iff.2 ⟨walked, hwalked, hafter⟩⟩

theorem exists_orderFrom {position : Nat} {extensions : List Extension}
    (hclosed : registry.IsClosed)
    (hat : ∀ offset extension, extensions[offset]? = some extension →
      registry.extensions[position + offset]? = some extension) :
    ∃ ordered, registry.orderFrom position extensions = .ok ordered := by
  induction extensions generalizing position with
  | nil => exact ⟨[], by rw [orderFrom]⟩
  | cons first rest ih =>
      have hfirst : registry.extensions[position]? = some first := hat 0 first rfl
      have hmembers : ∀ user ∈ first.types, ∀ member,
          registry.Uses user member →
            (registry.sourcesAt position first).Offers member := by
        intro user huser member huses
        rw [← listOf_eq hfirst] at huser
        exact (offers_iff hfirst).2 (hclosed position user member huser huses)
      obtain ⟨types, htypes⟩ : ∃ types, registry.placeList
          (registry.sourcesAt position first) [] first.types = .ok types :=
        exists_placeList hmembers fun _ hname => hname
      have hrest : ∀ offset extension, rest[offset]? = some extension →
          registry.extensions[position + 1 + offset]? = some extension := by
        intro offset extension hextension
        rw [Nat.add_assoc, Nat.add_comm 1]
        exact hat (offset + 1) extension (by simpa using hextension)
      obtain ⟨ordered, hordered⟩ := ih hrest
      rw [orderFrom]
      exact ⟨_, bind_eq_ok_iff.2 ⟨types, htypes,
        bind_eq_ok_iff.2 ⟨ordered, hordered, rfl⟩⟩⟩

/-- A closed registry can be ordered. -/
theorem IsClosed.exists_order (hclosed : registry.IsClosed) :
    ∃ ordered, registry.order = .ok ordered := by
  have hat : ∀ (offset : Nat) (extension : Extension),
      registry.extensions[offset]? = some extension →
        registry.extensions[0 + offset]? = some extension := by simp
  obtain ⟨extensions, hextensions⟩ := exists_orderFrom hclosed hat
  rw [order_eq]
  exact ⟨_, bind_eq_ok_iff.2 ⟨extensions, hextensions, rfl⟩⟩

end Registry

end VideoRegistry
