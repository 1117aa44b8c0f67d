import VideoRegistry.Generate
import VideoRegistry.Proofs.Agreement
import VideoRegistry.Proofs.Alike
import VideoRegistry.Proofs.Checking
import VideoRegistry.Proofs.Closure
import VideoRegistry.Proofs.Ordering

/-!
# Passes over registries that are alike

No pass and no emitted block looks at a line, except to report it, or at the
order of declarations.  So the passes over registries that are alike agree: they
fail together, or the registries are still alike, and the headers are the same.
-/

namespace VideoRegistry

namespace Extension

variable {extension other : Extension}

/-- Two extensions are the same but for lines. -/
structure SameAs (extension other : Extension) : Prop where
  name_eq : other.name = extension.name
  depends_eq : other.depends = extension.depends
  constants_eq : linelessConstants other.constants =
    linelessConstants extension.constants
  types_eq : other.types = extension.types

theorem sameAs_iff : extension.SameAs other ↔
    other.lineless = extension.lineless := by
  constructor
  · rintro ⟨hname, hdepends, hconstants, htypes⟩
    rw [lineless, lineless, hname, hdepends, hconstants, htypes]
  · intro hsame
    simp only [lineless, Extension.mk.injEq, true_and] at hsame
    obtain ⟨hname, hdepends, hconstants, htypes⟩ := hsame
    exact ⟨hname, hdepends, hconstants, htypes⟩

theorem map_lineless_eq_iff {extensions others : List Extension} :
    others.map lineless = extensions.map lineless ↔
      List.Forall₂ SameAs extensions others := by
  simp only [map_eq_map_iff_forall₂, ← sameAs_iff]

theorem SameAs.withTypes (hsame : extension.SameAs other) (types : List String) :
    SameAs { extension with types := types } { other with types := types } :=
  ⟨hsame.name_eq, hsame.depends_eq, hsame.constants_eq, rfl⟩

end Extension

/-- Checks agree if both find no fault or both find one. -/
theorem verdict_agree {α β : Type} {related : α → β → Prop}
    {faults faults' : List SpecError} {value : α} {value' : β}
    (hfaults : faults' = [] ↔ faults = []) (hrelated : related value value') :
    Agree related (verdict faults value) (verdict faults' value') := by
  cases faults with
  | nil =>
      obtain rfl := hfaults.2 rfl
      exact .ok hrelated
  | cons fault rest =>
      cases faults' with
      | nil => exact absurd (hfaults.1 rfl) (List.cons_ne_nil fault rest)
      | cons fault' rest' => exact .error fault fault'

namespace Registry

variable {registry other : Registry} {extension : Nat} {user : String}

namespace Alike

theorem forall₂_extensions (halike : registry.Alike other) :
    List.Forall₂ Extension.SameAs registry.extensions other.extensions :=
  Extension.map_lineless_eq_iff.1 halike.extensions

/-! ## Closing -/

theorem foreignOwner?_eq (halike : registry.Alike other) :
    other.foreignOwner? = registry.foreignOwner? := by
  funext extension ownership name
  have hprovider := congrFun halike.provider?_eq extension
  rw [provider?, provider?] at hprovider
  rw [foreignOwner?, foreignOwner?, hprovider]

theorem claim_agree (halike : registry.Alike other) (used : String)
    (claims : Claims) :
    Agree Eq (registry.claim extension user used claims)
      (other.claim extension user used claims) := by
  unfold claim
  rw [halike.foreignOwner?_eq]
  split
  · exact .error _ _
  · exact .rfl

theorem claimMembers_agree (halike : registry.Alike other)
    {available available' used : List String} {claims : Claims}
    (havailable : ∀ name, name ∈ available' ↔ name ∈ available) :
    Agree Eq (registry.claimMembers extension user available used claims)
      (other.claimMembers extension user available' used claims) := by
  induction user, available, used, claims using claimMembers.induct registry
    generalizing available' with
  | case1 user available claims =>
      rw [claimMembers.eq_1, claimMembers.eq_1]
      exact .rfl
  | case2 user available claims name rest hmem ihdeep ihrest =>
      have hwithout : ∀ other, other ∈ without name available' ↔
          other ∈ without name available := by
        simp [mem_without, havailable]
      rw [claimMembers.eq_2 registry, dif_pos hmem, claimMembers.eq_2 other,
        dif_pos ((havailable name).2 hmem), halike.memberStructs_eq]
      refine (ihdeep hwithout).bind_same fun walked => ?_
      refine (halike.claim_agree name walked).bind_same fun claimed => ?_
      exact ihrest claimed havailable
  | case3 user available claims name rest hmem ih =>
      rw [claimMembers.eq_2 registry, dif_neg hmem, claimMembers.eq_2 other,
        dif_neg ((havailable name).not.2 hmem)]
      exact ih havailable

theorem claimEntry_agree (halike : registry.Alike other) (name : String)
    (claims : Claims) :
    Agree Eq (registry.claimEntry extension name claims)
      (other.claimEntry extension name claims) := by
  rw [claimEntry, claimEntry, halike.isStruct_eq, halike.memberStructs_eq]
  split
  · apply halike.claimMembers_agree
    simp [mem_without, halike.mem_structNames_iff]
  · exact .rfl

theorem closeList_agree (halike : registry.Alike other) (names : List String)
    (claims : Claims) :
    Agree Eq (registry.closeList extension claims names)
      (other.closeList extension claims names) := by
  induction names generalizing claims with
  | nil => exact .rfl
  | cons name rest ih =>
      rw [closeList_cons, closeList_cons]
      refine (halike.claimEntry_agree name claims).bind_same fun walked => ?_
      exact ih _

theorem closeFrom_agree (halike : registry.Alike other)
    {extensions others : List Extension}
    (hsame : List.Forall₂ Extension.SameAs extensions others) (position : Nat)
    (ownership : Ownership) :
    Agree (fun result result' => result'.1 = result.1 ∧
        List.Forall₂ Extension.SameAs result.2 result'.2)
      (registry.closeFrom position ownership extensions)
      (other.closeFrom position ownership others) := by
  induction hsame generalizing position ownership with
  | nil => exact .ok ⟨rfl, .nil⟩
  | cons hfirst _ ih =>
      rw [closeFrom, closeFrom, hfirst.types_eq]
      refine (halike.closeList_agree _ _).bind_same fun claims => ?_
      refine (ih (position + 1) claims.ownership).bind ?_
      rintro ⟨after, closed⟩ ⟨_, closed'⟩ ⟨rfl, hclosed⟩
      exact .ok ⟨rfl, .cons (hfirst.withTypes _) hclosed⟩

theorem close_agree (halike : registry.Alike other) :
    Agree Alike registry.close other.close := by
  rw [close, close, halike.ownership]
  refine (halike.closeFrom_agree halike.forall₂_extensions 0 _).bind ?_
  rintro ⟨after, closed⟩ ⟨_, closed'⟩ ⟨rfl, hclosed⟩
  exact .ok ⟨halike.types, halike.structs, halike.distinct, rfl,
    Extension.map_lineless_eq_iff.2 hclosed, halike.copyright⟩

/-! ## Ordering -/

theorem placeMembers_agree (halike : registry.Alike other) (sources : Sources)
    (waiting used settled : List String) :
    Agree Eq (registry.placeMembers sources user waiting used settled)
      (other.placeMembers sources user waiting used settled) := by
  induction user, waiting, used, settled
    using placeMembers.induct registry sources with
  | case1 user waiting settled =>
      rw [placeMembers.eq_1, placeMembers.eq_1]
      exact .rfl
  | case2 user waiting settled name rest hplaced ih =>
      rw [placeMembers.eq_2 registry, if_pos hplaced, placeMembers.eq_2 other,
        if_pos hplaced]
      exact ih
  | case3 user waiting settled name rest hplaced hmem ihdeep ihrest =>
      rw [placeMembers.eq_2 registry, if_neg hplaced, dif_pos hmem,
        placeMembers.eq_2 other, if_neg hplaced, dif_pos hmem,
        halike.memberStructs_eq]
      refine ihdeep.bind_same fun walked => ?_
      exact ihrest walked
  | case4 user waiting settled name rest hplaced hmem hsource ih =>
      rw [placeMembers.eq_2 registry, if_neg hplaced, dif_neg hmem,
        if_pos hsource, placeMembers.eq_2 other, if_neg hplaced, dif_neg hmem,
        if_pos hsource]
      exact ih
  | case5 user waiting settled name rest hplaced hmem hsource =>
      rw [placeMembers.eq_2 registry, if_neg hplaced, dif_neg hmem,
        if_neg hsource, placeMembers.eq_2 other, if_neg hplaced, dif_neg hmem,
        if_neg hsource]
      exact .error _ _

theorem placeList_agree (halike : registry.Alike other) (sources : Sources)
    (names settled : List String) :
    Agree Eq (registry.placeList sources settled names)
      (other.placeList sources settled names) := by
  induction names generalizing settled with
  | nil => exact .rfl
  | cons name rest ih =>
      rw [placeList_cons, placeList_cons, halike.memberStructs_eq]
      split
      · exact ih settled
      · refine (halike.placeMembers_agree sources _ _ settled).bind_same ?_
        intro walked
        exact ih _

theorem providedTo_eq (halike : registry.Alike other)
    {extension extension' : Extension} (hsame : extension.SameAs extension')
    (position : Nat) : other.providedTo position extension' =
      registry.providedTo position extension := by
  rw [providedTo, providedTo, hsame.depends_eq, halike.listOf_eq]

theorem orderFrom_agree (halike : registry.Alike other)
    {extensions others : List Extension}
    (hsame : List.Forall₂ Extension.SameAs extensions others) (position : Nat) :
    Agree (List.Forall₂ Extension.SameAs)
      (registry.orderFrom position extensions)
      (other.orderFrom position others) := by
  induction hsame generalizing position with
  | nil => exact .ok .nil
  | @cons first first' _ _ hfirst _ ih =>
      have hplaced : Agree Eq
          (registry.placeList
            ⟨first.name, first.types, registry.providedTo position first⟩ []
            first.types)
          (other.placeList
            ⟨first'.name, first'.types, other.providedTo position first'⟩ []
            first'.types) := by
        rw [hfirst.name_eq, hfirst.types_eq, halike.providedTo_eq hfirst]
        exact halike.placeList_agree _ _ _
      rw [orderFrom, orderFrom]
      refine hplaced.bind_same fun types => ?_
      refine (ih (position + 1)).bind ?_
      intro ordered ordered' hordered
      exact .ok (.cons (hfirst.withTypes types) hordered)

theorem order_agree (halike : registry.Alike other) :
    Agree Alike registry.order other.order := by
  rw [order_eq, order_eq]
  refine (halike.orderFrom_agree halike.forall₂_extensions 0).bind ?_
  intro ordered ordered' hordered
  exact .ok ⟨halike.types, halike.structs, halike.distinct, halike.ownership,
    Extension.map_lineless_eq_iff.2 hordered, halike.copyright⟩

/-! ## Checking -/

theorem reachesConstant_eq (halike : registry.Alike other) :
    other.reachesConstant = registry.reachesConstant := by
  have hcontains : ∀ (found : Option Extension) (name : String),
      ((found.map Extension.constants).getD NameMap.empty).contains name =
        (((found.map Extension.lineless).map Extension.constants).getD
          NameMap.empty).contains name := by
    rintro (_ | extension) name
    · rfl
    · exact (contains_linelessConstants extension.constants name).symm
  have hconstants : ∀ position name, (other.constantsOf position).contains name =
      (registry.constantsOf position).contains name := by
    intro position name
    rw [constantsOf, constantsOf, hcontains, halike.getElem?, ← hcontains]
  funext position name
  have hprovider := congrFun halike.provider?_eq position
  rw [provider?, provider?] at hprovider
  simp only [reachesConstant, hprovider, hconstants]

/-- The rules for a struct say nothing of lines. -/
theorem obeys_of_lineless_eq (halike : registry.Alike other)
    {entry entry' : TypeEntry × List Member}
    (hentry : linelessStruct entry' = linelessStruct entry)
    (hobeys : registry.Obeys entry) : other.Obeys entry' := by
  obtain ⟨hlineless, hmembers⟩ := Prod.mk.inj hentry
  have hname : entry'.1.name = entry.1.name := by
    rw [← entry'.1.name_lineless, hlineless, entry.1.name_lineless]
  obtain ⟨owner, howner, hrules⟩ := hobeys
  refine ⟨owner, by rwa [halike.ownership, hname], fun member' hmember' => ?_⟩
  have hmem : member'.lineless ∈ entry.2.map Member.lineless :=
    hmembers ▸ List.mem_map_of_mem hmember'
  obtain ⟨member, hmember, hsame⟩ := List.mem_map.1 hmem
  obtain ⟨line, rfl⟩ := Member.exists_line_of_lineless_eq hsame.symm
  obtain ⟨hdeclares, hsizes⟩ := hrules member hmember
  refine ⟨by rwa [halike.declares_eq], fun size hsize => ?_⟩
  rw [← reachesConstant_iff, halike.reachesConstant_eq, reachesConstant_iff]
  exact hsizes size hsize

/-- Whatever the order, the same structs are checked. -/
theorem faults_eq_nil (halike : registry.Alike other)
    (hnone : registry.faults = []) : other.faults = [] := by
  rw [faults_eq_nil_iff] at hnone ⊢
  intro entry' hentry'
  have hmem := halike.structs_perm.mem_iff.1 (List.mem_map_of_mem hentry')
  obtain ⟨entry, hentry, hsame⟩ := List.mem_map.1 hmem
  exact halike.obeys_of_lineless_eq hsame.symm (hnone entry hentry)

theorem check_agree (halike : registry.Alike other) (typeLead : String) :
    Agree Alike (registry.check typeLead) (other.check typeLead) := by
  rw [check_eq_verdict, check_eq_verdict]
  exact verdict_agree ⟨halike.symm.faults_eq_nil, halike.faults_eq_nil⟩
    (halike.warn _ _)

end Alike

end Registry

/-! ## Emission -/

namespace Header

open Registry

variable {registry other : Registry}

theorem enumerators_agree {values values' : List EnumValue}
    (hvalues : values'.map EnumValue.lineless = values.map EnumValue.lineless)
    (enum : String) (used : List String) :
    Agree Eq (enumerators enum used values) (enumerators enum used values') := by
  rw [map_eq_map_iff_forall₂] at hvalues
  induction hvalues generalizing used with
  | nil => exact .rfl
  | cons hfirst _ ih =>
      obtain ⟨line, rfl⟩ := EnumValue.exists_line_of_lineless_eq hfirst
      rw [enumerators, enumerators]
      refine (Agree.require rfl _ _ _ _).bind fun _ _ _ => ?_
      exact (ih _).bind_same fun _ => .rfl

theorem enumBlock_agree {entry entry' : TypeEntry}
    {values values' : List EnumValue} (config : Config)
    (hname : entry'.name = entry.name)
    (hvalues : values'.map EnumValue.lineless = values.map EnumValue.lineless) :
    Agree Eq (enumBlock config entry values) (enumBlock config entry' values') := by
  rw [enumBlock, enumBlock, hname]
  exact (enumerators_agree hvalues entry.name []).orFail.bind_same fun _ => .rfl

theorem comparison_eq (halike : registry.Alike other) (member : Member)
    (line : Nat) : comparison other { member with line := line } =
      comparison registry member := by
  rw [comparison, comparison, comparesBytes, comparesBytes, halike.hasCategory_eq]

theorem memberType_agree (config : Config) (member : Member) (line : Nat) :
    Agree Eq (memberType config member)
      (memberType config { member with line := line }) := by
  rw [memberType, memberType]
  split
  · exact (Agree.require rfl _ _ _ _).map_same _
  split
  · exact .rfl
  · exact (Agree.require rfl _ _ _ _).map_same _

theorem defaultValue_agree (halike : registry.Alike other) (member : Member)
    (line : Nat) (typeText : String) :
    Agree Eq (defaultValue registry member typeText)
      (defaultValue other { member with line := line } typeText) := by
  have hvalues := halike.values? member.type.name
  rw [defaultValue, defaultValue]
  dsimp only
  generalize (registry.find? member.type.name).bind TypeEntry.values? = values
    at hvalues ⊢
  generalize (other.find? member.type.name).bind TypeEntry.values? = values'
    at hvalues ⊢
  cases values with
  | none =>
      obtain rfl : values' = none := by simpa using hvalues
      exact .rfl
  | some values =>
      obtain ⟨values', rfl, hsame⟩ := Option.map_eq_some_iff.1 hvalues
      rw [map_eq_map_iff_forall₂] at hsame
      dsimp only
      split
      · exact .rfl
      · cases hsame with
        | nil => exact .error _ _
        | cons hfirst _ =>
            obtain ⟨_, rfl⟩ := EnumValue.exists_line_of_lineless_eq hfirst
            exact .rfl

theorem memberLine_agree (halike : registry.Alike other) (config : Config)
    (member : Member) (line : Nat) :
    Agree Eq (memberLine config registry member)
      (memberLine config other { member with line := line }) := by
  rw [memberLine, memberLine]
  refine (memberType_agree config member line).bind_same fun typeText => ?_
  dsimp only
  cases member.bitCount with
  | some bits => exact .rfl
  | none =>
      have hdefault := defaultValue_agree halike member line typeText
      exact (hdefault.map_same _).bind_same fun ending => .rfl

/-- The block of a struct depends on its name, on its members and on what is
looked up of their types. -/
theorem structBlock_agree (halike : registry.Alike other) (config : Config)
    {entry entry' : TypeEntry} {members members' : List Member}
    (hname : entry'.name = entry.name)
    (hmembers : members'.map Member.lineless = members.map Member.lineless) :
    Agree Eq (structBlock config registry entry members)
      (structBlock config other entry' members') := by
  rw [map_eq_map_iff_forall₂] at hmembers
  have hcompare : members'.map (comparison other) =
      members.map (comparison registry) := by
    rw [map_eq_map_iff_forall₂]
    refine hmembers.imp ?_
    intro member member' hsame
    obtain ⟨line, rfl⟩ := Member.exists_line_of_lineless_eq hsame
    exact comparison_eq halike member line
  have hlines : Agree (List.Forall₂ Eq)
      (members.mapM (memberLine config registry))
      (members'.mapM (memberLine config other)) := by
    apply Agree.mapM _ hmembers
    intro member member' hsame
    obtain ⟨line, rfl⟩ := Member.exists_line_of_lineless_eq hsame
    exact memberLine_agree halike config member line
  rw [structBlock, structBlock, compareOperators, compareOperators, hname,
    hcompare]
  refine Agree.rfl.bind_same fun compare => ?_
  refine hlines.orFail.bind ?_
  intro lines lines' hsame
  obtain rfl := List.forall₂_eq_eq_eq ▸ hsame
  exact .rfl

/-- Two ways to make blocks that agree on entries that are the same but for
lines. -/
def BlocksAgree (block? block?' : TypeEntry → Option (Except Failure Block)) :
    Prop :=
  ∀ entry entry' : TypeEntry, entry'.lineless = entry.lineless →
    Option.Rel (Agree Eq) (block? entry) (block?' entry')

theorem enumBlock?_agree (config : Config) :
    BlocksAgree (enumBlock? config) (enumBlock? config) := by
  intro entry entry' hsame
  have hname := congrArg TypeEntry.name hsame
  have hvalues := congrArg TypeEntry.values? hsame
  rw [TypeEntry.values?_lineless, TypeEntry.values?_lineless] at hvalues
  rw [enumBlock?, enumBlock?]
  cases hentry : entry.values? with
  | none =>
      obtain hentry' : entry'.values? = none := by simpa [hentry] using hvalues
      rw [hentry']
      exact .none
  | some values =>
      rw [hentry] at hvalues
      obtain ⟨values', hentry', hlineless⟩ := Option.map_eq_some_iff.1 hvalues
      rw [hentry']
      exact .some (enumBlock_agree config hname hlineless)

theorem structBlock?_agree (halike : registry.Alike other) (config : Config) :
    BlocksAgree (structBlock? config registry) (structBlock? config other) := by
  intro entry entry' hsame
  have hname := congrArg TypeEntry.name hsame
  have hmembers := congrArg TypeEntry.members? hsame
  rw [TypeEntry.members?_lineless, TypeEntry.members?_lineless] at hmembers
  rw [structBlock?, structBlock?]
  cases hentry : entry.members? with
  | none =>
      obtain hentry' : entry'.members? = none := by
        simpa [hentry] using hmembers
      rw [hentry']
      exact .none
  | some members =>
      rw [hentry] at hmembers
      obtain ⟨members', hentry', hlineless⟩ := Option.map_eq_some_iff.1 hmembers
      rw [hentry']
      exact .some (structBlock_agree halike config hname hlineless)

theorem blocksOf_agree (halike : registry.Alike other)
    {block? block?' : TypeEntry → Option (Except Failure Block)}
    (hblocks : BlocksAgree block? block?') (names : List String) :
    Agree Eq (blocksOf registry block? names) (blocksOf other block?' names) := by
  induction names with
  | nil => exact .rfl
  | cons name rest ih =>
      have hrelated : Option.Rel (Agree Eq)
          ((registry.find? name).bind block?)
          ((other.find? name).bind block?') := by
        have hfind := halike.find? name
        cases hentry : registry.find? name with
        | none =>
            obtain hentry' : other.find? name = none := by
              simpa [hentry] using hfind
            rw [hentry']
            exact .none
        | some entry =>
            rw [hentry] at hfind
            obtain ⟨entry', hentry', hsame⟩ := Option.map_eq_some_iff.1 hfind
            rw [hentry']
            exact hblocks entry entry' hsame
      rw [blocksOf, blocksOf]
      generalize (registry.find? name).bind block? = block at hrelated ⊢
      generalize (other.find? name).bind block?' = block' at hrelated ⊢
      cases hrelated with
      | none => exact ih
      | some hagree =>
          refine hagree.bind_same fun block => ?_
          exact ih.bind_same fun _ => .rfl

theorem sectionsOf_agree (halike : registry.Alike other)
    {block? block?' : TypeEntry → Option (Except Failure Block)}
    (hblocks : BlocksAgree block? block?') {extensions others : List Extension}
    (hsame : List.Forall₂ Extension.SameAs extensions others) :
    Agree Eq (sectionsOf registry block? extensions)
      (sectionsOf other block?' others) := by
  induction hsame with
  | nil => exact .rfl
  | cons hfirst _ ih =>
      rw [sectionsOf, sectionsOf, hfirst.types_eq, hfirst.name_eq]
      refine (blocksOf_agree halike hblocks _).bind_same fun blocks => ?_
      exact ih.bind_same fun _ => .rfl

end Header

namespace Registry

variable {registry other : Registry}

theorem Alike.emit_agree (halike : registry.Alike other) (config : Config) :
    Agree Eq (registry.emit config) (other.emit config) := by
  have hheader : Agree Eq (Header.ofRegistry config registry)
      (Header.ofRegistry config other) := by
    have henums := Header.sectionsOf_agree halike
      (Header.enumBlock?_agree config) halike.forall₂_extensions
    have hstructs := Header.sectionsOf_agree halike
      (Header.structBlock?_agree halike config) halike.forall₂_extensions
    rw [Header.ofRegistry, Header.ofRegistry]
    refine henums.bind_same fun enums => ?_
    exact hstructs.bind_same fun _ => .rfl
  rw [emit, emit, halike.copyright]
  exact hheader.bind_same fun _ => .rfl

end Registry

/-- Documents that are read into registries that are alike are all refused, or all
accepted with the same header. -/
theorem generateFrom_agree {config : Config} {document other : Xml.Document}
    (hread : Agree Registry.Alike (readDocument config document)
      (readDocument config other)) :
    Agree Eq (generateFrom config document) (generateFrom config other) := by
  have hregistry : Agree Registry.Alike (Registry.ofDocument config document)
      (Registry.ofDocument config other) := by
    rw [Registry.ofDocument, Registry.ofDocument]
    refine hread.bind fun registry registry' halike => ?_
    refine halike.close_agree.orFail.bind fun closed closed' hclosed => ?_
    refine hclosed.order_agree.orFail.bind fun ordered ordered' hordered => ?_
    exact (hordered.check_agree config.names.typeLead).orFail
  rw [generateFrom, generateFrom]
  exact hregistry.bind fun registry registry' halike => halike.emit_agree config

end VideoRegistry
