import Mathlib.Data.List.Nodup
import VideoRegistry.Proofs.MemberGraph

/-!
# Routes through a list

A walk over a list of structs goes from an entry to its member structs, as far as
these are in the list, in the order in which they are given.  A route is a path
that such a walk could stand on.  Of two routes to the same struct the one that
turns off earlier comes first, so every struct has at most one first route.
-/

namespace VideoRegistry

/-- Positions in a list: `first` stands before `second`.  Of a repeated name the
first occurrence counts. -/
def Before (first second : String) (names : List String) : Prop :=
  second ∈ names ∧ names.idxOf first < names.idxOf second

instance (first second : String) (names : List String) :
    Decidable (Before first second names) :=
  inferInstanceAs (Decidable (_ ∧ _))

theorem before_split {first second : String} {front back : List String}
    (hfirst : second ∉ front) :
    Before first second (front ++ second :: back) ↔ first ∈ front := by
  have hsecond : (front ++ second :: back).idxOf second = front.length := by
    simp [List.idxOf_append_of_notMem hfirst]
  rw [Before, hsecond]
  constructor
  · rintro ⟨-, hlt⟩
    by_contra hnot
    rw [List.idxOf_append_of_notMem hnot] at hlt
    omega
  · intro hmem
    rw [List.idxOf_append_of_mem hmem]
    exact ⟨by simp, List.idxOf_lt_length_of_mem hmem⟩

/-- Where no name is repeated, what stands behind a stretch is not in it. -/
theorem notMem_of_nodup_append {name : String} {front back : List String}
    (hnodup : (front ++ name :: back).Nodup) : name ∉ front := by
  intro hmem
  exact (List.nodup_append'.1 hnodup).2.2 hmem List.mem_cons_self

theorem before_or_before {left right : String} {names : List String}
    (hne : left ≠ right) (hleft : left ∈ names) (hright : right ∈ names) :
    Before left right names ∨ Before right left names := by
  rcases Nat.lt_trichotomy (names.idxOf left) (names.idxOf right) with
    hlt | heq | hlt
  · exact Or.inl ⟨hright, hlt⟩
  · exact absurd ((List.idxOf_inj hleft).1 heq) hne
  · exact Or.inr ⟨hleft, hlt⟩

/-- In a list without repeats every entry stands before those behind it. -/
theorem pairwise_before {names : List String} (hnodup : names.Nodup) :
    names.Pairwise fun first second => Before first second names := by
  rw [List.pairwise_iff_getElem]
  intro i j hi hj hlt
  refine ⟨List.getElem_mem hj, ?_⟩
  rwa [hnodup.idxOf_getElem i hi, hnodup.idxOf_getElem j hj]

section Before

variable {first second : String} {names front back : List String}

theorem Before.ne (hbefore : Before first second names) : first ≠ second := by
  rintro rfl
  exact Nat.lt_irrefl _ hbefore.2

theorem Before.asymm (hbefore : Before first second names) :
    ¬ Before second first names :=
  fun hafter => Nat.lt_asymm hbefore.2 hafter.2

theorem Before.mem (hbefore : Before first second names) : first ∈ names :=
  List.idxOf_lt_length_iff.1
    (Nat.lt_trans hbefore.2 (List.idxOf_lt_length_of_mem hbefore.1))

/-- What stands before an entry of a front segment is in that segment. -/
theorem Before.mem_of_prefix (hbefore : Before first second names)
    (hfront : front <+: names) (hsecond : second ∈ front) : first ∈ front := by
  obtain ⟨back, rfl⟩ := hfront
  by_contra hfirst
  have hlt := hbefore.2
  rw [List.idxOf_append_of_mem hsecond, List.idxOf_append_of_notMem hfirst] at hlt
  have hend := List.idxOf_lt_length_of_mem hsecond
  omega

/-- What stands before another entry of one kind does so among all entries. -/
theorem Before.of_filter {kind : String → Bool}
    (hbefore : Before first second (names.filter kind)) :
    Before first second names := by
  obtain ⟨hsecond, hkind⟩ := List.mem_filter.1 hbefore.1
  obtain ⟨front, back, rfl, hnew⟩ := List.eq_append_cons_of_mem hsecond
  have hnew' : second ∉ front.filter kind := fun hmem =>
    hnew (List.mem_of_mem_filter hmem)
  rw [List.filter_append, List.filter_cons_of_pos hkind, before_split hnew']
    at hbefore
  exact (before_split hnew).2 (List.mem_of_mem_filter hbefore)

theorem Before.append_right (hbefore : Before first second names)
    (back : List String) : Before first second (names ++ back) := by
  refine ⟨List.mem_append_left back hbefore.1, ?_⟩
  rw [List.idxOf_append_of_mem hbefore.1, List.idxOf_append_of_mem hbefore.mem]
  exact hbefore.2

theorem Before.append_left (hbefore : Before first second names)
    (hnew : second ∉ front) : Before first second (front ++ names) := by
  obtain ⟨middle, rest, rfl, hmiddle⟩ := List.eq_append_cons_of_mem hbefore.1
  rw [before_split hmiddle] at hbefore
  rw [← List.append_assoc, before_split (by simp [hnew, hmiddle])]
  exact List.mem_append_right front hbefore

theorem before_append (hfirst : first ∈ front) (hsecond : second ∈ names)
    (hnew : second ∉ front) : Before first second (front ++ names) := by
  obtain ⟨middle, rest, rfl, hmiddle⟩ := List.eq_append_cons_of_mem hsecond
  rw [← List.append_assoc, before_split (by simp [hnew, hmiddle])]
  exact List.mem_append_left middle hfirst

/-- An entry that is not in a front segment is the one behind it or stands behind
that one. -/
theorem eq_or_before_of_notMem {root : String}
    (hmem : first ∈ front ++ root :: back) (hfirst : first ∉ front) :
    root = first ∨ Before root first (front ++ root :: back) := by
  by_cases hroot : root = first
  · exact Or.inl hroot
  · refine Or.inr ⟨hmem, ?_⟩
    rw [List.idxOf_append_of_notMem hfirst, List.idxOf_cons_ne _ hroot]
    have hle : (front ++ root :: back).idxOf root ≤ front.length := by
      rw [List.idxOf_append]
      split
      · next hfront => exact Nat.le_of_lt (List.idxOf_lt_length_of_mem hfront)
      · simp
    omega

end Before

/-- Two different lists: one goes on where the other ends, or they part. -/
theorem exists_parting {left right : List String} (hne : left ≠ right) :
    (∃ next rest, right = left ++ next :: rest) ∨
      (∃ next rest, left = right ++ next :: rest) ∨
        ∃ stretch a b restLeft restRight, a ≠ b ∧
          left = stretch ++ a :: restLeft ∧ right = stretch ++ b :: restRight := by
  induction left generalizing right with
  | nil =>
      obtain ⟨next, rest, rfl⟩ := List.exists_cons_of_ne_nil hne.symm
      exact Or.inl ⟨next, rest, rfl⟩
  | cons a left ih =>
      cases right with
      | nil => exact Or.inr (Or.inl ⟨a, left, rfl⟩)
      | cons b right =>
          by_cases hhead : a = b
          · subst hhead
            rcases ih (fun heq => hne (by rw [heq])) with
              ⟨next, rest, rfl⟩ | ⟨next, rest, rfl⟩ |
                ⟨stretch, c, d, restLeft, restRight, hcd, rfl, rfl⟩
            · exact Or.inl ⟨next, rest, rfl⟩
            · exact Or.inr (Or.inl ⟨next, rest, rfl⟩)
            · exact Or.inr (Or.inr
                ⟨a :: stretch, c, d, restLeft, restRight, hcd, rfl, rfl⟩)
          · exact Or.inr (Or.inr ⟨[], a, b, left, right, hhead, rfl, rfl⟩)

namespace Registry

variable {registry : Registry} {listed : List String}

/-- What a walk chooses from behind a stretch of a path: the entries of the list
at the start, then the member structs of the struct it stands on. -/
def choices (registry : Registry) (listed stretch : List String) :
    List String :=
  match stretch.getLast? with
  | none => listed
  | some user => registry.memberStructs user

/-- A path of a walk through a list: it stays in the list and meets no struct
twice. -/
structure IsRoute (registry : Registry) (listed route : List String) :
    Prop where
  nodup : route.Nodup
  choice : ∀ stretch name rest, route = stretch ++ name :: rest →
    name ∈ listed ∧ name ∈ registry.choices listed stretch

/-- Of two routes, `route` takes the earlier choice where they part. -/
def Precedes (registry : Registry) (listed route other : List String) : Prop :=
  ∃ stretch taken left rest restLeft,
    route = stretch ++ taken :: rest ∧ other = stretch ++ left :: restLeft ∧
      Before taken left (registry.choices listed stretch)

/-- The route to a struct that a walk finds first. -/
structure IsFirstRoute (registry : Registry) (listed route : List String)
    (name : String) : Prop where
  isRoute : registry.IsRoute listed route
  last : route.getLast? = some name
  first : ∀ other, registry.IsRoute listed other → other.getLast? = some name →
    ¬ registry.Precedes listed other route

/-- From `user` a walk gets to `used` without leaving the list or touching the
structs in `avoided`. -/
def ReachesAvoiding (registry : Registry) (listed avoided : List String)
    (user used : String) : Prop :=
  Relation.ReflTransGen (fun user used =>
    registry.Uses user used ∧ used ∈ listed ∧ used ∉ avoided) user used

@[simp]
theorem choices_nil : registry.choices listed [] = listed := rfl

@[simp]
theorem choices_append_singleton (path : List String) (user : String) :
    registry.choices listed (path ++ [user]) = registry.memberStructs user := by
  simp [choices]

/-- The two ways in which a path with one more step can be parted. -/
theorem append_singleton_eq_append_cons {path stretch rest : List String}
    {name taken : String}
    (hsplit : path ++ [name] = stretch ++ taken :: rest) :
    (stretch = path ∧ taken = name ∧ rest = []) ∨
      ∃ short, rest = short ++ [name] ∧ path = stretch ++ taken :: short := by
  rcases List.eq_nil_or_concat rest with rfl | ⟨short, final, rfl⟩
  · obtain ⟨hpath, hname⟩ := List.append_inj' hsplit rfl
    exact Or.inl ⟨hpath.symm, (List.singleton_inj.1 hname).symm, rfl⟩
  · rw [List.concat_eq_append, ← List.cons_append, ← List.append_assoc] at hsplit
    obtain ⟨hpath, hname⟩ := List.append_inj' hsplit rfl
    obtain rfl := List.singleton_inj.1 hname
    exact Or.inr ⟨short, List.concat_eq_append, hpath⟩

namespace IsRoute

variable {route path : List String} {name : String}

theorem nil : registry.IsRoute listed [] where
  nodup := List.nodup_nil
  choice := by simp

theorem snoc (hroute : registry.IsRoute listed path) (hnew : name ∉ path)
    (hlisted : name ∈ listed) (hchoice : name ∈ registry.choices listed path) :
    registry.IsRoute listed (path ++ [name]) where
  nodup := List.nodup_append_comm.1 (List.nodup_cons.2 ⟨hnew, hroute.nodup⟩)
  choice stretch taken rest hsplit := by
    rcases append_singleton_eq_append_cons hsplit with
      ⟨rfl, rfl, -⟩ | ⟨short, -, hpath⟩
    · exact ⟨hlisted, hchoice⟩
    · exact hroute.choice stretch taken short hpath

theorem of_append {front back : List String}
    (hroute : registry.IsRoute listed (front ++ back)) :
    registry.IsRoute listed front where
  nodup := List.Nodup.of_append_left hroute.nodup
  choice stretch taken rest hsplit :=
    hroute.choice stretch taken (rest ++ back) (by simp [hsplit])

/-- What a route meets behind a stretch, it reaches without the stretch. -/
theorem reachesAvoiding {stretch rest : List String} {taken : String}
    (hroute : registry.IsRoute listed (stretch ++ taken :: rest))
    (hname : name ∈ taken :: rest) :
    registry.ReachesAvoiding listed stretch taken name := by
  induction rest generalizing stretch taken with
  | nil =>
      obtain rfl := List.mem_singleton.1 hname
      exact Relation.ReflTransGen.refl
  | cons next rest ih =>
      rcases List.mem_cons.1 hname with rfl | hname
      · exact Relation.ReflTransGen.refl
      have hsplit : stretch ++ taken :: next :: rest =
          (stretch ++ [taken]) ++ next :: rest := by simp
      obtain ⟨hlisted, hchoice⟩ := hroute.choice _ next rest hsplit
      rw [choices_append_singleton] at hchoice
      have hnew : next ∉ stretch := by
        have hnodup := hroute.nodup
        rw [List.nodup_append'] at hnodup
        exact fun hmem => hnodup.2.2 hmem (by simp)
      rw [hsplit] at hroute
      have hrest := ih hroute hname
      refine Relation.ReflTransGen.head ⟨hchoice, hlisted, hnew⟩
        (Relation.ReflTransGen.mono ?_ _ _ hrest)
      rintro user used ⟨huses, hused, havoided⟩
      exact ⟨huses, hused, fun hmem => havoided (List.mem_append_left _ hmem)⟩

/-- Everything on a route reaches its end without leaving the list. -/
theorem reachesWithin {other : String} (hroute : registry.IsRoute listed route)
    (hlast : route.getLast? = some name) (hother : other ∈ route) :
    registry.ReachesWithin listed other name := by
  obtain ⟨stretch, rest, rfl⟩ := List.append_of_mem hother
  have hend : name ∈ other :: rest := by
    rw [List.getLast?_append_of_ne_nil _ (List.cons_ne_nil other rest)] at hlast
    exact List.mem_of_getLast? hlast
  exact Relation.ReflTransGen.mono
    (fun _ _ hstep => ⟨hstep.1, hstep.2.1⟩) _ _ (hroute.reachesAvoiding hend)

/-- No route goes on behind a struct that it met before. -/
theorem not_append_of_last {next : String} {rest : List String}
    (hroute : registry.IsRoute listed (path ++ next :: rest))
    (hlast : path.getLast? = some name) :
    (path ++ next :: rest).getLast? ≠ some name := by
  intro hagain
  have hnodup := List.nodup_append'.1 hroute.nodup
  have hend : name ∈ next :: rest := by
    rw [List.getLast?_append_of_ne_nil _ (List.cons_ne_nil next rest)] at hagain
    exact List.mem_of_getLast? hagain
  exact hnodup.2.2 (List.mem_of_getLast? hlast) hend

end IsRoute

/-- Routes to the same struct are compared by the first choice that differs. -/
theorem precedes_or_precedes {left right : List String} {name : String}
    (hleft : registry.IsRoute listed left)
    (hright : registry.IsRoute listed right)
    (hleftLast : left.getLast? = some name)
    (hrightLast : right.getLast? = some name) (hne : left ≠ right) :
    registry.Precedes listed left right ∨ registry.Precedes listed right left := by
  rcases exists_parting hne with
    ⟨next, rest, rfl⟩ | ⟨next, rest, rfl⟩ |
      ⟨stretch, a, b, restLeft, restRight, hab, rfl, rfl⟩
  · exact absurd hrightLast (hright.not_append_of_last hleftLast)
  · exact absurd hleftLast (hleft.not_append_of_last hrightLast)
  · have ha := (hleft.choice stretch a restLeft rfl).2
    have hb := (hright.choice stretch b restRight rfl).2
    rcases before_or_before hab ha hb with hbefore | hbefore
    · exact Or.inl ⟨stretch, a, b, restLeft, restRight, rfl, rfl, hbefore⟩
    · exact Or.inr ⟨stretch, b, a, restRight, restLeft, rfl, rfl, hbefore⟩

theorem IsFirstRoute.unique {left right : List String} {name : String}
    (hleft : registry.IsFirstRoute listed left name)
    (hright : registry.IsFirstRoute listed right name) : left = right := by
  by_contra hne
  rcases precedes_or_precedes hleft.isRoute hright.isRoute hleft.last
    hright.last hne with hbefore | hbefore
  · exact hright.first left hleft.isRoute hleft.last hbefore
  · exact hleft.first right hright.isRoute hright.last hbefore

end Registry

end VideoRegistry
