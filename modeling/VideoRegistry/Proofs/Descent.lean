import Mathlib.Data.Finset.Basic
import Mathlib.Logic.Relation
import VideoRegistry.Proofs.MemberGraph
import VideoRegistry.Proofs.Outcome
import VideoRegistry.Registry.Order

/-!
# The calls of a walk

Closing and ordering walk over member structs by calls that make further calls, and
nothing but the set of the structs under way keeps them from going round in a cycle.
Here a walk runs on a stack of calls, with that set beside it: a struct is put in when
the walk goes down to it and taken out when the walk comes back.  Wherever a walk stands,
its calls were made for distinct structs and the set holds these and no others, so there
are never more calls than structs, and the set is the same behind a call as in front of
it.  On every registry both walks end, and they end the way closing and ordering do.
-/

namespace VideoRegistry

/-- A call under way: the struct it was made for, and the member structs that it has yet
to come to. -/
structure Call where
  user : String
  members : List String
deriving DecidableEq, Repr

/-- Where a walk stands: the entries of its list that are left, its calls, the innermost
one first, the structs under way and what it has brought about. -/
structure Descent (α : Type) where
  entries : List String
  calls : List Call
  underWay : Finset String
  state : α

/-- A walk over a list starts without a call. -/
def Descent.over {α : Type} (entries : List String) (state : α) : Descent α :=
  ⟨entries, [], ∅, state⟩

/-- The structs that the calls were made for. -/
def Descent.path {α : Type} (descent : Descent α) : List String :=
  descent.calls.map Call.user

/-- What one walk over member structs has of its own.  It passes over what is done, it
may refuse a member struct of a user or fail there, and it does something about every
struct that it leaves: for the struct that it comes back to, or for the list. -/
structure Walk (α : Type) where
  isDone : String → α → Bool
  goesTo : (user name : String) → Checked Bool
  leave : (caller : Option String) → String → α → Checked α

namespace Registry

def call (registry : Registry) (name : String) : Call :=
  ⟨name, registry.memberStructs name⟩

theorem isStruct_of_mem_call {registry : Registry} {user : String} :
    ∀ name ∈ (registry.call user).members, registry.isStruct name :=
  fun _ huses => Uses.isStruct_used huses

/-- Closing claims a struct for the one that uses it. -/
def claimWalk (registry : Registry) (extension : Nat) : Walk Claims where
  isDone _ _ := false
  goesTo _ _ := .ok true
  leave
    | some user, name, claims => registry.claim extension user name claims
    | none, name, claims =>
        .ok { claims with settled := claims.settled ++ [name] }

/-- Ordering goes to what is listed, and needs nothing else but what is provided. -/
def placeWalk (registry : Registry) (sources : Sources) : Walk (List String) where
  isDone name settled := name ∈ settled
  goesTo user name :=
    if name ∈ sources.listed then .ok true
    else if name ∈ sources.provided then .ok false
    else .error ⟨registry.lineOf user, .unlistedStruct user name sources.extension⟩
  leave _ name settled := .ok (settled ++ [name])

end Registry

namespace Walk

variable {α β : Type}

/-- One step of a walk; there is none once all entries are dealt with.  An entry that is
no struct is dealt with on the spot. -/
def step (registry : Registry) (walk : Walk α) :
    Descent α → Checked (Option (Descent α))
  | ⟨[], [], _, _⟩ => .ok none
  | ⟨name :: entries, [], underWay, state⟩ =>
      if walk.isDone name state then .ok (some ⟨entries, [], underWay, state⟩)
      else if registry.isStruct name then
        .ok (some ⟨entries, [registry.call name], insert name underWay, state⟩)
      else do
        let state ← walk.leave none name state
        return some ⟨entries, [], underWay, state⟩
  | ⟨entries, ⟨user, []⟩ :: outer, underWay, state⟩ => do
      let state ← walk.leave (outer.head?.map Call.user) user state
      return some ⟨entries, outer, underWay.erase user, state⟩
  | ⟨entries, ⟨user, name :: rest⟩ :: outer, underWay, state⟩ =>
      if walk.isDone name state ∨ name ∈ underWay then
        .ok (some ⟨entries, ⟨user, rest⟩ :: outer, underWay, state⟩)
      else do
        if ← walk.goesTo user name then
          return some ⟨entries, registry.call name :: ⟨user, rest⟩ :: outer,
            insert name underWay, state⟩
        else return some ⟨entries, ⟨user, rest⟩ :: outer, underWay, state⟩

/-- A walk gets from one place to another. -/
def Leads (registry : Registry) (walk : Walk α) : Descent α → Descent α → Prop :=
  Relation.ReflTransGen fun here there => walk.step registry here = .ok (some there)

/-- A walk ends: it gets to where no step is left, or to where a step fails. -/
def EndsWith (registry : Registry) (walk : Walk α) (start : Descent α) :
    Checked α → Prop
  | .ok state => ∃ last, walk.Leads registry start last ∧
      walk.step registry last = .ok none ∧ last.state = state
  | .error fault => ∃ last, walk.Leads registry start last ∧
      walk.step registry last = .error fault

/-- A walk ends with an outcome, and has no way to go on for ever.  Wherever it stands,
its calls were made for distinct structs, so that there are no more of them than structs,
and these are the structs under way.  Where the path is the same, in front of a further
call and once it is back, the structs under way are the same too.  A fault ends the walk:
no call comes back from it. -/
structure EndsNested (registry : Registry) (walk : Walk α) (start : Descent α)
    (outcome : Checked α) : Prop where
  endsWith : walk.EndsWith registry start outcome
  not_endless : ¬ ∃ run : ℕ → Descent α, run 0 = start ∧
    ∀ n, walk.step registry (run n) = .ok (some (run (n + 1)))
  nodup_path : ∀ here, walk.Leads registry start here → here.path.Nodup
  isStruct_path : ∀ here, walk.Leads registry start here →
    ∀ name ∈ here.path, registry.isStruct name
  length_calls_le : ∀ here, walk.Leads registry start here →
    here.calls.length ≤ registry.structs.length
  underWay_eq : ∀ here, walk.Leads registry start here →
    here.underWay = here.path.toFinset
  underWay_back : ∀ here there, walk.Leads registry start here →
    walk.Leads registry here there → there.path = here.path →
      there.underWay = here.underWay

variable {registry : Registry} {walk : Walk α} {start here there : Descent α}

/-! ## What a step keeps -/

/-- The calls were made for distinct structs and will be made for structs only, and these
are the structs under way. -/
structure Nested (registry : Registry) (calls : List Call) (underWay : Finset String) :
    Prop where
  nodup : (calls.map Call.user).Nodup
  underWay_eq : underWay = (calls.map Call.user).toFinset
  isStruct : ∀ call ∈ calls, registry.isStruct call.user
  members : ∀ call ∈ calls, ∀ name ∈ call.members, registry.isStruct name

namespace Nested

variable {calls outer : List Call} {underWay : Finset String} {user name : String}
  {rest : List String}

theorem nil (registry : Registry) : Nested registry [] ∅ :=
  ⟨List.nodup_nil, rfl, List.forall_mem_nil _, List.forall_mem_nil _⟩

theorem enter (hnested : Nested registry calls underWay)
    (hstruct : registry.isStruct name) (hnew : name ∉ underWay) :
    Nested registry (registry.call name :: calls) (insert name underWay) where
  nodup := by
    rw [hnested.underWay_eq, List.mem_toFinset] at hnew
    exact List.nodup_cons.2 ⟨hnew, hnested.nodup⟩
  underWay_eq := by
    rw [List.map_cons, List.toFinset_cons, ← hnested.underWay_eq]
    rfl
  isStruct := List.forall_mem_cons.2 ⟨hstruct, hnested.isStruct⟩
  members := List.forall_mem_cons.2
    ⟨Registry.isStruct_of_mem_call, hnested.members⟩

theorem back (hnested : Nested registry (⟨user, []⟩ :: outer) underWay) :
    Nested registry outer (underWay.erase user) where
  nodup := (List.nodup_cons.1 hnested.nodup).2
  underWay_eq := by
    have hnew : user ∉ (outer.map Call.user).toFinset := by
      rw [List.mem_toFinset]
      exact (List.nodup_cons.1 hnested.nodup).1
    rw [hnested.underWay_eq, List.map_cons, List.toFinset_cons, Finset.erase_insert hnew]
  isStruct := (List.forall_mem_cons.1 hnested.isStruct).2
  members := (List.forall_mem_cons.1 hnested.members).2

theorem pass (hnested : Nested registry (⟨user, name :: rest⟩ :: outer) underWay) :
    Nested registry (⟨user, rest⟩ :: outer) underWay where
  nodup := hnested.nodup
  underWay_eq := hnested.underWay_eq
  isStruct := List.forall_mem_cons.2 (List.forall_mem_cons.1 hnested.isStruct)
  members := by
    obtain ⟨hfirst, houter⟩ := List.forall_mem_cons.1 hnested.members
    exact List.forall_mem_cons.2 ⟨(List.forall_mem_cons.1 hfirst).2, houter⟩

theorem length_le (hnested : Nested registry calls underWay) :
    calls.length ≤ registry.structs.length := by
  have hsub : calls.map Call.user ⊆ registry.structNames := by
    intro name hname
    obtain ⟨call, hcall, rfl⟩ := List.mem_map.1 hname
    exact Registry.mem_structNames (hnested.isStruct call hcall)
  calc calls.length = (calls.map Call.user).length := (List.length_map _).symm
    _ ≤ registry.structNames.length := (hnested.nodup.subperm hsub).length_le
    _ = registry.structs.length := List.length_map _

end Nested

theorem Nested.step (hnested : Nested registry here.calls here.underWay)
    (hstep : walk.step registry here = .ok (some there)) :
    Nested registry there.calls there.underWay := by
  obtain ⟨entries, calls, underWay, state⟩ := here
  match calls, entries with
  | [], [] =>
      cases hstep
  | [], name :: entries =>
      obtain rfl : underWay = ∅ := hnested.underWay_eq
      rw [Walk.step] at hstep
      split at hstep
      · obtain rfl := Option.some.inj (Except.ok.inj hstep)
        exact .nil registry
      split at hstep
      · next hstruct =>
          obtain rfl := Option.some.inj (Except.ok.inj hstep)
          exact hnested.enter hstruct (Finset.notMem_empty name)
      · obtain ⟨left, -, hthere⟩ := bind_eq_ok_iff.1 hstep
        obtain rfl := Option.some.inj (Except.ok.inj hthere)
        exact .nil registry
  | ⟨user, []⟩ :: outer, entries =>
      rw [Walk.step] at hstep
      obtain ⟨left, -, hthere⟩ := bind_eq_ok_iff.1 hstep
      obtain rfl := Option.some.inj (Except.ok.inj hthere)
      exact hnested.back
  | ⟨user, name :: rest⟩ :: outer, entries =>
      rw [Walk.step] at hstep
      split at hstep
      · obtain rfl := Option.some.inj (Except.ok.inj hstep)
        exact hnested.pass
      · next hnew =>
          obtain ⟨goes, -, hthere⟩ := bind_eq_ok_iff.1 hstep
          split at hthere
          · obtain rfl := Option.some.inj (Except.ok.inj hthere)
            exact hnested.pass.enter (hnested.members _ List.mem_cons_self name
              List.mem_cons_self) (not_or.1 hnew).2
          · obtain rfl := Option.some.inj (Except.ok.inj hthere)
            exact hnested.pass

theorem Leads.nested (hleads : walk.Leads registry start there)
    (hstart : Nested registry start.calls start.underWay) :
    Nested registry there.calls there.underWay := by
  induction hleads with
  | refl => exact hstart
  | tail _ hstep ih => exact ih.step hstep

/-! ## How a walk goes on -/

/-- A walk gets to where the outcome puts it, or fails the way the outcome does. -/
def ComesTo (registry : Registry) (walk : Walk α) (start : Descent α)
    (place : β → Descent α) : Checked β → Prop
  | .ok value => walk.Leads registry start (place value)
  | .error fault => ∃ last, walk.Leads registry start last ∧
      walk.step registry last = .error fault

variable {γ : Type} {place : β → Descent α} {first : Checked β}

theorem Leads.comesTo (hleads : walk.Leads registry start here)
    (hcomes : walk.ComesTo registry here place first) :
    walk.ComesTo registry start place first := by
  cases first with
  | ok value => exact Relation.ReflTransGen.trans hleads hcomes
  | error fault =>
      obtain ⟨last, hlast, hfault⟩ := hcomes
      exact ⟨last, Relation.ReflTransGen.trans hleads hlast, hfault⟩

theorem comesTo_of_step (hstep : walk.step registry start = .ok (some here))
    (hcomes : walk.ComesTo registry here place first) :
    walk.ComesTo registry start place first :=
  Leads.comesTo (Relation.ReflTransGen.single hstep) hcomes

theorem ComesTo.bind {next : β → Checked γ} {nextPlace : γ → Descent α}
    (hfirst : walk.ComesTo registry start place first)
    (hnext : ∀ value, walk.ComesTo registry (place value) nextPlace (next value)) :
    walk.ComesTo registry start nextPlace (first >>= next) := by
  cases first with
  | ok value => exact Leads.comesTo hfirst (hnext value)
  | error fault => exact hfirst

/-- A walk that gets to where no step is left takes no step beyond. -/
theorem not_endless_of_leads (hleads : walk.Leads registry start here)
    (hlast : ∀ there, walk.step registry here ≠ .ok (some there))
    (run : ℕ → Descent α) (hstart : run 0 = start) :
    ¬ ∀ n, walk.step registry (run n) = .ok (some (run (n + 1))) := by
  intro hrun
  induction hleads using Relation.ReflTransGen.head_induction_on generalizing run with
  | refl => exact hlast (run 1) (hstart ▸ hrun 0)
  | head hstep _ ih =>
      have hfirst := hrun 0
      rw [hstart, hstep] at hfirst
      have hnext := Option.some.inj (Except.ok.inj hfirst)
      exact ih (fun n => run (n + 1)) hnext.symm fun n => hrun (n + 1)

theorem EndsWith.not_endless {outcome : Checked α}
    (hends : walk.EndsWith registry start outcome) :
    ¬ ∃ run : ℕ → Descent α, run 0 = start ∧
      ∀ n, walk.step registry (run n) = .ok (some (run (n + 1))) := by
  rintro ⟨run, hstart, hrun⟩
  cases outcome with
  | ok state =>
      obtain ⟨last, hlast, hnone, -⟩ := hends
      exact not_endless_of_leads hlast (by simp [hnone]) run hstart hrun
  | error fault =>
      obtain ⟨last, hlast, hfault⟩ := hends
      exact not_endless_of_leads hlast (by simp [hfault]) run hstart hrun

theorem ComesTo.endsWith {outcome : Checked α}
    (hcomes : walk.ComesTo registry start (.over []) outcome) :
    walk.EndsWith registry start outcome := by
  cases outcome with
  | ok state => exact ⟨_, hcomes, rfl, rfl⟩
  | error fault => exact hcomes

theorem ComesTo.endsNested {entries : List String} {state : α} {outcome : Checked α}
    (hcomes : walk.ComesTo registry (.over entries state) (.over []) outcome) :
    walk.EndsNested registry (.over entries state) outcome where
  endsWith := hcomes.endsWith
  not_endless := hcomes.endsWith.not_endless
  nodup_path _ hhere := (Leads.nested hhere (.nil registry)).nodup
  isStruct_path here hhere name hname := by
    obtain ⟨call, hcall, rfl⟩ := List.mem_map.1 hname
    exact (Leads.nested hhere (.nil registry)).isStruct call hcall
  length_calls_le _ hhere := (Leads.nested hhere (.nil registry)).length_le
  underWay_eq _ hhere := (Leads.nested hhere (.nil registry)).underWay_eq
  underWay_back here there hhere hthere hpath := by
    have hbefore := Leads.nested hhere (.nil registry)
    have hbehind := Leads.nested hthere hbefore
    calc there.underWay = there.path.toFinset := hbehind.underWay_eq
      _ = here.path.toFinset := congrArg List.toFinset hpath
      _ = here.underWay := hbefore.underWay_eq.symm

section Steps

variable {entries rest : List String} {outer : List Call} {underWay : Finset String}
  {user name : String} {state : α}

theorem step_pass (hpass : walk.isDone name state ∨ name ∈ underWay) :
    walk.step registry ⟨entries, ⟨user, name :: rest⟩ :: outer, underWay, state⟩ =
      .ok (some ⟨entries, ⟨user, rest⟩ :: outer, underWay, state⟩) := by
  rw [step, if_pos hpass]

/-- What is neither done nor under way is gone to, passed over or refused. -/
theorem step_meet {goes : Checked Bool} (hdone : walk.isDone name state = false)
    (hnew : name ∉ underWay) (hgoes : walk.goesTo user name = goes) :
    walk.step registry ⟨entries, ⟨user, name :: rest⟩ :: outer, underWay, state⟩ =
      goes.map fun goes => some (if goes then
        ⟨entries, registry.call name :: ⟨user, rest⟩ :: outer, insert name underWay,
          state⟩
        else ⟨entries, ⟨user, rest⟩ :: outer, underWay, state⟩) := by
  have hmet : ¬ (walk.isDone name state ∨ name ∈ underWay) := by
    simp [hdone, hnew]
  rw [step, if_neg hmet, hgoes]
  match goes with
  | .ok true => rfl
  | .ok false => rfl
  | .error fault => rfl

/-- A struct that is left is under way no longer. -/
theorem step_back (hnew : name ∉ underWay) :
    walk.step registry ⟨entries, ⟨name, []⟩ :: outer, insert name underWay, state⟩ =
      (walk.leave (outer.head?.map Call.user) name state).map fun state =>
        some ⟨entries, outer, underWay, state⟩ := by
  rw [step, Finset.erase_insert hnew]
  cases walk.leave (outer.head?.map Call.user) name state <;> rfl

theorem comesTo_of_step_eq_map {next : β → Descent α}
    (hstep : walk.step registry start = first.map fun value => some (next value)) :
    walk.ComesTo registry start next first := by
  cases first with
  | ok value => exact Relation.ReflTransGen.single hstep
  | error fault => exact ⟨start, Relation.ReflTransGen.refl, hstep⟩

theorem step_skip (hdone : walk.isDone name state) :
    walk.step registry ⟨name :: entries, [], underWay, state⟩ =
      .ok (some ⟨entries, [], underWay, state⟩) := by
  rw [step, if_pos hdone]

theorem step_start (hdone : walk.isDone name state = false)
    (hstruct : registry.isStruct name) :
    walk.step registry ⟨name :: entries, [], underWay, state⟩ =
      .ok (some ⟨entries, [registry.call name], insert name underWay, state⟩) := by
  rw [step, if_neg (by simp [hdone]), if_pos hstruct]

theorem step_settle {left : α} (hdone : walk.isDone name state = false)
    (hstruct : ¬ registry.isStruct name) (hleave : walk.leave none name state = .ok left) :
    walk.step registry ⟨name :: entries, [], underWay, state⟩ =
      .ok (some ⟨entries, [], underWay, left⟩) := by
  rw [step, if_neg (by simp [hdone]), if_neg hstruct, hleave]
  rfl

end Steps

end Walk

namespace Registry

open Walk

variable {registry : Registry} {extension : Nat} {sources : Sources} {user : String}
  {available waiting used entries settled : List String} {claims : Claims}
  {outer : List Call} {underWay : Finset String}

/-- The walk that claims goes the way of `claimMembers`: what is available to it is what
is not under way. -/
theorem claimMembers_comesTo
    (havailable : ∀ name, registry.isStruct name →
      (name ∈ available ↔ name ∉ underWay))
    (hused : ∀ name ∈ used, registry.isStruct name) :
    (registry.claimWalk extension).ComesTo registry
      ⟨entries, ⟨user, used⟩ :: outer, underWay, claims⟩
      (fun claims => ⟨entries, ⟨user, []⟩ :: outer, underWay, claims⟩)
      (registry.claimMembers extension user available used claims) := by
  induction user, available, used, claims using claimMembers.induct registry
    generalizing outer underWay with
  | case1 user available claims =>
      rw [claimMembers]
      exact Relation.ReflTransGen.refl
  | case2 user available claims name rest hmem ihdeep ihrest =>
      obtain ⟨hstruct, hrest⟩ := List.forall_mem_cons.1 hused
      have hnew := (havailable name hstruct).1 hmem
      have hdeep : ∀ other, registry.isStruct other →
          (other ∈ without name available ↔ other ∉ insert name underWay) := by
        intro other hother
        rw [mem_without, havailable other hother, Finset.mem_insert, not_or, and_comm]
      rw [claimMembers, dif_pos hmem]
      -- Down to the struct, back to claim it, and on with its neighbours: they meet the
      -- structs under way as this one did.
      refine comesTo_of_step (step_meet rfl hnew rfl) (ComesTo.bind
        (ihdeep hdeep isStruct_of_mem_call) fun walked => ?_)
      exact ComesTo.bind (comesTo_of_step_eq_map (step_back hnew)) fun claimed =>
        ihrest claimed havailable hrest
  | case3 user available claims name rest hmem ih =>
      obtain ⟨hstruct, hrest⟩ := List.forall_mem_cons.1 hused
      have hunderWay : name ∈ underWay :=
        not_not.1 (mt (havailable name hstruct).2 hmem)
      rw [claimMembers, dif_neg hmem]
      exact comesTo_of_step (step_pass (Or.inr hunderWay)) (ih havailable hrest)

theorem closeList_comesTo (names : List String) :
    (registry.claimWalk extension).ComesTo registry (.over names claims) (.over [])
      (registry.closeList extension claims names) := by
  induction names generalizing claims with
  | nil => exact Relation.ReflTransGen.refl
  | cons name names ih =>
      rw [closeList]
      split
      · next hstruct =>
          have havailable : ∀ other, registry.isStruct other →
              (other ∈ without name registry.structNames ↔
                other ∉ insert name (∅ : Finset String)) := by
            intro other hother
            simp [mem_without, mem_structNames hother]
          refine comesTo_of_step (step_start rfl hstruct) (ComesTo.bind
            (claimMembers_comesTo havailable isStruct_of_mem_call) fun walked => ?_)
          exact comesTo_of_step (step_back (Finset.notMem_empty name)) ih
      · next hstruct => exact comesTo_of_step (step_settle rfl hstruct rfl) ih

/-- The walk that places goes the way of `placeMembers`: what waits for it is what is
listed and not under way. -/
theorem placeMembers_comesTo
    (hwaiting : ∀ name, registry.isStruct name →
      (name ∈ waiting ↔ name ∈ sources.listed ∧ name ∉ underWay))
    (hlisted : ∀ name ∈ underWay, name ∈ sources.listed)
    (hused : ∀ name ∈ used, registry.isStruct name) :
    (registry.placeWalk sources).ComesTo registry
      ⟨entries, ⟨user, used⟩ :: outer, underWay, settled⟩
      (fun settled => ⟨entries, ⟨user, []⟩ :: outer, underWay, settled⟩)
      (registry.placeMembers sources user waiting used settled) := by
  induction user, waiting, used, settled
    using placeMembers.induct registry sources generalizing outer underWay with
  | case1 user waiting settled =>
      rw [placeMembers]
      exact Relation.ReflTransGen.refl
  | case2 user waiting settled name rest hplaced ih =>
      rw [placeMembers, if_pos hplaced]
      exact comesTo_of_step (step_pass (Or.inl (decide_eq_true hplaced)))
        (ih hwaiting hlisted (List.forall_mem_cons.1 hused).2)
  | case3 user waiting settled name rest hplaced hmem ihdeep ihrest =>
      obtain ⟨hstruct, hrest⟩ := List.forall_mem_cons.1 hused
      obtain ⟨hname, hnew⟩ := (hwaiting name hstruct).1 hmem
      have hdeep : ∀ other, registry.isStruct other → (other ∈ without name waiting ↔
          other ∈ sources.listed ∧ other ∉ insert name underWay) := by
        intro other hother
        rw [mem_without, hwaiting other hother, Finset.mem_insert, not_or, and_assoc,
          and_comm (a := other ∉ underWay)]
      have hlistedDeep : ∀ other ∈ insert name underWay, other ∈ sources.listed :=
        (Finset.forall_mem_insert _ _ _).2 ⟨hname, hlisted⟩
      rw [placeMembers, if_neg hplaced, dif_pos hmem]
      have hgoes : (registry.placeWalk sources).goesTo user name = .ok true := if_pos hname
      refine comesTo_of_step (step_meet (decide_eq_false hplaced) hnew hgoes) (ComesTo.bind
        (ihdeep hdeep hlistedDeep isStruct_of_mem_call) fun walked => ?_)
      exact comesTo_of_step (step_back hnew) (ihrest walked hwaiting hlisted hrest)
  | case4 user waiting settled name rest hplaced hmem hoffered ih =>
      obtain ⟨hstruct, hrest⟩ := List.forall_mem_cons.1 hused
      rw [placeMembers, if_neg hplaced, dif_neg hmem, if_pos hoffered]
      by_cases hunderWay : name ∈ underWay
      · exact comesTo_of_step (step_pass (Or.inr hunderWay)) (ih hwaiting hlisted hrest)
      · have hname : name ∉ sources.listed := fun hname =>
          hmem ((hwaiting name hstruct).2 ⟨hname, hunderWay⟩)
        have hprovided : name ∈ sources.provided := by
          simpa [hname] using hoffered
        have hgoes : (registry.placeWalk sources).goesTo user name = .ok false :=
          (if_neg hname).trans (if_pos hprovided)
        exact comesTo_of_step (step_meet (decide_eq_false hplaced) hunderWay hgoes)
          (ih hwaiting hlisted hrest)
  | case5 user waiting settled name rest hplaced hmem hoffered =>
      obtain ⟨hname, hprovided⟩ : name ∉ sources.listed ∧ name ∉ sources.provided := by
        simpa using hoffered
      have hgoes : (registry.placeWalk sources).goesTo user name = .error _ :=
        (if_neg hname).trans (if_neg hprovided)
      rw [placeMembers, if_neg hplaced, dif_neg hmem, if_neg hoffered]
      -- Only what is listed is ever under way, so this struct is not passed over.
      exact ⟨_, Relation.ReflTransGen.refl,
        step_meet (decide_eq_false hplaced) (mt (hlisted name) hname) hgoes⟩

theorem placeList_comesTo (hentries : ∀ name ∈ entries, name ∈ sources.listed) :
    (registry.placeWalk sources).ComesTo registry (.over entries settled) (.over [])
      (registry.placeList sources settled entries) := by
  induction entries generalizing settled with
  | nil => exact Relation.ReflTransGen.refl
  | cons name entries ih =>
      obtain ⟨hname, hentries⟩ := List.forall_mem_cons.1 hentries
      rw [placeList]
      split
      · next hplaced =>
          exact comesTo_of_step (step_skip (decide_eq_true hplaced)) (ih hentries)
      next hplaced =>
      split
      · next hstruct =>
          have hwaiting : ∀ other, registry.isStruct other →
              (other ∈ without name sources.listed ↔
                other ∈ sources.listed ∧ other ∉ insert name (∅ : Finset String)) := by
            intro other _
            simp [mem_without]
          have hlisted : ∀ other ∈ insert name (∅ : Finset String),
              other ∈ sources.listed := by
            simpa using hname
          refine comesTo_of_step (step_start (decide_eq_false hplaced) hstruct)
            (ComesTo.bind (placeMembers_comesTo hwaiting hlisted isStruct_of_mem_call)
              fun walked => ?_)
          exact comesTo_of_step (step_back (Finset.notMem_empty name)) (ih hentries)
      · next hstruct =>
          exact comesTo_of_step (step_settle (decide_eq_false hplaced) hstruct rfl)
            (ih hentries)

/-- Both walks end on every registry, whatever circles its member structs go in, and end
as closing and ordering do.  All the while their calls are nested without a repeat, and a
call that comes back leaves the structs under way as it found them.  An entry that is no
struct takes no call. -/
theorem walks_endNested (registry : Registry) :
    (∀ extension claims names,
      (registry.claimWalk extension).EndsNested registry (.over names claims)
        (registry.closeList extension claims names)) ∧
    ∀ sources,
      (registry.placeWalk sources).EndsNested registry (.over sources.listed [])
        (registry.placeList sources [] sources.listed) :=
  ⟨fun _ _ names => (closeList_comesTo names).endsNested,
    fun _ => (placeList_comesTo fun _ hname => hname).endsNested⟩

end Registry

end VideoRegistry
