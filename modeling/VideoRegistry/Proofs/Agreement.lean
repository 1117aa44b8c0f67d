import Mathlib.Data.List.Forall2
import VideoRegistry.Proofs.Outcome

/-!
# Outcomes that agree

Two runs of checked steps agree if both fail, with whatever faults, or if both
succeed with related results.  Runs are compared step by step: agreeing steps,
one behind the other or over lists of related items, are agreeing runs.
-/

namespace VideoRegistry

variable {ε ε' ε'' α β γ α' β' : Type}

/-- Two lists have the same image exactly if they have it item by item. -/
theorem map_eq_map_iff_forall₂ {f : α → γ} {g : β → γ}
    {items : List α} {others : List β} :
    others.map g = items.map f ↔
      List.Forall₂ (fun item other => g other = f item) items others := by
  rw [eq_comm, ← List.forall₂_eq_eq_eq, List.forall₂_map_left_iff,
    List.forall₂_map_right_iff]
  simp only [eq_comm]

/-- Two lists whose entries fit those of a third fit each other. -/
theorem forall₂_of_forall₂ {left : α → γ → Prop} {right : β → γ → Prop}
    {related : α → β → Prop} {items : List α} {others : List β} {shared : List γ}
    (hleft : List.Forall₂ left items shared)
    (hright : List.Forall₂ right others shared)
    (hrelated : ∀ item other, ∀ entry ∈ shared,
      left item entry → right other entry → related item other) :
    List.Forall₂ related items others := by
  induction hleft generalizing others with
  | nil =>
      cases hright with
      | nil => exact .nil
  | cons hfirst _ ih =>
      cases hright with
      | cons hsecond hrest =>
          refine .cons (hrelated _ _ _ List.mem_cons_self hfirst hsecond) ?_
          exact ih hrest fun item other entry hentry =>
            hrelated item other entry (List.mem_cons_of_mem _ hentry)

/-- Both outcomes are faults, or both are results, and these are related. -/
inductive Agree (related : α → β → Prop) : Except ε α → Except ε' β → Prop where
  | ok {value : α} {other : β} (hrelated : related value other) :
      Agree related (.ok value) (.ok other)
  | error (fault : ε) (other : ε') : Agree related (.error fault) (.error other)

namespace Agree

variable {related : α → β → Prop} {first : Except ε α} {second : Except ε' β}

theorem iff_ok : Agree related first second ↔
    (∀ value, first = .ok value →
      ∃ other, second = .ok other ∧ related value other) ∧
    ∀ other, second = .ok other →
      ∃ value, first = .ok value ∧ related value other := by
  constructor
  · rintro (hrelated | ⟨fault, other⟩)
    · constructor
      · rintro _ ⟨⟩
        exact ⟨_, rfl, hrelated⟩
      · rintro _ ⟨⟩
        exact ⟨_, rfl, hrelated⟩
    · constructor <;> rintro _ ⟨⟩
  · rintro ⟨hforth, hback⟩
    cases first with
    | ok value =>
        obtain ⟨other, rfl, hrelated⟩ := hforth value rfl
        exact .ok hrelated
    | error fault =>
        cases second with
        | ok other =>
            obtain ⟨value, hvalue, -⟩ := hback other rfl
            cases hvalue
        | error other => exact .error fault other

protected theorem symm (hagree : Agree related first second) :
    Agree (fun other value => related value other) second first := by
  cases hagree with
  | ok hrelated => exact .ok hrelated
  | error fault other => exact .error other fault

protected theorem trans {later : β → γ → Prop} {third : Except ε'' γ}
    (hfirst : Agree related first second) (hsecond : Agree later second third) :
    Agree (fun value last => ∃ other, related value other ∧ later other last)
      first third := by
  cases hfirst with
  | ok hrelated =>
      cases hsecond with
      | ok hlater => exact .ok ⟨_, hrelated, hlater⟩
  | error fault other =>
      cases hsecond with
      | error _ last => exact .error fault last

theorem mono {weaker : α → β → Prop} (hagree : Agree related first second)
    (hweaker : ∀ value other, related value other → weaker value other) :
    Agree weaker first second := by
  cases hagree with
  | ok hrelated => exact .ok (hweaker _ _ hrelated)
  | error fault other => exact .error fault other

/-- What agrees also says where the related results come from. -/
theorem attach (hagree : Agree related first second) :
    Agree (fun value other =>
      related value other ∧ first = .ok value ∧ second = .ok other)
      first second := by
  cases hagree with
  | ok hrelated => exact .ok ⟨hrelated, Eq.refl _, Eq.refl _⟩
  | error fault other => exact .error fault other

/-- An outcome agrees with itself. -/
protected theorem rfl {outcome : Except ε α} : Agree Eq outcome outcome := by
  cases outcome with
  | ok value => exact .ok (Eq.refl value)
  | error fault => exact .error fault fault

theorem symm_same {first : Except ε α} {second : Except ε' α}
    (hagree : Agree Eq first second) : Agree Eq second first :=
  hagree.symm.mono fun _ _ => Eq.symm

theorem trans_same {first : Except ε α} {second : Except ε' α}
    {third : Except ε'' α} (hfirst : Agree Eq first second)
    (hsecond : Agree Eq second third) : Agree Eq first third := by
  refine (hfirst.trans hsecond).mono ?_
  rintro value last ⟨other, rfl, rfl⟩
  exact Eq.refl value

theorem eq_ok_iff {other : Except ε' α} {first : Except ε α} {value : α}
    (hagree : Agree Eq first other) : first = .ok value ↔ other = .ok value := by
  cases hagree with
  | ok heq => rw [heq, Except.ok.injEq, Except.ok.injEq]
  | error fault other => simp

protected theorem bind {after : α' → β' → Prop} {next : α → Except ε α'}
    {next' : β → Except ε' β'} (hagree : Agree related first second)
    (hnext : ∀ value other, related value other →
      Agree after (next value) (next' other)) :
    Agree after (first >>= next) (second >>= next') := by
  cases hagree with
  | ok hrelated => exact hnext _ _ hrelated
  | error fault other => exact .error fault other

protected theorem map {after : α' → β' → Prop} {f : α → α'} {g : β → β'}
    (hagree : Agree related first second)
    (hafter : ∀ value other, related value other → after (f value) (g other)) :
    Agree after (first.map f) (second.map g) := by
  cases hagree with
  | ok hrelated => exact .ok (hafter _ _ hrelated)
  | error fault other => exact .error fault other

theorem bind_same {first : Except ε α} {second : Except ε' α}
    {after : α' → β' → Prop} {next : α → Except ε α'} {next' : α → Except ε' β'}
    (hagree : Agree Eq first second)
    (hnext : ∀ value, Agree after (next value) (next' value)) :
    Agree after (first >>= next) (second >>= next') := by
  apply hagree.bind
  rintro value _ rfl
  exact hnext value

theorem map_same {first : Except ε α} {second : Except ε' α} (f : α → β)
    (hagree : Agree Eq first second) :
    Agree Eq (first.map f) (second.map f) :=
  hagree.map fun _ _ => congrArg f

protected theorem mapError {δ δ' : Type} {f : ε → δ} {g : ε' → δ'}
    (hagree : Agree related first second) :
    Agree related (first.mapError f) (second.mapError g) := by
  cases hagree with
  | ok hrelated => exact .ok hrelated
  | error fault other => exact .error (f fault) (g other)

protected theorem orFail {first : Checked α} {second : Checked β}
    (hagree : Agree related first second) :
    Agree related first.orFail second.orFail :=
  hagree.mapError

/-- A requirement only counts by whether it holds. -/
protected theorem require {holds holds' : Bool} (hholds : holds' = holds)
    (line line' : Nat) (fault fault' : Fault) :
    Agree Eq (require holds line fault) (require holds' line' fault') := by
  subst hholds
  cases holds' with
  | true => exact .ok (Eq.refl ())
  | false => exact .error _ _

/-- Runs over related items, from related states, agree if every step does. -/
protected theorem foldlM {item : α' → β' → Prop} {step : α → α' → Except ε α}
    {step' : β → β' → Except ε' β}
    (hstep : ∀ value other, related value other → ∀ part part', item part part' →
      Agree related (step value part) (step' other part'))
    {parts : List α'} {parts' : List β'} (hparts : List.Forall₂ item parts parts')
    {value : α} {other : β} (hrelated : related value other) :
    Agree related (parts.foldlM step value) (parts'.foldlM step' other) := by
  induction hparts generalizing value other with
  | nil => exact .ok hrelated
  | cons hpart _ ih =>
      rw [List.foldlM_cons, List.foldlM_cons]
      exact (hstep value other hrelated _ _ hpart).bind fun _ _ hnext => ih hnext

/-- Runs over the same items, from related states, agree if every step does. -/
theorem foldlM_same {step : α → γ → Except ε α} {step' : β → γ → Except ε' β}
    (hstep : ∀ value other, related value other → ∀ part,
      Agree related (step value part) (step' other part))
    (parts : List γ) {value : α} {other : β} (hrelated : related value other) :
    Agree related (parts.foldlM step value) (parts.foldlM step' other) := by
  have hparts : List.Forall₂ Eq parts parts :=
    List.forall₂_same.2 fun part _ => Eq.refl part
  refine Agree.foldlM (fun value other hrelated part part' hpart => ?_) hparts
    hrelated
  exact hpart ▸ hstep value other hrelated part

/-- Runs over items one of which is exchanged for another. -/
theorem foldlM_exchange {related : α → α → Prop} {step : α → γ → Except ε α}
    {item other : γ}
    (hkeeps : ∀ value value', related value value' → ∀ part,
      Agree related (step value part) (step value' part))
    (hexchange : ∀ value, Agree related (step value item) (step value other))
    (front back : List γ) (value : α) :
    Agree related ((front ++ item :: back).foldlM step value)
      ((front ++ other :: back).foldlM step value) := by
  rw [List.foldlM_append, List.foldlM_append]
  apply Agree.rfl.bind_same
  intro before
  rw [List.foldlM_cons, List.foldlM_cons]
  exact (hexchange before).bind fun _ _ hnext => foldlM_same hkeeps back hnext

protected theorem mapM {item : α' → β' → Prop} {step : α' → Except ε α}
    {step' : β' → Except ε' β}
    (hstep : ∀ part part', item part part' →
      Agree related (step part) (step' part'))
    {parts : List α'} {parts' : List β'}
    (hparts : List.Forall₂ item parts parts') :
    Agree (List.Forall₂ related) (parts.mapM step) (parts'.mapM step') := by
  induction hparts with
  | nil => exact .ok .nil
  | cons hpart _ ih =>
      rw [List.mapM_cons, List.mapM_cons]
      refine (hstep _ _ hpart).bind fun _ _ hfirst => ?_
      exact ih.bind fun _ _ hrest => .ok (.cons hfirst hrest)

end Agree

end VideoRegistry
