import VideoRegistry.Diagnostic.Failure

/-!
# Outcomes of checked steps

When a step that may fail, or a run of such steps, ends well.  A property that
every step keeps is kept by a run over a list of any length.
-/

namespace VideoRegistry

variable {ε α β : Type}

theorem bind_eq_ok_iff {first : Except ε α} {next : α → Except ε β}
    {result : β} :
    first >>= next = .ok result ↔
      ∃ value, first = .ok value ∧ next value = .ok result := by
  cases first with
  | error fault => simp [bind, Except.bind]
  | ok value => simp [bind, Except.bind]

theorem pure_eq_ok_iff {value result : α} :
    (pure value : Except ε α) = .ok result ↔ value = result := by
  simp [pure, Except.pure]

theorem map_eq_ok_iff {first : Except ε α} {f : α → β} {result : β} :
    first.map f = .ok result ↔ ∃ value, first = .ok value ∧ f value = result := by
  cases first <;> simp [Except.map]

theorem mapError_eq_ok_iff {ε' : Type} {first : Except ε α} {f : ε → ε'}
    {result : α} : first.mapError f = .ok result ↔ first = .ok result := by
  cases first with
  | error fault =>
      change Except.error (f fault) = .ok result ↔ Except.error fault = .ok result
      simp
  | ok value =>
      change Except.ok value = .ok result ↔ Except.ok value = .ok result
      simp

theorem orFail_eq_ok_iff {first : Checked α} {result : α} :
    first.orFail = .ok result ↔ first = .ok result :=
  mapError_eq_ok_iff

theorem orFail_eq_error_iff {first : Checked α} {failure : Failure} :
    first.orFail = .error failure ↔
      ∃ fault, first = .error fault ∧ failure = .spec fault := by
  cases first with
  | error fault =>
      change Except.error (.spec fault) = .error failure ↔ _
      simp [eq_comm]
  | ok value =>
      change Except.ok value = .error failure ↔ _
      simp

theorem require_eq_ok_iff {holds : Bool} {line : Nat} {fault : Fault}
    {result : Unit} :
    require holds line fault = .ok result ↔ holds = true := by
  cases holds <;> simp [require]

/-- A run over a list that ends well gives the outcome of every item. -/
theorem exists_mem_of_mapM {step : α → Except ε β} {items : List α}
    {results : List β} (hrun : items.mapM step = .ok results) :
    ∀ item ∈ items, ∃ result ∈ results, step item = .ok result := by
  induction items generalizing results with
  | nil => simp
  | cons item items ih =>
      rw [List.mapM_cons] at hrun
      obtain ⟨first, hfirst, hrun⟩ := bind_eq_ok_iff.1 hrun
      obtain ⟨later, hlater, hrun⟩ := bind_eq_ok_iff.1 hrun
      obtain rfl := pure_eq_ok_iff.1 hrun
      intro other hother
      rcases List.mem_cons.1 hother with rfl | hother
      · exact ⟨first, List.mem_cons_self, hfirst⟩
      · obtain ⟨result, hresult, hok⟩ := ih hlater other hother
        exact ⟨result, List.mem_cons_of_mem first hresult, hok⟩

/-- What every step of a run keeps, the run keeps. -/
theorem foldlM_keeps {step : β → α → Except ε β} {Holds : β → Prop}
    (hstep : ∀ before item after, Holds before →
      step before item = .ok after → Holds after)
    {items : List α} {first last : β} (hfirst : Holds first)
    (hrun : items.foldlM step first = .ok last) : Holds last := by
  induction items generalizing first with
  | nil =>
      rw [List.foldlM_nil, pure_eq_ok_iff] at hrun
      exact hrun ▸ hfirst
  | cons item items ih =>
      rw [List.foldlM_cons, bind_eq_ok_iff] at hrun
      obtain ⟨next, hnext, hrest⟩ := hrun
      exact ih (hstep first item next hfirst hnext) hrest

/-- A run passes over an item on which every step succeeds and changes nothing. -/
theorem foldlM_skip {step : β → α → Except ε β} {skipped : α}
    (hskip : ∀ state, step state skipped = .ok state) (front back : List α)
    (first : β) :
    (front ++ skipped :: back).foldlM step first =
      (front ++ back).foldlM step first := by
  rw [List.foldlM_append, List.foldlM_append]
  congr 1
  funext state
  rw [List.foldlM_cons, hskip]
  rfl

end VideoRegistry
