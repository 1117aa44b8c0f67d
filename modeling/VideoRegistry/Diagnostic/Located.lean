/-!
# Located diagnostics

A diagnostic is a cause with the line of the document it was found on.  Faults
end the work on a document; findings are collected as warnings and the work goes
on.
-/

namespace VideoRegistry

structure Located (κ : Type) where
  line : Nat
  cause : κ
deriving DecidableEq, Repr

namespace Located

variable {κ : Type}

/-- The text of a fault whose cause has the given wording. -/
def faultText (wording : κ → String) (fault : Located κ) : String :=
  s!"spec error on line {fault.line}: " ++ wording fault.cause

/-- The text of a warning whose cause has the given wording. -/
def warningText (wording : κ → String) (warning : Located κ) : String :=
  s!"spec warning on line {warning.line}: " ++ wording warning.cause

/-- Collects a warning unless a condition holds. -/
def warnUnless (holds : Bool) (line : Nat) (cause : κ)
    (warnings : List (Located κ)) : List (Located κ) :=
  if holds then warnings else warnings ++ [⟨line, cause⟩]

/-- Collects a warning for every item that a condition does not hold of. -/
def warnAbout {α : Type} (holds : α → Bool) (line : α → Nat) (cause : α → κ)
    (items : List α) : List (Located κ) :=
  items.foldl (fun warnings item =>
    warnUnless (holds item) (line item) (cause item) warnings) []

theorem warnAbout_eq {α : Type} (holds : α → Bool) (line : α → Nat)
    (cause : α → κ) (items : List α) :
    warnAbout holds line cause items =
      (items.filter fun item => !holds item).map fun item =>
        ⟨line item, cause item⟩ := by
  -- The fold goes on from the warnings that were collected before.
  suffices hfold : ∀ warnings : List (Located κ),
      items.foldl (fun warnings item =>
          warnUnless (holds item) (line item) (cause item) warnings) warnings =
        warnings ++ (items.filter fun item => !holds item).map fun item =>
          ⟨line item, cause item⟩ by
    simpa [warnAbout] using hfold []
  induction items with
  | nil => simp
  | cons item items ih =>
      intro warnings
      rw [List.foldl_cons, ih]
      cases hholds : holds item <;> simp [warnUnless, hholds]

end Located

end VideoRegistry
