/-!
# Ownership of types

Which extensions emit which type, as a finite relation between type names and
extension positions.  Claims are kept without repeats and in order of the
extensions, so the owners of a type are listed in declaration order.
-/

namespace VideoRegistry

structure Ownership where
  claims : List (String × Nat)
deriving DecidableEq, Repr

namespace Ownership

def empty : Ownership := ⟨[]⟩

instance : Inhabited Ownership := ⟨empty⟩

/-- Whether `extension` is an owner of `type`. -/
def owns (ownership : Ownership) (type : String) (extension : Nat) : Bool :=
  ownership.claims.contains (type, extension)

/-- The owners of a type, in declaration order. -/
def ownersOf (ownership : Ownership) (type : String) : List Nat :=
  (ownership.claims.filter fun claim => claim.1 = type).map Prod.snd

def insertClaim (claim : String × Nat) :
    List (String × Nat) → List (String × Nat)
  | [] => [claim]
  | other :: rest =>
      if claim.2 < other.2 then claim :: other :: rest
      else other :: insertClaim claim rest

def add (ownership : Ownership) (type : String) (extension : Nat) : Ownership :=
  if ownership.owns type extension then ownership
  else ⟨insertClaim (type, extension) ownership.claims⟩

def remove (ownership : Ownership) (type : String) (extension : Nat) :
    Ownership :=
  ⟨ownership.claims.filter fun claim => claim != (type, extension)⟩

end Ownership

end VideoRegistry
