import VideoRegistry.Registry.Basic

/-!
# Closing the lists of extensions

A struct that a listed struct uses as a member type, and that no extension emits
yet, joins the list of the same extension, in front of the entry that needed it
and behind the structs it uses itself.  A used struct may also belong to the
extension that the list's own extension depends on, and to no other.
-/

namespace VideoRegistry

/-- A list without all occurrences of one name. -/
def without (name : String) (names : List String) : List String :=
  names.filter (· != name)

theorem length_without_lt {name : String} {names : List String}
    (hmem : name ∈ names) : (without name names).length < names.length := by
  apply List.length_filter_lt_length_iff_exists.2
  exact ⟨name, hmem, by simp⟩

/-- What closing the list of one extension changes: who owns what, and the new
list, which only grows. -/
structure Claims where
  ownership : Ownership
  settled : List String
deriving DecidableEq, Repr

namespace Registry

/-- The owner of a type that an extension may not take it from: the first one
that is neither the extension nor what it depends on. -/
def foreignOwner? (registry : Registry) (extension : Nat)
    (ownership : Ownership) (name : String) : Option Nat :=
  (ownership.ownersOf name).find? fun owner =>
    owner != extension &&
      ((registry.extensions[extension]?).bind Extension.depends) != some owner

/-- Claims a struct that `user` uses for an extension, unless it has an owner. -/
def claim (registry : Registry) (extension : Nat) (user used : String)
    (claims : Claims) : Checked Claims :=
  match registry.foreignOwner? extension claims.ownership used with
  | some owner => .error ⟨registry.lineOf user, .foreignStruct user used
      (registry.extensionName owner) (registry.extensionName extension)⟩
  | none =>
      if (claims.ownership.ownersOf used).isEmpty then
        .ok ⟨claims.ownership.add used extension, claims.settled ++ [used]⟩
      else .ok claims

/-- Claims the structs that `user` uses, each behind what it uses itself.  The
structs that are not on the path to `user` are `available`; one on the path is
passed over, which ends the walk on every graph. -/
def claimMembers (registry : Registry) (extension : Nat) (user : String)
    (available : List String) (used : List String) (claims : Claims) :
    Checked Claims :=
  match used with
  | [] => .ok claims
  | name :: rest =>
      if _hmem : name ∈ available then do
        let claims ← claimMembers registry extension name
          (without name available) (registry.memberStructs name) claims
        let claims ← registry.claim extension user name claims
        claimMembers registry extension user available rest claims
      else claimMembers registry extension user available rest claims
termination_by (available.length, used.length)
decreasing_by
  · exact Prod.Lex.left _ _ (length_without_lt ‹_›)
  · exact Prod.Lex.right _ (by simp)
  · exact Prod.Lex.right _ (by simp)

def structNames (registry : Registry) : List String :=
  registry.structs.map fun entry => entry.1.name

/-- Closes the list of one extension, entry by entry. -/
def closeList (registry : Registry) (extension : Nat) (claims : Claims) :
    List String → Checked Claims
  | [] => .ok claims
  | name :: rest => do
      let claims ←
        if registry.isStruct name then
          registry.claimMembers extension name
            (without name registry.structNames) (registry.memberStructs name)
            claims
        else .ok claims
      closeList registry extension
        { claims with settled := claims.settled ++ [name] } rest

/-- Closes the lists of the given extensions, the first of which has the given
position. -/
def closeFrom (registry : Registry) (position : Nat) (ownership : Ownership) :
    List Extension → Checked (Ownership × List Extension)
  | [] => .ok (ownership, [])
  | extension :: rest => do
      let claims ← registry.closeList position ⟨ownership, []⟩ extension.types
      let (ownership, closed) ←
        registry.closeFrom (position + 1) claims.ownership rest
      return (ownership, { extension with types := claims.settled } :: closed)

/-- Closes the lists of all extensions, in declaration order. -/
def close (registry : Registry) : Checked Registry := do
  let (ownership, extensions) ←
    registry.closeFrom 0 registry.ownership registry.extensions
  return { registry with ownership := ownership, extensions := extensions }

end Registry

end VideoRegistry
