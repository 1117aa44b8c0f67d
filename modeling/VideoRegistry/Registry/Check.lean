import VideoRegistry.Literal
import VideoRegistry.Registry.Basic

/-!
# Checking a registry

A registry whose lists are closed and ordered may be emitted if every struct has
exactly one owner, every member has a declared type, and every array size is a
decimal literal or a constant within reach of the owner.  A member of a registry
type that no extension emits is only worth a warning.
-/

namespace VideoRegistry

namespace Registry

/-- Whether a constant is given by an extension or the one it depends on. -/
def reachesConstant (registry : Registry) (extension : Nat) (name : String) :
    Bool :=
  (registry.constantsOf extension).contains name ||
    ((registry.extensions[extension]?).bind Extension.depends).any fun provider =>
      (registry.constantsOf provider).contains name

/-- The first array size of a member that is neither a literal nor known. -/
def unknownSize? (registry : Registry) (owner : Nat) (member : Member) :
    Option String :=
  member.arraySizes.find? fun size =>
    !(Literal.isDecimal size || registry.reachesConstant owner size)

/-- Whether a name is that of a registry type which no extension emits. -/
def isNeverRequired (registry : Registry) (typeLead name : String) : Bool :=
  (registryName? typeLead name).isSome &&
    (registry.ownership.ownersOf name).isEmpty

def checkMember (registry : Registry) (typeLead struct : String) (owner : Nat)
    (member : Member) : Checked (List Warning) := do
  let type := member.type.name
  require (registry.declares type) member.line (.unknownMemberType type)
  match registry.unknownSize? owner member with
  | some size => .error ⟨member.line, .unknownArraySize member.name size⟩
  | none =>
      return Located.warnUnless (!registry.isNeverRequired typeLead type)
        member.line (.neverRequired type struct) []

def checkMembers (registry : Registry) (typeLead struct : String)
    (owner : Nat) : List Member → Checked (List Warning)
  | [] => .ok []
  | member :: rest => do
      let noticed ← registry.checkMember typeLead struct owner member
      let warnings ← registry.checkMembers typeLead struct owner rest
      return noticed ++ warnings

/-- Checks a struct and gives the warnings about its members. -/
def checkStruct (registry : Registry) (typeLead : String)
    (entry : TypeEntry × List Member) : Checked (List Warning) :=
  match registry.ownership.ownersOf entry.1.name with
  | [] => .error ⟨entry.1.line, .unownedStruct entry.1.name⟩
  | [owner] => registry.checkMembers typeLead entry.1.name owner entry.2
  | _ :: _ :: _ => .error ⟨entry.1.line, .sharedStruct entry.1.name⟩

def checkStructs (registry : Registry) (typeLead : String) :
    List (TypeEntry × List Member) → Checked (List Warning)
  | [] => .ok []
  | entry :: rest => do
      let noticed ← registry.checkStruct typeLead entry
      let warnings ← registry.checkStructs typeLead rest
      return noticed ++ warnings

/-- Checks all structs of a registry in declaration order.  The registry gets the
warnings at the end. -/
def checking (typeLead : String) : ExceptT SpecError (StateM Registry) Unit := do
  let registry ← get
  let warnings ← registry.checkStructs typeLead registry.structs
  modify fun registry => registry.warn warnings

/-- The outcome of a check and the registry that it leaves. -/
def checkInPlace (registry : Registry) (typeLead : String) : Checked Unit × Registry :=
  (checking typeLead).run.run registry

/-- The registry that a check leaves; after a fault nobody asks for it. -/
def check (registry : Registry) (typeLead : String) : Checked Registry :=
  match registry.checkInPlace typeLead with
  | (.ok (), checked) => .ok checked
  | (.error fault, _) => .error fault

end Registry

end VideoRegistry
