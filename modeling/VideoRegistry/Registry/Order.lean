import VideoRegistry.Registry.Closure

/-!
# Ordering the lists of extensions

In the list of an extension, every struct moves behind the structs that it uses
as member types.  Entries keep their order unless a used struct has to come
first, and cycles are cut where the walk meets them.  A used struct that is not
in the list has to be in the list of the extension depended on.
-/

namespace VideoRegistry

/-- Where the structs of a list may come from: the list itself as it was, and
what the extension depended on provides. -/
structure Sources where
  extension : String
  listed : List String
  provided : List String
deriving DecidableEq, Repr

/-- What the lists provide an extension with: the list of the one it depends
on. -/
def Extension.provided (extension : Extension) (lists : List Extension) :
    List String :=
  ((extension.depends.bind (lists[·]?)).map Extension.types).getD []

namespace Registry

/-- Places the listed structs that `user` uses, each behind what it uses itself.
The entries of the list that are not on the path to `user` are `waiting`. -/
def placeMembers (registry : Registry) (sources : Sources) (user : String)
    (waiting : List String) (used : List String) (settled : List String) :
    Checked (List String) :=
  match used with
  | [] => .ok settled
  | name :: rest =>
      if name ∈ settled then
        placeMembers registry sources user waiting rest settled
      else if _hmem : name ∈ waiting then do
        let settled ← placeMembers registry sources name (without name waiting)
          (registry.memberStructs name) settled
        placeMembers registry sources user waiting rest (settled ++ [name])
      else if name ∈ sources.listed || name ∈ sources.provided then
        placeMembers registry sources user waiting rest settled
      else .error ⟨registry.lineOf user,
        .unlistedStruct user name sources.extension⟩
termination_by (waiting.length, used.length)
decreasing_by
  · exact Prod.Lex.right _ (by simp)
  · exact Prod.Lex.left _ _ (length_without_lt ‹_›)
  · exact Prod.Lex.right _ (by simp)
  · exact Prod.Lex.right _ (by simp)

/-- Places the entries of a list that are not placed yet. -/
def placeList (registry : Registry) (sources : Sources)
    (settled : List String) : List String → Checked (List String)
  | [] => .ok settled
  | name :: rest =>
      if name ∈ settled then placeList registry sources settled rest
      else if registry.isStruct name then do
        let settled ← registry.placeMembers sources name
          (without name sources.listed) (registry.memberStructs name) settled
        placeList registry sources (settled ++ [name]) rest
      else placeList registry sources (settled ++ [name]) rest

/-- Orders the lists of the extensions behind those that are `done`.  The list
under way is taken out meanwhile, so an extension provides nothing to itself. -/
def orderBehind (registry : Registry) (done : List Extension) :
    List Extension → Checked (List Extension)
  | [] => .ok done
  | extension :: rest => do
      let lists := done ++ { extension with types := [] } :: rest
      let sources : Sources :=
        ⟨extension.name, extension.types, extension.provided lists⟩
      let types ← registry.placeList sources [] extension.types
      registry.orderBehind (done ++ [{ extension with types := types }]) rest

/-- Orders the lists of all extensions, in declaration order.  A list may use what
its provider lists by then: ordered already if the provider comes first. -/
def order (registry : Registry) : Checked Registry := do
  let extensions ← registry.orderBehind [] registry.extensions
  return { registry with extensions := extensions }

end Registry

end VideoRegistry
