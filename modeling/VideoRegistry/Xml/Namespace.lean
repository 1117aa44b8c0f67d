import VideoRegistry.Xml.Tag

/-!
# Name spaces

Name spaces only decide whether a document is accepted: every qualifier must be
declared, the two reserved name spaces keep their own qualifiers, and no two
attributes of an element have the same name in the same name space.
-/

namespace VideoRegistry.Xml

/-- Declared name spaces by qualifier, innermost first; the default one has no
qualifier. -/
abbrev Scope := List (Option (List Char) × List Char)

def declaring : List Char := ['x', 'm', 'l', 'n', 's']

def reserved : List Char := ['x', 'm', 'l']

def reservedSpace : List Char :=
  "http://www.w3.org/XML/1998/namespace".toList

def declaringSpace : List Char :=
  "http://www.w3.org/2000/xmlns/".toList

/-- The name space of a declared qualifier. -/
def Scope.find? (scope : Scope) (qualifier : List Char) : Option (List Char) :=
  (List.find? (fun declared => declared.1 = some qualifier) scope).map Prod.snd

/-- Parts the name spaces that an element declares from its attributes. -/
def declarations? :
    List RawAttribute → Option (Scope × List RawAttribute)
  | [] => some ([], [])
  | attr :: rest => do
      let (scope, attributes) ← declarations? rest
      if attr.name.qualifier = declaring then
        let qualifier := attr.name.localName
        let isReserved : Bool := attr.value = reservedSpace
        if attr.value = declaringSpace then none
        else if (qualifier = reserved : Bool) != isReserved then none
        else if (scope.find? qualifier).isSome then none
        else if isReserved then some (scope, attributes)
        else some ((some qualifier, attr.value) :: scope, attributes)
      else if attr.name.localName = declaring then
        if attr.value = reservedSpace || attr.value = declaringSpace then none
        else some ((none, attr.value) :: scope, attributes)
      else some (scope, attr :: attributes)

/-- The name space of an attribute, if it has a qualifier; fails for one that is
not declared. -/
def attributeSpace? (scope : Scope) (name : QualifiedName) :
    Option (Option (List Char)) :=
  if name.qualifier = reserved then some (some reservedSpace)
  else if name.qualifier = [] then some none
  else (scope.find? name.qualifier).map some

/-- Whether an element may have the given name. -/
def allowsElement (scope : Scope) (name : QualifiedName) : Bool :=
  name.qualifier.isEmpty ||
    (name.qualifier != declaring && (scope.find? name.qualifier).isSome)

/-- Whether all attributes have declared and distinct names. -/
def allowsAttributes (scope : Scope) (attributes : List RawAttribute) : Bool :=
  match attributes.mapM fun attr =>
      (attributeSpace? scope attr.name).map fun space =>
        (space, attr.name.localName) with
  | some names => decide names.Nodup
  | none => false

end VideoRegistry.Xml
