/-!
# Maps from names

A finite map whose keys are names, listed in code-point order of the names.
Attributes of an element, constants of an extension and the slots of a template
are kept in this form, so that whatever walks over them meets the names in
order.
-/

namespace VideoRegistry

structure NameMap (α : Type) where
  entries : List (String × α)
deriving DecidableEq, Repr

namespace NameMap

variable {α : Type}

def empty : NameMap α := ⟨[]⟩

instance : Inhabited (NameMap α) := ⟨empty⟩

def names (map : NameMap α) : List String :=
  map.entries.map Prod.fst

def get? (map : NameMap α) (name : String) : Option α :=
  (map.entries.find? fun entry => entry.1 = name).map Prod.snd

def contains (map : NameMap α) (name : String) : Bool :=
  map.entries.any fun entry => entry.1 = name

/-- Places an entry before the first greater name, replacing an equal one. -/
def insertEntry (name : String) (value : α) :
    List (String × α) → List (String × α)
  | [] => [(name, value)]
  | entry :: rest =>
      if entry.1 = name then (name, value) :: rest
      else if name < entry.1 then (name, value) :: entry :: rest
      else entry :: insertEntry name value rest

def insert (map : NameMap α) (name : String) (value : α) : NameMap α :=
  ⟨insertEntry name value map.entries⟩

def ofList (pairs : List (String × α)) : NameMap α :=
  pairs.foldl (fun map pair => map.insert pair.1 pair.2) empty

end NameMap

end VideoRegistry
