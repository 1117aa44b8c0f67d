/-!
# Tables of a settings file

A settings file is a table of values.  How a table came about decides what may
still be added to it: one written inline is complete, one with a header of its
own has no second header and takes no dotted keys from elsewhere, one that dotted
keys fill gets no header, and one that a header merely passed through may get a
header or be filled by dotted keys.
-/

namespace VideoRegistry.Toml

/-- How a table came about. -/
inductive Origin where
  | header
  | passed
  | dotted
  | inlined
deriving DecidableEq, Repr

/-- A value.  Numbers and dates are kept as written, integers with their base and
all numbers without the underscores between their digits; an array whose elements
have headers is kept apart from one that is written out. -/
inductive Value where
  | text (content : String)
  | integer (base : Nat) (written : List Char)
  | float (written : List Char)
  | boolean (value : Bool)
  | date (written : List Char)
  | array (items : List Value)
  | table (origin : Origin) (entries : List (String × Value))
  | tables (items : List (List (String × Value)))

abbrev Table := List (String × Value)

namespace Table

def get? (table : Table) (key : String) : Option Value :=
  (table.find? fun entry => entry.1 = key).map Prod.snd

/-- Replaces the value of a key, or adds the key at the end. -/
def set (key : String) (value : Value) : Table → Table
  | [] => [(key, value)]
  | entry :: rest =>
      if entry.1 = key then (key, value) :: rest else entry :: set key value rest

end Table

/-- The origin of a table that a path has passed through, unless the path may not
enter it.  A dotted key makes a table its own that was only passed before. -/
def Origin.passedBy? (passing found : Origin) : Option Origin :=
  match passing, found with
  | _, .inlined => none
  | .dotted, .header => none
  | .dotted, .passed => some .dotted
  | _, _ => some found

/-- Changes the table that a path leads to from a table.  Missing tables on the
way come about with the given origin; of an array of tables, the last element is
entered.  The change is told the origin of the table it gets. -/
def changeAt (passing : Origin) (change : Origin → Table → Option Table)
    (origin : Origin) (table : Table) : List String → Option Table
  | [] => change origin table
  | key :: path =>
      match table.get? key with
      | none => (changeAt passing change passing [] path).map fun inner =>
          table.set key (.table passing inner)
      | some (.table found entries) =>
          (passing.passedBy? found).bind fun entered =>
            (changeAt passing change entered entries path).map fun inner =>
              table.set key (.table entered inner)
      | some (.tables items) =>
          match items.getLast? with
          | none => none
          | some last => (changeAt passing change .header last path).map
              fun inner => table.set key (.tables (items.dropLast ++ [inner]))
      | some _ => none

/-- Adds a value under a dotted key; all but the last part lead to its table. -/
def addValue (path : List String) (key : String) (value : Value)
    (origin : Origin) (table : Table) : Option Table :=
  changeAt .dotted (fun reached inner =>
    if (reached = .dotted : Bool) = path.isEmpty then none
    else if (inner.get? key).isSome then none
    else some (inner.set key value)) origin table path

/-- Begins a table with a header of its own. -/
def beginTable (path : List String) (key : String) (root : Table) :
    Option Table :=
  changeAt .passed (fun _ inner =>
    match inner.get? key with
    | none => some (inner.set key (.table .header []))
    | some (.table .passed entries) =>
        some (inner.set key (.table .header entries))
    | some _ => none) .header root path

/-- Begins the next element of an array of tables. -/
def beginElement (path : List String) (key : String) (root : Table) :
    Option Table :=
  changeAt .passed (fun _ inner =>
    match inner.get? key with
    | none => some (inner.set key (.tables [[]]))
    | some (.tables items) => some (inner.set key (.tables (items ++ [[]])))
    | some _ => none) .header root path

end VideoRegistry.Toml
