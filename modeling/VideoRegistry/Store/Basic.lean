import VideoRegistry.Files

/-!
# File trees

A store maps locations, the names that lead from the root to an entry, to
directories and files.  The root is always a directory.  Access rights are
recorded and not enforced; a store may have room for only so many entries and
bytes.
-/

namespace VideoRegistry

abbrev Location := List String

inductive Entry where
  | directory
  | file (mode : Mode) (content : ByteArray)

/-- A file tree with the directory that relative paths start from, the bits that
new files never get, and the room that there is for entries and bytes. -/
structure Store where
  entries : List (Location × Entry) := []
  workDir : Location := []
  mask : Mode := 0o022
  room : Option Nat := none

namespace Store

/-- What stands at a location. -/
def get? (store : Store) (location : Location) : Option Entry :=
  if location = [] then some .directory
  else (store.entries.find? fun entry => entry.1 = location).map Prod.snd

/-- Replaces the entry of a location, or adds one at the end. -/
def putIn (location : Location) (entry : Entry) :
    List (Location × Entry) → List (Location × Entry)
  | [] => [(location, entry)]
  | found :: rest =>
      if found.1 = location then (location, entry) :: rest
      else found :: putIn location entry rest

/-- Puts an entry at a location. -/
def put (store : Store) (location : Location) (entry : Entry) : Store :=
  { store with entries := putIn location entry store.entries }

/-- Takes the entry of a location away. -/
def drop (store : Store) (location : Location) : Store :=
  { store with entries := store.entries.filter fun entry => entry.1 ≠ location }

theorem find?_putIn (location other : Location) (entry : Entry)
    (entries : List (Location × Entry)) :
    ((putIn location entry entries).find? fun found => found.1 = other).map
        Prod.snd =
      if location = other then some entry
      else (entries.find? fun found => found.1 = other).map Prod.snd := by
  induction entries with
  | nil => by_cases h : location = other <;> simp [putIn, h]
  | cons found rest ih =>
      by_cases hfound : found.1 = location
      · by_cases h : location = other
        · simp [putIn, hfound, h]
        · have hother : found.1 ≠ other := fun heq => h (hfound.symm.trans heq)
          simp [putIn, hfound, h]
      · by_cases h : found.1 = other
        · have hne : location ≠ other := fun heq => hfound (h.trans heq.symm)
          have hreverse : other ≠ location := fun heq => hne heq.symm
          simp [putIn, h, hne, hreverse]
        · simpa [putIn, hfound, h] using ih

theorem get?_put (store : Store) {location : Location} (entry : Entry)
    (other : Location) (hlocation : location ≠ []) :
    (store.put location entry).get? other =
      if location = other then some entry else store.get? other := by
  by_cases hroot : other = []
  · simp [get?, hroot, hlocation]
  · simp only [get?, put, hroot, if_false, find?_putIn]

theorem get?_drop_of_ne (store : Store) {location other : Location}
    (hne : other ≠ location) :
    (store.drop location).get? other = store.get? other := by
  by_cases hroot : other = []
  · simp [get?, hroot]
  · have hkeep (found : Location × Entry) :
        (found.1 ≠ location ∧ found.1 = other) ↔ found.1 = other :=
      ⟨And.right, fun hfound => ⟨fun heq => hne (hfound.symm.trans heq), hfound⟩⟩
    simp only [get?, drop, hroot, if_false, List.find?_filter,
      decide_eq_true_eq, hkeep]

theorem get?_drop (store : Store) {location : Location} (other : Location)
    (hlocation : location ≠ []) :
    (store.drop location).get? other =
      if location = other then none else store.get? other := by
  by_cases h : location = other
  · subst h
    simp [get?, drop, hlocation, List.find?_filter]
  · rw [if_neg h, get?_drop_of_ne store (Ne.symm h)]

/-- What an entry takes up: one for itself and one for every byte. -/
def weight : Entry → Nat
  | .directory => 1
  | .file _ content => 1 + content.size

/-- Puts an entry at a location if there is room for it. -/
def place (store : Store) (location : Location) (entry : Entry) :
    Except FileError Store :=
  let next := store.put location entry
  let used := next.entries.foldl (fun used found => used + weight found.2) 0
  if store.room.all (used ≤ ·) then .ok next else .error .noSpace

/-- The names in a directory, in the order of their characters. -/
def namesIn (store : Store) (directory : Location) : List String :=
  (store.entries.filterMap fun (location, _) =>
    match location.getLast? with
    | some name => if location.dropLast = directory then some name else none
    | none => none).mergeSort (· ≤ ·)

end Store

end VideoRegistry
