/-!
# Paths

Paths are texts with parts between slashes.  Joining and taking the parent work
on the text alone: a part that is empty or a dot is passed over at the end, and
nothing else is normalized.
-/

namespace VideoRegistry.Path

/-- A path taken from a base: an absolute one stands for itself. -/
def join (base path : String) : String :=
  if path.toList.head? = some '/' || base.isEmpty then path
  else if base.toList.getLast? = some '/' then base ++ path
  else base ++ "/" ++ path

/-- Drops slashes and parts that are dots from the end of a path, which is given
last character first.  The slash of the root stays. -/
def dropVoid : List Char → List Char
  | '/' :: c :: rest => dropVoid (c :: rest)
  | '.' :: '/' :: rest => dropVoid ('/' :: rest)
  | path => path

theorem length_dropVoid_le (path : List Char) :
    (dropVoid path).length ≤ path.length := by
  fun_induction dropVoid path with
  | case1 c rest ih => simp only [List.length_cons] at ih ⊢; omega
  | case2 rest ih => simp only [List.length_cons] at ih ⊢; omega
  | case3 => exact Nat.le_refl _

/-- The parent of a path given last character first.  The root and the empty
path have none; a path of one part has the empty parent. -/
def parentReversed? (path : List Char) : Option (List Char) :=
  match dropVoid path with
  | [] => none
  | c :: rest =>
      if c = '/' then none
      else some (dropVoid (rest.dropWhile (· != '/')))

theorem length_lt_of_parentReversed? {path parent : List Char}
    (hparent : parentReversed? path = some parent) :
    parent.length < path.length := by
  unfold parentReversed? at hparent
  have hpath := length_dropVoid_le path
  split at hparent
  · simp at hparent
  · next c rest hvoid =>
      split at hparent
      · simp at hparent
      · obtain rfl := by simpa using hparent
        have hdrop := (List.dropWhile_sublist (· != '/') (l := rest)).length_le
        have hrest := length_dropVoid_le (rest.dropWhile (· != '/'))
        rw [hvoid] at hpath
        simp only [List.length_cons] at hpath
        omega

def parent? (path : String) : Option String :=
  (parentReversed? path.toList.reverse).map fun parent =>
    String.ofList parent.reverse

/-- The directory a file belongs to: its parent, or else the working
directory. -/
def directory (path : String) : String :=
  match parent? path with
  | some parent => if parent.isEmpty then "." else parent
  | none => "."

/-- The parts of a path, without the empty ones. -/
def parts (path : String) : List String :=
  ((path.toList.splitOn '/').filter (· ≠ [])).map String.ofList

def isAbsolute (path : String) : Bool :=
  path.toList.head? = some '/'

def endsInSlash (path : String) : Bool :=
  path.toList.getLast? = some '/'

end VideoRegistry.Path
