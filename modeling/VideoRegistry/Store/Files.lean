import VideoRegistry.Store.Operations

/-!
# Files of a file tree

The operations on files that a store offers.  An operation that fails leaves the
store as it was, apart from directories that were made on the way.
-/

namespace VideoRegistry

/-- What external programs do to a store. -/
abbrev Tools := String → List String → Store → Store

namespace Store

/-- Takes the next store of an operation that may fail. -/
def attempt {α : Type} (operation : Store → Except FileError (α × Store)) :
    StateM Store (Except FileError α) := fun store =>
  match operation store with
  | .ok (value, next) => (.ok value, next)
  | .error error => (.error error, store)

/-- The files of a store.  External programs do what the tools say. -/
def files (tools : Tools) : Files Location (StateM Store) where
  read path := fun store => (store.read path, store)
  makeDirs path := fun store => store.makeDirs path
  mode? path := fun store => (store.mode? path, store)
  createTemporary directory mode :=
    attempt fun store => store.createTemporary directory mode
  pathOf location := "/" ++ "/".intercalate location
  fill location content :=
    attempt fun store => (store.fill location content).map ((), ·)
  persist location path :=
    attempt fun store => (store.persist location path).map ((), ·)
  discard location := modify fun store => store.drop location
  invoke program args := modify (tools program args)

end Store

end VideoRegistry
