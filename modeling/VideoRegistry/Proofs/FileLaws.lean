import VideoRegistry.Files

/-!
# Laws of files

A run relies on little of the place where it keeps its files: that reading and
looking change nothing, that making directories changes no file, that a temporary
file is fresh and stays apart from all others until it is moved as a whole, and
that one which is discarded is gone.  The laws are stated over a view of the
states of that place: which file is where, and where a path leads.
-/

namespace VideoRegistry

/-- A view of the states of a place for files.  Keys name where a file may be. -/
structure FileView (σ τ κ : Type) where
  /-- The mode and the bytes of the file at a key. -/
  fileAt : σ → κ → Option (Mode × ByteArray)
  /-- The key that a path leads to. -/
  locate : σ → String → Option κ
  /-- The key of a temporary file. -/
  keyOf : τ → κ

namespace FileView

variable {σ τ κ : Type} (view : FileView σ τ κ)

/-- The same files are there afterwards, with the same modes and bytes. -/
def Keeps (before after : σ) : Prop :=
  ∀ key, view.fileAt after key = view.fileAt before key

/-- The same files are there afterwards, but for one key. -/
def KeepsBut (changed : κ) (before after : σ) : Prop :=
  ∀ key, key ≠ changed → view.fileAt after key = view.fileAt before key

/-- Paths that led somewhere lead there afterwards. -/
def LeadsOn (before after : σ) : Prop :=
  ∀ path key, view.locate before path = some key → view.locate after path = some key

variable {view} {changed : κ} {before middle after : σ}

theorem Keeps.refl (state : σ) : view.Keeps state state := fun _ => rfl

theorem Keeps.trans (hfirst : view.Keeps before middle)
    (hsecond : view.Keeps middle after) : view.Keeps before after :=
  fun key => (hsecond key).trans (hfirst key)

theorem Keeps.but (hkeeps : view.Keeps before after) :
    view.KeepsBut changed before after :=
  fun key _ => hkeeps key

theorem LeadsOn.trans (hfirst : view.LeadsOn before middle)
    (hsecond : view.LeadsOn middle after) : view.LeadsOn before after :=
  fun path key hbefore => hsecond path key (hfirst path key hbefore)

theorem KeepsBut.trans (hfirst : view.KeepsBut changed before middle)
    (hsecond : view.KeepsBut changed middle after) :
    view.KeepsBut changed before after :=
  fun key hne => (hsecond key hne).trans (hfirst key hne)

/-- If there is as little at the one key as there was, nothing changed. -/
theorem KeepsBut.keeps (hkeeps : view.KeepsBut changed before after)
    (hsame : view.fileAt after changed = view.fileAt before changed) :
    view.Keeps before after := by
  intro key
  by_cases hkey : key = changed
  · exact hkey ▸ hsame
  · exact hkeeps key hkey

end FileView

variable {σ τ κ : Type}

/-- What a run relies on.  Only a temporary file is ever written to, it is fresh,
and it takes the place of another file as a whole or not at all. -/
structure Files.Obeys (files : Files τ (StateM σ)) (view : FileView σ τ κ) :
    Prop where
  /-- Reading changes nothing. -/
  read : ∀ path state, ((files.read path).run state).2 = state
  /-- Asking for a mode changes nothing. -/
  mode? : ∀ path state, ((files.mode? path).run state).2 = state
  /-- Making directories changes no file, even if some cannot be made. -/
  makeDirs : ∀ path state outcome after,
    (files.makeDirs path).run state = (outcome, after) → view.Keeps state after
  /-- No file is left of a temporary file that cannot be created. -/
  createTemporary_error : ∀ directory mode state error after,
    (files.createTemporary directory mode).run state = (.error error, after) →
      view.Keeps state after
  /-- A temporary file is created where no file was. -/
  createTemporary_ok : ∀ directory mode state temporary after,
    (files.createTemporary directory mode).run state = (.ok temporary, after) →
      view.fileAt state (view.keyOf temporary) = none ∧
        view.KeepsBut (view.keyOf temporary) state after
  /-- Writing, as far as it gets, changes the temporary file alone. -/
  fill : ∀ temporary content state outcome after,
    (files.fill temporary content).run state = (outcome, after) →
      view.KeepsBut (view.keyOf temporary) state after
  /-- What is written to the end is there. -/
  fill_ok : ∀ temporary content state after,
    (files.fill temporary content).run state = (.ok (), after) →
      ∃ mode, view.fileAt after (view.keyOf temporary) = some (mode, content)
  /-- A temporary file that cannot be moved stays where it is. -/
  persist_error : ∀ temporary path state error after,
    (files.persist temporary path).run state = (.error error, after) →
      view.Keeps state after
  /-- A temporary file that is moved is where the path leads, and nowhere else. -/
  persist_ok : ∀ temporary path state file after,
    view.fileAt state (view.keyOf temporary) = some file →
      (files.persist temporary path).run state = (.ok (), after) →
        ∃ target, view.locate after path = some target ∧
          view.fileAt after target = some file ∧
          (view.keyOf temporary ≠ target →
            view.fileAt after (view.keyOf temporary) = none) ∧
          ∀ key, key ≠ target → key ≠ view.keyOf temporary →
            view.fileAt after key = view.fileAt state key
  /-- A discarded temporary file is gone. -/
  discard : ∀ temporary state,
    view.fileAt ((files.discard temporary).run state).2 (view.keyOf temporary) =
        none ∧
      view.KeepsBut (view.keyOf temporary) state
        ((files.discard temporary).run state).2

/-- What the mode of a written header rests on: a file is created with the mode asked
for less a mask, no later step changes it, and paths lead on where they led. -/
structure Files.ObeysModes (files : Files τ (StateM σ)) (view : FileView σ τ κ)
    (mask : σ → Mode) : Prop where
  /-- No mode is told of a path that leads nowhere. -/
  mode?_none : ∀ path state, view.locate state path = none →
    ((files.mode? path).run state).1 = none
  /-- The mode told of a path to a file is that of the file. -/
  mode?_some : ∀ path state key mode content, view.locate state path = some key →
    view.fileAt state key = some (mode, content) →
      ((files.mode? path).run state).1 = some mode
  /-- Making directories leaves the mask alone, and paths lead on. -/
  makeDirs : ∀ directory state outcome after,
    (files.makeDirs directory).run state = (outcome, after) →
      mask after = mask state ∧ view.LeadsOn state after
  /-- A temporary file is created empty, with the mode asked for less the mask.  No
  path led to it, and all others lead where they led. -/
  createTemporary : ∀ directory mode state temporary after,
    (files.createTemporary directory mode).run state = (.ok temporary, after) →
      view.fileAt after (view.keyOf temporary) =
          some (mode.less (mask state), ByteArray.empty) ∧
        (∀ path, view.locate state path ≠ some (view.keyOf temporary)) ∧
          view.LeadsOn state after ∧
            ∀ path key, view.locate after path = some key →
              key ≠ view.keyOf temporary → view.locate state path = some key
  /-- Writing to the end changes neither the mode nor where paths lead. -/
  fill : ∀ temporary content state mode found after,
    view.fileAt state (view.keyOf temporary) = some (mode, found) →
      (files.fill temporary content).run state = (.ok (), after) →
        view.fileAt after (view.keyOf temporary) = some (mode, content) ∧
          view.LeadsOn state after ∧ view.LeadsOn after state
  /-- A file is moved to where the path led, if it led anywhere, and that was to a
  file.  It takes the place of a file only if the path led there. -/
  persist : ∀ temporary path state file target after,
    view.fileAt state (view.keyOf temporary) = some file →
      (files.persist temporary path).run state = (.ok (), after) →
        view.locate after path = some target →
          (∀ key, view.locate state path = some key →
            key = target ∧ (view.fileAt state key).isSome) ∧
          ((view.fileAt state target).isSome →
            view.locate state path = some target)

end VideoRegistry
