import Mathlib.Logic.Unique
import VideoRegistry.Proofs.FileLaws
import VideoRegistry.Proofs.Outcome
import VideoRegistry.Store.Files

/-!
# File trees obey the laws

The operations on a file tree put entries and drop them.  A directory is put
where nothing stood, and a file only at the location of a temporary file or, when
that is moved, where its path leads.
-/

namespace VideoRegistry.Store

variable {store next : Store} {location target : Location} {path : String}
  {mode : Mode} {content : ByteArray}

/-- The mode and the bytes of the file at a location. -/
def fileAt? (store : Store) (location : Location) : Option (Mode × ByteArray) :=
  match store.get? location with
  | some (.file mode content) => some (mode, content)
  | _ => none

/-- Which file is where in a store, and where a path leads. -/
def view : FileView Store Location Location where
  fileAt := fileAt?
  locate store path := (store.find path).toOption.map Prod.fst
  keyOf location := location

theorem fileAt?_eq_some_iff :
    store.fileAt? location = some (mode, content) ↔
      store.get? location = some (.file mode content) := by
  unfold fileAt?
  split
  · next hget => simp [hget]
  · next hnone =>
      constructor
      · intro hfile
        cases hfile
      · intro hget
        exact absurd hget (hnone mode content)

@[simp]
theorem get?_nil (store : Store) : store.get? [] = some .directory := rfl

theorem ne_nil_of_get? {entry : Option Entry} (hget : store.get? location = entry)
    (hentry : entry ≠ some .directory) : location ≠ [] := by
  rintro rfl
  exact hentry (hget ▸ store.get?_nil)

/-! ## Entries that are put and dropped -/

theorem get?_put_self (store : Store) (entry : Entry)
    (hlocation : location ≠ []) :
    (store.put location entry).get? location = some entry := by
  rw [get?_put store entry location hlocation, if_pos rfl]

theorem view_keepsBut_put (store : Store) (entry : Entry)
    (hlocation : location ≠ []) :
    view.KeepsBut location store (store.put location entry) := by
  intro other hne
  show fileAt? _ other = fileAt? _ other
  rw [fileAt?, fileAt?, get?_put store entry other hlocation, if_neg hne.symm]

theorem view_keeps_put_directory (hfree : store.get? location = none) :
    view.Keeps store (store.put location .directory) := by
  have hlocation : location ≠ [] := ne_nil_of_get? hfree (by simp)
  apply (view_keepsBut_put store .directory hlocation).keeps
  show fileAt? _ location = fileAt? _ location
  rw [fileAt?, fileAt?, get?_put store .directory location hlocation, hfree,
    if_pos rfl]

theorem view_keepsBut_drop (store : Store) (location : Location) :
    view.KeepsBut location store (store.drop location) := by
  intro other hne
  show fileAt? _ other = fileAt? _ other
  rw [fileAt?, fileAt?, get?_drop_of_ne store hne]

theorem fileAt?_drop (store : Store) (location : Location) :
    (store.drop location).fileAt? location = none := by
  by_cases hroot : location = []
  · subst hroot
    rfl
  · rw [fileAt?, get?_drop store location hroot, if_pos rfl]

theorem place_eq_ok {entry : Entry}
    (hplace : store.place location entry = .ok next) :
    next = store.put location entry := by
  simp only [place] at hplace
  split at hplace
  · exact (Except.ok.inj hplace).symm
  · cases hplace

/-! ## Directories -/

theorem makeDir_keeps (hmake : store.makeDir path = .ok next) :
    view.Keeps store next := by
  obtain ⟨⟨directory, name⟩, -, hmake⟩ := bind_eq_ok_iff.1 hmake
  dsimp only at hmake
  split at hmake
  · cases hmake
  obtain ⟨_, -, hmake⟩ := bind_eq_ok_iff.1 hmake
  split at hmake
  · cases hmake
  · next hfree =>
      rw [place_eq_ok hmake]
      exact view_keeps_put_directory hfree

/-- The directories of a path are made from the outermost one on.  What the making of
each one keeps is kept. -/
theorem makeDirs_relates {Relates : Store → Store → Prop}
    (hrefl : ∀ store, Relates store store)
    (htrans : ∀ {first middle last}, Relates first middle → Relates middle last →
      Relates first last)
    (hmake : ∀ {store next path}, store.makeDir path = .ok next → Relates store next)
    (store : Store) (path : List Char) :
    Relates store (makeDirs.go store path).2 := by
  have hensure : ∀ (store : Store) (path : String),
      Relates store (store.ensureDir path).2 := by
    intro store path
    rw [ensureDir]
    split
    · next hok => exact hmake hok
    · exact hrefl store
  induction hlength : path.length using Nat.strongRecOn generalizing path with
  | ind length ih =>
      rw [makeDirs.go]
      split
      · exact hrefl store
      dsimp only
      split
      · next hok => exact hmake hok
      · split
        · exact hrefl store
        · next parent hparent =>
            have hlt := Path.length_lt_of_parentReversed? hparent
            have hkept := ih parent.length (hlength ▸ hlt) parent rfl
            split
            · next hgo => rwa [hgo] at hkept
            · next hgo =>
                rw [hgo] at hkept
                exact htrans hkept (hensure _ _)
      · exact hrefl store

/-- Making directories changes no file. -/
theorem makeDirs_keeps (store : Store) (path : List Char) :
    view.Keeps store (makeDirs.go store path).2 :=
  makeDirs_relates FileView.Keeps.refl FileView.Keeps.trans makeDir_keeps store path

/-! ## Temporary files -/

/-- A temporary file is put where nothing stood, with the mode asked for less the
mask. -/
theorem createTemporary_eq {directory : String}
    (hcreate : store.createTemporary directory mode = .ok (location, next)) :
    store.get? location = none ∧
      next = store.put location (.file (mode.less store.mask) ByteArray.empty) := by
  obtain ⟨⟨parent, entry⟩, -, hcreate⟩ := bind_eq_ok_iff.1 hcreate
  obtain ⟨_, -, hcreate⟩ := bind_eq_ok_iff.1 hcreate
  split at hcreate
  · cases hcreate
  · next name hname =>
      obtain ⟨placed, hplace, hcreate⟩ := bind_eq_ok_iff.1 hcreate
      obtain ⟨rfl, rfl⟩ := Prod.mk.inj (pure_eq_ok_iff.1 hcreate)
      have hfree := List.find?_some hname
      exact ⟨Option.isNone_iff_eq_none.1 hfree, place_eq_ok hplace⟩

theorem createTemporary_spec {directory : String}
    (hcreate : store.createTemporary directory mode = .ok (location, next)) :
    store.get? location = none ∧ view.KeepsBut location store next := by
  obtain ⟨hfree, rfl⟩ := createTemporary_eq hcreate
  exact ⟨hfree, view_keepsBut_put store _ (ne_nil_of_get? hfree (by simp))⟩

/-- A file that is filled keeps its mode. -/
theorem fill_spec (hfill : store.fill location content = .ok next) :
    ∃ mode found, store.get? location = some (.file mode found) ∧
      next = store.put location (.file mode content) := by
  unfold fill at hfill
  split at hfill
  · next mode found hget => exact ⟨mode, found, hget, place_eq_ok hfill⟩
  · cases hfill

/-! ## Following a path -/

theorem enter_eq_ok_iff {result : Unit} :
    store.enter location = .ok result ↔
      store.get? location = some .directory := by
  unfold enter
  split <;> simp_all

/-- Where one part of a path leads. -/
def advance (location : Location) (part : String) : Location :=
  if part = "." then location
  else if part = ".." then location.dropLast
  else location ++ [part]

theorem follow_cons {part : String} {rest : List String} :
    store.follow location (part :: rest) = .ok target ↔
      store.get? location = some .directory ∧
        (isAnonymous part ∨ checkName part = .ok ()) ∧
          store.follow (advance location part) rest = .ok target := by
  simp only [follow, bind_eq_ok_iff, Unique.exists_iff, enter_eq_ok_iff,
    isAnonymous, advance, Bool.or_eq_true, decide_eq_true_eq]
  by_cases hdot : part = "."
  · simp [hdot]
  · by_cases hdots : part = ".."
    · simp [hdots]
    · simp [hdot, hdots, bind_eq_ok_iff, Unique.exists_iff]

/-- A path leads to the same location where the same directories are. -/
theorem follow_congr {parts : List String}
    (hdirectories : ∀ other, store.get? other = some .directory →
      next.get? other = some .directory)
    (hfollow : store.follow location parts = .ok target) :
    next.follow location parts = .ok target := by
  induction parts generalizing location with
  | nil => exact hfollow
  | cons part rest ih =>
      rw [follow_cons] at hfollow ⊢
      obtain ⟨hdirectory, hname, hrest⟩ := hfollow
      exact ⟨hdirectories location hdirectory, hname, ih hrest⟩

theorem follow_concat {parts : List String} {directory : Location} {name : String}
    (hfollow : store.follow location parts = .ok directory)
    (hdirectory : store.get? directory = some .directory)
    (hanonymous : isAnonymous name = false) (hname : checkName name = .ok ()) :
    store.follow location (parts ++ [name]) = .ok (directory ++ [name]) := by
  induction parts generalizing location with
  | nil =>
      obtain rfl := Except.ok.inj hfollow
      have hadvance : advance location name = location ++ [name] := by
        simp only [isAnonymous, Bool.or_eq_false_iff, decide_eq_false_iff_not]
          at hanonymous
        rw [advance, if_neg hanonymous.1, if_neg hanonymous.2]
      rw [List.nil_append, follow_cons, hadvance]
      exact ⟨hdirectory, Or.inr hname, rfl⟩
  | cons part rest ih =>
      rw [follow_cons] at hfollow
      obtain ⟨hentered, hpart, hrest⟩ := hfollow
      rw [List.cons_append, follow_cons]
      exact ⟨hentered, hpart, ih hrest⟩

/-! ## Moving a temporary file -/

theorem slot_eq_ok_iff {directory : Location} {name : String} :
    store.slot path = .ok (directory, name) ↔
      checkPath path = .ok () ∧
        store.follow (store.origin path) (Path.parts path).dropLast =
          .ok directory ∧
        store.get? directory = some .directory ∧
          (Path.parts path).getLast?.getD "." = name := by
  simp only [slot, bind_eq_ok_iff, enter_eq_ok_iff, pure_eq_ok_iff,
    Unique.exists_iff, PUnit.default_eq_unit, Prod.mk.injEq]
  constructor
  · rintro ⟨hpath, location, hfollow, hdirectory, rfl, rfl⟩
    exact ⟨hpath, hfollow, hdirectory, rfl⟩
  · rintro ⟨hpath, hfollow, hdirectory, rfl⟩
    exact ⟨hpath, directory, hfollow, hdirectory, rfl, rfl⟩

/-- A path has a last part that names an entry of a directory, and what stands at
a location may be moved there. -/
structure Moves (store : Store) (location : Location) (path : String)
    (directory : Location) (name : String) (entry : Entry) : Prop where
  slot : store.slot path = .ok (directory, name)
  named : isAnonymous name = false
  checked : checkName name = .ok ()
  open_end : Path.endsInSlash path = false
  there : store.get? location = some entry
  replaces : store.get? (directory ++ [name]) ≠ some .directory

theorem persist_spec (hpersist : store.persist location path = .ok next) :
    ∃ directory name entry, store.Moves location path directory name entry ∧
      next = (store.drop location).put (directory ++ [name]) entry := by
  obtain ⟨⟨directory, name⟩, hslot, hpersist⟩ := bind_eq_ok_iff.1 hpersist
  dsimp only at hpersist
  split at hpersist
  · cases hpersist
  next hanonymous =>
  obtain ⟨_, hname, hpersist⟩ := bind_eq_ok_iff.1 hpersist
  split at hpersist
  · cases hpersist
  next hslash =>
  split at hpersist
  · cases hpersist
  · cases hpersist
  · next entry hentry hother =>
      exact ⟨directory, name, entry, ⟨hslot, by simpa using hanonymous, hname,
        by simpa using hslash, hentry, hother⟩, (pure_eq_ok_iff.1 hpersist).symm⟩

namespace Moves

variable {directory : Location} {name : String}

/-- Moving a file leaves the directories where they are. -/
theorem get?_directory {other : Location}
    (hmoves : store.Moves location path directory name (.file mode content))
    (hother : store.get? other = some .directory) :
    ((store.drop location).put (directory ++ [name]) (.file mode content)).get?
      other = some .directory := by
  have hsource : other ≠ location := by
    rintro rfl
    simp [hmoves.there] at hother
  have htarget : directory ++ [name] ≠ other := by
    rintro rfl
    exact hmoves.replaces hother
  rw [get?_put _ _ other (by simp), if_neg htarget, get?_drop_of_ne store hsource,
    hother]

/-- The path ends with the last part. -/
theorem parts_eq {entry : Entry}
    (hmoves : store.Moves location path directory name entry) :
    Path.parts path = (Path.parts path).dropLast ++ [name] := by
  obtain ⟨-, -, -, hlast⟩ := slot_eq_ok_iff.1 hmoves.slot
  cases hparts : (Path.parts path).getLast? with
  | none =>
      have hnamed := hmoves.named
      rw [hparts] at hlast
      simp [← hlast, isAnonymous] at hnamed
  | some last =>
      obtain ⟨front, hfront⟩ := List.getLast?_eq_some_iff.1 hparts
      rw [hparts, Option.getD_some] at hlast
      rw [hfront, List.dropLast_concat, hlast]

/-- The path leads to the same location in every store that has the directories. -/
theorem follow_eq {entry : Entry}
    (hmoves : store.Moves location path directory name entry)
    (hdirectories : ∀ other, store.get? other = some .directory →
      next.get? other = some .directory) :
    next.follow (store.origin path) (Path.parts path) = .ok (directory ++ [name]) := by
  obtain ⟨-, hfollow, hdirectory, -⟩ := slot_eq_ok_iff.1 hmoves.slot
  rw [hmoves.parts_eq]
  exact follow_concat (follow_congr hdirectories hfollow)
    (hdirectories directory hdirectory) hmoves.named hmoves.checked

/-- After it is moved, the file is where the path leads. -/
theorem find_eq (hmoves : store.Moves location path directory name
      (.file mode content)) :
    ((store.drop location).put (directory ++ [name]) (.file mode content)).find
      path = .ok (directory ++ [name], .file mode content) := by
  obtain ⟨hpath, -⟩ := slot_eq_ok_iff.1 hmoves.slot
  have htarget := hmoves.follow_eq fun other => hmoves.get?_directory
  refine bind_eq_ok_iff.2 ⟨(), hpath, bind_eq_ok_iff.2 ⟨_, htarget, ?_⟩⟩
  rw [get?_put_self _ _ (by simp)]
  simp [hmoves.open_end]

end Moves

/-! ## The laws -/

theorem attempt_ok {α : Type} {operation : Store → Except FileError (α × Store)}
    {value : α} (hrun : (attempt operation).run store = (.ok value, next)) :
    operation store = .ok (value, next) := by
  simp only [attempt, StateT.run] at hrun
  split at hrun
  · next hoperation =>
      obtain ⟨hvalue, rfl⟩ := Prod.mk.inj hrun
      obtain rfl := Except.ok.inj hvalue
      exact hoperation
  · cases hrun

theorem attempt_error {α : Type}
    {operation : Store → Except FileError (α × Store)} {error : FileError}
    (hrun : (attempt operation).run store = (.error error, next)) :
    next = store := by
  simp only [attempt, StateT.run] at hrun
  split at hrun
  · cases hrun
  · exact (Prod.mk.inj hrun).2.symm

theorem attempt_unit_ok {operation : Store → Except FileError Store}
    (hrun : (attempt fun store => (operation store).map ((), ·)).run store =
      (.ok (), next)) :
    operation store = .ok next := by
  obtain ⟨found, hfound, hnext⟩ := map_eq_ok_iff.1 (attempt_ok hrun)
  rw [hfound, (Prod.mk.inj hnext).2]

/-- The files of a store obey the laws, whatever external programs do. -/
theorem files_obeys (tools : Tools) : (files tools).Obeys view where
  read _ _ := rfl
  mode? _ _ := rfl
  makeDirs path state outcome after hrun := by
    have hkeeps := makeDirs_keeps state path.toList.reverse
    rwa [show makeDirs.go state path.toList.reverse = (outcome, after) from hrun]
      at hkeeps
  createTemporary_error directory mode state error after hrun := by
    rw [attempt_error hrun]
    exact .refl state
  createTemporary_ok directory mode state temporary after hrun := by
    obtain ⟨hfree, hkeeps⟩ := createTemporary_spec (attempt_ok hrun)
    exact ⟨by simp [view, fileAt?, hfree], hkeeps⟩
  fill temporary content state outcome after hrun := by
    cases outcome with
    | error error =>
        rw [attempt_error hrun]
        exact (FileView.Keeps.refl state).but
    | ok =>
        obtain ⟨mode, found, hfound, rfl⟩ := fill_spec (attempt_unit_ok hrun)
        exact view_keepsBut_put state _ (ne_nil_of_get? hfound (by simp))
  fill_ok temporary content state after hrun := by
    obtain ⟨mode, found, hfound, rfl⟩ := fill_spec (attempt_unit_ok hrun)
    have hlocation := ne_nil_of_get? hfound (by simp)
    exact ⟨mode, fileAt?_eq_some_iff.2 (get?_put_self state _ hlocation)⟩
  persist_error temporary path state error after hrun := by
    rw [attempt_error hrun]
    exact .refl state
  persist_ok temporary path state file after hfile hrun := by
    obtain ⟨mode, content⟩ := file
    obtain ⟨directory, name, entry, hmoves, rfl⟩ :=
      persist_spec (attempt_unit_ok hrun)
    obtain rfl : entry = .file mode content := by
      have hthere := fileAt?_eq_some_iff.1 hfile
      exact Option.some.inj (hmoves.there.symm.trans hthere)
    have htarget : directory ++ [name] ≠ [] := by simp
    have hothers :=
      view_keepsBut_put (state.drop temporary) (.file mode content) htarget
    refine ⟨directory ++ [name], ?_, ?_, ?_, ?_⟩
    · simp [view, hmoves.find_eq, Except.toOption]
    · exact fileAt?_eq_some_iff.2 (get?_put_self _ _ htarget)
    · intro hne
      exact (hothers temporary hne).trans (fileAt?_drop state temporary)
    · intro key hne htemporary
      exact (hothers key hne).trans
        (view_keepsBut_drop state temporary key htemporary)
  discard temporary state :=
    ⟨fileAt?_drop state temporary, view_keepsBut_drop state temporary⟩

end VideoRegistry.Store
