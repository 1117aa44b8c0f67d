import VideoRegistry.Proofs.SafeRun

/-!
# The mode of a written header

A header is written to a temporary file, which is created with the mode of the file
that it is to replace, or with the default mode if there is none.  Whatever is created
loses the bits of the mask, and no later step gives them back.  So a header has the
mode of the file that it replaced less the mask, and not the mode itself: it is kept
exactly if the mask has none of its bits.  This holds of all places for files that obey
the laws, file trees among them.
-/

namespace VideoRegistry

/-! ## Writing a header -/

/-- A mask leaves a mode as it is exactly if the two have no bit in common. -/
theorem Mode.less_eq_self_iff {mode mask : Mode} : mode.less mask = mode ↔ mode &&& mask = 0 := by
  have hbit : ∀ i (hi : i < 9), (mode.less mask)[i] = (mode[i] && !mask[i]) := by
    intro i hi
    simp [Mode.less]
  constructor
  · intro hless
    ext i hi
    have hsame := hbit i hi
    rw [hless] at hsame
    cases hmask : mask[i] <;> simp_all
  · intro hnone
    ext i hi
    have hboth : (mode[i] && mask[i]) = false := by
      rw [← BitVec.getElem_and, hnone]
      exact BitVec.getElem_zero hi
    rw [hbit i hi]
    cases hmask : mask[i] <;> simp_all

section

variable {σ τ κ : Type} {files : Files τ (StateM σ)} {view : FileView σ τ κ}
  {mask : σ → Mode} {state made created filled after : σ} {temporary : τ} {target : κ}
  {path text : String}

/-- What goes on to succeed where an error would end it begins with a success. -/
theorem exists_ok_of_run_bind {ε φ α β : Type} {first : StateM σ (Except ε α)}
    {onOutcome : Except ε α → StateM σ (Except φ β)} {result : β}
    (hfails : ∀ error state, ((onOutcome (.error error)).run state).1 ≠ .ok result)
    (hrun : (first >>= onOutcome).run state = (.ok result, after)) :
    ∃ value middle, first.run state = (.ok value, middle) ∧
      (onOutcome (.ok value)).run middle = (.ok result, after) := by
  rw [run_bind] at hrun
  rcases hfirst : first.run state with ⟨outcome, middle⟩
  rw [hfirst] at hrun
  cases outcome with
  | error error => exact absurd (congrArg Prod.fst hrun) (hfails error middle)
  | ok value => exact ⟨value, middle, rfl, hrun⟩

namespace Files

/-- The steps of a header that is written. -/
theorem Obeys.writeHeader_steps (hobeys : files.Obeys view)
    (hrun : (files.writeHeader path text).run state = (.ok (), after)) :
    ∃ made temporary created filled,
      (files.makeDirs (Path.directory path)).run state = (.ok (), made) ∧
      (files.createTemporary (Path.directory path)
        (((files.mode? path).run made).1.getD Mode.forHeader)).run made =
          (.ok temporary, created) ∧
      (files.fill temporary text.toUTF8).run created = (.ok (), filled) ∧
      (files.persist temporary path).run filled = (.ok (), after) := by
  simp only [writeHeader] at hrun
  obtain ⟨_, made, hmake, hrun⟩ := exists_ok_of_run_bind (fun _ _ hok => by cases hok) hrun
  rw [run_bind, hobeys.mode?] at hrun
  obtain ⟨temporary, created, hcreate, hrun⟩ :=
    exists_ok_of_run_bind (fun _ _ hok => by cases hok) hrun
  dsimp only at hrun
  rw [replaceBy] at hrun
  obtain ⟨_, filled, hfill, hrun⟩ := exists_ok_of_run_bind (fun _ _ hok => by cases hok) hrun
  obtain ⟨_, moved, hpersist, hrun⟩ := exists_ok_of_run_bind (fun _ _ hok => by cases hok) hrun
  obtain rfl : moved = after := (Prod.mk.inj hrun).2
  exact ⟨made, temporary, created, filled, hmake, hcreate, hfill, hpersist⟩

/-- The mode asked for is that of the file which the header replaces. -/
theorem ObeysModes.mode?_eq (hobeys : files.Obeys view)
    (hmodes : files.ObeysModes view mask) {directory : String} {mode : Mode}
    {content : ByteArray}
    (hcreate : (files.createTemporary directory mode).run made = (.ok temporary, created))
    (hfill : (files.fill temporary content).run created = (.ok (), filled))
    (hpersist : (files.persist temporary path).run filled = (.ok (), after))
    (htarget : view.locate after path = some target) :
    ((files.mode? path).run made).1 = (view.fileAt made target).map Prod.fst := by
  obtain ⟨hfree, hothers⟩ := hobeys.createTemporary_ok _ _ _ _ _ hcreate
  obtain ⟨hempty, hnew, hleads, hback⟩ := hmodes.createTemporary _ _ _ _ _ hcreate
  obtain ⟨hfile, hfilled, hunfilled⟩ := hmodes.fill _ _ _ _ _ _ hempty hfill
  obtain ⟨hplace, hreplaces⟩ := hmodes.persist _ _ _ _ _ _ hfile hpersist htarget
  have hkept : target ≠ view.keyOf temporary →
      view.fileAt filled target = view.fileAt made target := fun hne =>
    (hobeys.fill _ _ _ _ _ hfill target hne).trans (hothers target hne)
  cases hold : view.fileAt made target with
  | none =>
      apply hmodes.mode?_none
      -- Where the path led there would have been a file.
      rw [Option.eq_none_iff_forall_ne_some]
      intro key hlocate
      obtain ⟨rfl, hstands⟩ := hplace key (hleads.trans hfilled path key hlocate)
      have hne : key ≠ view.keyOf temporary := by
        rintro rfl
        exact hnew path hlocate
      rw [hkept hne, hold] at hstands
      cases hstands
  | some found =>
      have hne : target ≠ view.keyOf temporary := by
        rintro rfl
        rw [hfree] at hold
        cases hold
      have hstands : (view.fileAt filled target).isSome := by
        rw [hkept hne, hold, Option.isSome_some]
      have hlocate : view.locate made path = some target :=
        hback path target (hunfilled path target (hreplaces hstands)) hne
      exact hmodes.mode?_some _ _ _ _ _ hlocate hold

/-- A header that was written is where the path leads, with its text, and so it is where
the path led before if it led anywhere.  No other file changed.  If there was a file it
has the mode of that file less the mask, which is the mode itself exactly if the mask has
none of its bits; if there was none it has the default mode less the mask. -/
theorem writeHeader_mode (hobeys : files.Obeys view) (hmodes : files.ObeysModes view mask)
    (path text : String) (state after : σ)
    (hrun : (files.writeHeader path text).run state = (.ok (), after)) :
    ∃ target mode, view.locate after path = some target ∧
      view.fileAt after target = some (mode, text.toUTF8) ∧
      (∀ key, view.locate state path = some key → key = target) ∧
      view.KeepsBut target state after ∧
      (∀ old content, view.fileAt state target = some (old, content) →
        mode = old.less (mask state) ∧ (mode = old ↔ old &&& mask state = 0)) ∧
      (view.fileAt state target = none → mode = Mode.forHeader.less (mask state)) := by
  have hwrites := hobeys.writeHeader_allOrNothing path text state
  rw [hrun] at hwrites
  obtain ⟨target, mode, htarget, hthere, hkeeps⟩ := hwrites
  obtain ⟨made, temporary, created, filled, hmake, hcreate, hfill, hpersist⟩ :=
    hobeys.writeHeader_steps hrun
  obtain ⟨hmask, hleads⟩ := hmodes.makeDirs _ _ _ _ hmake
  obtain ⟨hempty, -, hcreated, -⟩ := hmodes.createTemporary _ _ _ _ _ hcreate
  obtain ⟨hfile, hfilled, -⟩ := hmodes.fill _ _ _ _ _ _ hempty hfill
  have hasked := hmodes.mode?_eq hobeys hcreate hfill hpersist htarget
  have hmode : mode = (((view.fileAt state target).map Prod.fst).getD
      Mode.forHeader).less (mask state) := by
    obtain ⟨moved, hmoved, hfound, -⟩ := hobeys.persist_ok _ _ _ _ _ hfile hpersist
    obtain rfl := Option.some.inj (hmoved.symm.trans htarget)
    rw [← hobeys.makeDirs _ _ _ _ hmake moved, ← hasked, ← hmask]
    exact (Prod.mk.inj (Option.some.inj (hthere.symm.trans hfound))).1
  refine ⟨target, mode, htarget, hthere, ?_, hkeeps, ?_, ?_⟩
  · intro key hkey
    have hnow := (hleads.trans hcreated).trans hfilled path key hkey
    exact ((hmodes.persist _ _ _ _ _ _ hfile hpersist htarget).1 key hnow).1
  · intro old content hold
    rw [hold] at hmode
    subst hmode
    exact ⟨rfl, Mode.less_eq_self_iff⟩
  · intro hnone
    rw [hnone] at hmode
    exact hmode

end Files

end

namespace Store

/-! ## File trees -/

variable {store next : Store} {location : Location} {path : String} {mode : Mode}
  {content : ByteArray}

theorem find_eq_ok_iff {entry : Entry} :
    store.find path = .ok (location, entry) ↔
      checkPath path = .ok () ∧
        store.follow (store.origin path) (Path.parts path) = .ok location ∧
          store.get? location = some entry ∧
            (Path.endsInSlash path → entry = .directory) := by
  simp only [find, bind_eq_ok_iff, Unique.exists_iff, PUnit.default_eq_unit]
  refine and_congr_right fun _ => ?_
  constructor
  · rintro ⟨reached, hfollow, hfound⟩
    split at hfound
    · cases hfound
    · split at hfound
      · cases hfound
      · next hget hslash =>
          obtain ⟨rfl, rfl⟩ := Prod.mk.inj (Except.ok.inj hfound)
          exact ⟨hfollow, hget, fun h => absurd h hslash⟩
    · next hget =>
        obtain ⟨rfl, rfl⟩ := Prod.mk.inj (Except.ok.inj hfound)
        exact ⟨hfollow, hget, fun _ => rfl⟩
  · rintro ⟨hfollow, hget, hslash⟩
    refine ⟨location, hfollow, ?_⟩
    cases entry with
    | directory => simp [hget]
    | file mode content => simp_all

theorem locate_eq_some_iff : view.locate store path = some location ↔
    ∃ entry, store.find path = .ok (location, entry) := by
  simp only [view]
  cases store.find path <;> simp [Except.toOption, Prod.ext_iff]

/-- What is there stays: directories, where relative paths start, and the bits that new
files never get. -/
structure Continues (store next : Store) : Prop where
  mask : next.mask = store.mask
  workDir : next.workDir = store.workDir
  directories : ∀ other, store.get? other = some .directory →
    next.get? other = some .directory

namespace Continues

theorem refl (store : Store) : store.Continues store := ⟨rfl, rfl, fun _ => id⟩

theorem trans {first middle last : Store} (hfirst : first.Continues middle)
    (hlast : middle.Continues last) : first.Continues last where
  mask := hlast.mask.trans hfirst.mask
  workDir := hlast.workDir.trans hfirst.workDir
  directories other hother := hlast.directories other (hfirst.directories other hother)

/-- What is put in the place of no directory leaves the directories where they are. -/
theorem put (entry : Entry) (hlocation : location ≠ [])
    (hother : store.get? location ≠ some .directory) :
    store.Continues (store.put location entry) where
  mask := rfl
  workDir := rfl
  directories other hdirectory := by
    have hne : location ≠ other := by
      rintro rfl
      exact hother hdirectory
    rw [get?_put store entry other hlocation, if_neg hne, hdirectory]

/-- A file that is put somewhere is no new directory. -/
theorem of_put (hlocation : location ≠ []) :
    (store.put location (.file mode content)).Continues store where
  mask := rfl
  workDir := rfl
  directories other hdirectory := by
    rw [get?_put store _ other hlocation] at hdirectory
    split at hdirectory
    · cases hdirectory
    · exact hdirectory

theorem makeDir (hmake : store.makeDir path = .ok next) : store.Continues next := by
  obtain ⟨⟨directory, name⟩, -, hmake⟩ := bind_eq_ok_iff.1 hmake
  dsimp only at hmake
  split at hmake
  · cases hmake
  obtain ⟨_, -, hmake⟩ := bind_eq_ok_iff.1 hmake
  split at hmake
  · cases hmake
  · next hfree =>
      rw [place_eq_ok hmake]
      exact put .directory (ne_nil_of_get? hfree (by simp)) (by simp [hfree])

theorem makeDirs (store : Store) (path : String) :
    store.Continues (store.makeDirs path).2 :=
  makeDirs_relates refl trans makeDir store path.toList.reverse

theorem origin_eq (hcontinues : store.Continues next) :
    next.origin path = store.origin path := by
  rw [origin, origin, hcontinues.workDir]

/-- A path leads on to where it led, if that is still a directory or still a file. -/
theorem locate (hcontinues : store.Continues next)
    (hfile : (view.fileAt store location).isSome → (view.fileAt next location).isSome)
    (hlocate : view.locate store path = some location) :
    view.locate next path = some location := by
  obtain ⟨entry, hfind⟩ := locate_eq_some_iff.1 hlocate
  obtain ⟨hpath, hfollow, hget, hslash⟩ := find_eq_ok_iff.1 hfind
  have hreached := follow_congr hcontinues.directories hfollow
  rw [← hcontinues.origin_eq] at hreached
  cases entry with
  | directory =>
      exact locate_eq_some_iff.2 ⟨_, find_eq_ok_iff.2
        ⟨hpath, hreached, hcontinues.directories location hget, fun _ => rfl⟩⟩
  | file mode content =>
      obtain ⟨⟨mode, content⟩, hfound⟩ :=
        Option.isSome_iff_exists.1 (hfile (by simp [view, fileAt?, hget]))
      exact locate_eq_some_iff.2 ⟨_, find_eq_ok_iff.2
        ⟨hpath, hreached, fileAt?_eq_some_iff.1 hfound, fun h => by cases hslash h⟩⟩

theorem leadsOn (hcontinues : store.Continues next)
    (hfiles : ∀ location, (view.fileAt store location).isSome →
      (view.fileAt next location).isSome) : view.LeadsOn store next :=
  fun _ _ => hcontinues.locate (hfiles _)

end Continues

/-- The files of a store obey the laws of modes, whatever external programs do. -/
theorem files_obeysModes (tools : Tools) :
    (files tools).ObeysModes view Store.mask where
  mode?_none path state hlocate := by
    show state.mode? path = none
    rw [mode?]
    split
    · next hfind =>
        rw [locate_eq_some_iff.2 ⟨_, hfind⟩] at hlocate
        cases hlocate
    · rfl
  mode?_some path state key mode content hlocate hfile := by
    obtain ⟨entry, hfind⟩ := locate_eq_some_iff.1 hlocate
    obtain ⟨-, -, hget, -⟩ := find_eq_ok_iff.1 hfind
    obtain rfl := Option.some.inj (hget.symm.trans (fileAt?_eq_some_iff.1 hfile))
    show state.mode? path = some mode
    rw [mode?, hfind]
  makeDirs directory state outcome after hrun := by
    have hcontinues := Continues.makeDirs state directory
    have hkeeps := makeDirs_keeps state directory.toList.reverse
    rw [show state.makeDirs directory = (outcome, after) from hrun] at hcontinues
    rw [show makeDirs.go state directory.toList.reverse = (outcome, after) from hrun]
      at hkeeps
    exact ⟨hcontinues.mask, hcontinues.leadsOn fun other hfile =>
      (hkeeps other).symm ▸ hfile⟩
  createTemporary directory mode state temporary after hrun := by
    obtain ⟨hfree, rfl⟩ := createTemporary_eq (attempt_ok hrun)
    have hlocation := ne_nil_of_get? hfree (by simp)
    have hothers := view_keepsBut_put state (.file (mode.less state.mask) .empty) hlocation
    refine ⟨fileAt?_eq_some_iff.2 (get?_put_self state _ hlocation), ?_, ?_, ?_⟩
    · intro path hlocate
      obtain ⟨entry, hfind⟩ := locate_eq_some_iff.1 hlocate
      obtain ⟨-, -, hget, -⟩ := find_eq_ok_iff.1 hfind
      exact nomatch hget.symm.trans hfree
    · refine (Continues.put _ hlocation (by simp [hfree])).leadsOn fun other hfile => ?_
      have hne : other ≠ temporary := by
        rintro rfl
        simp [view, fileAt?, hfree] at hfile
      exact (hothers other hne).symm ▸ hfile
    · intro path other hlocate hne
      exact (Continues.of_put hlocation).locate (fun hfile => hothers other hne ▸ hfile)
        hlocate
  fill temporary content state mode found after hfile hrun := by
    obtain ⟨kept, earlier, hfound, rfl⟩ := fill_spec (attempt_unit_ok hrun)
    obtain ⟨rfl, rfl⟩ := Entry.file.inj (Option.some.inj
      (hfound.symm.trans (fileAt?_eq_some_iff.1 hfile)))
    have hlocation := ne_nil_of_get? hfound (by simp)
    have hsame : ∀ other,
        (view.fileAt (state.put temporary (.file kept content)) other).isSome =
          (view.fileAt state other).isSome := by
      intro other
      by_cases hne : other = temporary
      · subst hne
        simp [view, fileAt?, hfound, get?_put_self _ _ hlocation]
      · exact congrArg Option.isSome (view_keepsBut_put state _ hlocation other hne)
    exact ⟨fileAt?_eq_some_iff.2 (get?_put_self state _ hlocation),
      (Continues.put _ hlocation (by simp [hfound])).leadsOn fun other hfile =>
        (hsame other).symm ▸ hfile,
      (Continues.of_put hlocation).leadsOn fun other hfile => hsame other ▸ hfile⟩
  persist temporary path state file target after hfile hrun hlocate := by
    obtain ⟨mode, content⟩ := file
    obtain ⟨directory, name, entry, hmoves, rfl⟩ := persist_spec (attempt_unit_ok hrun)
    obtain rfl : entry = .file mode content := Option.some.inj
      (hmoves.there.symm.trans (fileAt?_eq_some_iff.1 hfile))
    obtain ⟨_, hfind⟩ := locate_eq_some_iff.1 hlocate
    obtain ⟨rfl, -⟩ := Prod.mk.inj (Except.ok.inj (hmoves.find_eq.symm.trans hfind))
    have hfollow := hmoves.follow_eq fun _ => id
    constructor
    · intro key hkey
      obtain ⟨entry, hbefore⟩ := locate_eq_some_iff.1 hkey
      obtain ⟨-, hreached, hget, -⟩ := find_eq_ok_iff.1 hbefore
      obtain rfl := Except.ok.inj (hreached.symm.trans hfollow)
      refine ⟨rfl, ?_⟩
      have hdirectory := hmoves.replaces
      rw [hget] at hdirectory
      cases entry with
      | directory => exact absurd rfl hdirectory
      | file old replaced => simp [view, fileAt?, hget]
    · intro hreplaced
      obtain ⟨⟨old, replaced⟩, hold⟩ := Option.isSome_iff_exists.1 hreplaced
      obtain ⟨hpath, -⟩ := slot_eq_ok_iff.1 hmoves.slot
      exact locate_eq_some_iff.2 ⟨_, find_eq_ok_iff.2 ⟨hpath, hfollow,
        fileAt?_eq_some_iff.1 hold, fun h => by simp [hmoves.open_end] at h⟩⟩

/-- A store with one file, which has the given mode. -/
def oneFile (mode : Mode) : Store where
  entries := [(["out.hpp"], .file mode .empty)]

/-- What comes of writing a header beside or over the one file. -/
def written (mode : Mode) (path : String) : Except WriteFailure Unit × Store :=
  (idleFiles.writeHeader path "x").run (oneFile mode)

theorem written_eq_of_isOk {mode : Mode} {path : String}
    (hok : (written mode path).1.isOk) :
    written mode path = (.ok (), (written mode path).2) := by
  rcases hwritten : written mode path with ⟨outcome, after⟩
  rw [hwritten] at hok
  cases outcome with
  | error failure => cases hok
  | ok => rfl

/-- Over a file that only its owner may read a header has the same mode, and a new one
may be read by all but written by its owner only. -/
theorem writeHeader_mode_oneFile :
    idleFiles.Obeys view ∧ idleFiles.ObeysModes view Store.mask ∧
      (∃ after, written 0o600 "out.hpp" = (.ok (), after) ∧
        view.locate after "out.hpp" = some ["out.hpp"] ∧
        after.fileAt? ["out.hpp"] = some (0o600, "x".toUTF8)) ∧
      ∃ after, written 0o600 "new.hpp" = (.ok (), after) ∧
        view.locate after "new.hpp" = some ["new.hpp"] ∧
        after.fileAt? ["new.hpp"] = some (0o644, "x".toUTF8) := by
  have hobeys : idleFiles.Obeys view := files_obeys _
  have hmodes : idleFiles.ObeysModes view Store.mask := files_obeysModes _
  refine ⟨hobeys, hmodes, ?_, ?_⟩
  · have hrun := written_eq_of_isOk (by decide +kernel : (written 0o600 "out.hpp").1.isOk)
    obtain ⟨target, mode, hlocate, hthere, hplace, -, hold, -⟩ :=
      Files.writeHeader_mode hobeys hmodes "out.hpp" "x" (oneFile 0o600) _ hrun
    obtain rfl := hplace ["out.hpp"] (by rfl)
    obtain ⟨-, hkept⟩ := hold 0o600 .empty rfl
    obtain rfl := hkept.2 (by decide)
    exact ⟨_, hrun, hlocate, hthere⟩
  · have hrun := written_eq_of_isOk (by decide +kernel : (written 0o600 "new.hpp").1.isOk)
    obtain ⟨target, mode, hlocate, hthere, -, -, -, hnew⟩ :=
      Files.writeHeader_mode hobeys hmodes "new.hpp" "x" (oneFile 0o600) _ hrun
    have hplace : view.locate (written 0o600 "new.hpp").2 "new.hpp" =
        some ["new.hpp"] := by decide +kernel
    obtain rfl : target = ["new.hpp"] :=
      Option.some.inj (hlocate.symm.trans hplace)
    obtain rfl := hnew rfl
    exact ⟨_, hrun, hlocate, hthere⟩

/-- A file that all may write to is replaced by one that only its owner may. -/
theorem writeHeader_mode_lost :
    (∃ after, written 0o666 "out.hpp" = (.ok (), after) ∧
      after.mode? "out.hpp" = some 0o644) ∧
      (oneFile 0o666).mode? "out.hpp" = some 0o666 := by
  have hrun := written_eq_of_isOk (by decide +kernel : (written 0o666 "out.hpp").1.isOk)
  exact ⟨⟨_, hrun, by decide +kernel⟩, by decide +kernel⟩

end Store

end VideoRegistry
