import VideoRegistry.Proofs.PlainDocument
import VideoRegistry.Proofs.StoreLaws
import VideoRegistry.Run

/-!
# Runs replace a header as a whole or not at all

Every step of a run either comes back with an error or goes on, and at every
point the only file that differs from those that were there is the temporary one.
It is gone once the run has failed, and stands where the header belongs once the
run has succeeded.  This holds of all places for files that obey the laws, file
trees among them.
-/

namespace VideoRegistry

variable {σ τ κ : Type}

theorem run_bind {α β : Type} (first : StateM σ α) (next : α → StateM σ β)
    (state : σ) :
    (first >>= next).run state =
      (next (first.run state).1).run (first.run state).2 := rfl

namespace FileView

variable (view : FileView σ τ κ)

/-- Where a path leads there is a file with the given bytes afterwards, and no
other file changed. -/
def Writes (path : String) (content : ByteArray) (before after : σ) : Prop :=
  ∃ target mode, view.locate after path = some target ∧
    view.fileAt after target = some (mode, content) ∧
    view.KeepsBut target before after

/-- Either a file is written as a whole, or an error is told and no file
changed. -/
def AllOrNothing (path : String) (content : ByteArray) (before : σ) :
    Except WriteFailure Unit × σ → Prop
  | (.ok (), after) => view.Writes path content before after
  | (.error _, after) => view.Keeps before after

end FileView

namespace Files.Obeys

variable {files : Files τ (StateM σ)} {view : FileView σ τ κ}

/-- A temporary file that was created in the state `start` takes the place of a
file or leaves nothing behind. -/
theorem replaceBy_allOrNothing (hobeys : files.Obeys view) {temporary : τ}
    {path text : String} {start state : σ}
    (hfresh : view.fileAt start (view.keyOf temporary) = none)
    (hcreated : view.KeepsBut (view.keyOf temporary) start state) :
    view.AllOrNothing path text.toUTF8 start
      ((files.replaceBy temporary path text).run state) := by
  have hdiscards : ∀ state, view.KeepsBut (view.keyOf temporary) start state →
      view.Keeps start ((files.discard temporary).run state).2 := by
    intro state hkeeps
    obtain ⟨hgone, hothers⟩ := hobeys.discard temporary state
    exact (hkeeps.trans hothers).keeps (hgone.trans hfresh.symm)
  rcases hfill : (files.fill temporary text.toUTF8).run state with
    ⟨outcome, filled⟩
  have hfilled := hcreated.trans (hobeys.fill _ _ _ _ _ hfill)
  rw [Files.replaceBy, run_bind, hfill]
  cases outcome with
  | error error => exact hdiscards filled hfilled
  | ok =>
      rcases hpersist : (files.persist temporary path).run filled with
        ⟨outcome, moved⟩
      dsimp only
      rw [run_bind, hpersist]
      cases outcome with
      | error error =>
          apply hdiscards moved
          exact hfilled.trans (hobeys.persist_error _ _ _ _ _ hpersist).but
      | ok =>
          obtain ⟨mode, hfile⟩ := hobeys.fill_ok _ _ _ _ hfill
          obtain ⟨target, hlocate, hthere, hgone, hothers⟩ :=
            hobeys.persist_ok _ _ _ _ _ hfile hpersist
          refine ⟨target, mode, hlocate, hthere, ?_⟩
          intro key hne
          by_cases htemporary : key = view.keyOf temporary
          · subst htemporary
            rw [hgone hne, hfresh]
          · exact (hothers key hne htemporary).trans (hfilled key htemporary)

theorem writeHeader_allOrNothing (hobeys : files.Obeys view)
    (path text : String) (state : σ) :
    view.AllOrNothing path text.toUTF8 state
      ((files.writeHeader path text).run state) := by
  rcases hmake : (files.makeDirs (Path.directory path)).run state with
    ⟨outcome, made⟩
  have hmade := hobeys.makeDirs _ _ _ _ hmake
  simp only [Files.writeHeader]
  rw [run_bind, hmake]
  cases outcome with
  | error error => exact hmade
  | ok =>
      dsimp only
      rw [run_bind, hobeys.mode?, run_bind]
      rcases hcreate : (files.createTemporary (Path.directory path)
        (((files.mode? path).run made).1.getD Mode.forHeader)).run made with
        ⟨outcome, created⟩
      cases outcome with
      | error error =>
          exact hmade.trans (hobeys.createTemporary_error _ _ _ _ _ hcreate)
      | ok temporary =>
          obtain ⟨hfresh, hcreated⟩ :=
            hobeys.createTemporary_ok _ _ _ _ _ hcreate
          apply hobeys.replaceBy_allOrNothing
          · rw [← hmade, hfresh]
          · exact hmade.but.trans hcreated

theorem readText_state (hobeys : files.Obeys view) (path : String) (state : σ) :
    ((files.readText path).run state).2 = state := by
  rw [Files.readText, run_bind, hobeys.read]
  split
  · rfl
  · split <;> rfl

theorem generate_state (hobeys : files.Obeys view) (config : Config)
    (input : String) (state : σ) :
    ((files.generate config input).run state).2 = state := by
  rw [Files.generate, run_bind, hobeys.readText_state]
  split <;> rfl

end Files.Obeys

/-! ## The ways a run may take -/

section

variable {files : Files τ (StateM σ)} {config : Config} {input : Option String}
  {state read after : σ} {text : String}

theorem run_of_generate_error {failure : RunFailure}
    (hgenerate : (files.generate config (input.getD config.input)).run state =
      (.error failure, read)) :
    (files.run config input).run state = (.error failure, read) := by
  rw [Files.run, run_bind, hgenerate]
  rfl

theorem run_of_writeHeader_error {reason : WriteFailure}
    (hgenerate : (files.generate config (input.getD config.input)).run state =
      (.ok text, read))
    (hwrite : (files.writeHeader config.output.file text).run read =
      (.error reason, after)) :
    (files.run config input).run state = (.error (.writing reason), after) := by
  rw [Files.run, run_bind, hgenerate]
  dsimp only
  rw [run_bind, hwrite]
  rfl

/-- Once the header is written a run succeeds, whatever a formatter does. -/
theorem run_of_writeHeader_ok
    (hgenerate : (files.generate config (input.getD config.input)).run state =
      (.ok text, read))
    (hwrite : (files.writeHeader config.output.file text).run read =
      (.ok (), after)) :
    ∃ final, (files.run config input).run state =
        (.ok config.output.file, final) ∧
      (config.formatter = none → final = after) := by
  rw [Files.run, run_bind, hgenerate]
  dsimp only
  rw [run_bind, hwrite]
  cases config.formatter with
  | none => exact ⟨after, rfl, fun _ => rfl⟩
  | some formatter => exact ⟨_, rfl, fun hnone => nomatch hnone⟩

end

/-- A run that fails, at whatever stage, leaves every file as it was and none
behind, and one that fails before it writes changes nothing at all.  A run that
succeeds and calls no formatter puts the generated text where the header belongs
and changes no other file. -/
theorem Files.Obeys.run_allOrNothing {files : Files τ (StateM σ)}
    {view : FileView σ τ κ} (hobeys : files.Obeys view) (config : Config)
    (input : Option String) (state : σ) :
    (∀ failure after,
      (files.run config input).run state = (.error failure, after) →
        view.Keeps state after ∧
          ((∀ reason, failure ≠ .writing reason) → after = state)) ∧
      ∀ path after,
        (files.run config input).run state = (.ok path, after) →
          config.formatter = none →
            path = config.output.file ∧
              ∃ text, (files.generate config (input.getD config.input)).run
                  state = (.ok text, state) ∧
                view.Writes path text.toUTF8 state after := by
  have hstate := hobeys.generate_state config (input.getD config.input) state
  rcases hgenerate : (files.generate config (input.getD config.input)).run state
    with ⟨generated, read⟩
  obtain rfl : read = state := by rwa [hgenerate] at hstate
  cases generated with
  | error failure =>
      rw [run_of_generate_error hgenerate]
      constructor
      · rintro failure after hrun
        obtain ⟨-, rfl⟩ := Prod.mk.inj hrun
        exact ⟨.refl read, fun _ => rfl⟩
      · intro path after hrun
        cases hrun
  | ok text =>
      have hall := hobeys.writeHeader_allOrNothing config.output.file text read
      rcases hwrite : (files.writeHeader config.output.file text).run read with
        ⟨written, final⟩
      rw [hwrite] at hall
      cases written with
      | error reason =>
          rw [run_of_writeHeader_error hgenerate hwrite]
          constructor
          · intro failure after hrun
            obtain ⟨hfailure, rfl⟩ := Prod.mk.inj hrun
            obtain rfl := Except.error.inj hfailure
            exact ⟨hall, fun hnot => absurd rfl (hnot reason)⟩
          · intro path after hrun
            cases hrun
      | ok =>
          obtain ⟨after, hrun, hafter⟩ := run_of_writeHeader_ok hgenerate hwrite
          rw [hrun]
          constructor
          · intro failure after hrun
            cases hrun
          · intro path after hrun hformatter
            obtain ⟨hpath, rfl⟩ := Prod.mk.inj hrun
            obtain rfl := Except.ok.inj hpath
            obtain rfl := hafter hformatter
            exact ⟨rfl, text, rfl, hall⟩

/-- The text of a registry with one extension that requires nothing. -/
def tinySource : String :=
  "<registry><comment>Copyright</comment>" ++
    "<types comment=\"\"><type name=\"int\"/></types>" ++
    "<extensions><extension name=\"va\" comment=\"\" supported=\"vulkan\">" ++
    "<require/></extension></extensions></registry>"

def tinyConfig : Config :=
  { Plain.brief with input := "in.xml", output := { file := "out.hpp" } }

/-- A store with the registry, and an entry where the header belongs. -/
def tinyStore (entry : Entry) : Store where
  entries := [(["in.xml"], .file Mode.forHeader tinySource.toUTF8),
    (["out.hpp"], entry)]

/-- Files of a store in which no external program does anything. -/
def idleFiles : Files Location (StateM Store) :=
  Store.files fun _ _ store => store

/-- A header cannot take the place of a directory, but that of a file. -/
theorem tiny_run_allOrNothing :
    idleFiles.Obeys Store.view ∧ tinyConfig.formatter = none ∧
      (∃ failure after,
        (idleFiles.run tinyConfig none).run (tinyStore .directory) =
            (.error failure, after) ∧
          Store.view.Keeps (tinyStore .directory) after) ∧
      ∃ path after,
        (idleFiles.run tinyConfig none).run (tinyStore (.file 0o600 .empty)) =
            (.ok path, after) ∧
          path = "out.hpp" ∧ ∃ text : String,
            Store.view.Writes path text.toUTF8 (tinyStore (.file 0o600 .empty))
              after := by
  have hobeys : idleFiles.Obeys Store.view := Store.files_obeys _
  refine ⟨hobeys, rfl, ?_, ?_⟩
  · have hfails : ((idleFiles.run tinyConfig none).run
        (tinyStore .directory)).1.isOk = false := by decide +kernel
    rcases hrun : (idleFiles.run tinyConfig none).run (tinyStore .directory)
      with ⟨outcome, after⟩
    rw [hrun] at hfails
    cases outcome with
    | ok path => cases hfails
    | error failure =>
        have hall :=
          hobeys.run_allOrNothing tinyConfig none (tinyStore .directory)
        exact ⟨failure, after, rfl, (hall.1 failure after hrun).1⟩
  · have hsucceeds : ((idleFiles.run tinyConfig none).run
        (tinyStore (.file 0o600 .empty))).1.isOk = true := by decide +kernel
    rcases hrun : (idleFiles.run tinyConfig none).run
      (tinyStore (.file 0o600 .empty)) with ⟨outcome, after⟩
    rw [hrun] at hsucceeds
    cases outcome with
    | error failure => cases hsucceeds
    | ok path =>
        have hall := hobeys.run_allOrNothing tinyConfig none
          (tinyStore (.file 0o600 .empty))
        obtain ⟨rfl, text, -, hwrites⟩ := hall.2 path after hrun rfl
        exact ⟨_, after, rfl, rfl, text, hwrites⟩

end VideoRegistry
