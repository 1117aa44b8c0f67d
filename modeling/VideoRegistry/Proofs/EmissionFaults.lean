import VideoRegistry.Proofs.Emission
import VideoRegistry.Proofs.EnumBlocks

/-!
# What keeps a header from being written

The text of a header is not written for reasons of the registry alone: two values of a
listed enum have one enumerator, or a member of a listed struct has something around a
type that allows nothing there, or needs the first value of an enum that has none.  The
frames are always filled, whatever is put into them.  All these faults can be listed in
the order of the header, enums before structs, and the first one is reported.
-/

namespace VideoRegistry

/-- A run ends by some faults if it fails with the first of them, or succeeds and there
are none. -/
def EndsBy {ε α : Type} (faults : List ε) : Except ε α → Prop
  | .error fault => faults.head? = some fault
  | .ok _ => faults = []

namespace EndsBy

variable {ε ε' α β : Type} {faults later : List ε} {run : Except ε α}

theorem eq_error_iff {fault : ε} (hrun : EndsBy faults run) :
    run = .error fault ↔ faults.head? = some fault := by
  cases run with
  | error first =>
      have hfirst : faults.head? = some first := hrun
      rw [hfirst, Except.error.injEq, Option.some_inj]
  | ok value =>
      obtain rfl : faults = [] := hrun
      simp

theorem exists_eq_ok (hrun : EndsBy [] run) : ∃ value, run = .ok value := by
  cases run with
  | error fault => cases hrun
  | ok value => exact ⟨value, rfl⟩

theorem verdict {faults : List SpecError} (value : α) :
    EndsBy faults (verdict faults value) := by
  cases faults <;> rfl

theorem mapError (hrun : EndsBy faults run) (f : ε → ε') :
    EndsBy (faults.map f) (run.mapError f) := by
  cases run with
  | error fault =>
      exact List.head?_map.trans (congrArg (Option.map f) hrun)
  | ok value => exact List.map_eq_nil_iff.2 hrun

/-- Of two runs in a row the faults of the first one come first. -/
theorem bind {next : α → Except ε β} (hrun : EndsBy faults run)
    (hnext : ∀ value, EndsBy later (next value)) :
    EndsBy (faults ++ later) (run >>= next) := by
  cases run with
  | error fault =>
      have hfirst : faults.head? = some fault := hrun
      change (faults ++ later).head? = some fault
      rw [List.head?_append, hfirst]
      rfl
  | ok value =>
      obtain rfl : faults = [] := hrun
      exact hnext value

/-- What follows a run may always succeed. -/
theorem bind_ok {next : α → Except ε β} (hrun : EndsBy faults run)
    (hnext : ∀ value, ∃ result, next value = .ok result) :
    EndsBy faults (run >>= next) := by
  rw [← List.append_nil faults]
  refine hrun.bind fun value => ?_
  obtain ⟨result, hresult⟩ := hnext value
  rw [hresult]
  rfl

theorem map (hrun : EndsBy faults run) (f : α → β) : EndsBy faults (run.map f) := by
  cases run <;> exact hrun

theorem mapM {step : α → Except ε β} {faultsOf : α → List ε}
    (hstep : ∀ item, EndsBy (faultsOf item) (step item)) (items : List α) :
    EndsBy (items.flatMap faultsOf) (items.mapM step) := by
  induction items with
  | nil => rfl
  | cons item items ih =>
      rw [List.mapM_cons, List.flatMap_cons]
      exact (hstep item).bind fun _ => ih.bind_ok fun _ => ⟨_, rfl⟩

end EndsBy

namespace Header

variable {config : Config} {registry : Registry} {member : Member}

/-! ## Members -/

/-- Something stands in front of a type or behind it. -/
def Decorated (type : TypeSpelling) : Prop :=
  type.before ≠ "" ∨ type.behind ≠ ""

/-- A bitfield of a registry type has its native type. -/
def KeepsNative (config : Config) (member : Member) : Prop :=
  member.bitCount.isSome ∧ Text.beginsWith member.type.name config.names.typeLead

/-- What keeps the line of a member from being written. -/
inductive Obstacle (config : Config) (registry : Registry) (member : Member) :
    Fault → Prop
  | bitfield (hnative : KeepsNative config member) (hdecorated : Decorated member.type) :
      Obstacle config registry member (.decoratedBitfield member.name member.type.name)
  | array (hnative : ¬ KeepsNative config member) (hsizes : member.arraySizes ≠ [])
      (hdecorated : Decorated member.type) :
      Obstacle config registry member (.decoratedArray member.name member.type.name)
  | emptyEnum (hbits : member.bitCount = none) (hsizes : member.arraySizes = [])
      (hbehind : member.type.behind = "") (entry : TypeEntry)
      (hfind : registry.find? member.type.name = some entry)
      (hvalues : entry.values? = some []) :
      Obstacle config registry member (.emptyEnum member.name member.type.name)

instance (type : TypeSpelling) : Decidable (Decorated type) :=
  inferInstanceAs (Decidable (_ ∨ _))

instance (config : Config) (member : Member) :
    Decidable (KeepsNative config member) :=
  inferInstanceAs (Decidable (_ ∧ _))

/-- What is wrong with the type of a member. -/
def decorationFaults (config : Config) (member : Member) : List SpecError :=
  if Decorated member.type then
    if KeepsNative config member then
      [⟨member.line, .decoratedBitfield member.name member.type.name⟩]
    else if member.arraySizes = [] then []
    else [⟨member.line, .decoratedArray member.name member.type.name⟩]
  else []

/-- What is wrong with the default of a member. -/
def defaultFaults (registry : Registry) (member : Member) : List SpecError :=
  if member.bitCount = none ∧ member.arraySizes = [] ∧ member.type.behind = "" ∧
      (registry.find? member.type.name).bind TypeEntry.values? = some [] then
    [⟨member.line, .emptyEnum member.name member.type.name⟩]
  else []

def lineFaults (config : Config) (registry : Registry) (member : Member) :
    List SpecError :=
  decorationFaults config member ++ defaultFaults registry member

theorem mem_lineFaults_iff {fault : SpecError} :
    fault ∈ lineFaults config registry member ↔
      ∃ cause, Obstacle config registry member cause ∧
        fault = ⟨member.line, cause⟩ := by
  rw [lineFaults, List.mem_append]
  constructor
  · rintro (hfault | hfault)
    · unfold decorationFaults at hfault
      split at hfault
      · next hdecorated =>
          split at hfault
          · next hnative =>
              exact ⟨_, .bitfield hnative hdecorated, List.mem_singleton.1 hfault⟩
          · next hnative =>
              split at hfault
              · cases hfault
              · next hsizes =>
                  exact ⟨_, .array hnative hsizes hdecorated,
                    List.mem_singleton.1 hfault⟩
      · cases hfault
    · unfold defaultFaults at hfault
      split at hfault
      · next hempty =>
          obtain ⟨hbits, hsizes, hbehind, hvalues⟩ := hempty
          obtain ⟨entry, hfind, hnone⟩ := Option.bind_eq_some_iff.1 hvalues
          exact ⟨_, .emptyEnum hbits hsizes hbehind entry hfind hnone,
            List.mem_singleton.1 hfault⟩
      · cases hfault
  · rintro ⟨cause, hobstacle, rfl⟩
    cases hobstacle with
    | bitfield hnative hdecorated =>
        left
        rw [decorationFaults, if_pos hdecorated, if_pos hnative]
        exact List.mem_singleton_self _
    | array hnative hsizes hdecorated =>
        left
        rw [decorationFaults, if_pos hdecorated, if_neg hnative, if_neg hsizes]
        exact List.mem_singleton_self _
    | emptyEnum hbits hsizes hbehind entry hfind hvalues =>
        right
        rw [defaultFaults, if_pos ⟨hbits, hsizes, hbehind, by rw [hfind]; exact hvalues⟩]
        exact List.mem_singleton_self _

theorem undecorated_iff {type : TypeSpelling} :
    undecorated type ↔ ¬ Decorated type := by
  simp [undecorated, Decorated, String.isEmpty_iff]

theorem require_undecorated (type : TypeSpelling) (line : Nat) (fault : Fault) :
    require (undecorated type) line fault =
      verdict (if Decorated type then [⟨line, fault⟩] else []) () := by
  rw [require_eq_verdict]
  by_cases hdecorated : Decorated type
  · rw [if_pos hdecorated, if_neg (mt undecorated_iff.1 (not_not_intro hdecorated))]
  · rw [if_neg hdecorated, if_pos (undecorated_iff.2 hdecorated)]

theorem keepsNative_iff :
    (member.bitCount.isSome &&
      Text.beginsWith member.type.name config.names.typeLead) = true ↔
        KeepsNative config member :=
  Bool.and_eq_true_iff

theorem memberType_endsBy (config : Config) (member : Member) :
    EndsBy (decorationFaults config member) (memberType config member) := by
  rw [memberType, decorationFaults]
  by_cases hkeeps : KeepsNative config member
  · rw [if_pos (keepsNative_iff.2 hkeeps), require_undecorated]
    simp only [if_pos hkeeps]
    exact (EndsBy.verdict ()).map _
  · rw [if_neg (mt keepsNative_iff.1 hkeeps)]
    simp only [if_neg hkeeps]
    by_cases hsizes : member.arraySizes = []
    · rw [if_pos (List.isEmpty_iff.2 hsizes)]
      simp only [if_pos hsizes, ite_self]
      rfl
    · rw [if_neg (mt List.isEmpty_iff.1 hsizes), require_undecorated]
      simp only [if_neg hsizes]
      exact (EndsBy.verdict ()).map _

theorem defaultValue_endsBy (registry : Registry) (typeText : String)
    (hbits : member.bitCount = none) :
    EndsBy (defaultFaults registry member)
      (defaultValue registry member typeText) := by
  have hplain : (!member.arraySizes.isEmpty || !member.type.behind.isEmpty) = true ↔
      ¬ (member.arraySizes = [] ∧ member.type.behind = "") := by
    simp [Decidable.imp_iff_not_or]
  rw [defaultValue, defaultFaults]
  cases (registry.find? member.type.name).bind TypeEntry.values? with
  | none =>
      rw [if_neg (by simp)]
      rfl
  | some values =>
      dsimp only
      by_cases hscalar : member.arraySizes = [] ∧ member.type.behind = ""
      · rw [if_neg (mt hplain.1 (not_not_intro hscalar))]
        cases values with
        | nil =>
            rw [if_pos ⟨hbits, hscalar.1, hscalar.2, rfl⟩]
            rfl
        | cons first rest =>
            rw [if_neg (by simp)]
            rfl
      · rw [if_pos (hplain.2 hscalar), if_neg fun hempty =>
          hscalar ⟨hempty.2.1, hempty.2.2.1⟩]
        rfl

theorem memberLine_endsBy (config : Config) (registry : Registry) (member : Member) :
    EndsBy (lineFaults config registry member) (memberLine config registry member) := by
  refine (memberType_endsBy config member).bind fun typeText => ?_
  cases hbits : member.bitCount with
  | some bits =>
      have hnone : defaultFaults registry member = [] := by
        rw [defaultFaults, if_neg (by simp [hbits])]
      rw [hnone]
      rfl
  | none =>
      exact ((defaultValue_endsBy registry typeText hbits).map _).bind_ok
        fun ending => ⟨_, rfl⟩

/-! ## Blocks -/

/-- All that is wrong with a listed type, if its block is that of an enum. -/
def enumFaults (entry : TypeEntry) : List SpecError :=
  (entry.values?.map (valueFaults entry.name [])).getD []

/-- All that is wrong with a listed type, if its block is that of a struct. -/
def structFaults (config : Config) (registry : Registry) (entry : TypeEntry) :
    List SpecError :=
  (entry.members?.getD []).flatMap (lineFaults config registry)

theorem enumBlock_endsBy (config : Config) (entry : TypeEntry)
    (values : List EnumValue) :
    EndsBy ((valueFaults entry.name [] values).map Failure.spec)
      (enumBlock config entry values) := by
  rw [enumBlock_eq_verdict]
  exact (EndsBy.verdict _).mapError Failure.spec

theorem structBlock_endsBy (config : Config) (registry : Registry) (entry : TypeEntry)
    (members : List Member) :
    EndsBy ((members.flatMap (lineFaults config registry)).map Failure.spec)
      (structBlock config registry entry members) := by
  have hfits : structFrame.Fits
      ["structureType", "nativeType", "compareOperators", "members"] := by decide
  have hlines := (EndsBy.mapM (memberLine_endsBy config registry) members).mapError
    Failure.spec
  rw [structBlock, compareOperators_eq]
  change EndsBy _ (Checked.orFail (members.mapM (memberLine config registry)) >>= _)
  exact hlines.bind_ok fun lines => ⟨_, bind_eq_ok_iff.2
    ⟨_, mapError_eq_ok_iff.2 (Template.fill_of_fits hfits), rfl⟩⟩

/-! ## The header -/

/-- The faults of the listed types, list by list. -/
def listedFaults (registry : Registry) (faultsOf : TypeEntry → List SpecError) :
    List SpecError :=
  (registry.extensions.flatMap Extension.types).flatMap fun name =>
    ((registry.find? name).map faultsOf).getD []

/-- All that keeps a header from being written, in the order of the header. -/
def emissionFaults (config : Config) (registry : Registry) : List SpecError :=
  listedFaults registry enumFaults ++ listedFaults registry (structFaults config registry)

theorem enumFaults_ne_nil_iff {entry : TypeEntry} : enumFaults entry ≠ [] ↔
    ∃ values, entry.values? = some values ∧
      ¬ (values.map fun value => Naming.enumerator entry.name value.name).Nodup := by
  rw [enumFaults]
  cases entry.values? with
  | none => simp
  | some values => simp [valueFaults_eq_nil_iff]

theorem structFaults_ne_nil_iff {entry : TypeEntry} :
    structFaults config registry entry ≠ [] ↔
      ∃ members, entry.members? = some members ∧ ∃ member ∈ members, ∃ cause,
        Obstacle config registry member cause := by
  have hline : ∀ member, lineFaults config registry member ≠ [] ↔
      ∃ cause, Obstacle config registry member cause := by
    intro member
    simp [List.eq_nil_iff_forall_not_mem, mem_lineFaults_iff]
  rw [structFaults, ne_eq, List.flatMap_eq_nil_iff]
  cases entry.members? with
  | none => simp
  | some members => simp [← hline]

theorem listedFaults_ne_nil_iff {faultsOf : TypeEntry → List SpecError} :
    listedFaults registry faultsOf ≠ [] ↔
      ∃ extension ∈ registry.extensions, ∃ name ∈ extension.types,
        ∃ entry, registry.find? name = some entry ∧ faultsOf entry ≠ [] := by
  have hentry : ∀ name, ((registry.find? name).map faultsOf).getD [] ≠ [] ↔
      ∃ entry, registry.find? name = some entry ∧ faultsOf entry ≠ [] := by
    intro name
    cases registry.find? name <;> simp
  rw [listedFaults, ne_eq, List.flatMap_eq_nil_iff]
  simp only [← hentry, List.mem_flatMap]
  grind

/-- The block of a type ends by its faults, and a type without a block has none. -/
def Tells (block? : TypeEntry → Option (Except Failure Block))
    (faultsOf : TypeEntry → List SpecError) : Prop :=
  ∀ entry, match block? entry with
    | none => faultsOf entry = []
    | some result => EndsBy ((faultsOf entry).map Failure.spec) result

theorem tells_enumBlock? (config : Config) : Tells (enumBlock? config) enumFaults := by
  intro entry
  rw [enumBlock?, enumFaults]
  cases entry.values? with
  | none => rfl
  | some values => exact enumBlock_endsBy config entry values

theorem tells_structBlock? (config : Config) (registry : Registry) :
    Tells (structBlock? config registry) (structFaults config registry) := by
  intro entry
  rw [structBlock?, structFaults]
  cases entry.members? with
  | none => rfl
  | some members => exact structBlock_endsBy config registry entry members

section Lists

variable {block? : TypeEntry → Option (Except Failure Block)}
  {faultsOf : TypeEntry → List SpecError}

theorem blocksOf_endsBy (htells : Tells block? faultsOf) (names : List String) :
    EndsBy ((names.flatMap fun name =>
        ((registry.find? name).map faultsOf).getD []).map Failure.spec)
      (blocksOf registry block? names) := by
  induction names with
  | nil => rfl
  | cons name rest ih =>
      rw [blocksOf, List.flatMap_cons, List.map_append]
      cases registry.find? name with
      | none => exact ih
      | some entry =>
          have hentry := htells entry
          cases hblock : block? entry with
          | none =>
              rw [hblock] at hentry
              have hnone : faultsOf entry = [] := hentry
              simpa [hnone, hblock] using ih
          | some result =>
              rw [hblock] at hentry
              simp only [Option.bind_some, hblock]
              exact EndsBy.bind hentry fun block => ih.bind_ok fun _ => ⟨_, rfl⟩

theorem sectionsOf_endsBy (htells : Tells block? faultsOf)
    (extensions : List Extension) :
    EndsBy (((extensions.flatMap Extension.types).flatMap fun name =>
        ((registry.find? name).map faultsOf).getD []).map Failure.spec)
      (sectionsOf registry block? extensions) := by
  induction extensions with
  | nil => rfl
  | cons extension rest ih =>
      rw [sectionsOf, List.flatMap_cons, List.flatMap_append, List.map_append]
      exact (blocksOf_endsBy htells extension.types).bind fun _ =>
        ih.bind_ok fun _ => ⟨_, rfl⟩

end Lists

theorem exists_render (config : Config) (copyright : String) (header : Header) :
    ∃ text, header.render config copyright = .ok text := by
  have henums : enumsFrame.Fits ["enums"] := by decide
  have hstructs : structsFrame.Fits ["structs"] := by decide
  have hframe : frame.Fits ["copyright", "guard", "includes", "namespace",
      "videoNamespace", "videoNamespaceDefault", "enums", "structs"] := by decide
  exact ⟨_, bind_eq_ok_iff.2 ⟨_, Template.fill_of_fits henums, bind_eq_ok_iff.2
    ⟨_, Template.fill_of_fits hstructs, Template.fill_of_fits hframe⟩⟩⟩

end Header

namespace Registry

open Header

theorem emit_endsBy (config : Config) (registry : Registry) :
    EndsBy ((emissionFaults config registry).map Failure.spec)
      (registry.emit config) := by
  have hheader : EndsBy ((emissionFaults config registry).map Failure.spec)
      (ofRegistry config registry) := by
    rw [emissionFaults, List.map_append]
    exact (sectionsOf_endsBy (tells_enumBlock? config) registry.extensions).bind
      fun _ => (sectionsOf_endsBy (tells_structBlock? config registry)
        registry.extensions).bind_ok fun _ => ⟨_, rfl⟩
  refine hheader.bind_ok fun header => ?_
  obtain ⟨text, htext⟩ := exists_render config registry.copyright header
  exact ⟨text, mapError_eq_ok_iff.2 htext⟩

theorem exists_emit {config : Config} {registry : Registry}
    (hfaults : emissionFaults config registry = []) :
    ∃ text, registry.emit config = .ok text := by
  have hends := emit_endsBy config registry
  rw [hfaults] at hends
  exact hends.exists_eq_ok

/-- A header is not written exactly if two values of a listed enum have one enumerator
or something keeps the line of a member of a listed struct from being written, and what
is reported is the first of these faults in the order of the header. -/
theorem emit_reports_first (config : Config) (registry : Registry) :
    ((∃ failure, registry.emit config = .error failure) ↔
      ∃ extension ∈ registry.extensions, ∃ name ∈ extension.types,
        ∃ entry, registry.find? name = some entry ∧
          ((∃ values, entry.values? = some values ∧
            ¬ (values.map fun value => Naming.enumerator name value.name).Nodup) ∨
          ∃ members, entry.members? = some members ∧ ∃ member ∈ members, ∃ cause,
            Obstacle config registry member cause)) ∧
      ∀ failure, registry.emit config = .error failure ↔
        ∃ fault, (emissionFaults config registry).head? = some fault ∧
          failure = .spec fault := by
  have hends := emit_endsBy config registry
  constructor
  · have hfails : (∃ failure, registry.emit config = .error failure) ↔
        emissionFaults config registry ≠ [] := by
      simp only [hends.eq_error_iff, ← Option.isSome_iff_exists, List.isSome_head?]
      simp
    have hname : ∀ name entry, registry.find? name = some entry → entry.name = name :=
      fun _ _ => find?_name
    rw [hfails, emissionFaults, ne_eq, List.append_eq_nil_iff, not_and_or, ← ne_eq,
      ← ne_eq, listedFaults_ne_nil_iff, listedFaults_ne_nil_iff]
    simp only [enumFaults_ne_nil_iff, structFaults_ne_nil_iff]
    grind
  · intro failure
    rw [hends.eq_error_iff, List.head?_map, Option.map_eq_some_iff]
    exact exists_congr fun fault => and_congr_right fun _ => eq_comm

end Registry

end VideoRegistry
