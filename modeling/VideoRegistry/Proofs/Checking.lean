import VideoRegistry.Proofs.Lists
import VideoRegistry.Proofs.Outcome
import VideoRegistry.Proofs.PlainDocument
import VideoRegistry.Registry.Check

/-!
# What the check decides

All that is wrong with the structs of a registry can be listed, in the order of the
declarations.  The check ends with the first of these faults and succeeds if there
are none; then it gives one warning for every member of a registry type that no
extension emits.  Outcomes that are told by a list of faults are put together by
appending the lists.
-/

namespace VideoRegistry

/-- The outcome of a check by its faults: the first one, or a value if there are
none. -/
def verdict {α : Type} (faults : List SpecError) (value : α) : Checked α :=
  match faults with
  | [] => .ok value
  | fault :: _ => .error fault

section Verdict

variable {α β : Type} {faults later : List SpecError} {value : α}

theorem verdict_eq_ok_iff {result : α} :
    verdict faults value = .ok result ↔ faults = [] ∧ result = value := by
  cases faults <;> simp [verdict, eq_comm]

theorem verdict_eq_error_iff {fault : SpecError} :
    verdict faults value = .error fault ↔ faults.head? = some fault := by
  cases faults <;> simp [verdict]

/-- Of two checks in a row the faults of the first one come first. -/
theorem verdict_bind {next : α → Checked β} {result : β}
    (hnext : next value = verdict later result) :
    verdict faults value >>= next = verdict (faults ++ later) result := by
  cases faults with
  | nil => exact hnext
  | cons fault rest => rfl

theorem verdict_map (next : α → β) :
    (verdict faults value).map next = verdict faults (next value) := by
  cases faults <;> rfl

theorem verdict_bind_pure (next : α → β) :
    (verdict faults value >>= fun value => pure (next value)) =
      verdict faults (next value) := by
  cases faults <;> rfl

theorem require_eq_verdict {holds : Bool} {line : Nat} {fault : Fault} :
    require holds line fault =
      verdict (if holds then [] else [⟨line, fault⟩]) () := by
  cases holds <;> rfl

end Verdict

theorem registryName?_eq_some_iff {typeLead name rest : String} :
    registryName? typeLead name = some rest ↔
      typeLead ≠ "" ∧ name = typeLead ++ rest := by
  unfold registryName?
  split
  · next hempty =>
      have hlead : typeLead = "" := String.isEmpty_iff.1 hempty
      simp [hlead]
  · next hempty =>
      have hlead : typeLead ≠ "" := fun heq => hempty (String.isEmpty_iff.2 heq)
      simp only [Option.map_eq_some_iff, Text.after?_eq_some_iff, hlead, ne_eq,
        not_false_eq_true, true_and]
      constructor
      · rintro ⟨letters, hname, rfl⟩
        apply String.toList_inj.1
        rw [hname, String.toList_append, String.toList_ofList]
      · rintro rfl
        exact ⟨rest.toList, String.toList_append, String.ofList_toList⟩

namespace Registry

variable {registry : Registry} {typeLead struct : String} {owner : Nat}

/-! ## Faults -/

/-- A constant is given by an extension or by the one it depends on. -/
def ConstantWithin (registry : Registry) (position : Nat) (name : String) : Prop :=
  (registry.constantsOf position).contains name ∨
    ∃ provider, registry.provider? position = some provider ∧
      (registry.constantsOf provider).contains name

/-- The rules for a struct: it has one owner, and its members have declared types
and array sizes that are literals or constants within reach of the owner. -/
def Obeys (registry : Registry) (entry : TypeEntry × List Member) : Prop :=
  ∃ owner, registry.ownership.ownersOf entry.1.name = [owner] ∧
    ∀ member ∈ entry.2, registry.declares member.type.name ∧
      ∀ size ∈ member.arraySizes,
        Literal.isDecimal size ∨ registry.ConstantWithin owner size

/-- What is wrong with the owners of a struct. -/
def ownerFaults (registry : Registry) (entry : TypeEntry) : List SpecError :=
  match registry.ownership.ownersOf entry.name with
  | [] => [⟨entry.line, .unownedStruct entry.name⟩]
  | [_] => []
  | _ :: _ :: _ => [⟨entry.line, .sharedStruct entry.name⟩]

/-- What is wrong with the type of a member. -/
def typeFaults (registry : Registry) (member : Member) : List SpecError :=
  if registry.declares member.type.name then []
  else [⟨member.line, .unknownMemberType member.type.name⟩]

/-- What is wrong with the array sizes of a member, size by size. -/
def sizeFaults (registry : Registry) (owners : List Nat) (member : Member) :
    List SpecError :=
  (member.arraySizes.filter fun size => !(Literal.isDecimal size ||
      owners.any fun owner => registry.reachesConstant owner size)).map
    fun size => ⟨member.line, .unknownArraySize member.name size⟩

def memberFaults (registry : Registry) (owners : List Nat) (member : Member) :
    List SpecError :=
  registry.typeFaults member ++ registry.sizeFaults owners member

/-- All that is wrong with a struct: with its owners, then member by member. -/
def structFaults (registry : Registry) (entry : TypeEntry × List Member) :
    List SpecError :=
  registry.ownerFaults entry.1 ++ entry.2.flatMap
    (registry.memberFaults (registry.ownership.ownersOf entry.1.name))

/-- All that is wrong with the structs of a registry, in declaration order. -/
def faults (registry : Registry) : List SpecError :=
  registry.structs.flatMap registry.structFaults

theorem reachesConstant_iff {name : String} :
    registry.reachesConstant owner name ↔ registry.ConstantWithin owner name := by
  simp only [reachesConstant, ConstantWithin, provider?, Bool.or_eq_true,
    Option.any_eq_true]

theorem ownerFaults_eq_nil_iff {entry : TypeEntry} :
    registry.ownerFaults entry = [] ↔
      ∃ owner, registry.ownership.ownersOf entry.name = [owner] := by
  unfold ownerFaults
  split <;> simp [*]

theorem memberFaults_eq_nil_iff {member : Member} :
    registry.memberFaults [owner] member = [] ↔
      registry.declares member.type.name ∧ ∀ size ∈ member.arraySizes,
        Literal.isDecimal size ∨ registry.ConstantWithin owner size := by
  simp [memberFaults, typeFaults, sizeFaults, List.filter_eq_nil_iff,
    reachesConstant_iff, or_iff_not_imp_left]

/-- A struct without faults is one that obeys the rules. -/
theorem structFaults_eq_nil_iff {entry : TypeEntry × List Member} :
    registry.structFaults entry = [] ↔ registry.Obeys entry := by
  rw [structFaults, List.append_eq_nil_iff, ownerFaults_eq_nil_iff,
    List.flatMap_eq_nil_iff]
  constructor
  · rintro ⟨⟨owner, howner⟩, hmembers⟩
    rw [howner] at hmembers
    exact ⟨owner, howner, fun member hmember =>
      memberFaults_eq_nil_iff.1 (hmembers member hmember)⟩
  · rintro ⟨owner, howner, hmembers⟩
    rw [howner]
    exact ⟨⟨owner, rfl⟩, fun member hmember =>
      memberFaults_eq_nil_iff.2 (hmembers member hmember)⟩

theorem faults_eq_nil_iff :
    registry.faults = [] ↔ ∀ entry ∈ registry.structs, registry.Obeys entry := by
  simp only [faults, List.flatMap_eq_nil_iff, structFaults_eq_nil_iff]

/-! ## Outcomes -/

/-- The warnings that the members of a struct give. -/
def neverRequiredIn (registry : Registry) (typeLead struct : String)
    (members : List Member) : List Warning :=
  (members.filter fun member =>
    registry.isNeverRequired typeLead member.type.name).map fun member =>
      ⟨member.line, .neverRequired member.type.name struct⟩

/-- One warning for every member of a registry type that nothing requires, in the
order of the structs and of their members. -/
def neverRequired (registry : Registry) (typeLead : String) : List Warning :=
  registry.structs.flatMap fun entry =>
    registry.neverRequiredIn typeLead entry.1.name entry.2

theorem checkMember_eq_verdict {member : Member} :
    registry.checkMember typeLead struct owner member =
      verdict (registry.memberFaults [owner] member)
        (registry.neverRequiredIn typeLead struct [member]) := by
  have hsizes : (registry.sizeFaults [owner] member).head? =
      (registry.unknownSize? owner member).map fun size =>
        ⟨member.line, .unknownArraySize member.name size⟩ := by
    rw [sizeFaults, List.head?_map, List.head?_filter]
    simp [unknownSize?]
  rw [checkMember, require_eq_verdict, memberFaults, typeFaults]
  refine verdict_bind ?_
  cases hsize : registry.unknownSize? owner member with
  | some size =>
      rw [hsize] at hsizes
      exact (verdict_eq_error_iff.2 hsizes).symm
  | none =>
      rw [hsize, Option.map_none, List.head?_eq_none_iff] at hsizes
      rw [hsizes]
      by_cases hnever : registry.isNeverRequired typeLead member.type.name = true
      · simp [neverRequiredIn, verdict, hnever, pure, Except.pure, Located.warnUnless]
      · simp [neverRequiredIn, verdict, hnever, pure, Except.pure, Located.warnUnless]

theorem checkMembers_eq_verdict {members : List Member} :
    registry.checkMembers typeLead struct owner members =
      verdict (members.flatMap (registry.memberFaults [owner]))
        (registry.neverRequiredIn typeLead struct members) := by
  induction members with
  | nil => rfl
  | cons member rest ih =>
      have hnoticed : registry.neverRequiredIn typeLead struct (member :: rest) =
          registry.neverRequiredIn typeLead struct [member] ++
            registry.neverRequiredIn typeLead struct rest := by
        rw [← List.singleton_append]
        simp only [neverRequiredIn, List.filter_append, List.map_append]
      rw [checkMembers, checkMember_eq_verdict, ih, List.flatMap_cons, hnoticed]
      exact verdict_bind (verdict_bind_pure _)

theorem checkStruct_eq_verdict {entry : TypeEntry × List Member} :
    registry.checkStruct typeLead entry =
      verdict (registry.structFaults entry)
        (registry.neverRequiredIn typeLead entry.1.name entry.2) := by
  rw [checkStruct, structFaults, ownerFaults]
  rcases registry.ownership.ownersOf entry.1.name with _ | ⟨owner, _ | ⟨_, _⟩⟩
  · rfl
  · exact checkMembers_eq_verdict
  · rfl

theorem checkStructs_eq_verdict {entries : List (TypeEntry × List Member)} :
    registry.checkStructs typeLead entries =
      verdict (entries.flatMap registry.structFaults)
        (entries.flatMap fun entry =>
          registry.neverRequiredIn typeLead entry.1.name entry.2) := by
  induction entries with
  | nil => rfl
  | cons entry rest ih =>
      rw [checkStructs, checkStruct_eq_verdict, ih, List.flatMap_cons,
        List.flatMap_cons]
      exact verdict_bind (verdict_bind_pure _)

/-- A check that ends with a fault comes to its last step, which alone changes the
registry, no more. -/
theorem checkInPlace_eq (registry : Registry) (typeLead : String) :
    registry.checkInPlace typeLead =
      match registry.faults with
      | [] => (.ok (), registry.warn (registry.neverRequired typeLead))
      | fault :: _ => (.error fault, registry) := by
  have hstructs : registry.checkStructs typeLead registry.structs =
      verdict registry.faults (registry.neverRequired typeLead) :=
    checkStructs_eq_verdict
  have hrun : registry.checkInPlace typeLead =
      match registry.checkStructs typeLead registry.structs with
      | .ok warnings => (.ok (), registry.warn warnings)
      | .error fault => (.error fault, registry) := by
    change (do
      let warnings ← registry.checkStructs typeLead registry.structs
      modify fun registry => registry.warn warnings :
        ExceptT SpecError (StateM Registry) Unit).run.run registry = _
    cases registry.checkStructs typeLead registry.structs <;> rfl
  rw [hrun, hstructs]
  cases registry.faults <;> rfl

theorem check_eq_verdict (registry : Registry) (typeLead : String) :
    registry.check typeLead =
      verdict registry.faults (registry.warn (registry.neverRequired typeLead)) := by
  rw [check, checkInPlace_eq]
  cases registry.faults <;> rfl

/-- What makes a type worth a warning: it begins with the lead of registry types,
and no extension owns it. -/
theorem isNeverRequired_iff {name : String} :
    registry.isNeverRequired typeLead name ↔
      (typeLead ≠ "" ∧ ∃ rest, name = typeLead ++ rest) ∧
        ∀ position, ¬ registry.ownership.owns name position := by
  rw [isNeverRequired, Bool.and_eq_true, List.isEmpty_iff,
    Ownership.ownersOf_eq_nil_iff, Option.isSome_iff_exists]
  simp only [registryName?_eq_some_iff, exists_and_left]

/-- The check succeeds exactly if all structs obey the rules, and then nothing but
its warnings is added to the registry.  It fails with the first of all faults, and
then the registry is as it was before. -/
theorem check_decides (registry : Registry) (typeLead : String) :
    (∀ checked, registry.checkInPlace typeLead = (.ok (), checked) ↔
      (∀ entry ∈ registry.structs, registry.Obeys entry) ∧
        checked = { registry with
          warnings := registry.warnings ++ registry.neverRequired typeLead }) ∧
      (∀ fault after, registry.checkInPlace typeLead = (.error fault, after) ↔
        registry.faults.head? = some fault ∧ after = registry) ∧
      (registry.check typeLead = (registry.checkInPlace typeLead).1.map fun _ =>
        (registry.checkInPlace typeLead).2) ∧
      ∀ name, registry.isNeverRequired typeLead name ↔
        (typeLead ≠ "" ∧ ∃ rest, name = typeLead ++ rest) ∧
          ∀ position, ¬ registry.ownership.owns name position := by
  rw [check_eq_verdict, checkInPlace_eq, ← faults_eq_nil_iff]
  refine ⟨fun checked => ?_, fun fault after => ?_, ?_, fun name => isNeverRequired_iff⟩
  · cases registry.faults with
    | nil => simp [warn, eq_comm]
    | cons first rest => simp
  · cases registry.faults with
    | nil => simp
    | cons first rest => simp [eq_comm]
  · cases registry.faults <;> rfl

/-- A struct with members of an enum that no extension requires. -/
def loose (members : List Member) : Registry :=
  { Plain.registry [] [Plain.extension "va" none ["A"]] with
    types := [⟨"SKind", 1, .enum []⟩, ⟨"A", 2, .struct members⟩] }

/-- A member is worth a warning, an unknown size is a fault, and the undeclared type
behind it is not looked at any more.  After the fault the warning is not there. -/
theorem loose_check_decides :
    (loose [⟨{ name := "SKind" }, "kind", [], none, 3⟩]).checkInPlace "S" =
        (.ok (), { loose [⟨{ name := "SKind" }, "kind", [], none, 3⟩] with
          warnings := [⟨3, .neverRequired "SKind" "A"⟩] }) ∧
      (loose [⟨{ name := "SKind" }, "kind", ["4", "N", "M"], none, 3⟩,
          ⟨{ name := "float" }, "x", [], none, 4⟩]).checkInPlace "S" =
        (.error ⟨3, .unknownArraySize "kind" "N"⟩,
          loose [⟨{ name := "SKind" }, "kind", ["4", "N", "M"], none, 3⟩,
            ⟨{ name := "float" }, "x", [], none, 4⟩]) := by
  constructor
  · refine ((check_decides _ "S").1 _).2 ⟨?_, by decide⟩
    exact faults_eq_nil_iff.1 (by decide)
  · exact ((check_decides _ "S").2.1 _ _).2 ⟨by decide, rfl⟩

end Registry

end VideoRegistry
