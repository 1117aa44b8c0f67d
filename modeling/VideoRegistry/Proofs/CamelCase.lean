import Mathlib
import VideoRegistry.Naming

/-!
# Names that survive a change of case

A name is written in upper snake case and read back in camel case.  The underscores
mark where a word begins, and no other trace of the case is left.  So a letter comes
back as upper case at the start, behind a digit, and where it was upper case behind a
lower-case one; elsewhere it comes back as lower case.  The names that come back
unchanged are those that have this case already.
-/

namespace VideoRegistry.Naming

variable {keepNumbers : Bool} {previous : Option Char} {c p : Char}
  {name : List Char}

/-! ## Classes of characters -/

theorem not_letter_of_isDigit (hc : c.isDigit) : ¬ c.isUpper ∧ ¬ c.isLower := by
  simp only [Char.isUpper, Char.isLower, Char.isDigit, Bool.and_eq_true,
    decide_eq_true_eq, UInt32.le_iff_toNat_le, ge_iff_le] at hc ⊢
  have : '9'.val.toNat = 57 := rfl
  have : 'A'.val.toNat = 65 := rfl
  have : 'a'.val.toNat = 97 := rfl
  omega

theorem isDigit_toUpper (c : Char) : c.toUpper.isDigit = c.isDigit := by
  by_cases hlower : c.isLower
  · have hupper : c.toUpper.isUpper := by simp [Char.isAlpha, hlower]
    rw [Bool.eq_iff_iff]
    exact iff_of_false (fun hdigit => (not_letter_of_isDigit hdigit).1 hupper)
      fun hdigit => (not_letter_of_isDigit hdigit).2 hlower
  · rw [Char.toUpper_eq_of_not_isLower hlower]

theorem isAlphanum_toUpper (c : Char) : c.toUpper.isAlphanum = c.isAlphanum := by
  rw [Char.isAlphanum, Char.isAlphanum, Char.isAlpha_toUpper_eq_isAlpha, isDigit_toUpper]

theorem ne_underscore_of_isAlphanum (hc : c.isAlphanum) : c ≠ '_' := by
  rintro rfl
  exact absurd hc (by decide)

/-- A letter is changed by exactly one of the two changes of case. -/
theorem toUpper_eq_self_iff : c.toUpper = c ↔ ¬ c.isLower := by
  constructor
  · intro hsame hlower
    rw [← hsame, Char.isLower_toUpper_eq_false] at hlower
    cases hlower
  · exact Char.toUpper_eq_of_not_isLower

theorem toLower_eq_self_iff : c.toLower = c ↔ ¬ c.isUpper := by
  constructor
  · intro hsame hupper
    rw [← hsame, Char.isUpper_toLower_eq_false] at hupper
    cases hupper
  · exact Char.toLower_eq_of_not_isUpper

/-! ## What comes back -/

/-- Whether a letter comes back as upper case. -/
def comesCapital (previous : Option Char) (c : Char) : Bool :=
  previous.all Char.isDigit || beginsWord previous c

/-- A character that was changed to upper snake case and back. -/
def recased (previous : Option Char) (c : Char) : Char :=
  if comesCapital previous c then c.toUpper else c.toLower

def recasedFrom (previous : Option Char) : List Char → List Char
  | [] => []
  | c :: rest => recased previous c :: recasedFrom (some c) rest

/-- No underscore is written between two digits, so none is kept there. -/
theorem not_between_digits (hbegins : beginsWord (some p) c) :
    ¬ (p.isDigit ∧ c.isDigit) := by
  rintro ⟨hp, hc⟩
  have hupper := (not_letter_of_isDigit hc).1
  have hlower := (not_letter_of_isDigit hp).2
  simp [beginsWord, hupper, hlower] at hbegins

theorem keepsCase_map_toUpper (hprevious : ∀ p ∈ previous, p.isAlphanum) :
    keepsCase (previous.map Char.toUpper) = previous.all Char.isDigit := by
  cases previous with
  | none => rfl
  | some p =>
      have halphanum : p.toUpper.isAlphanum := by
        rw [isAlphanum_toUpper]
        exact hprevious p rfl
      simp [keepsCase, ne_underscore_of_isAlphanum halphanum, isDigit_toUpper]

theorem camelFrom_upperSnakeFrom (hprevious : ∀ p ∈ previous, p.isAlphanum)
    (hname : ∀ c ∈ name, c.isAlphanum) :
    camelFrom keepNumbers (previous.map Char.toUpper) (upperSnakeFrom previous name) =
      recasedFrom previous name := by
  induction name generalizing previous with
  | nil => rfl
  | cons c rest ih =>
      obtain ⟨hc, hrest⟩ := List.forall_mem_cons.1 hname
      have hlater : camelFrom keepNumbers (some c.toUpper) (upperSnakeFrom (some c) rest) =
          recasedFrom (some c) rest :=
        ih (fun p hp => Option.mem_some.1 hp ▸ hc) hrest
      have hne : c.toUpper ≠ '_' := by
        apply ne_underscore_of_isAlphanum
        rwa [isAlphanum_toUpper]
      have hkeeps := keepsCase_map_toUpper hprevious
      rw [upperSnakeFrom, recasedFrom, recased, comesCapital]
      by_cases hbegins : beginsWord previous c
      · -- The underscore in front is dropped, and what follows it keeps its case.
        have hdropped : ((previous.map Char.toUpper).any Char.isDigit &&
            c.toUpper.isDigit) = false := by
          cases previous with
          | none => rfl
          | some p => simpa [isDigit_toUpper] using not_between_digits hbegins
        simp [camelFrom, hbegins, Bool.and_assoc, hdropped, hne, hlater, keepsCase]
      · cases hall : previous.all Char.isDigit <;>
          simp [camelFrom, hbegins, hne, hlater, hkeeps, hall]

/-- What is written behind a character without a change of its case. -/
def Follows (p c : Char) : Prop :=
  ¬ (p.isUpper ∧ c.isUpper) ∧ ¬ (p.isDigit ∧ c.isLower)

instance (p c : Char) : Decidable (Follows p c) :=
  inferInstanceAs (Decidable (_ ∧ _))

theorem recased_eq_self_iff : recased previous c = c ↔
    (comesCapital previous c → ¬ c.isLower) ∧
      (¬ comesCapital previous c → ¬ c.isUpper) := by
  rw [recased]
  split
  · next hcapital => simp [toUpper_eq_self_iff, hcapital]
  · next hcapital => simp [toLower_eq_self_iff, hcapital]

theorem recased_none_eq_self_iff : recased none c = c ↔ ¬ c.isLower := by
  rw [recased_eq_self_iff]
  simp [comesCapital]

theorem recased_some_eq_self_iff (hp : p.isAlphanum) :
    recased (some p) c = c ↔ Follows p c := by
  have hkind : p.isUpper ∨ p.isLower ∨ p.isDigit := by
    simpa [Char.isAlphanum, Char.isAlpha, or_assoc] using hp
  have hupper : p.isUpper → ¬ p.isLower := Char.not_isLower_of_isUpper
  have hlower : c.isLower → ¬ c.isUpper := Char.not_isUpper_of_isLower
  have hdigit : p.isDigit → ¬ p.isUpper ∧ ¬ p.isLower := not_letter_of_isDigit
  have hdigit' : c.isDigit → ¬ c.isUpper ∧ ¬ c.isLower := not_letter_of_isDigit
  simp only [recased_eq_self_iff, Follows, comesCapital, beginsWord, Option.all_some,
    Bool.or_eq_true, Bool.and_eq_true]
  grind

theorem recasedFrom_some_eq_self_iff (hp : p.isAlphanum)
    (hname : ∀ c ∈ name, c.isAlphanum) :
    recasedFrom (some p) name = name ↔ (p :: name).IsChain Follows := by
  induction name generalizing p with
  | nil => simp [recasedFrom]
  | cons c rest ih =>
      obtain ⟨hc, hrest⟩ := List.forall_mem_cons.1 hname
      rw [recasedFrom, List.cons.injEq, recased_some_eq_self_iff hp, ih hc hrest,
        List.isChain_cons_cons]

/-- A name with the case that comes back: it does not begin with a lower-case letter,
no upper-case letter follows another one, and no lower-case letter follows a digit. -/
structure CamelCased (name : List Char) : Prop where
  head_not_lower : ∀ c ∈ name.head?, ¬ c.isLower
  isChain : name.IsChain Follows

theorem recasedFrom_none_eq_self_iff (hname : ∀ c ∈ name, c.isAlphanum) :
    recasedFrom none name = name ↔ CamelCased name := by
  cases name with
  | nil => exact iff_of_true rfl ⟨nofun, .nil⟩
  | cons c rest =>
      obtain ⟨hc, hrest⟩ := List.forall_mem_cons.1 hname
      rw [recasedFrom, List.cons.injEq, recased_none_eq_self_iff,
        recasedFrom_some_eq_self_iff hc hrest]
      constructor
      · rintro ⟨hhead, hchain⟩
        exact ⟨fun d hd => Option.mem_some.1 hd ▸ hhead, hchain⟩
      · rintro ⟨hhead, hchain⟩
        exact ⟨hhead c rfl, hchain⟩

/-! ## Bytes -/

/-- A text of ASCII characters is its own bytes. -/
theorem byteChars_eq_self (hascii : ∀ c ∈ name, c.toNat < 128) :
    byteChars name = name := by
  induction name with
  | nil => rfl
  | cons c rest ih =>
      obtain ⟨hc, hrest⟩ := List.forall_mem_cons.1 hascii
      have hsize : c.utf8Size = 1 := by
        rw [Char.utf8Size, if_pos]
        rw [UInt32.le_iff_toNat_le]
        exact Nat.le_of_lt_succ hc
      have hbyte : c.val.toUInt8.toNat = c.toNat :=
        Nat.mod_eq_of_lt (Nat.lt_trans hc (by decide))
      have hrest := ih hrest
      rw [byteChars] at hrest ⊢
      rw [List.flatMap_cons, hrest, String.utf8EncodeChar_eq_singleton hsize]
      simp only [List.map_cons, List.map_nil, hbyte, Char.ofNat_toNat]
      rfl

theorem toNat_lt_of_isAlphanum (hc : c.isAlphanum) : c.toNat < 128 := by
  simp only [Char.isAlphanum, Char.isAlpha, Char.isUpper, Char.isLower, Char.isDigit,
    Bool.or_eq_true, Bool.and_eq_true, decide_eq_true_eq, UInt32.le_iff_toNat_le,
    ge_iff_le] at hc
  have : c.toNat = c.val.toNat := rfl
  have : 'Z'.val.toNat = 90 := rfl
  have : 'z'.val.toNat = 122 := rfl
  have : '9'.val.toNat = 57 := rfl
  omega

theorem toNat_lt_of_mem_upperSnakeFrom (hname : ∀ c ∈ name, c.isAlphanum) :
    ∀ c ∈ upperSnakeFrom previous name, c.toNat < 128 := by
  induction name generalizing previous with
  | nil => exact nofun
  | cons c rest ih =>
      obtain ⟨hc, hrest⟩ := List.forall_mem_cons.1 hname
      have hlater := @ih (some c) hrest
      have hupper : c.toUpper.toNat < 128 := by
        apply toNat_lt_of_isAlphanum
        rwa [isAlphanum_toUpper]
      have hunderscore : '_'.toNat < 128 := by decide
      rw [upperSnakeFrom]
      split
      · exact List.forall_mem_cons.2
          ⟨hunderscore, List.forall_mem_cons.2 ⟨hupper, hlater⟩⟩
      · exact List.forall_mem_cons.2 ⟨hupper, hlater⟩

/-- A name of letters and digits comes back from upper snake case exactly if it does not
begin with a lower-case letter, no upper-case letter directly follows another one and no
lower-case letter directly follows a digit.  It makes no difference whether numbers are
kept apart. -/
theorem camel_upperSnake_eq_self_iff (keepNumbers : Bool) {name : String}
    (hname : ∀ c ∈ name.toList, c.isAlphanum) :
    camel keepNumbers (upperSnake name) = name ↔ CamelCased name.toList := by
  have hbytes : byteChars (upperSnakeFrom none name.toList) =
      upperSnakeFrom none name.toList :=
    byteChars_eq_self (toNat_lt_of_mem_upperSnakeFrom hname)
  have hcamel : camelFrom keepNumbers none (upperSnakeFrom none name.toList) =
      recasedFrom none name.toList := @camelFrom_upperSnakeFrom _ none _ nofun hname
  rw [camel, upperSnake, String.toList_ofList, hbytes, hcamel, ← String.toList_inj,
    String.toList_ofList]
  exact recasedFrom_none_eq_self_iff hname

theorem camel_upperSnake_codec :
    (∀ c ∈ "StdVideoH264LevelIdc".toList, c.isAlphanum) ∧
      (∀ c ∈ "h264std".toList, c.isAlphanum) ∧
      (∀ keepNumbers, camel keepNumbers (upperSnake "StdVideoH264LevelIdc") =
        "StdVideoH264LevelIdc") ∧
      ∀ keepNumbers, camel keepNumbers (upperSnake "h264std") ≠ "h264std" := by
  have hcodec : ∀ c ∈ "StdVideoH264LevelIdc".toList, c.isAlphanum :=
    List.all_eq_true.1 (by decide)
  have hplain : ∀ c ∈ "h264std".toList, c.isAlphanum := List.all_eq_true.1 (by decide)
  have hcased : CamelCased "StdVideoH264LevelIdc".toList :=
    ⟨fun c hc => Option.mem_some.1 hc ▸ by decide, by decide⟩
  refine ⟨hcodec, hplain, ?_, ?_⟩
  · intro keepNumbers
    exact (camel_upperSnake_eq_self_iff keepNumbers hcodec).2 hcased
  · intro keepNumbers hsame
    have hback := (camel_upperSnake_eq_self_iff keepNumbers hplain).1 hsame
    exact hback.head_not_lower 'h' rfl (by decide)

end VideoRegistry.Naming
