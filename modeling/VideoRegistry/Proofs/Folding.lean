import VideoRegistry.Proofs.CamelCase

/-!
# What camel case keeps of a name

Camel case drops underscores and changes the case of letters.  All else is kept, in
order, of the bytes of a name: each of them is written as the character of its code.
So a name of ASCII characters keeps all of its characters, while any other character
is written as two or more, and the name grows by them.
-/

namespace VideoRegistry.Naming

variable {keepNumbers : Bool} {previous : Option Char} {c : Char} {text : List Char}

/-- What is left of a text without its underscores and without the case of its
letters. -/
def folded (text : List Char) : List Char :=
  (text.filter (· ≠ '_')).map Char.toLower

/-- Bytes, each as the character of its code. -/
def latin (bytes : ByteArray) : List Char :=
  bytes.data.toList.map fun byte => Char.ofNat byte.toNat

theorem folded_append (text other : List Char) :
    folded (text ++ other) = folded text ++ folded other := by
  rw [folded, List.filter_append, List.map_append]
  rfl

theorem folded_cons_underscore (text : List Char) : folded ('_' :: text) = folded text := by
  simp [folded]

theorem folded_cons (hc : c ≠ '_') (text : List Char) :
    folded (c :: text) = c.toLower :: folded text := by
  simp [folded, hc]

theorem toLower_toLower (c : Char) : c.toLower.toLower = c.toLower :=
  toLower_eq_self_iff.2 (by simp [Char.isUpper_toLower_eq_false])

theorem toLower_ne_underscore (hc : c ≠ '_') : c.toLower ≠ '_' := by
  by_cases hupper : c.isUpper
  · have hlower : c.toLower.isAlphanum := by
      simp [Char.isAlphanum, Char.isAlpha, hupper]
    exact ne_underscore_of_isAlphanum hlower
  · rwa [Char.toLower_eq_of_not_isUpper hupper]

/-- Whichever underscores are dropped and whichever letters keep their case, the rest
stays. -/
theorem folded_camelFrom (keepNumbers : Bool) (previous : Option Char) (text : List Char) :
    folded (camelFrom keepNumbers previous text) = folded text := by
  induction text generalizing previous with
  | nil => rfl
  | cons c rest ih =>
      rw [camelFrom]
      by_cases hc : c = '_'
      · subst hc
        rw [if_pos rfl, folded_cons_underscore]
        split
        · rw [folded_cons_underscore, ih]
        · exact ih (some '_')
      · rw [if_neg hc, folded_cons hc]
        split
        · rw [folded_cons hc, ih]
        · rw [folded_cons (toLower_ne_underscore hc), toLower_toLower, ih]

/-! ## Bytes -/

theorem byteChars_append (text other : List Char) :
    byteChars (text ++ other) = byteChars text ++ byteChars other :=
  List.flatMap_append

theorem byteChars_toList (name : String) : byteChars name.toList = latin name.toUTF8 := by
  rw [latin, String.toUTF8_eq_toByteArray, ← String.utf8Encode_toList, List.utf8Encode,
    List.toList_data_toByteArray, List.map_flatMap]
  rfl

/-- The bytes of a character outside ASCII are none of ASCII either. -/
theorem le_toNat_of_mem_utf8EncodeChar (hc : 128 ≤ c.toNat) :
    ∀ byte ∈ String.utf8EncodeChar c, 128 ≤ byte.toNat := by
  have hval : 128 ≤ c.val.toNat := hc
  intro byte hbyte
  unfold String.utf8EncodeChar at hbyte
  dsimp only at hbyte
  split at hbyte
  · omega
  · split at hbyte
    · simp only [List.mem_cons, List.not_mem_nil, or_false] at hbyte
      rcases hbyte with rfl | rfl <;> simp only [UInt8.toNat_ofNat'] <;> omega
    · split at hbyte
      · simp only [List.mem_cons, List.not_mem_nil, or_false] at hbyte
        rcases hbyte with rfl | rfl | rfl <;> simp only [UInt8.toNat_ofNat'] <;> omega
      · simp only [List.mem_cons, List.not_mem_nil, or_false] at hbyte
        rcases hbyte with rfl | rfl | rfl | rfl <;> simp only [UInt8.toNat_ofNat'] <;> omega

theorem two_le_utf8Size (hc : 128 ≤ c.toNat) : 2 ≤ c.utf8Size := by
  have hpos := c.utf8Size_pos
  have hne : c.utf8Size ≠ 1 := by
    rw [ne_eq, Char.utf8Size_eq_one_iff, UInt32.le_iff_toNat_le]
    exact Nat.not_le_of_lt hc
  omega

/-- A character outside ASCII is written as two or more characters, none of them an
underscore. -/
theorem length_folded_byteChars (hc : 128 ≤ c.toNat) :
    (folded (byteChars [c])).length = c.utf8Size := by
  have hbytes : byteChars [c] =
      (String.utf8EncodeChar c).map fun byte => Char.ofNat byte.toNat :=
    List.flatMap_singleton _ _
  have hkept : ∀ d ∈ byteChars [c], d ≠ '_' := by
    rw [hbytes]
    rintro d hd rfl
    obtain ⟨byte, hbyte, hcode⟩ := List.mem_map.1 hd
    have hle := le_toNat_of_mem_utf8EncodeChar hc byte hbyte
    have hlt := byte.toNat_lt
    have hcode := congrArg Char.toNat hcode
    rw [Char.toNat_ofNat, if_pos (Or.inl (by omega))] at hcode
    have hunderscore : '_'.toNat = 95 := rfl
    omega
  rw [folded, List.length_map, List.filter_eq_self.2 (by simpa using hkept), hbytes,
    List.length_map, String.length_utf8EncodeChar]

theorem length_folded_singleton_lt (hc : 128 ≤ c.toNat) :
    (folded [c]).length < (folded (byteChars [c])).length := by
  have hsize := two_le_utf8Size hc
  have hone : (folded [c]).length ≤ 1 :=
    (List.length_map _).trans_le (List.length_filter_le _ [c])
  rw [length_folded_byteChars hc]
  omega

theorem length_folded_le (text : List Char) :
    (folded text).length ≤ (folded (byteChars text)).length := by
  induction text with
  | nil => exact Nat.le_refl _
  | cons c rest ih =>
      have hone : (folded [c]).length ≤ (folded (byteChars [c])).length := by
        by_cases hc : c.toNat < 128
        · rw [byteChars_eq_self (by simpa using hc)]
        · exact (length_folded_singleton_lt (Nat.not_lt.1 hc)).le
      rw [← List.singleton_append, byteChars_append, folded_append, folded_append,
        List.length_append, List.length_append]
      omega

/-- A name that is not one of ASCII characters grows. -/
theorem length_folded_lt (hmem : c ∈ text) (hc : 128 ≤ c.toNat) :
    (folded text).length < (folded (byteChars text)).length := by
  obtain ⟨front, back, rfl⟩ := List.append_of_mem hmem
  have hfront := length_folded_le front
  have hone := length_folded_singleton_lt hc
  have hback := length_folded_le back
  rw [← List.singleton_append]
  simp only [byteChars_append, folded_append, List.length_append]
  omega

/-- Camel case keeps of a name, apart from underscores and the case of letters, all of
its bytes, each as the character of its code, whether or not numbers are kept apart.
These are the characters of the name itself exactly if all of them are of ASCII. -/
theorem folded_camel (keepNumbers : Bool) (name : String) :
    folded (camel keepNumbers name).toList = folded (latin name.toUTF8) ∧
      (folded (camel keepNumbers name).toList = folded name.toList ↔
        ∀ c ∈ name.toList, c.toNat < 128) := by
  have hcamel : folded (camel keepNumbers name).toList =
      folded (byteChars name.toList) := by
    rw [camel, String.toList_ofList, folded_camelFrom]
  rw [← byteChars_toList, hcamel]
  refine ⟨rfl, ?_, fun hascii => by rw [byteChars_eq_self hascii]⟩
  intro hsame c hc
  by_contra hnot
  have hlonger := length_folded_lt hc (Nat.not_lt.1 hnot)
  rw [hsame] at hlonger
  exact Nat.lt_irrefl _ hlonger

/-- A letter with an accent comes back as two characters, neither of which it is. -/
theorem folded_camel_accent :
    (∀ keepNumbers, camel keepNumbers "É" = "Ã\x89") ∧
      ¬ ∀ keepNumbers name,
        folded (camel keepNumbers name).toList = folded name.toList := by
  have hcamel : ∀ keepNumbers, camel keepNumbers "É" = "Ã\x89" := by decide
  refine ⟨hcamel, fun hkept => ?_⟩
  have hsame := hkept true "É"
  rw [hcamel] at hsame
  exact absurd hsame (by decide)

end VideoRegistry.Naming
