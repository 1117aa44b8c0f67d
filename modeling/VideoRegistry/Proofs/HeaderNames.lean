import VideoRegistry.Config.Basic

/-!
# Names of codec headers

A codec header is named by the directory of these headers, the extension that it stands
for and an ending.  Such an extension begins with a stem, but the stem is looked for with
the ending still in place.  So the names of headers are told from others exactly where the
stem cannot reach into the ending.
-/

namespace VideoRegistry

/-- A lead may reach into an ending of two characters. -/
theorem Text.exists_append_pair_iff {text lead : List Char} {c d : Char} :
    (∃ rest, text ++ [c, d] = lead ++ rest) ↔
      (∃ rest, text = lead ++ rest) ∨ lead = text ++ [c] ∨ lead = text ++ [c, d] := by
  constructor
  · rintro ⟨rest, htext⟩
    rcases List.append_eq_append_iff.1 htext with ⟨reach, rfl, hreach⟩ | ⟨rest, rfl, -⟩
    · match reach with
      | [] => exact Or.inl ⟨[], by simp⟩
      | [x] =>
          obtain ⟨rfl, -⟩ : c = x ∧ rest = [d] := by simpa [eq_comm] using hreach
          exact Or.inr (Or.inl rfl)
      | x :: y :: reach =>
          obtain ⟨rfl, rfl, rfl, -⟩ : c = x ∧ d = y ∧ reach = [] ∧ rest = [] := by
            simpa [eq_comm] using hreach
          exact Or.inr (Or.inr rfl)
    · exact Or.inl ⟨rest, rfl⟩
  · rintro (⟨rest, rfl⟩ | rfl | rfl)
    · exact ⟨rest ++ [c, d], List.append_assoc _ _ _⟩
    · exact ⟨[d], by simp⟩
    · exact ⟨[], (List.append_nil _).symm⟩

theorem Text.beginsWith_append_pair_iff {text lead : String} {c d : Char} :
    beginsWith (text ++ String.ofList [c, d]) lead ↔
      beginsWith text lead ∨ lead = text ++ String.ofList [c] ∨
        lead = text ++ String.ofList [c, d] := by
  simp only [beginsWith, Option.isSome_iff_exists, after?_eq_some_iff,
    String.toList_append, String.toList_ofList, exists_append_pair_iff, ← String.toList_inj]

/-- A text does not begin with a longer one. -/
theorem Text.not_beginsWith_append {text ending : String} (hending : ending ≠ "") :
    ¬ beginsWith text (text ++ ending) := by
  intro hbegins
  obtain ⟨rest, htext⟩ := beginsWith_iff.1 hbegins
  have hlength := congrArg String.length htext
  rw [String.length_append, String.length_append] at hlength
  have hnone : ending.length = 0 := by omega
  exact hending (String.length_eq_zero_iff.1 hnone)

namespace DialectConfig

variable {dialect : DialectConfig} {name extension : String}

theorem headerExtension?_eq_some_iff_beginsWith :
    dialect.headerExtension? name = some extension ↔
      name = dialect.headerDir ++ extension ++ ".h" ∧
        Text.beginsWith (extension ++ ".h") dialect.headerStem := by
  rw [headerExtension?, String.append_assoc, ← String.toList_inj, String.toList_append,
    ← Text.after?_eq_some_iff]
  constructor
  · intro hfound
    split at hfound
    · cases hfound
    next rest hdir =>
    dsimp only at hfound
    split at hfound
    · next hfile =>
        rw [Bool.and_eq_true] at hfile
        obtain ⟨hstem, hending⟩ := hfile
        obtain ⟨body, hbody⟩ := Text.endsWith_iff.1 hending
        rw [hbody, Text.stripEnding_append] at hfound
        obtain rfl := Option.some.inj hfound
        rw [← hbody, String.toList_ofList]
        exact ⟨hdir, hstem⟩
    · cases hfound
  · rintro ⟨hdir, hstem⟩
    have hending : Text.endsWith (extension ++ ".h") ".h" :=
      Text.endsWith_iff.2 ⟨extension, rfl⟩
    simp only [hdir, String.ofList_toList, hstem, hending, Bool.and_self, if_true,
      Text.stripEnding_append]

/-- A name is that of a codec header, and stands for an extension, exactly if it is put
together from the directory, the extension and the ending, and the extension begins with
the stem or the stem reaches into the ending.  So the extensions that names stand for
begin with the stem in every dialect whose stem does not itself end like such a name, and
in no other. -/
theorem headerExtension?_decodes (dialect : DialectConfig) :
    (∀ name extension, dialect.headerExtension? name = some extension ↔
      name = dialect.headerDir ++ extension ++ ".h" ∧
        (Text.beginsWith extension dialect.headerStem ∨
          dialect.headerStem = extension ++ "." ∨
            dialect.headerStem = extension ++ ".h")) ∧
    ((∀ name extension, dialect.headerExtension? name = some extension ↔
      name = dialect.headerDir ++ extension ++ ".h" ∧
        Text.beginsWith extension dialect.headerStem) ↔
      ∀ extension, dialect.headerStem ≠ extension ++ "." ∧
        dialect.headerStem ≠ extension ++ ".h") := by
  have hexact : ∀ name extension, dialect.headerExtension? name = some extension ↔
      name = dialect.headerDir ++ extension ++ ".h" ∧
        (Text.beginsWith extension dialect.headerStem ∨
          dialect.headerStem = extension ++ "." ∨
            dialect.headerStem = extension ++ ".h") := by
    intro name extension
    rw [headerExtension?_eq_some_iff_beginsWith]
    exact and_congr_right' Text.beginsWith_append_pair_iff
  refine ⟨hexact, ?_, ?_⟩
  · intro hplain extension
    refine not_or.1 fun hreach => ?_
    have hfound := (hexact (dialect.headerDir ++ extension ++ ".h") extension).2
      ⟨rfl, Or.inr hreach⟩
    have hbegins := ((hplain _ _).1 hfound).2
    rcases hreach with hreach | hreach
    all_goals
      rw [hreach] at hbegins
      exact Text.not_beginsWith_append (by decide) hbegins
  · intro hstem name extension
    obtain ⟨hdot, hending⟩ := hstem extension
    rw [hexact, or_iff_left (not_or.2 ⟨hdot, hending⟩)]

/-- A stem that ends like the name of a header reaches into the ending. -/
theorem headerExtension?_overlap :
    headerExtension? { headerDir := "v/", headerStem := "codec." } "v/codec.h" =
        some "codec" ∧
      Text.beginsWith "codec" "codec." = false := by
  decide

end DialectConfig

end VideoRegistry
