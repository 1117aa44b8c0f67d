import Mathlib
import VideoRegistry.Proofs.Filling

/-!
# Which texts are replaced

In the source of a template a slot is `$`, `\x7b`, a name, `\x7d`, where the name is not
empty and has no closing brace.  Slots are found from the left: the one that begins
first is taken, and the search goes on behind it.  This says for every text which slots
it has, and the template that is read from a text has exactly these.  So a filled
template is its source with the texts in the places of the slots and with every other
character where it was.
-/

namespace VideoRegistry

namespace NameMap

variable {α : Type}

/-- Names are kept in order, and none of them twice. -/
theorem pairwise_names_insert {map : NameMap α} (name : String) (value : α)
    (hsorted : map.names.Pairwise (· < ·)) :
    (map.insert name value).names.Pairwise (· < ·) := by
  obtain ⟨entries⟩ := map
  simp only [names, insert] at hsorted ⊢
  induction entries with
  | nil => simp [insertEntry]
  | cons entry rest ih =>
      obtain ⟨hentry, hrest⟩ := List.pairwise_cons.1 hsorted
      rw [insertEntry]
      split
      · next hsame => exact hsame ▸ hsorted
      · next hother =>
          split
          · next hless =>
              refine List.pairwise_cons.2 ⟨?_, hsorted⟩
              intro later hlater
              rcases List.mem_cons.1 hlater with rfl | hlater
              · exact hless
              · exact lt_trans hless (hentry later hlater)
          · next hnotLess =>
              have hbehind : entry.1 < name :=
                lt_of_le_of_ne (not_lt.1 hnotLess) hother
              refine List.pairwise_cons.2 ⟨?_, ih hrest⟩
              intro later hlater
              have hsplit : later = name ∨ later ∈ names ⟨rest⟩ :=
                mem_names_insert.1 hlater
              rcases hsplit with rfl | hlater
              · exact hbehind
              · exact hentry later hlater

theorem pairwise_names_ofList (pairs : List (String × α)) :
    (ofList pairs).names.Pairwise (· < ·) := by
  suffices hfold : ∀ map : NameMap α, map.names.Pairwise (· < ·) →
      (pairs.foldl (fun map pair => map.insert pair.1 pair.2) map).names.Pairwise
        (· < ·) by
    exact hfold empty .nil
  induction pairs with
  | nil => exact fun _ hsorted => hsorted
  | cons pair pairs ih =>
      exact fun map hsorted => ih _ (pairwise_names_insert pair.1 pair.2 hsorted)

end NameMap

namespace Template

variable {source front back last : List Char} {name : List Char} {c : Char}
  {cuts : List Cut}

/-! ## Slots in a source -/

/-- A slot as a source writes it. -/
def slotText (name : List Char) : List Char :=
  '$' :: '{' :: (name ++ ['}'])

/-- A slot stands in a source between two texts. -/
structure SlotAt (source front name back : List Char) : Prop where
  name_ne_nil : name ≠ []
  name_closing : '}' ∉ name
  source_eq : source = front ++ (slotText name ++ back)

/-- A slot stands in a source and no slot begins further left. -/
structure FirstSlot (source front name back : List Char) : Prop where
  slotAt : SlotAt source front name back
  le_length : ∀ front' name' back', SlotAt source front' name' back' →
    front.length ≤ front'.length

/-- A slot with the text in front of it. -/
structure Cut where
  front : List Char
  name : List Char

/-- A source is cut at its slots, always at the first one of what is left; no slot is
in the text behind the last one. -/
inductive Scanned : List Char → List Cut → List Char → Prop
  | done {source : List Char}
      (hnone : ∀ front name back, ¬ SlotAt source front name back) :
      Scanned source [] source
  | slot {source front name back last : List Char} {cuts : List Cut}
      (hfirst : FirstSlot source front name back) (hback : Scanned back cuts last) :
      Scanned source (⟨front, name⟩ :: cuts) last

/-- A slot does not begin a text. -/
def NoOpening (source : List Char) : Prop :=
  ∀ name back, ¬ SlotAt source [] name back

theorem slotAt_cons_iff (hnone : NoOpening (c :: source)) :
    SlotAt (c :: source) front name back ↔
      ∃ rest, front = c :: rest ∧ SlotAt source rest name back := by
  constructor
  · intro hslot
    cases front with
    | nil => exact absurd hslot (hnone name back)
    | cons d rest =>
        obtain ⟨hname, hclosing, hsource⟩ := hslot
        obtain ⟨rfl, hrest⟩ := List.cons.inj hsource
        exact ⟨rest, rfl, hname, hclosing, hrest⟩
  · rintro ⟨rest, rfl, hname, hclosing, rfl⟩
    exact ⟨hname, hclosing, rfl⟩

/-- The name of a slot ends with the first closing brace. -/
theorem slotAt_opening_iff {rest : List Char} :
    SlotAt ('$' :: '{' :: rest) [] name back ↔
      name = rest.takeWhile (!isClosing ·) ∧ name ≠ [] ∧
        rest.dropWhile (!isClosing ·) = '}' :: back := by
  constructor
  · rintro ⟨hname, hclosing, hsource⟩
    have hrest : rest = name ++ '}' :: back := by
      simpa [slotText] using hsource
    have hopen : ∀ c ∈ name, (!isClosing c) = true := by
      intro c hc
      have hne : c ≠ '}' := fun heq => hclosing (heq ▸ hc)
      simp [isClosing, hne]
    rw [hrest, List.takeWhile_append_of_pos hopen, List.dropWhile_append_of_pos hopen]
    simp [isClosing, hname]
  · rintro ⟨rfl, hname, hback⟩
    refine ⟨hname, ?_, ?_⟩
    · intro hclosing
      exact absurd (List.mem_takeWhile_imp hclosing) (by decide)
    · have hsplit := List.takeWhile_append_dropWhile (p := (!isClosing ·)) (l := rest)
      rw [hback] at hsplit
      simp [slotText, hsplit]

theorem opening_eq_of_slotAt (hslot : SlotAt source [] name back) :
    ∃ rest, source = '$' :: '{' :: rest := by
  exact ⟨_, hslot.source_eq⟩

theorem SlotAt.unique_of_nil {name' back' : List Char}
    (hslot : SlotAt source [] name back) (hother : SlotAt source [] name' back') :
    name = name' ∧ back = back' := by
  obtain ⟨rest, rfl⟩ := opening_eq_of_slotAt hslot
  obtain ⟨rfl, -, hback⟩ := slotAt_opening_iff.1 hslot
  obtain ⟨rfl, -, hback'⟩ := slotAt_opening_iff.1 hother
  exact ⟨rfl, (List.cons.inj (hback.symm.trans hback')).2⟩

theorem FirstSlot.unique {front' name' back' : List Char}
    (hfirst : FirstSlot source front name back)
    (hother : FirstSlot source front' name' back') :
    front = front' ∧ name = name' ∧ back = back' := by
  have hlength : front.length = front'.length :=
    Nat.le_antisymm (hfirst.le_length _ _ _ hother.slotAt)
      (hother.le_length _ _ _ hfirst.slotAt)
  obtain ⟨hname, hclosing, hsource⟩ := hfirst.slotAt
  obtain ⟨hname', hclosing', hsource'⟩ := hother.slotAt
  obtain ⟨rfl, hrest⟩ := List.append_inj (hsource.symm.trans hsource') hlength
  exact ⟨rfl, SlotAt.unique_of_nil ⟨hname, hclosing, rfl⟩ ⟨hname', hclosing', hrest⟩⟩

/-- A source is cut in one way only. -/
theorem Scanned.unique {cuts' : List Cut} {last' : List Char}
    (hscanned : Scanned source cuts last) (hother : Scanned source cuts' last') :
    cuts' = cuts ∧ last' = last := by
  induction hscanned generalizing cuts' last' with
  | done hnone =>
      cases hother with
      | done => exact ⟨rfl, rfl⟩
      | slot hfirst => exact absurd hfirst.slotAt (hnone _ _ _)
  | slot hfirst hback ih =>
      cases hother with
      | done hnone => exact absurd hfirst.slotAt (hnone _ _ _)
      | slot hfirst' hback' =>
          obtain ⟨rfl, rfl, rfl⟩ := hfirst.unique hfirst'
          obtain ⟨rfl, rfl⟩ := ih hback'
          exact ⟨rfl, rfl⟩

/-! ## Reading a source -/

theorem parseFrom_of_slotAt (hslot : SlotAt source [] name back) :
    parseFrom source = .slot (String.ofList name) :: parseFrom back := by
  obtain ⟨rest, rfl⟩ := opening_eq_of_slotAt hslot
  obtain ⟨rfl, hname, hback⟩ := slotAt_opening_iff.1 hslot
  rw [parseFrom]
  split
  · next hnone =>
      rw [hnone] at hback
      cases hback
  · next d tail hclosing =>
      obtain ⟨-, rfl⟩ := List.cons.inj (hclosing.symm.trans hback)
      dsimp only
      rw [if_neg (by simpa using hname)]

theorem parseFrom_of_noOpening (hnone : NoOpening (c :: source)) :
    parseFrom (c :: source) = consChar c (parseFrom source) := by
  by_cases hopening : ∃ rest, c :: source = '$' :: '{' :: rest
  · obtain ⟨rest, hrest⟩ := hopening
    obtain ⟨rfl, rfl⟩ := List.cons.inj hrest
    rw [parseFrom]
    split
    · rfl
    · next d tail hclosing =>
        dsimp only
        split
        · rfl
        · next hname =>
            have hd : d = '}' := by
              have hhead := List.head?_dropWhile_not (!isClosing ·) rest
              rw [hclosing] at hhead
              simpa [isClosing] using hhead
            exact absurd (slotAt_opening_iff.2 ⟨rfl, by simpa using hname, hd ▸ hclosing⟩)
              (hnone _ _)
  · rw [parseFrom]
    intro rest hdollar hbrace
    exact hopening ⟨rest, by rw [hdollar, hbrace]⟩

/-- A source is empty, begins with a slot, or begins with a character that begins no
slot. -/
theorem source_induction {motive : List Char → Prop} (nil : motive [])
    (slot : ∀ source name back, SlotAt source [] name back → motive back → motive source)
    (char : ∀ c source, NoOpening (c :: source) → motive source → motive (c :: source))
    (source : List Char) : motive source := by
  induction hlength : source.length using Nat.strong_induction_on generalizing source with
  | _ length ih =>
      cases source with
      | nil => exact nil
      | cons c rest =>
          by_cases hopening : ∃ name back, SlotAt (c :: rest) [] name back
          · obtain ⟨name, back, hslot⟩ := hopening
            have hshorter : back.length < length := by
              rw [← hlength, hslot.source_eq]
              simp [slotText]
              omega
            exact slot _ name back hslot (ih _ hshorter back rfl)
          · have hnone : NoOpening (c :: rest) := fun name back hslot =>
              hopening ⟨name, back, hslot⟩
            exact char c rest hnone (ih _ (by simp [← hlength]) rest rfl)

/-- Puts a text in front of a template. -/
def consText (text : List Char) (template : Template) : Template :=
  text.foldr consChar template

/-- The template of a source that is cut at its slots. -/
def ofCuts (last : List Char) : List Cut → Template
  | [] => consText last []
  | cut :: cuts => consText cut.front (.slot (String.ofList cut.name) :: ofCuts last cuts)

theorem FirstSlot.cons (hnone : NoOpening (c :: source))
    (hfirst : FirstSlot source front name back) :
    FirstSlot (c :: source) (c :: front) name back := by
  constructor
  · exact (slotAt_cons_iff hnone).2 ⟨front, rfl, hfirst.slotAt⟩
  · intro front' name' back' hslot
    obtain ⟨rest, rfl, hrest⟩ := (slotAt_cons_iff hnone).1 hslot
    exact Nat.succ_le_succ (hfirst.le_length rest name' back' hrest)

theorem FirstSlot.of_nil (hslot : SlotAt source [] name back) :
    FirstSlot source [] name back :=
  ⟨hslot, fun _ _ _ _ => Nat.zero_le _⟩

/-- A character that begins no slot is put in front of the first cut. -/
theorem Scanned.cons (hnone : NoOpening (c :: source))
    (hscanned : Scanned source cuts last) :
    ∃ cuts' last', Scanned (c :: source) cuts' last' ∧
      ofCuts last' cuts' = consChar c (ofCuts last cuts) := by
  cases hscanned with
  | done hfree =>
      refine ⟨[], c :: source, .done ?_, rfl⟩
      intro front name back hslot
      obtain ⟨rest, -, hrest⟩ := (slotAt_cons_iff hnone).1 hslot
      exact hfree rest name back hrest
  | slot hfirst hback => exact ⟨_, _, .slot (hfirst.cons hnone) hback, rfl⟩

/-- Every source is cut at its slots, and the template that is read has these slots. -/
theorem exists_scanned (source : List Char) :
    ∃ cuts last, Scanned source cuts last ∧ parseFrom source = ofCuts last cuts := by
  induction source using source_induction with
  | nil =>
      refine ⟨[], [], .done ?_, by rw [parseFrom]; rfl⟩
      rintro front name back ⟨-, -, hsource⟩
      cases front <;> cases hsource
  | slot source name back hslot ih =>
      obtain ⟨cuts, last, hscanned, hparse⟩ := ih
      refine ⟨⟨[], name⟩ :: cuts, last, .slot (.of_nil hslot) hscanned, ?_⟩
      rw [parseFrom_of_slotAt hslot, hparse]
      rfl
  | char c source hnone ih =>
      obtain ⟨cuts, last, hscanned, hparse⟩ := ih
      obtain ⟨cuts', last', hscanned', hcuts⟩ := hscanned.cons hnone
      exact ⟨cuts', last', hscanned', by rw [parseFrom_of_noOpening hnone, hparse, hcuts]⟩

/-! ## Filling a source -/

/-- A source with a text in the place of every slot. -/
def written (value : String → String) (cuts : List Cut) (last : List Char) : String :=
  String.join (cuts.map fun cut =>
    String.ofList cut.front ++ value (String.ofList cut.name)) ++ String.ofList last

variable {fillings : List (String × String)} {template : Template} {text : List Char}

theorem filterMap_slot?_consText :
    (consText text template).filterMap slot? = template.filterMap slot? := by
  induction text with
  | nil => rfl
  | cons c text ih =>
      rw [← ih]
      change (consChar c (consText text template)).filterMap slot? = _
      cases consText text template with
      | nil => rfl
      | cons segment rest => cases segment <;> rfl

theorem join_fillSegment_consText :
    String.join ((consText text template).map (fillSegment fillings)) =
      String.ofList text ++ String.join (template.map (fillSegment fillings)) := by
  induction text with
  | nil => simp [consText]
  | cons c text ih =>
      have hcons : String.ofList (c :: text) = String.singleton c ++ String.ofList text := by
        apply String.toList_inj.1
        simp
      rw [hcons, String.append_assoc, ← ih]
      change String.join ((consChar c (consText text template)).map _) = _
      cases consText text template with
      | nil => simp [consChar, fillSegment]
      | cons segment rest =>
          cases segment <;> simp [consChar, fillSegment, String.append_assoc]

theorem filterMap_slot?_ofCuts :
    (ofCuts last cuts).filterMap slot? = cuts.map fun cut => String.ofList cut.name := by
  induction cuts with
  | nil => exact filterMap_slot?_consText
  | cons cut cuts ih =>
      rw [List.map_cons, ← ih]
      exact filterMap_slot?_consText

theorem join_fillSegment_ofCuts :
    String.join ((ofCuts last cuts).map (fillSegment fillings)) =
      written (fun name => fillSegment fillings (.slot name)) cuts last := by
  induction cuts with
  | nil =>
      refine join_fillSegment_consText.trans ?_
      simp [written]
  | cons cut cuts ih =>
      refine join_fillSegment_consText.trans ?_
      rw [List.map_cons, String.join_cons, ih]
      simp [written, fillSegment, String.append_assoc]

theorem written_congr {value other : String → String}
    (hsame : ∀ cut ∈ cuts, value (String.ofList cut.name) =
      other (String.ofList cut.name)) :
    written value cuts last = written other cuts last := by
  rw [written, written]
  congr 2
  exact List.map_congr_left fun cut hcut => by rw [hsame cut hcut]

/-- A source is what is written if every slot is left as the source writes it. -/
theorem Scanned.written_slotText (hscanned : Scanned source cuts last) :
    written (fun name => String.ofList (slotText name.toList)) cuts last =
      String.ofList source := by
  induction hscanned with
  | done => simp [written]
  | slot hfirst hback ih =>
      rw [hfirst.slotAt.source_eq, String.ofList_append, String.ofList_append, ← ih]
      simp [written, String.append_assoc]

/-- A key that is given once gives its text to the slots of its name. -/
theorem fillSegment_slot (hkeys : (fillings.map Prod.fst).Nodup)
    {filling : String × String} (hfilling : filling ∈ fillings) :
    fillSegment fillings (.slot filling.1) = filling.2 := by
  induction fillings with
  | nil => cases hfilling
  | cons first rest ih =>
      obtain ⟨hfirst, hrest⟩ := List.nodup_cons.1 hkeys
      rcases List.mem_cons.1 hfilling with rfl | hlater
      · simp [fillSegment]
      · have hother : first.1 ≠ filling.1 := fun heq =>
          hfirst (heq ▸ List.mem_map_of_mem hlater)
        have hnext := ih hrest hlater
        simp only [fillSegment] at hnext ⊢
        rw [List.find?_cons_of_neg (by simpa using hother), hnext]

theorem Scanned.parse_eq {source : String} (hscanned : Scanned source.toList cuts last) :
    parse source = ofCuts last cuts := by
  obtain ⟨cuts', last', hscanned', hparse⟩ := exists_scanned source.toList
  obtain ⟨rfl, rfl⟩ := hscanned.unique hscanned'
  exact hparse

theorem Scanned.mem_slots_iff {source name : String}
    (hscanned : Scanned source.toList cuts last) :
    name ∈ (parse source).slots ↔ ∃ cut ∈ cuts, String.ofList cut.name = name := by
  rw [Template.mem_slots_iff, hscanned.parse_eq, filterMap_slot?_ofCuts, List.mem_map]

/-- The keys are those of the slots, and each is given once. -/
theorem fits_iff {template : Template} {keys : List String} :
    template.Fits keys ↔
      keys.Nodup ∧ ∀ name, name ∈ keys ↔ name ∈ template.slots := by
  simp only [Fits, mem_slots_iff, List.subset_def, iff_def, forall_and]

/-- The template of a source is filled exactly if the keys are distinct and are the names
of the slots, with the text of its name in the place of each slot. -/
theorem fill_parse_iff {source text : String}
    (hscanned : Scanned source.toList cuts last) :
    (parse source).fill fillings = .ok text ↔
      (parse source).Fits (fillings.map Prod.fst) ∧
        ∃ value, (∀ filling ∈ fillings, value filling.1 = filling.2) ∧
          text = written value cuts last := by
  rw [fill_eq_ok_iff]
  refine and_congr_right fun hfits => ?_
  obtain ⟨hkeys, hnames⟩ := fits_iff.1 hfits
  rw [hscanned.parse_eq, join_fillSegment_ofCuts]
  constructor
  · rintro rfl
    exact ⟨_, fun filling hfilling => fillSegment_slot hkeys hfilling, rfl⟩
  · rintro ⟨value, hvalue, rfl⟩
    apply written_congr
    intro cut hcut
    have hslot := hscanned.mem_slots_iff.2 ⟨cut, hcut, rfl⟩
    obtain ⟨filling, hfilling, hname⟩ := List.mem_map.1 ((hnames _).2 hslot)
    rw [← hname, fillSegment_slot hkeys hfilling, hvalue filling hfilling]

/-- A source has one way of being cut at its slots, the leftmost ones that do not overlap.
The names of the template are those of the slots, in order and each once.  It is filled
exactly if the keys are distinct and are these names.  Then the text of its name stands in
the place of each slot as it is, whatever it holds, and everything else stands where the
source has it.  The order of the fillings makes no difference. -/
theorem fill_parse_replaces (source : String) :
    ∃ cuts last, Scanned source.toList cuts last ∧
      (∀ cuts' last', Scanned source.toList cuts' last' → cuts' = cuts ∧ last' = last) ∧
      written (fun name => String.ofList (slotText name.toList)) cuts last = source ∧
      (∀ name, name ∈ (parse source).slots ↔
        ∃ cut ∈ cuts, String.ofList cut.name = name) ∧
      (parse source).slots.Pairwise (· < ·) ∧
      ∀ fillings : List (String × String),
        ((∃ text, (parse source).fill fillings = .ok text) ↔
          (fillings.map Prod.fst).Nodup ∧
            ∀ name, name ∈ fillings.map Prod.fst ↔ name ∈ (parse source).slots) ∧
        (∀ text, (parse source).fill fillings = .ok text →
          ∃ value, (∀ filling ∈ fillings, value filling.1 = filling.2) ∧
            text = written value cuts last) ∧
        ∀ others, others.Perm fillings → ∀ text,
          (parse source).fill others = .ok text ↔
            (parse source).fill fillings = .ok text := by
  obtain ⟨cuts, last, hscanned, -⟩ := exists_scanned source.toList
  refine ⟨cuts, last, hscanned, fun _ _ => hscanned.unique, ?_,
    fun _ => hscanned.mem_slots_iff, NameMap.pairwise_names_ofList _, ?_⟩
  · rw [hscanned.written_slotText, String.ofList_toList]
  · intro fillings
    refine ⟨?_, fun text htext => ((fill_parse_iff hscanned).1 htext).2, ?_⟩
    · rw [← fits_iff]
      constructor
      · rintro ⟨text, htext⟩
        exact ((fill_parse_iff hscanned).1 htext).1
      · exact fun hfits => ⟨_, fill_of_fits hfits⟩
    · intro others hperm text
      have hkeys : (others.map Prod.fst).Perm (fillings.map Prod.fst) := hperm.map Prod.fst
      simp only [fill_parse_iff hscanned, fits_iff, hkeys.nodup_iff, hkeys.mem_iff,
        hperm.mem_iff]

/-- A dollar sign in front of a slot, a slot without a name, a name with an opening in it
and an opening that is not closed; what looks like a slot in a filling is left alone. -/
theorem fill_parse_braces :
    ∃ cuts last value,
      Scanned "$$\x7ba\x7d$\x7b\x7d$\x7bb$\x7bc\x7d$\x7b".toList cuts last ∧
      value "a" = "$\x7bb\x7d" ∧ value "b$\x7bc" = "2" ∧
      written value cuts last = "$$\x7bb\x7d$\x7b\x7d2$\x7b" ∧
      (parse "$$\x7ba\x7d$\x7b\x7d$\x7bb$\x7bc\x7d$\x7b").fill
        [("b$\x7bc", "2"), ("a", "$\x7bb\x7d")] = .ok (written value cuts last) := by
  obtain ⟨cuts, last, hscanned, -, -, -, -, hfill⟩ :=
    fill_parse_replaces "$$\x7ba\x7d$\x7b\x7d$\x7bb$\x7bc\x7d$\x7b"
  obtain ⟨-, htext, hperm⟩ := hfill [("a", "$\x7bb\x7d"), ("b$\x7bc", "2")]
  have hfilled : (parse "$$\x7ba\x7d$\x7b\x7d$\x7bb$\x7bc\x7d$\x7b").fill
      [("a", "$\x7bb\x7d"), ("b$\x7bc", "2")] =
        .ok "$$\x7bb\x7d$\x7b\x7d2$\x7b" := by
    cbv
  obtain ⟨value, hvalue, hwritten⟩ := htext _ hfilled
  refine ⟨cuts, last, value, hscanned, hvalue ("a", _) (by simp),
    hvalue ("b$\x7bc", _) (by simp), hwritten.symm, ?_⟩
  rw [← hwritten]
  exact (hperm _ (.swap _ _ []) _).2 hfilled

end Template

end VideoRegistry
