import VideoRegistry.Proofs.AlikeReading
import VideoRegistry.Proofs.Checking
import VideoRegistry.Proofs.Substitution

/-!
# What the rules for attributes ask

A required attribute is wrong if it is missing, or if its value lists something that its
rule does not allow.  The first such fault ends the check.  If there is none, every
attribute that no rule knows and everything not allowed that an optional attribute lists
is reported once, attribute by attribute in the order of their names.  A value that lists
nothing lists nothing wrong, so no rule minds it.
-/

namespace VideoRegistry

/-! ## Values -/

/-- What a value lists: its parts between commas, trimmed, but for the empty ones. -/
def listed (value : String) : List String :=
  (((value.toList.splitOn ',').map Text.trim).filter (· ≠ [])).map String.ofList

theorem piecesAt_comma (text : List Char) : Text.piecesAt ',' [] text = text.splitOn ',' := by
  induction text with
  | nil => simp [Text.piecesAt]
  | cons c rest ih =>
      rw [List.splitOn_cons_eq_if_modifyHead, Text.piecesAt]
      by_cases hc : ',' = c
      · subst hc
        rw [if_pos (beq_self_eq_true _), ← ih]
        rfl
      · have hafter : Text.after? [','] (c :: rest) = none := by simp [Text.after?, hc]
        rw [if_neg (by simpa using Ne.symm hc), ← ih]
        split
        · next tail hsome => simp [hafter] at hsome
        · obtain ⟨piece, pieces, hpieces⟩ :=
            List.exists_cons_of_ne_nil (List.splitOn_ne_nil ',' rest)
          rw [ih, hpieces]
          rfl

theorem tokens_comma (value : String) : Text.tokens value "," = listed value := by
  rw [listed, ← piecesAt_comma]
  rfl

/-- An attribute may have a value if all values are allowed, or all that it lists. -/
def AttributeRule.Allows (rule : AttributeRule) (value : String) : Prop :=
  rule.allowed = [] ∨ ∀ token ∈ listed value, token ∈ rule.allowed

theorem unexpected_eq (rule : AttributeRule) (value : String) :
    rule.unexpected value =
      (listed value).filter fun token => rule.allowed ≠ [] ∧ token ∉ rule.allowed := by
  rw [AttributeRule.unexpected, tokens_comma]
  by_cases hallowed : rule.allowed = []
  · simp [hallowed]
  · simp [hallowed, List.isEmpty_iff]

theorem unexpected_eq_nil_iff {rule : AttributeRule} {value : String} :
    rule.unexpected value = [] ↔ rule.Allows value := by
  rw [unexpected_eq, List.filter_eq_nil_iff, AttributeRule.Allows]
  by_cases hallowed : rule.allowed = []
  · simp [hallowed]
  · simp [hallowed]

/-! ## Required attributes -/

/-- A required attribute is missing, or its value is not allowed. -/
inductive Broken (attributes : Attributes) (rule : AttributeRule) : Prop
  | missing (hnone : attributes.get? rule.name = none)
  | outside (value : String) (hvalue : attributes.get? rule.name = some value)
      (houtside : ¬ rule.Allows value)

/-- All that is wrong with an attribute that is required. -/
def ruleFaults (line : Nat) (attributes : Attributes) (rule : AttributeRule) :
    List SpecError :=
  match attributes.get? rule.name with
  | none => [⟨line, .missingAttribute rule.name⟩]
  | some value => (rule.unexpected value).map fun token =>
      ⟨line, .unexpectedValue rule.name token⟩

/-- All that is wrong with the required attributes, rule by rule. -/
def attributeFaults (line : Nat) (attributes : Attributes)
    (required : List AttributeRule) : List SpecError :=
  required.flatMap (ruleFaults line attributes)

section

variable {line : Nat} {attributes : Attributes} {rule : AttributeRule}
  {required optional : List AttributeRule}

theorem ruleFaults_eq_nil_iff :
    ruleFaults line attributes rule = [] ↔ ¬ Broken attributes rule := by
  rw [ruleFaults]
  cases hvalue : attributes.get? rule.name with
  | none => exact iff_of_false (List.cons_ne_nil _ _) (not_not_intro (.missing hvalue))
  | some value =>
      dsimp only
      rw [List.map_eq_nil_iff, unexpected_eq_nil_iff]
      constructor
      · intro hallows hbroken
        cases hbroken with
        | missing hnone => simp [hvalue] at hnone
        | outside other hother houtside =>
            obtain rfl := Option.some.inj (hvalue.symm.trans hother)
            exact houtside hallows
      · intro hbroken
        by_contra houtside
        exact hbroken (.outside value hvalue houtside)

theorem attributeFaults_eq_nil_iff :
    attributeFaults line attributes required = [] ↔
      ∀ rule ∈ required, ¬ Broken attributes rule := by
  simp only [attributeFaults, List.flatMap_eq_nil_iff, ruleFaults_eq_nil_iff]

theorem checkRequired_eq_verdict :
    checkRequired line attributes required =
      verdict (attributeFaults line attributes required) () := by
  induction required with
  | nil => rfl
  | cons rule rules ih =>
      rw [checkRequired, attributeFaults, List.flatMap_cons, ruleFaults]
      cases attributes.get? rule.name with
      | none => rfl
      | some value =>
          dsimp only
          cases rule.unexpected value with
          | nil => exact ih
          | cons token tokens => rfl

/-! ## Warnings -/

/-- What a finding is about. -/
def Finding.subject : Finding → String
  | .unknownAttribute name => name
  | .unexpectedValue name _ => name
  | .unknownElement tag => tag
  | .neverRequired type _ => type

/-- The warnings about a subject. -/
def warningsOn (name : String) (warnings : List Warning) : List Warning :=
  warnings.filter fun warning => warning.cause.subject = name

/-- What the attributes of an element are reported for: attribute by attribute in the
order of their names, one that no rule knows once, and one that is optional and not also
required once for each token that it lists and its rule does not allow. -/
structure Reports (line : Nat) (attributes : Attributes)
    (required optional : List AttributeRule) (warnings : List Warning) : Prop where
  ordered : warnings.Pairwise fun first later => first.cause.subject ≤ later.cause.subject
  about : ∀ warning ∈ warnings, attributes.contains warning.cause.subject
  of_required : ∀ rule ∈ required, warningsOn rule.name warnings = []
  of_optional : ∀ rule ∈ optional, rule.name ∉ required.map AttributeRule.name →
    ∀ value, attributes.get? rule.name = some value →
      warningsOn rule.name warnings =
        ((listed value).filter fun token => rule.allowed ≠ [] ∧ token ∉ rule.allowed).map
          fun token => ⟨line, .unexpectedValue rule.name token⟩
  of_unknown : ∀ name, attributes.contains name →
    name ∉ (required ++ optional).map AttributeRule.name →
      warningsOn name warnings = [⟨line, .unknownAttribute name⟩]

end

/-- What a list has for each key it has altogether. -/
theorem mem_iff_of_filter_key_eq {α κ : Type} [DecidableEq κ] {key : α → κ}
    {items others : List α}
    (hsame : ∀ k, items.filter (key · = k) = others.filter (key · = k)) (item : α) :
    item ∈ items ↔ item ∈ others := by
  have hkey : item ∈ items.filter (key · = key item) ↔
      item ∈ others.filter (key · = key item) := by rw [hsame]
  simpa using hkey

/-- A list in the order of its keys is known by what it has for each key. -/
theorem eq_of_filter_key_eq {α κ : Type} [LinearOrder κ] {key : α → κ}
    {items others : List α}
    (hitems : items.Pairwise fun first later => key first ≤ key later)
    (hothers : others.Pairwise fun first later => key first ≤ key later)
    (hsame : ∀ k, items.filter (key · = k) = others.filter (key · = k)) :
    items = others := by
  induction items generalizing others with
  | nil =>
      have hnone : ∀ other, other ∉ others := by
        intro other hother
        simpa using (mem_iff_of_filter_key_eq hsame other).2 hother
      exact (List.eq_nil_iff_forall_not_mem.2 hnone).symm
  | cons item items ih =>
      have hmem := mem_iff_of_filter_key_eq hsame
      cases others with
      | nil => simpa using (hmem item).1
      | cons other others =>
          obtain ⟨hitem, hrestItems⟩ := List.pairwise_cons.1 hitems
          obtain ⟨hother, hrestOthers⟩ := List.pairwise_cons.1 hothers
          have hkey : key item = key other := by
            apply le_antisymm
            · rcases List.mem_cons.1 ((hmem other).2 List.mem_cons_self) with rfl | hlater
              · exact le_refl _
              · exact hitem other hlater
            · rcases List.mem_cons.1 ((hmem item).1 List.mem_cons_self) with rfl | hlater
              · exact le_refl _
              · exact hother item hlater
          have hfirst := hsame (key item)
          rw [List.filter_cons_of_pos (by simp), List.filter_cons_of_pos (by simp [hkey])]
            at hfirst
          obtain ⟨rfl, hrest⟩ := List.cons.inj hfirst
          refine congrArg (item :: ·) (ih hrestItems hrestOthers ?_)
          intro k
          by_cases hk : key item = k
          · exact hk ▸ hrest
          · have hlater := hsame k
            rwa [List.filter_cons_of_neg (by simpa using hk),
              List.filter_cons_of_neg (by simpa using hk)] at hlater

/-! ## The warnings of the check -/

section

variable {line : Nat} {attributes : Attributes} {rule : AttributeRule}
  {required optional : List AttributeRule} {name : String}

theorem subject_of_mem_attributeWarnings {value : String} {warning : Warning}
    (hwarning : warning ∈ attributeWarnings line required optional name value) :
    warning.cause.subject = name := by
  rw [attributeWarnings_eq] at hwarning
  split at hwarning
  · cases hwarning
  · split at hwarning
    · rw [List.mem_singleton.1 hwarning]
      rfl
    · obtain ⟨token, -, rfl⟩ := List.mem_map.1 hwarning
      rfl

theorem warningsOn_attributeWarnings (other value : String) :
    warningsOn name (attributeWarnings line required optional other value) =
      if other = name then attributeWarnings line required optional other value else [] := by
  split
  · next hname =>
      refine List.filter_eq_self.2 fun warning hwarning => ?_
      simpa using (subject_of_mem_attributeWarnings hwarning).trans hname
  · next hname =>
      refine List.filter_eq_nil_iff.2 fun warning hwarning => ?_
      simpa [subject_of_mem_attributeWarnings hwarning] using hname

/-- All warnings about an attribute are given where it is met. -/
theorem warningsOn_entries (hnames : attributes.names.Nodup) :
    warningsOn name (attributes.entries.flatMap fun entry =>
        attributeWarnings line required optional entry.1 entry.2) =
      ((attributes.get? name).map
        (attributeWarnings line required optional name)).getD [] := by
  obtain ⟨entries⟩ := attributes
  induction entries with
  | nil => rfl
  | cons entry rest ih =>
      obtain ⟨hnew, hrest⟩ := List.nodup_cons.1 hnames
      have hrest := ih hrest
      simp only [NameMap.get?] at hrest ⊢
      rw [List.flatMap_cons, warningsOn, List.filter_append]
      change warningsOn name _ ++ warningsOn name _ = _
      rw [hrest, warningsOn_attributeWarnings]
      split
      · next hname =>
          subst hname
          have hnone : (rest.find? fun other => other.1 = entry.1) = none := by
            rw [List.find?_eq_none]
            intro other hother hsame
            exact hnew (List.mem_map.2 ⟨other, hother, of_decide_eq_true hsame⟩)
          simp [hnone]
      · next hname => simp [hname]

theorem attributeWarnings_of_required (hrule : rule ∈ required) (value : String) :
    attributeWarnings line required optional rule.name value = [] := by
  have hrequired : required.any fun other => other.name = rule.name :=
    List.any_eq_true.2 ⟨rule, hrule, by simp⟩
  rw [attributeWarnings, if_pos hrequired]

theorem attributeWarnings_of_optional (hdistinct : (optional.map AttributeRule.name).Nodup)
    (hrule : rule ∈ optional) (hapart : rule.name ∉ required.map AttributeRule.name)
    (value : String) :
    attributeWarnings line required optional rule.name value =
      ((listed value).filter fun token => rule.allowed ≠ [] ∧ token ∉ rule.allowed).map
        fun token => ⟨line, .unexpectedValue rule.name token⟩ := by
  have hrequired : ¬ required.any fun other => other.name = rule.name := by
    simpa using hapart
  rw [attributeWarnings_eq, if_neg hrequired, find?_key_eq_some_of_mem hdistinct hrule]
  dsimp only
  rw [unexpected_eq]

theorem attributeWarnings_of_unknown (value : String)
    (hunknown : name ∉ (required ++ optional).map AttributeRule.name) :
    attributeWarnings line required optional name value =
      [⟨line, .unknownAttribute name⟩] := by
  rw [List.map_append, List.mem_append, not_or] at hunknown
  have hrequired : ¬ required.any fun rule => rule.name = name := by
    simpa using hunknown.1
  have hoptional : (optional.find? fun rule => rule.name = name) = none := by
    simpa using hunknown.2
  rw [attributeWarnings_eq, if_neg hrequired, hoptional]

theorem reports_entries (hordered : attributes.names.Pairwise (· < ·))
    (hdistinct : (optional.map AttributeRule.name).Nodup) :
    Reports line attributes required optional
      (attributes.entries.flatMap fun entry =>
        attributeWarnings line required optional entry.1 entry.2) where
  ordered := by
    rw [List.pairwise_flatMap]
    constructor
    · intro entry _
      refine List.pairwise_of_forall_mem_list fun first hfirst later hlater => ?_
      rw [subject_of_mem_attributeWarnings hfirst, subject_of_mem_attributeWarnings hlater]
    · refine (List.pairwise_map.1 hordered).imp ?_
      intro entry other hless first hfirst later hlater
      rw [subject_of_mem_attributeWarnings hfirst, subject_of_mem_attributeWarnings hlater]
      exact hless.le
  about := by
    intro warning hwarning
    obtain ⟨entry, hentry, hwarning⟩ := List.mem_flatMap.1 hwarning
    rw [subject_of_mem_attributeWarnings hwarning]
    exact List.any_eq_true.2 ⟨entry, hentry, by simp⟩
  of_required := by
    intro rule hrule
    rw [warningsOn_entries (hordered.imp ne_of_lt)]
    cases attributes.get? rule.name with
    | none => rfl
    | some value => exact attributeWarnings_of_required hrule value
  of_optional := by
    intro rule hrule hapart value hvalue
    rw [warningsOn_entries (hordered.imp ne_of_lt), hvalue]
    exact attributeWarnings_of_optional hdistinct hrule hapart value
  of_unknown := by
    intro name hcontains hunknown
    rw [NameMap.contains_eq_isSome_get?] at hcontains
    obtain ⟨value, hvalue⟩ := Option.isSome_iff_exists.1 hcontains
    rw [warningsOn_entries (hordered.imp ne_of_lt), hvalue]
    exact attributeWarnings_of_unknown value hunknown

theorem Reports.warningsOn_eq_nil {warnings : List Warning}
    (hwarnings : Reports line attributes required optional warnings)
    (habsent : attributes.contains name = false) : warningsOn name warnings = [] := by
  refine List.filter_eq_nil_iff.2 fun warning hwarning hname => ?_
  have hcontains := hwarnings.about warning hwarning
  rw [of_decide_eq_true hname, habsent] at hcontains
  cases hcontains

theorem Reports.warningsOn_eq {warnings others : List Warning}
    (hwarnings : Reports line attributes required optional warnings)
    (hothers : Reports line attributes required optional others) (name : String) :
    warningsOn name warnings = warningsOn name others := by
  cases hcontains : attributes.contains name with
  | false => rw [hwarnings.warningsOn_eq_nil hcontains, hothers.warningsOn_eq_nil hcontains]
  | true =>
      by_cases hrequired : name ∈ required.map AttributeRule.name
      · obtain ⟨rule, hrule, rfl⟩ := List.mem_map.1 hrequired
        rw [hwarnings.of_required rule hrule, hothers.of_required rule hrule]
      by_cases hoptional : name ∈ optional.map AttributeRule.name
      · obtain ⟨rule, hrule, rfl⟩ := List.mem_map.1 hoptional
        rw [NameMap.contains_eq_isSome_get?] at hcontains
        obtain ⟨value, hvalue⟩ := Option.isSome_iff_exists.1 hcontains
        rw [hwarnings.of_optional rule hrule hrequired value hvalue,
          hothers.of_optional rule hrule hrequired value hvalue]
      have hunknown : name ∉ (required ++ optional).map AttributeRule.name := by
        rw [List.map_append, List.mem_append]
        exact not_or.2 ⟨hrequired, hoptional⟩
      rw [hwarnings.of_unknown name hcontains hunknown,
        hothers.of_unknown name hcontains hunknown]

end

/-- Attributes are accepted exactly if none that is required is missing or has a value that
is not allowed, and then with the warnings that they are reported for and no others.  The
first fault is told, rule by rule. -/
theorem checkAttributes_decides (line : Nat) (required : List AttributeRule)
    {attributes : Attributes} {optional : List AttributeRule}
    (hordered : attributes.names.Pairwise (· < ·))
    (hdistinct : (optional.map AttributeRule.name).Nodup) :
    ((∃ fault, checkAttributes line attributes required optional = .error fault) ↔
      ∃ rule ∈ required, Broken attributes rule) ∧
    (∀ fault, checkAttributes line attributes required optional = .error fault ↔
      (attributeFaults line attributes required).head? = some fault) ∧
    ∀ warnings, checkAttributes line attributes required optional = .ok warnings ↔
      (∀ rule ∈ required, ¬ Broken attributes rule) ∧
        Reports line attributes required optional warnings := by
  rw [checkAttributes, checkRequired_eq_verdict, verdict_map]
  refine ⟨?_, fun fault => verdict_eq_error_iff, ?_⟩
  · have hfails : (∃ fault, (attributeFaults line attributes required).head? =
        some fault) ↔ attributeFaults line attributes required ≠ [] := by
      rw [← Option.isSome_iff_exists, List.isSome_head?]
    simp only [verdict_eq_error_iff, hfails, ne_eq, attributeFaults_eq_nil_iff, not_forall,
      not_not, exists_prop]
  · intro warnings
    rw [verdict_eq_ok_iff, attributeFaults_eq_nil_iff]
    have hreports : Reports line attributes required optional _ :=
      reports_entries hordered hdistinct
    refine and_congr_right fun _ => ⟨fun hwarnings => hwarnings ▸ hreports, ?_⟩
    intro hothers
    exact eq_of_filter_key_eq hothers.ordered hreports.ordered
      (hothers.warningsOn_eq hreports)

/-- Rules for two attributes, the first of which is a required one. -/
def kindRule : AttributeRule := ⟨"kind", ["enum", "bitmask"]⟩

def limitRule : AttributeRule := ⟨"limit", ["none"]⟩

def limited : Attributes :=
  NameMap.ofList [("vendor", "x"), ("limit", "none, 4"), ("kind", "enum,")]

/-- What the rules mind here: a limit, a name, and a kind elsewhere. -/
theorem checkAttributes_limited :
    limited.names.Pairwise (· < ·) ∧
      ([limitRule].map AttributeRule.name).Nodup ∧
      (∀ rule ∈ [kindRule], ¬ Broken limited rule) ∧
      Reports 1 limited [kindRule] [limitRule]
        [⟨1, .unexpectedValue "limit" "4"⟩, ⟨1, .unknownAttribute "vendor"⟩] ∧
      ∃ rule ∈ [kindRule], Broken (NameMap.ofList [("kind", "enum, flags")]) rule := by
  have hordered : limited.names.Pairwise (· < ·) := NameMap.pairwise_names_ofList _
  have hdistinct : ([limitRule].map AttributeRule.name).Nodup := by decide
  obtain ⟨-, -, hok⟩ := checkAttributes_decides 1 [kindRule] hordered hdistinct
  obtain ⟨hunbroken, hreports⟩ :=
    (hok [⟨1, .unexpectedValue "limit" "4"⟩, ⟨1, .unknownAttribute "vendor"⟩]).1 (by cbv)
  obtain ⟨hfails, -⟩ := checkAttributes_decides 1 [kindRule]
    (NameMap.pairwise_names_ofList [("kind", "enum, flags")]) hdistinct
  exact ⟨hordered, hdistinct, hunbroken, hreports,
    hfails.1 ⟨⟨1, .unexpectedValue "kind" "flags"⟩, by cbv⟩⟩

/-- A value that lists nothing is accepted where only two kinds are allowed. -/
theorem checkAttributes_blank :
    (checkAttributes 1 (NameMap.ofList [("kind", "")]) [kindRule] [limitRule] = .ok [] ∧
      listed "" = []) ∧
    checkAttributes 1 (NameMap.ofList [("kind", " , ")]) [kindRule] [limitRule] = .ok [] ∧
      listed " , " = [] :=
  ⟨⟨by cbv, by cbv⟩, by cbv, by cbv⟩

end VideoRegistry
