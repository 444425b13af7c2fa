import DetectionRules.Proofs.Glob
import DetectionRules.Proofs.Yara.Rule

/-!
YARA rules that are accepted, written and read again. A rule comes back as it
was if and only if each of its expressions is valid, and an accepted rule may
have expressions that are not: they are checked before a request to ignore the
case of letters is put in front of them, which makes them nest deeper.
-/

namespace DetectionRules.Yara

open CrowdStrike (quoting)
open Expression (inherited_normal keeps_parse wordingIn)
open DetectionRules.Parser (Keeps Leaves Reads keeps_many leaves_of_keeps keeps_pure keeps_bind keeps_next keeps_ite keeps_check
  keeps_past keeps_unsupported keeps_fail_at keeps_fail keeps_expected keeps_get keeps_iterate
  leaves_set leaves_offset leaves_sees leaves_sign leaves_word_at)

def HasValidPatterns (test : FieldTest) : Prop :=
  test.op = .regex → ∀ value ∈ test.values, Regex.isValid value.text = true

/-- Tokens that ask for nothing to be put in front of an expression. -/
def IsUnmodified (token : Token) : Prop := token.lexeme ≠ .word "nocase"

theorem leaves_hex_bytes {kind : Token → Prop} : Leaves kind hexBytes := by
  have word : Keeps kind hexWord fun next => ∀ found ∈ next, True := by
    refine keeps_bind keeps_get fun tokens all => ?_
    split
    · exact keeps_next (leaves_set (List.forall_mem_cons.mp all).2) fun _ => keeps_pure nofun
    · exact keeps_unsupported _
    · exact keeps_unsupported _
    · exact keeps_unsupported _
    · refine keeps_ite ?_ (keeps_expected _)
      exact keeps_next (leaves_set (List.forall_mem_cons.mp all).2) fun _ => keeps_pure (by simp)
    · exact keeps_expected _
  refine keeps_next leaves_offset fun start => ?_
  refine keeps_next (leaves_of_keeps (keeps_many word)) fun words => ?_
  exact keeps_check (keeps_fail_at _ _) fun _ => keeps_pure trivial

theorem checks_string_test : Keeps IsUnmodified stringTest HasValidPatterns := by
  refine keeps_bind keeps_get fun tokens all => ?_
  split
  · exact keeps_next (leaves_set (List.forall_mem_cons.mp all).2) fun _ => keeps_pure nofun
  · refine keeps_next (leaves_set (List.forall_mem_cons.mp all).2) fun _ => ?_
    refine keeps_past (keeps_fail_at _ _) fun _ => ?_
    refine keeps_bind (Dialect.keeps_ensure_regex _ _ _) fun _ valid => keeps_pure ?_
    intro _ value member
    rw [List.mem_singleton.mp member]
    exact valid
  · refine keeps_next (leaves_set (List.forall_mem_cons.mp all).2) fun _ => ?_
    exact keeps_next leaves_hex_bytes fun _ => keeps_pure nofun
  · exact keeps_expected _

theorem checks_modifier {test : FieldTest} (checked : HasValidPatterns test) :
    Keeps IsUnmodified (modifier test) fun next => ∀ found ∈ next, HasValidPatterns found := by
  refine keeps_bind keeps_get fun tokens all => ?_
  split
  · obtain ⟨plain, others⟩ := List.forall_mem_cons.mp all
    refine keeps_ite (keeps_pure nofun) ?_
    split
    · rename_i known
      rw [Bool.and_eq_true, beq_iff_eq] at known
      exact absurd (congrArg Lexeme.word known.1) plain
    · refine keeps_ite ?_ (keeps_ite (keeps_unsupported _) (keeps_fail_at _ _))
      refine keeps_next (leaves_set others) fun _ => keeps_pure ?_
      rintro _ ⟨⟩
      exact checked
  · exact keeps_pure nofun

theorem checks_next_string {selections : List Selection}
    (known : ∀ selection ∈ selections, ∀ test ∈ selection.tests, HasValidPatterns test) :
    Keeps IsUnmodified (nextString selections) fun next =>
      ∀ found ∈ next, ∀ selection ∈ found, ∀ test ∈ selection.tests, HasValidPatterns test := by
  have definition : Keeps IsUnmodified stringDefinition fun selection =>
      ∀ test ∈ selection.tests, HasValidPatterns test := by
    refine keeps_next (leaves_word_at _) fun found => ?_
    obtain ⟨word, offset⟩ := found
    simp only
    split
    · exact keeps_fail_at _ _
    · refine keeps_next (leaves_sign _) fun _ => keeps_bind checks_string_test fun start checked => ?_
      refine keeps_bind (keeps_iterate (fun _ => checks_modifier) checked) fun test found => ?_
      exact keeps_pure (by simpa using found)
  refine keeps_next (leaves_sees _) fun atEnd => keeps_ite (keeps_pure nofun) ?_
  refine keeps_next leaves_offset fun offset => keeps_bind definition fun selection checked => ?_
  refine keeps_check (keeps_fail_at _ _) fun _ => keeps_pure ?_
  rintro _ ⟨⟩
  rw [List.forall_mem_append, List.forall_mem_singleton]
  exact ⟨known, checked⟩

theorem checks_detection (name : String) (metadata : Named.Metadata) :
    Keeps IsUnmodified (detection name metadata) fun rule =>
      ∀ selection ∈ rule.selections, ∀ test ∈ selection.tests, HasValidPatterns test := by
  refine keeps_next (leaves_heading _) fun _ => ?_
  refine keeps_bind (keeps_iterate (fun _ => checks_next_string) (by simp)) fun selections checked => ?_
  refine keeps_past (keeps_fail _) fun filled => ?_
  have named : selections.map (·.name) ≠ [] := by simpa using filled
  refine keeps_next (leaves_heading _) fun _ => ?_
  refine keeps_bind (keeps_parse inherited_normal (keeps_reference named)) fun condition _ => ?_
  refine keeps_next (leaves_sign _) fun _ => keeps_next (leaves_sees _) fun atEnd => ?_
  exact keeps_check (keeps_expected _) fun _ => keeps_pure checked

theorem dollared_not_modifier (name : String) : Lexeme.word (dollared name) ≠ .word "nocase" := by
  intro same
  have front := congrArg (fun text => text.toList.head?) (Lexeme.word.inj same)
  simp [dollared] at front

theorem unmodified_content (content : Content) :
    ∀ lexeme ∈ content.lexemes, lexeme ≠ .word "nocase" := by
  cases content with
  | text sought => simp [Content.lexemes]
  | pattern sought => simp [Content.lexemes]
  | bytes pairs =>
      have short (pair : Char × Char) : Content.byteText pair ≠ "nocase" := by
        intro same
        have size := congrArg (fun text => text.toList.length) same
        simp [Content.byteText] at size
      rw [Content.lexemes, List.forall_mem_append, List.forall_mem_cons, List.forall_mem_map,
        List.forall_mem_singleton]
      exact ⟨⟨by simp, fun pair _ same => short pair (Lexeme.word.inj same)⟩, by simp⟩

theorem unmodified_detection {rule : Rule} {strings : List NamedContent} {tokens : List Token}
    (same : tokens.map (·.lexeme) =
      detectionLexemes rule (strings.map NamedContent.lexemes).flatten) :
    ∀ token ∈ tokens, IsUnmodified token := by
  have condition := @Expression.wording_forall _ wording (· ≠ .word "nocase") (by simp)
    (by simp [wording]) (by simp [wording]) (by simp [wording])
    (by simpa [wording] using dollared_not_modifier) rule.condition .none
  have string (string : NamedContent) : ∀ lexeme ∈ string.lexemes, lexeme ≠ .word "nocase" := by
    rw [NamedContent.lexemes, List.forall_mem_cons, List.forall_mem_cons]
    exact ⟨dollared_not_modifier string.1, by simp, unmodified_content string.2⟩
  have all : ∀ lexeme ∈ detectionLexemes rule (strings.map NamedContent.lexemes).flatten,
      lexeme ≠ .word "nocase" := by
    rw [detectionLexemes, List.forall_mem_append, List.forall_mem_cons, List.forall_mem_cons,
      List.forall_mem_append, List.forall_mem_singleton]
    refine ⟨⟨by simp, fun lexeme member => ?_⟩, by simp, condition, by simp⟩
    rw [← List.flatMap_def] at member
    obtain ⟨found, _, place⟩ := List.mem_flatMap.mp member
    exact string found lexeme place
  intro token member
  apply all
  rw [← same]
  exact List.mem_map_of_mem member

/-- Reading back what was written checks all expressions. -/
theorem valid_of_read_back {rule again : Rule} {strings : List NamedContent} {text : String}
    (spells : Token.Spells quoting text (introductionLexemes rule ++
      detectionLexemes rule (strings.map NamedContent.lexemes).flatten))
    (accepted : read text = .ok again) :
    ∀ selection ∈ again.selections, ∀ test ∈ selection.tests, HasValidPatterns test := by
  obtain ⟨_, tokens, rest, listed, parsed⟩ := Dialect.of_located_tokens accepted
  obtain ⟨others, sameList, same⟩ := Token.list_of_spells spells
  have quoted : ({ slashes := true } : Quoting) = quoting := rfl
  rw [quoted, sameList] at listed
  cases listed
  obtain ⟨front, behind, rfl, frontSame, behindSame⟩ := List.map_eq_append_iff.mp same
  rw [rule_eq, Parser.bind_apply,
    reads_introduction rule _ front behind frontSame behindSame] at parsed
  exact (checks_detection _ _ behind again rest (unmodified_detection behindSame) parsed).1

theorem valid_strings {rule : Rule} {strings : List NamedContent} (rereads : Rereads rule strings)
    (valid : ∀ selection ∈ rule.selections, ∀ test ∈ selection.tests, HasValidPatterns test) :
    ∀ string ∈ strings, string.2.Valid := by
  rintro ⟨name, content⟩ member
  cases content with
  | text sought => exact trivial
  | bytes pairs => exact trivial
  | pattern sought =>
      have inside : NamedContent.selection (name, .pattern sought) ∈ rule.selections := by
        rw [rereads.selections]
        exact List.mem_map_of_mem member
      exact valid _ inside _ (List.mem_singleton.mpr rfl) rfl (.str sought)
        (by simp [Content.test, FieldTest.single])

/-- An accepted rule whose strings are all mentioned in its condition is written, and the text is
read as the same rule if and only if all expressions are valid. A condition that is a single name
has depth one, so at depth 31 the connectives nest 30 deep. -/
theorem accepted_rule_reread {source : String} {rule : Rule} (accepted : read source = .ok rule)
    (mentioned : ∀ selection ∈ rule.selections, selection.name ∈ rule.condition.terms)
    (shallow : rule.condition.depth ≤ 31) :
    ∃ text, write rule = .ok text ∧
      (read text = .ok rule ↔ ∀ selection ∈ rule.selections, ∀ test ∈ selection.tests,
        test.op = .regex → ∀ value ∈ test.values, Regex.isValid value.text = true) := by
  obtain ⟨proper, reread⟩ := reread_of_read accepted
  obtain ⟨strings, selections, sound⟩ := exists_strings reread.strings
  have rereads : Rereads rule strings := ⟨proper, reread, selections, sound⟩
  obtain ⟨conditionText, rendered, written⟩ := write_eq rereads mentioned
  have spelled := spells_strings sound
  refine ⟨_, written, fun again => valid_of_read_back (spells_rule rereads spelled rendered) again,
    fun valid => ?_⟩
  have limit : Expression.maxDepth = 64 := rfl
  refine read_of_strings rereads spelled rendered (fun next => ?_) (by omega)
  rw [← List.flatMap_def, selections]
  exact @reads_strings [] strings sound (valid_strings rereads valid) rereads.distinct next

def dropper : String :=
  "rule dropper \x7b strings: $a = \"cmd\" nocase $b = /evil[0-9]\\/x/s nocase $c = \x7b 4d 5A \x7d " ++
    "condition: $c and any of ($a, $b) \x7d"

theorem dropper_reread : ∃ rule text, read dropper = .ok rule ∧ write rule = .ok text ∧
    read text = .ok rule := by
  have known : ((read dropper).map fun rule => decide (rule.condition.depth ≤ 31 ∧
      (∀ selection ∈ rule.selections, selection.name ∈ rule.condition.terms) ∧
      (∀ selection ∈ rule.selections, ∀ test ∈ selection.tests, test.op = .regex →
        ∀ value ∈ test.values, Regex.isValid value.text = true))) = .ok true := by
    decide +kernel
  obtain ⟨rule, accepted, known⟩ := Success.of_map known
  obtain ⟨shallow, mentioned, valid⟩ := of_decide_eq_true known
  obtain ⟨text, written, again⟩ := accepted_rule_reread accepted mentioned shallow
  exact ⟨rule, text, accepted, written, again.mpr valid⟩

end DetectionRules.Yara
