import DetectionRules.Proofs.Accepted
import DetectionRules.Proofs.Named
import DetectionRules.Proofs.Yara.Strings

/-!
What is known of a rule that is accepted. Its names are identifiers, each of
its selections looks for a single string that has a spelling, and its condition
has no group that could be left out.
-/

namespace DetectionRules.Yara

open CrowdStrike (isSlashable quoting slashable_plain slashable_escaped slashable_of_pattern)
open Expression (inherited_normal keeps_parse)
open DetectionRules.Parser (Keeps Leaves keeps_pure keeps_bind keeps_next keeps_ite keeps_mono
  keeps_check keeps_past keeps_unsupported keeps_fail_at keeps_fail keeps_expected keeps_get keeps_iterate keeps_many
  keeps_sep_by leaves_set leaves_offset leaves_sees leaves_skip_until leaves_sign leaves_take_if leaves_word
  leaves_word_at leaves_literal leaves_of_keeps)

/-- Expressions between slashes can be put between slashes again, and words are not empty. -/
def IsScanned (lexeme : Lexeme) : Prop :=
  (∀ body flags, lexeme = .pattern body flags → isSlashable body.toList = true) ∧
    ∀ word, lexeme = .word word → word ≠ ""

theorem word_filled {c : Char} {rest : List Char} {word : String} {size : Nat}
    (scanned : Token.scan quoting c rest = .ok (.word word, size)) : word ≠ "" := by
  rcases Token.of_scan scanned with ⟨_, ⟨⟩⟩ | ⟨_, _, _, ⟨⟩, _⟩ | ⟨_, _, ⟨⟩⟩ | ⟨others, same⟩
  cases same
  simp

theorem scanned_of_list {text : String} {tokens : List Token}
    (listed : Token.list quoting text = .ok tokens) :
    ∀ token ∈ tokens, IsScanned token.lexeme := by
  refine @Token.of_list quoting IsScanned _ _ ?_ listed
  intro c rest lexeme size scanned
  constructor
  · rintro body flags rfl
    exact slashable_of_pattern scanned
  · rintro word rfl
    exact word_filled scanned

/-- Parsers of tokens that a text is cut into. -/
abbrev Gives {Result : Type} (parser : Parser Result) (property : Result → Prop) : Prop :=
  Keeps (fun token => IsScanned token.lexeme) parser property

def IsString (test : FieldTest) : Prop := ∃ content : Content, content.Sound ∧ test = content.test

theorem gives_hex_word : Gives hexWord fun next => ∀ word ∈ next,
    ∃ pairs, Content.Sound (.bytes pairs) ∧ word = String.ofList (Content.digits pairs) := by
  refine keeps_bind keeps_get fun tokens all => ?_
  split
  · exact keeps_next (leaves_set (List.forall_mem_cons.mp all).2) fun _ => keeps_pure nofun
  · exact keeps_unsupported _
  · exact keeps_unsupported _
  · exact keeps_unsupported _
  · rename_i word offset rest
    split
    · rename_i known
      obtain ⟨first, others⟩ := List.forall_mem_cons.mp all
      refine keeps_next (leaves_set others) fun _ => keeps_pure ?_
      rintro _ ⟨⟩
      rw [isHexWord, Bool.and_eq_true, List.all_eq_true, beq_iff_eq] at known
      obtain ⟨even, hex⟩ := known
      rw [← @String.ofList_toList word, Content.size_of_hex_digits hex] at even
      obtain ⟨pairs, same⟩ := @Content.exists_pairs (word.toList.map Char.toUpper)
        (by rwa [List.length_map])
      refine ⟨pairs, ⟨?_, ?_⟩, by rw [same]; rfl⟩
      · rintro rfl
        have empty : word.toList = [] := List.map_eq_nil_iff.mp same.symm
        exact first.2 word rfl (by simpa using empty)
      · rw [same]
        intro c member
        obtain ⟨original, inside, rfl⟩ := List.mem_map.mp member
        exact Content.upper_of_hex_digit (hex original inside)
    · exact keeps_expected _
  · exact keeps_expected _

theorem bytes_of_words {words : List String} (filled : words ≠ [])
    (each : ∀ word ∈ words, ∃ pairs, Content.Sound (.bytes pairs) ∧
      word = String.ofList (Content.digits pairs)) :
    ∃ pairs, Content.Sound (.bytes pairs) ∧
      String.join words = String.ofList (Content.digits pairs) := by
  induction words with
  | nil => exact absurd rfl filled
  | cons word rest induction =>
      obtain ⟨pairs, ⟨some, upper⟩, rfl⟩ := each word (by simp)
      by_cases last : rest = []
      · subst last
        exact ⟨pairs, ⟨some, upper⟩, by simp⟩
      · obtain ⟨others, ⟨_, otherUpper⟩, same⟩ :=
          induction last fun other member => each other (List.mem_cons_of_mem _ member)
        refine ⟨pairs ++ others, ⟨by simp [some], ?_⟩, ?_⟩
        · rw [Content.digits, List.flatMap_append]
          exact List.forall_mem_append.mpr ⟨upper, otherUpper⟩
        · rw [String.join_cons, same, ← String.ofList_append, Content.digits, Content.digits,
            Content.digits, List.flatMap_append]

theorem gives_hex_bytes : Gives hexBytes fun text =>
    ∃ pairs, Content.Sound (.bytes pairs) ∧ text = String.ofList (Content.digits pairs) := by
  refine keeps_next leaves_offset fun start => ?_
  refine keeps_bind (keeps_many gives_hex_word) fun words all => ?_
  exact keeps_past (keeps_fail_at _ _) fun filled => keeps_pure (bytes_of_words (by simpa using filled) all)

theorem gives_string_test : Gives stringTest IsString := by
  refine keeps_bind keeps_get fun tokens all => ?_
  split
  · refine keeps_next (leaves_set (List.forall_mem_cons.mp all).2) fun _ => keeps_pure ?_
    exact ⟨.text _, trivial, rfl⟩
  · rename_i body flags offset rest
    obtain ⟨first, others⟩ := List.forall_mem_cons.mp all
    have slashable := first.1 body flags rfl
    refine keeps_next (leaves_set others) fun _ => ?_
    refine keeps_past (keeps_fail_at _ _) fun known => ?_
    have plain : ∀ c ∈ flags.toList, c ≠ '\\' := by
      intro c member
      have letter := Content.plain_of_flags (by simpa using known) c member
      rcases letter with rfl | rfl <;> decide
    refine keeps_next (leaves_of_keeps (Dialect.keeps_ensure_regex _ _ _)) fun _ => keeps_pure ⟨.pattern _, ?_, rfl⟩
    change isSlashable (if flags.isEmpty then body else "(?" ++ flags ++ ")" ++ body).toList = true
    split
    · exact slashable
    · simpa [slashable_plain, Content.slashable_behind_flags plain] using slashable
  · refine keeps_next (leaves_set (List.forall_mem_cons.mp all).2) fun _ => ?_
    refine keeps_bind gives_hex_bytes fun text bytes => keeps_pure ?_
    obtain ⟨pairs, sound, rfl⟩ := bytes
    exact ⟨.bytes pairs, sound, rfl⟩
  · exact keeps_expected _

theorem slashable_escape (text : String) : isSlashable (Regex.escape text).toList = true := by
  have escaped := CrowdStrike.slashable_escape_chars text.toList []
  rw [List.append_nil] at escaped
  rw [Regex.escape, String.toList_ofList, escaped]
  rfl

/-- Ignoring the case of a string gives an expression that has a spelling. -/
theorem is_string_ignoring_case {test : FieldTest} (isString : IsString test)
    (content : test.field = contentField) : IsString (ignoringCase test) := by
  have behind (pattern : String) (slashable : isSlashable pattern.toList = true) :
      isSlashable ("(?i)" ++ pattern).toList = true := by
    simpa [slashable_plain] using slashable
  obtain ⟨found, sound, rfl⟩ := isString
  cases found with
  | text sought =>
      exact ⟨.pattern ("(?i)" ++ Regex.escape sought), behind _ (slashable_escape sought), rfl⟩
  | pattern sought =>
      by_cases marked : Text.startsWith sought "(?" = true
      · refine ⟨.pattern sought, sound, ?_⟩
        simp [ignoringCase, Content.test, FieldTest.single, Value.text, marked]
      · refine ⟨.pattern ("(?i)" ++ sought), behind sought sound, ?_⟩
        simp [ignoringCase, Content.test, FieldTest.single, Value.text, marked]
  | bytes pairs => simp [Content.test, FieldTest.single, bytesField, contentField] at content

theorem gives_modifier {test : FieldTest} (isString : IsString test) :
    Gives (modifier test) fun next => ∀ found ∈ next, IsString found := by
  refine keeps_bind keeps_get fun tokens all => ?_
  split
  · refine keeps_ite (keeps_pure nofun) ?_
    split
    · rename_i known
      rw [Bool.and_eq_true, beq_iff_eq, beq_iff_eq] at known
      refine keeps_next (leaves_set (List.forall_mem_cons.mp all).2) fun _ => keeps_pure ?_
      rintro _ ⟨⟩
      exact is_string_ignoring_case isString known.2
    · refine keeps_ite ?_ (keeps_ite (keeps_unsupported _) (keeps_fail_at _ _))
      refine keeps_next (leaves_set (List.forall_mem_cons.mp all).2) fun _ => keeps_pure ?_
      rintro _ ⟨⟩
      exact isString
  · exact keeps_pure nofun

def IsStringSelection (selection : Selection) : Prop :=
  Named.isIdentifier selection.name = true ∧
    ∃ content : Content, content.Sound ∧ selection.tests = [content.test]

theorem gives_string_definition : Gives stringDefinition IsStringSelection := by
  refine keeps_next (leaves_word_at _) fun found => ?_
  obtain ⟨word, offset⟩ := found
  simp only
  split
  · exact keeps_fail_at _ _
  · rename_i name known
    have named := (Option.filter_eq_some_iff.mp known).2
    refine keeps_next (leaves_sign _) fun _ => keeps_bind gives_string_test fun start isString => ?_
    refine keeps_bind (keeps_iterate (fun _ => gives_modifier) isString) fun test found => ?_
    obtain ⟨content, sound, rfl⟩ := found
    exact keeps_pure ⟨named, content, sound, rfl⟩

theorem gives_next_string {selections : List Selection}
    (known : ∀ selection ∈ selections, IsStringSelection selection) :
    Gives (nextString selections) fun next =>
      ∀ found ∈ next, ∀ selection ∈ found, IsStringSelection selection := by
  refine keeps_next (leaves_sees _) fun atEnd => keeps_ite (keeps_pure nofun) ?_
  refine keeps_next leaves_offset fun offset => ?_
  refine keeps_bind gives_string_definition fun selection read => ?_
  refine keeps_check (keeps_fail_at _ _) fun _ => keeps_pure ?_
  rintro _ ⟨⟩
  rw [List.forall_mem_append, List.forall_mem_singleton]
  exact ⟨known, read⟩

theorem normal_of_terms {join : List (Logic String) → Logic String} {names : List String}
    (joins : ∀ {items : List (Logic String)}, items ≠ [] → (∀ item ∈ items, item.Normal) →
      (join items).Normal) (filled : names ≠ []) : (join (names.map Logic.term)).Normal := by
  apply joins
  · simpa using filled
  · intro item member
    obtain ⟨name, _, rfl⟩ := List.mem_map.mp member
    exact .term name

variable {kind : Token → Prop}

theorem keeps_quantified (quantifier : String) {names : List String} (filled : names ≠ []) :
    Keeps kind (quantified quantifier names) Logic.Normal := by
  rw [quantified.eq_def]
  split
  · exact keeps_pure (normal_of_terms Logic.Normal.disj filled)
  · exact keeps_pure (normal_of_terms Logic.Normal.disj filled)
  · exact keeps_pure (normal_of_terms Logic.Normal.conj filled)
  · exact keeps_pure (normal_of_terms Logic.Normal.disj filled).negate
  · exact keeps_unsupported _

theorem keeps_set_member (names : List String) : Keeps kind (setMember names) (· ≠ []) := by
  refine keeps_next (leaves_word_at _) fun found => ?_
  obtain ⟨word, offset⟩ := found
  simp only
  split
  · exact keeps_fail_at _ _
  · rename_i reference _
    exact keeps_past (keeps_fail_at _ _) fun filled => keeps_pure (by simpa using filled)

theorem keeps_string_set {names : List String} (filled : names ≠ []) :
    Keeps kind (stringSet names) (· ≠ []) := by
  refine keeps_next (leaves_take_if _) fun taken => keeps_ite (keeps_pure filled) ?_
  refine keeps_next (leaves_sign _) fun _ => ?_
  refine keeps_bind (keeps_sep_by (leaves_take_if _) (keeps_set_member names)) fun members all => ?_
  refine keeps_next (leaves_sign _) fun _ => keeps_pure ?_
  obtain ⟨some, each⟩ := all
  obtain ⟨member, others, rfl⟩ := List.exists_cons_of_ne_nil some
  obtain ⟨name, rest, same⟩ := List.exists_cons_of_ne_nil (each member (by simp))
  intro empty
  have inside : name ∈ (member :: others).flatten.eraseDups := by
    rw [List.mem_eraseDups]
    simp [same]
  rw [empty] at inside
  cases inside

theorem keeps_reference {names : List String} (filled : names ≠ []) :
    Keeps kind (reference names) Logic.Normal := by
  refine keeps_bind keeps_get fun tokens all => ?_
  split
  · rename_i word offset rest
    have others := (List.forall_mem_cons.mp all).2
    refine keeps_ite ?_ ?_
    · refine keeps_next (leaves_set fun token member => others token (List.mem_of_mem_drop member))
        fun _ => ?_
      exact keeps_bind (keeps_string_set filled) fun found some => keeps_quantified word some
    · split
      · refine keeps_ite (keeps_unsupported _) (keeps_ite ?_ (keeps_fail_at _ _))
        exact keeps_next (leaves_set others) fun _ => keeps_pure (.term _)
      · exact keeps_ite (keeps_unsupported _) (keeps_expected _)
  · exact keeps_expected _

theorem leaves_rule_name : Leaves kind ruleName := by
  refine keeps_next (leaves_word_at _) fun found => ?_
  obtain ⟨word, offset⟩ := found
  simp only
  refine keeps_ite (keeps_next (keeps_pure trivial) fun tagged => ?_)
    (keeps_next (leaves_take_if _) fun tagged => ?_)
  all_goals
    refine keeps_check (keeps_fail_at _ _) fun _ => ?_
    exact keeps_ite (keeps_next (leaves_skip_until _) fun _ => keeps_pure trivial) (keeps_pure trivial)

theorem leaves_heading (word : String) : Leaves kind (Named.heading word) :=
  keeps_next (leaves_take_if _) fun _ => keeps_ite (keeps_expected _) (keeps_pure trivial)

theorem leaves_metadata (stop : List Token → Bool) : Leaves kind (Named.metadata stop) := by
  have entry : Keeps kind (Named.Metadata.nextEntry stop) fun next => ∀ found ∈ next, True := by
    refine keeps_next (leaves_sees _) fun _ => keeps_ite (keeps_pure nofun) ?_
    refine keeps_next (leaves_word _) fun key => keeps_next (leaves_sign _) fun _ => ?_
    exact keeps_next (leaves_literal _) fun value => keeps_pure (by simp)
  refine keeps_next (leaves_take_if _) fun _ => keeps_ite (keeps_pure trivial) ?_
  exact keeps_next (leaves_of_keeps (keeps_many entry)) fun _ => keeps_pure trivial

/-- What makes a rule that is accepted be written and accepted again. -/
structure IsReread (rule : Rule) : Prop where
  dialect : rule.dialect = .yara
  title : ∃ title, rule.title = some title
  uncounted : rule.aggregation = none
  strings : ∀ selection ∈ rule.selections, IsStringSelection selection
  condition : rule.condition.Normal

theorem leaves_import : Keeps kind isImport fun next => ∀ found ∈ next, True := by
  refine keeps_next (leaves_take_if _) fun _ => keeps_ite ?_ (keeps_pure nofun)
  exact keeps_next (leaves_literal _) fun _ => keeps_pure (by simp)

theorem leaves_visibility : Keeps kind isVisibility fun next => ∀ found ∈ next, True := by
  exact keeps_next (leaves_take_if _) fun _ => keeps_ite (keeps_pure (by simp)) (keeps_pure nofun)

theorem gives_rule : Gives rule IsReread := by
  refine keeps_next (leaves_of_keeps (keeps_many leaves_import)) fun _ => ?_
  refine keeps_next (leaves_of_keeps (keeps_many leaves_visibility)) fun _ => ?_
  refine keeps_next (leaves_heading _) fun _ => keeps_next leaves_rule_name fun name => ?_
  refine keeps_next (leaves_sign _) fun _ => keeps_next (leaves_metadata _) fun metadata => ?_
  refine keeps_next (leaves_heading _) fun _ => ?_
  refine keeps_bind (keeps_iterate (fun _ => gives_next_string) (by simp)) fun selections strings => ?_
  refine keeps_past (keeps_fail _) fun filled => ?_
  have named : selections.map (·.name) ≠ [] := by simpa using filled
  refine keeps_next (leaves_heading _) fun _ => ?_
  refine keeps_bind (keeps_parse inherited_normal (keeps_reference named)) fun condition normal => ?_
  refine keeps_next (leaves_sign _) fun _ => keeps_next (leaves_sees _) fun atEnd => ?_
  refine keeps_check (keeps_expected _) fun _ => keeps_pure ?_
  exact ⟨rfl, ⟨_, rfl⟩, rfl, strings, normal⟩

theorem reread_of_read {text : String} {found : Rule} (accepted : read text = .ok found) :
    found.Proper ∧ IsReread found := by
  obtain ⟨sound, tokens, rest, listed, parsed⟩ := Dialect.of_located_tokens accepted
  have scanned := scanned_of_list listed
  exact ⟨(Rule.well_formed_iff found).mp sound, (gives_rule tokens found rest scanned parsed).1⟩

end DetectionRules.Yara
