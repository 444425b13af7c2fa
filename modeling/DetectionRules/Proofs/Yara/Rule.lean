import DetectionRules.Proofs.Yara.Accepted
import DetectionRules.Proofs.Yara.Condition

/-!
YARA rules that are accepted, written and read again. A rule whose strings are
all mentioned in its condition comes back as it was if and only if each of its
expressions is valid. Expressions are checked where they stand between slashes,
but not after a request to ignore the case of letters has been put in front.
-/

namespace DetectionRules.Yara

open CrowdStrike (quoting)
open Expression (wordingIn)
open DetectionRules.Parser (Reads reads_bind reads_bind_cons reads_bind_nil reads_bind_last
  reads_pure)
open Token (Spells SpellsLine)

abbrev NamedContent := String × Content

namespace NamedContent

def selection (string : NamedContent) : Selection := ⟨string.1, [string.2.test]⟩

def text (string : NamedContent) : String := dollared string.1 ++ " = " ++ string.2.spelling

def lexemes (string : NamedContent) : List Lexeme :=
  .word (dollared string.1) :: .symbol "=" :: string.2.lexemes

def Sound (string : NamedContent) : Prop :=
  Named.isIdentifier string.1 = true ∧ string.2.Sound

end NamedContent

theorem exists_strings {selections : List Selection}
    (each : ∀ selection ∈ selections, IsStringSelection selection) :
    ∃ strings : List NamedContent, selections = strings.map NamedContent.selection ∧
      ∀ string ∈ strings, string.Sound := by
  induction selections with
  | nil => exact ⟨[], rfl, nofun⟩
  | cons selection rest induction =>
      obtain ⟨others, rfl, sound⟩ :=
        induction fun other member => each other (List.mem_cons_of_mem selection member)
      obtain ⟨named, content, contentSound, tests⟩ := each selection (by simp)
      refine ⟨(selection.name, content) :: others, ?_, ?_⟩
      · rw [List.map_cons, NamedContent.selection, ← tests]
      · exact List.forall_mem_cons.mpr ⟨⟨named, contentSound⟩, sound⟩

theorem to_identifier_of_identifier {name : String} (known : Named.isIdentifier name = true) :
    Named.toIdentifier name = name := by
  rw [Named.isIdentifier, Bool.and_eq_true, List.all_eq_true] at known
  obtain ⟨start, parts⟩ := known
  have same : name.toList.map (fun c => if Named.isNamePart c then c else '_') = name.toList := by
    rw [List.map_congr_left fun c member => if_pos (parts c member), List.map_id']
  rw [Named.toIdentifier, same, if_pos start, String.ofList_toList]

namespace Strings

def ofStrings (strings : List NamedContent) : Strings where
  definitions := strings.map fun string => (string.1, string.2.spelling)
  selections := strings.map fun string => (string.1, .term string.1)

theorem fresh_name {strings : List NamedContent} {name : String}
    (fresh : name ∉ strings.map (·.1)) : (ofStrings strings).freshName name = name := by
  have absent : (ofStrings strings).definitions.lookup name = none := by
    rw [List.lookup_eq_none_iff]
    intro entry member
    obtain ⟨string, inside, rfl⟩ := List.mem_map.mp member
    rw [bne_iff_ne]
    rintro rfl
    exact fresh (List.mem_map_of_mem inside)
  have same : name ++ String.ofList (List.replicate 0 '_') = name := by simp
  rw [freshName, List.range_succ_eq_map, List.map_cons, same, List.find?_cons_of_pos (by simp [absent])]
  rfl

theorem add_string {strings : List NamedContent} {string : NamedContent} (sound : string.Sound)
    (fresh : string.1 ∉ strings.map (·.1)) :
    addSelection (ofStrings strings) string.selection = .ok (ofStrings (strings ++ [string])) := by
  obtain ⟨value, values, written⟩ := Content.string_text sound.2
  simp only [addSelection, NamedContent.selection, to_identifier_of_identifier sound.1,
    List.flatMap_cons, List.flatMap_nil, List.append_nil, values, List.length_singleton,
    beq_self_eq_true, addTests, addValues, if_true, fresh_name fresh, written]
  simp [ofStrings, bind, Except.bind, pure, Except.pure, Logic.disj, Logic.disjuncts, Logic.conj,
    Logic.conjuncts]

theorem add_strings {done others : List NamedContent} (sound : ∀ string ∈ others, string.Sound)
    (distinct : ((done ++ others).map (·.1)).Nodup) :
    (others.map NamedContent.selection).foldlM addSelection (ofStrings done) =
      .ok (ofStrings (done ++ others)) := by
  induction others generalizing done with
  | nil => rw [List.append_nil]; rfl
  | cons string rest induction =>
      have fresh : string.1 ∉ done.map (·.1) := by
        rw [List.map_append, List.nodup_append] at distinct
        exact fun member => distinct.2.2 _ member _ (by simp) rfl
      have tail := @induction (done ++ [string])
        (fun other member => sound other (List.mem_cons_of_mem string member))
        (by simpa using distinct)
      rw [List.map_cons, List.foldlM_cons, add_string (sound string (by simp)) fresh]
      simpa [bind, Except.bind] using tail

theorem lookup_string {strings : List NamedContent} {name : String}
    (known : name ∈ strings.map (·.1)) :
    (ofStrings strings).selections.lookup name = some (.term name) := by
  induction strings with
  | nil => cases known
  | cons string rest induction =>
      change List.lookup name ((string.1, .term string.1) :: (ofStrings rest).selections) = _
      rw [List.lookup_cons]
      by_cases same : name = string.1
      · simp [same]
      · have others := induction (by simpa [same] using known)
        have different : (name == string.1) = false := by simpa using same
        rw [different]
        exact others

end Strings

/-- A rule that was read, with its strings. -/
structure Rereads (rule : Rule) (strings : List NamedContent) : Prop where
  proper : rule.Proper
  reread : IsReread rule
  selections : rule.selections = strings.map NamedContent.selection
  sound : ∀ string ∈ strings, string.Sound

namespace Rereads

variable {rule : Rule} {strings : List NamedContent}

theorem names (rereads : Rereads rule strings) :
    rule.selections.map (·.name) = strings.map (·.1) := by
  rw [rereads.selections, List.map_map]
  rfl

theorem distinct (rereads : Rereads rule strings) : (strings.map (·.1)).Nodup := by
  rw [← rereads.names]
  exact rereads.proper.distinct

theorem known (rereads : Rereads rule strings) :
    ∀ name ∈ rule.condition.terms, name ∈ strings.map (·.1) := by
  intro name member
  obtain ⟨selection, found⟩ := Option.isSome_iff_exists.mp (rereads.proper.known name member)
  obtain ⟨inside, rfl⟩ := Rule.selection_mem found
  rw [← rereads.names]
  exact List.mem_map_of_mem inside

theorem identifiers (rereads : Rereads rule strings) :
    ∀ name ∈ rule.condition.terms, Named.isIdentifier name = true := by
  intro name member
  obtain ⟨string, inside, rfl⟩ := List.mem_map.mp (rereads.known name member)
  exact (rereads.sound string inside).1

end Rereads

def headName (rule : Rule) : String := Named.toIdentifier (rule.title.getD Named.defaultTitle)

def ruleText (rule : Rule) (lines : List String) (conditionText : String) : String :=
  let metadata := Named.Metadata.ofRule rule (headName rule)
  "rule " ++ headName rule ++ "\n\x7b\n"
    ++ (if metadata.isEmpty then "" else sectionText "meta" (metadata.map Named.Metadata.line))
    ++ sectionText "strings" lines
    ++ sectionText "condition" [conditionText] ++ "\x7d\n"

theorem write_eq {rule : Rule} {strings : List NamedContent} (rereads : Rereads rule strings)
    (mentioned : ∀ selection ∈ rule.selections, selection.name ∈ rule.condition.terms) :
    ∃ conditionText, Expression.render spelling rule.condition = .ok conditionText ∧
      write rule = .ok (ruleText rule (strings.map NamedContent.text) conditionText) := by
  obtain ⟨conditionText, rendered⟩ := @Expression.render_total _ spelling rule.condition
    (fun name _ => ⟨_, rfl⟩) .none
  refine ⟨conditionText, rendered, ?_⟩
  have sound : rule.check = none := (Rule.well_formed_iff rule).mpr rereads.proper
  have ready : Dialect.ensureWritable .yara rule = .ok () := by
    simp [Dialect.ensureWritable, sound, rereads.reread.uncounted]
  have all : (rule.selections.filter fun selection =>
      rule.condition.terms.contains selection.name) = strings.map NamedContent.selection := by
    rw [List.filter_eq_self.mpr (by simpa using mentioned), rereads.selections]
  have added := @Strings.add_strings [] strings rereads.sound rereads.distinct
  have put {tree : String → Except RuleError (Logic String)}
      (same : ∀ name ∈ rule.condition.terms, tree name = .ok (.term name)) :
      rule.condition.substitute tree = .ok rule.condition := by
    rw [Logic.substitute_eq_bind same, Logic.bind_term rereads.reread.condition]
  have texts : (Strings.ofStrings strings).definitions.map (fun entry =>
      "$" ++ entry.1 ++ " = " ++ entry.2) = strings.map NamedContent.text := by
    rw [Strings.ofStrings, List.map_map]
    rfl
  have rendered : Expression.render spelling rule.condition = .ok conditionText := rendered
  change (strings.map NamedContent.selection).foldlM Strings.addSelection {} = _ at added
  simp only [write, ready, all, added, List.nil_append, bind, Except.bind]
  rw [put]
  · rw [← texts]
    simp only [rendered]
    rfl
  · intro name member
    rw [Strings.lookup_string (rereads.known name member)]

def detectionLexemes (rule : Rule) (strings : List Lexeme) : List Lexeme :=
  .word "strings:" :: strings ++
    .word "condition:" :: (wordingIn wording .none rule.condition ++ [.symbol "\x7d"])

def introductionLexemes (rule : Rule) : List Lexeme :=
  .word "rule" :: .word (headName rule) :: .symbol "\x7b" ::
    Named.Metadata.sectionLexemes (Named.Metadata.ofRule rule (headName rule))

theorem identifier_head_name (rule : Rule) : Named.isIdentifier (headName rule) = true :=
  Named.is_identifier_to_identifier (rule.title.getD Named.defaultTitle)

theorem spells_section {name : String} {lines : List String} {parts : List (List Lexeme)}
    (word : Spells quoting (name ++ ":") [.word (name ++ ":")])
    (each : List.Forall₂ (Spells quoting) lines parts) :
    SpellsLine quoting (sectionText name lines) (.word (name ++ ":") :: parts.flatten) :=
  Named.spells_section (by simp [Text.isBlank]) (by simp [Text.isBlank]) word each

theorem spells_metadata (rule : Rule) (name : String) :
    SpellsLine quoting
      (if (Named.Metadata.ofRule rule name).isEmpty then ""
        else sectionText "meta" ((Named.Metadata.ofRule rule name).map Named.Metadata.line))
      (Named.Metadata.sectionLexemes (Named.Metadata.ofRule rule name)) := by
  have entries := @Named.Metadata.spells_lines quoting rule name
  rw [Named.Metadata.sectionLexemes]
  split
  · exact Token.line_empty
  · have whole := @spells_section "meta" _ _
      (Token.spells_plain (by simp) (by simp [Token.isPlain])) entries
    rwa [← List.flatMap_def] at whole

theorem spells_string {string : NamedContent} (sound : string.Sound) :
    Spells quoting string.text string.lexemes :=
  Token.connects_equal (spells_dollared sound.1) (Content.spells sound.2)

theorem spells_head (rule : Rule) :
    SpellsLine quoting ("rule " ++ headName rule ++ "\n\x7b\n")
      [.word "rule", .word (headName rule), .symbol "\x7b"] :=
  Named.spells_head (identifier_head_name rule) '\n' (by decide) (by simp)

theorem spells_rule {rule : Rule} {strings : List NamedContent} (rereads : Rereads rule strings)
    {lines : List String} {parts : List (List Lexeme)} {conditionText : String}
    (spelled : List.Forall₂ (Spells quoting) lines parts)
    (rendered : Expression.render spelling rule.condition = .ok conditionText) :
    Spells quoting (ruleText rule lines conditionText)
      (introductionLexemes rule ++ detectionLexemes rule parts.flatten) := by
  have conditions : Spells quoting _ _ := spells_condition rereads.reread.condition rereads.identifiers rendered
  have sections := Token.line_append (Token.line_append (Token.line_append
    (Token.line_append (spells_head rule) (spells_metadata rule (headName rule)))
      (@spells_section "strings" _ _ (Token.spells_plain (by simp) (by simp [Token.isPlain])) spelled))
    (@spells_section "condition" _ _ (Token.spells_plain (by simp) (by simp [Token.isPlain]))
      (.cons conditions .nil))) Named.spells_end
  have whole := Token.spells_of_line sections
  simpa [ruleText, introductionLexemes, detectionLexemes] using whole

theorem spells_strings {strings : List NamedContent} (sound : ∀ string ∈ strings, string.Sound) :
    List.Forall₂ (Spells quoting) (strings.map NamedContent.text)
      (strings.map NamedContent.lexemes) := by
  rw [List.forall₂_map_left_iff, List.forall₂_map_right_iff, List.forall₂_same]
  exact fun string member => spells_string (sound string member)

def atSection (tokens : List Token) : Bool :=
  Parser.nextIsWord "strings:" tokens || Parser.nextIsWord "condition:" tokens

/-- The parser of a rule up to its strings. -/
def introduction : Parser (String × Named.Metadata) := do
  let _ ← Parser.many isImport
  let _ ← Parser.many isVisibility
  Named.heading "rule"
  let name ← ruleName
  Parser.sign "\x7b"
  let metadata ← Named.metadata atSection
  return (name, metadata)

/-- The parser of a rule behind its metadata. -/
def detection (name : String) (metadata : Named.Metadata) : Parser Rule := do
  Named.heading "strings:"
  let selections ← Parser.iterate nextString []
  if selections.isEmpty then Parser.fail "rule defines no strings"
  Named.heading "condition:"
  let condition ← Expression.parse connectives stop (reference (selections.map (·.name)))
  Parser.sign "\x7d"
  if !(← Parser.atEnd) then Parser.expected "end of rule"
  return {
    dialect := .yara
    title := some ((metadata.lookup "title").getD name)
    description := metadata.lookup "description"
    logSource := metadata.logSource
    selections
    condition
    aggregation := none }

theorem rule_eq :
    rule = (introduction >>= fun (name, metadata) => detection name metadata) := by
  simp only [introduction, bind_assoc, pure_bind]
  rfl

theorem reads_rule_name {name : String} (known : Named.isIdentifier name = true)
    (next : List Lexeme) : Reads ruleName [.word name] name (.symbol "\x7b" :: next) := by
  have noColon : (name.toList.getLast? == some ':') = false := by
    rw [beq_eq_false_iff_ne]
    intro colon
    have part := (Bool.and_eq_true_iff.mp known).2
    have inside := List.all_eq_true.mp part ':' (List.mem_of_getLast? colon)
    revert inside
    decide
  apply Parser.reads_bind_word_at
  intro offset
  apply Parser.reads_nil
  intro rest follows
  obtain ⟨place, others, rfl, _⟩ := Parser.cons_of_lexemes follows
  simp [noColon, known, Parser.takeWord]

theorem reads_introduction (rule : Rule) (next : List Lexeme) :
    Reads introduction (introductionLexemes rule)
      (headName rule, (Named.Metadata.ofRule rule (headName rule)).reverse)
      (.word "strings:" :: next) := by
  have noImport (next : List Lexeme) : Reads isImport [] none (.word "rule" :: next) :=
    reads_bind_last (Parser.reads_no_word (by simp)) (reads_pure _ _)
  have noVisibility (next : List Lexeme) : Reads isVisibility [] none (.word "rule" :: next) := by
    apply Parser.reads_nil
    intro rest follows
    obtain ⟨place, others, rfl, _⟩ := Parser.cons_of_lexemes follows
    simp [isVisibility]
  have noEntry {step : Parser (Option Unit)} (next : List Lexeme)
      (stops : Reads step [] none next) : Reads (Parser.many step) [] [] next := by
    intro tokens rest same follows
    rw [Parser.many, stops tokens rest same follows]
  have metadata : Reads (Named.metadata atSection)
      (Named.Metadata.sectionLexemes (Named.Metadata.ofRule rule (headName rule)))
      (Named.Metadata.ofRule rule (headName rule)).reverse (.word "strings:" :: next) := by
    apply Named.Metadata.reads_metadata (by simp)
    · intro entry member offset rest
      have known := Named.Metadata.keys_of_rule rule (headName rule) entry member
      simp only [Named.Metadata.keys, List.mem_cons, List.not_mem_nil, or_false] at known
      rcases known with same | same | same | same | same
      all_goals simp [atSection, same]
    · intro tokens same
      obtain ⟨offset, rest, rfl, _⟩ := Parser.cons_of_lexemes same
      simp [atSection]
  apply reads_bind_nil (noEntry _ (noImport _))
  apply reads_bind_nil (noEntry _ (noVisibility _))
  apply reads_bind_cons (Named.reads_heading "rule" _)
  apply reads_bind_cons (reads_rule_name (identifier_head_name rule) _)
  apply reads_bind_cons (Parser.reads_sign "\x7b" _)
  exact reads_bind_last metadata (reads_pure _ _)

def EndsString (next : List Lexeme) : Prop :=
  ∃ word, next.head? = some (.word word) ∧
    ((afterDollar? word).isSome = true ∨ word = "condition:")

theorem reads_no_modifier (test : FieldTest) {next : List Lexeme} (ends : EndsString next) :
    Reads (modifier test) [] none next := by
  obtain ⟨word, start, known⟩ := ends
  obtain ⟨tail, rfl⟩ := List.head?_eq_some_iff.mp start
  apply Parser.reads_nil
  intro rest follows
  obtain ⟨place, others, rfl, _⟩ := Parser.cons_of_lexemes follows
  rcases known with known | rfl <;> simp [modifier, *]

theorem reads_string_definition {string : NamedContent} (sound : string.Sound)
    (valid : string.2.Valid) {modifiers next : List Lexeme} {test : FieldTest}
    (modified : Reads (Parser.iterate modifier string.2.test) modifiers test next) :
    Reads stringDefinition (string.lexemes ++ modifiers) ⟨string.1, [test]⟩ next := by
  apply Parser.reads_bind_word_at
  intro offset
  simp only [after_dollar, Option.filter_some, sound.1, if_true]
  apply reads_bind_cons (Parser.reads_sign "=" _)
  apply reads_bind (Content.reads_string_test sound.2 valid _)
  exact reads_bind_last modified (reads_pure _ _)

theorem reads_next_string {done : List Selection} {selection : Selection}
    (fresh : selection.name ∉ done.map (·.name)) {lexemes next : List Lexeme}
    (reads : Reads stringDefinition (.word (dollared selection.name) :: lexemes) selection next) :
    Reads (nextString done) (.word (dollared selection.name) :: lexemes)
      (some (done ++ [selection])) next := by
  have other : done.any (·.name == selection.name) = false := by
    rw [List.any_eq_false]
    intro earlier member
    have different : earlier.name ≠ selection.name := fun same =>
      fresh (same ▸ List.mem_map_of_mem (f := (·.name)) member)
    simpa using different
  have goesOn : ∀ tokens : List Token,
      tokens.map (·.lexeme) = .word (dollared selection.name) :: lexemes ++ next →
      atStringsEnd tokens = false := by
    intro tokens same
    obtain ⟨offset, rest, rfl, _⟩ := Parser.cons_of_lexemes same
    have front : dollared selection.name ≠ "condition:" := by
      intro same
      have first := congrArg (fun text => text.toList.head?) same
      simp [dollared] at first
    simp [atStringsEnd, front]
  apply reads_bind_nil (Parser.reads_sees goesOn)
  apply Parser.reads_bind_offset
  intro offset
  apply reads_bind_last reads
  rw [other]
  exact reads_pure _ _

theorem reads_no_string (done : List Selection) (next : List Lexeme) :
    Reads (nextString done) [] none (.word "condition:" :: next) := by
  have ends : ∀ tokens : List Token, tokens.map (·.lexeme) = .word "condition:" :: next →
      atStringsEnd tokens = true := by
    intro tokens same
    obtain ⟨offset, rest, rfl, _⟩ := Parser.cons_of_lexemes same
    simp [atStringsEnd]
  exact reads_bind_last (Parser.reads_sees ends) (reads_pure _ _)

theorem reads_strings {done others : List NamedContent}
    (sound : ∀ string ∈ others, string.Sound) (valid : ∀ string ∈ others, string.2.Valid)
    (distinct : ((done ++ others).map (·.1)).Nodup) (next : List Lexeme) :
    Reads (Parser.iterate nextString (done.map NamedContent.selection))
      (others.flatMap NamedContent.lexemes) ((done ++ others).map NamedContent.selection)
      (.word "condition:" :: next) := by
  induction others generalizing done with
  | nil =>
      rw [List.append_nil]
      exact Parser.reads_iterate_stop (reads_no_string _ next)
  | cons string rest induction =>
      have fresh : string.1 ∉ (done.map NamedContent.selection).map (·.name) := by
        rw [List.map_append, List.nodup_append] at distinct
        rw [List.map_map]
        exact fun member => distinct.2.2 _ member _ (by simp) rfl
      have ends : EndsString (rest.flatMap NamedContent.lexemes ++ .word "condition:" :: next) := by
        cases rest with
        | nil => exact ⟨"condition:", rfl, .inr rfl⟩
        | cons second rest =>
            exact ⟨dollared second.1, rfl, .inl (by rw [after_dollar]; rfl)⟩
      have tail := @induction (done ++ [string])
        (fun other member => sound other (List.mem_cons_of_mem string member))
        (fun other member => valid other (List.mem_cons_of_mem string member))
        (by simpa using distinct)
      rw [List.append_assoc, List.singleton_append, List.map_append] at tail
      have first := reads_string_definition (sound string (by simp)) (valid string (by simp))
        (Parser.reads_iterate_stop (reads_no_modifier _ ends))
      rw [List.append_nil] at first
      rw [List.flatMap_cons]
      exact Parser.reads_iterate_next (by simp [NamedContent.lexemes])
        (@reads_next_string _ string.selection fresh _ _ first) tail

theorem title_of_head (rule : Rule) (title : String) (same : rule.title = some title) :
    some (((Named.Metadata.ofRule rule (headName rule)).reverse.lookup "title").getD
      (headName rule)) = rule.title := by
  rw [headName, Named.Metadata.title_of_rule, same]
  rfl

theorem reads_detection {rule : Rule} {strings : List NamedContent} (rereads : Rereads rule strings)
    {lexemes : List Lexeme}
    (reads : ∀ next, Reads (Parser.iterate nextString []) lexemes rule.selections
      (.word "condition:" :: next))
    (shallow : rule.condition.depth ≤ Expression.maxDepth) :
    Reads (detection (headName rule) (Named.Metadata.ofRule rule (headName rule)).reverse)
      (detectionLexemes rule lexemes) rule [] := by
  have filled := rereads.proper.filled
  apply reads_bind_cons (Named.reads_heading "strings:" _)
  apply reads_bind (reads _)
  rw [if_neg (by simpa using filled)]
  apply reads_bind_cons (Named.reads_heading "condition:" _)
  apply reads_bind
  · apply reads_condition rereads.reread.condition shallow
    rw [rereads.names]
    exact rereads.known
  · apply reads_bind_cons (Parser.reads_sign "\x7d" _)
    apply Parser.reads_nil
    intro rest follows
    obtain rfl : rest = [] := by simpa using follows
    obtain ⟨title, titled⟩ := rereads.reread.title
    have same := title_of_head rule title titled
    have description := Named.Metadata.description_of_rule rule (headName rule)
    have source := Named.Metadata.log_source_of_rule rule (headName rule)
    simp only [Parser.bind_apply, Parser.at_end_apply, List.isEmpty_nil, Bool.not_true,
      Bool.false_eq_true, if_false, same, description, source, ← rereads.reread.dialect,
      ← rereads.reread.uncounted, Parser.pure_apply]

/-- A rule is read from a text in which other strings stand for its own, if they are read as its
selections. -/
theorem read_of_strings {rule : Rule} {strings : List NamedContent} (rereads : Rereads rule strings)
    {lines : List String} {parts : List (List Lexeme)} {conditionText : String}
    (spelled : List.Forall₂ (Spells quoting) lines parts)
    (rendered : Expression.render spelling rule.condition = .ok conditionText)
    (reads : ∀ next, Reads (Parser.iterate nextString []) parts.flatten rule.selections
      (.word "condition:" :: next))
    (shallow : rule.condition.depth ≤ Expression.maxDepth) :
    read (ruleText rule lines conditionText) = .ok rule := by
  have parsed : Reads Yara.rule
      (introductionLexemes rule ++ detectionLexemes rule parts.flatten) rule [] := by
    rw [rule_eq]
    apply reads_bind
    · rw [List.append_nil]
      exact reads_introduction rule _
    · exact reads_detection rereads reads shallow
  have filled : introductionLexemes rule ++ detectionLexemes rule parts.flatten ≠ [] := by
    simp [introductionLexemes]
  have sound := (Rule.well_formed_iff rule).mpr rereads.proper
  have again := Dialect.read_tokens_of_reads filled (spells_rule rereads spelled rendered) parsed sound
  have quoted : ({ slashes := true } : Quoting) = quoting := rfl
  rw [Yara.read, quoted, again]
  rfl

end DetectionRules.Yara
