import DetectionRules.Proofs.Yara.Reread

/-!
Expressions whose case of letters is ignored. The request to ignore it, put in
front of an expression, makes it nest one level deeper, and the result is not
checked again: a rule with an expression that nests as deep as it may is
accepted, but not read from the text that is written for it.
-/

namespace DetectionRules.Regex

/-- A letter in groups within groups. -/
def nested : Nat → List Char
  | 0 => ['a']
  | levels + 1 => '(' :: (nested levels ++ [')'])

theorem front_of_nested (levels : Nat) (rest : List Char) :
    (nested levels ++ rest).head? ≠ some '?' := by
  cases levels with
  | zero => simp [nested]
  | succ levels => simp [nested]

theorem opened_in_front {reading : Reading} {rest : List Char} (mode : reading.mode = startMode)
    (plain : rest.head? ≠ some '?') : reading.opened? rest = some (reading.openGroup startMode, rest) := by
  have whole : reading.mode.skip rest = rest := by rw [mode]; rfl
  rw [Reading.opened?, whole, mode]
  cases rest with
  | nil => rfl
  | cons c rest =>
      have other : c ≠ '?' := by simpa using plain
      split
      all_goals first
        | rfl
        | simp_all

theorem height_of_nested (levels : Nat) {reading : Reading} (mode : reading.mode = startMode)
    (rest : List Char) :
    height? reading (nested levels ++ rest) = height? (reading.add levels) rest := by
  induction levels generalizing reading rest with
  | zero =>
      refine height_step mode ?_ (Nat.le_refl _)
      simp [Reading.step?, Reading.atom?, Atom.isLegal, mode, startMode]
  | succ levels induction =>
      have opens : reading.step? '(' (nested levels ++ ')' :: rest) =
          some (reading.openGroup startMode, nested levels ++ ')' :: rest) :=
        opened_in_front mode (front_of_nested levels _)
      have closes : ((reading.openGroup startMode).add levels).step? ')' rest =
          some (reading.add (levels + 1), rest) := by
        simp [Reading.step?, Reading.closed?, Reading.openGroup, Reading.add, OpenGroup.height,
          OpenGroup.branchHeight, OpenGroup.add, heightOf]
      have front : nested (levels + 1) ++ rest = '(' :: (nested levels ++ ')' :: rest) := by
        simp [nested]
      rw [front, height_step mode opens (Nat.le_refl _), induction rfl]
      exact height_step rfl closes (Nat.le_refl _)

def startReading : Reading := { group := { outerMode := startMode }, mode := startMode }

theorem valid_iff_of_height {pattern : String} {height : Nat}
    (read : height? startReading pattern.toList = some height) :
    isValid pattern = true ↔ height ≤ maxHeight := by
  have whole : isValid pattern = (some height).any (· ≤ maxHeight) :=
    congrArg (Option.any (· ≤ maxHeight)) read
  simp [whole]

theorem valid_nested_iff (levels : Nat) :
    isValid (String.ofList (nested levels)) = true ↔ levels ≤ maxHeight := by
  apply valid_iff_of_height
  have read := @height_of_nested levels startReading rfl []
  rw [List.append_nil] at read
  rw [String.toList_ofList, read, height?]
  rfl

/-- The request to ignore the case of letters is a part beside the groups, which makes the
expression one level higher. -/
theorem valid_caseless_iff (levels : Nat) :
    isValid ("(?i)" ++ String.ofList (nested levels)) = true ↔ levels + 1 ≤ maxHeight := by
  apply valid_iff_of_height
  let flagged : Reading := { startReading with group := startReading.group.add ⟨0, false⟩ }
  have request : startReading.step? '(' ('?' :: 'i' :: ')' :: nested levels) =
      some (flagged, nested levels) := rfl
  have read := @height_of_nested levels flagged rfl []
  rw [List.append_nil] at read
  have split : ("(?i)" ++ String.ofList (nested levels)).toList =
      '(' :: '?' :: 'i' :: ')' :: nested levels := by simp
  rw [split, height_step rfl request (by simp; omega), read, height?]
  simp [flagged, startReading, startMode, Mode.skip, Reading.add, OpenGroup.add, OpenGroup.height,
    OpenGroup.branchHeight, heightOf, heightOver]

end DetectionRules.Regex

namespace DetectionRules.Yara

open CrowdStrike (quoting isSlashable slashable_plain)
open DetectionRules.Parser (Reads reads_cons reads_nil)
open Token (Spells)

def caselessRule (pattern : String) : Rule where
  dialect := .yara
  title := some "deep"
  description := none
  logSource := {}
  selections := [NamedContent.selection ("a", .pattern ("(?i)" ++ pattern))]
  condition := .term "a"
  aggregation := none

def caselessLine (pattern : String) : String :=
  NamedContent.text ("a", .pattern pattern) ++ " nocase"

def caselessLexemes (pattern : String) : List Lexeme :=
  NamedContent.lexemes ("a", .pattern pattern) ++ [.word "nocase"]

variable {pattern : String}

theorem rereads_caseless (slashable : isSlashable pattern.toList = true) :
    Rereads (caselessRule pattern) [("a", .pattern ("(?i)" ++ pattern))] := by
  have sound : NamedContent.Sound ("a", .pattern ("(?i)" ++ pattern)) := by
    refine ⟨(by decide : Named.isIdentifier "a" = true), ?_⟩
    rw [Content.Sound, String.toList_append]
    simpa [slashable_plain] using slashable
  have proper : (caselessRule pattern).Proper := by
    refine ⟨by simp [caselessRule], ?_, ?_, ?_, ?_, rfl, by simp [caselessRule]⟩
    · simp [caselessRule, NamedContent.selection]
    · rw [caselessRule, List.forall_mem_singleton]
      refine ⟨by simp [NamedContent.selection], ?_⟩
      rw [NamedContent.selection, List.forall_mem_singleton]
      exact ⟨by simp [Content.test, FieldTest.single, contentField],
        by simp [Content.test, FieldTest.single],
        by simp [Content.test, FieldTest.single, Operator.isComparison]⟩
    · simp [caselessRule]
    · simp [caselessRule, Rule.selection?, NamedContent.selection, Logic.terms]
  have strings : ∀ selection ∈ (caselessRule pattern).selections, IsStringSelection selection := by
    intro selection member
    rw [List.mem_singleton.mp member]
    exact ⟨sound.1, _, sound.2, rfl⟩
  have reread : IsReread (caselessRule pattern) :=
    ⟨rfl, ⟨"deep", rfl⟩, rfl, strings, .term _⟩
  exact ⟨proper, reread, rfl, by simpa using sound⟩

theorem spells_caseless (slashable : isSlashable pattern.toList = true) :
    Spells quoting (caselessLine pattern) (caselessLexemes pattern) := by
  have modifier : Spells quoting "nocase" [.word "nocase"] :=
    Token.spells_plain (by simp) (by simp [Token.isPlain])
  have string := @spells_string ("a", .pattern pattern) ⟨(by decide : Named.isIdentifier "a" = true), slashable⟩
  have whole := Token.connects_blank string modifier
  have split : " nocase" = " " ++ "nocase" := by simp
  rw [caselessLine, split, ← String.append_assoc]
  simpa [caselessLexemes] using whole

theorem reads_caseless (slashable : isSlashable pattern.toList = true)
    (valid : Regex.isValid pattern = true) (plain : Text.startsWith pattern "(?" = false)
    (next : List Lexeme) :
    Reads (Parser.iterate nextString []) (caselessLexemes pattern) (caselessRule pattern).selections
      (.word "condition:" :: next) := by
  have ends : EndsString (.word "condition:" :: next) := ⟨"condition:", rfl, .inr rfl⟩
  have ignoring : ignoringCase (Content.pattern pattern).test =
      (Content.pattern ("(?i)" ++ pattern)).test := by
    simp [ignoringCase, Content.test, FieldTest.single, Value.text, plain]
  have modified : Reads (Parser.iterate modifier (Content.pattern pattern).test) [.word "nocase"]
      (Content.pattern ("(?i)" ++ pattern)).test (.word "condition:" :: next) := by
    refine Parser.reads_iterate_last (by simp) ?_
      (reads_no_modifier _ ends)
    rw [← ignoring]
    apply reads_cons
    intro offset
    apply reads_nil
    intro rest _
    rfl
  have named : NamedContent.Sound ("a", .pattern pattern) :=
    ⟨(by decide : Named.isIdentifier "a" = true), slashable⟩
  have first := reads_string_definition named valid modified
  exact Parser.reads_iterate_last (by simp [caselessLexemes])
    (@reads_next_string [] (NamedContent.selection ("a", .pattern ("(?i)" ++ pattern))) (by simp) _ _ first)
    (reads_no_string _ next)

theorem slashable_nested (levels : Nat) : isSlashable (Regex.nested levels) = true := by
  have plain : ∀ c ∈ Regex.nested levels, c ≠ '\\' := by
    induction levels with
    | zero => simp [Regex.nested]
    | succ levels induction => simpa [Regex.nested, or_imp, forall_and] using induction
  have whole := @Content.slashable_behind_flags _ [] plain
  rwa [List.append_nil] at whole

theorem plain_nested (levels : Nat) :
    Text.startsWith (String.ofList (Regex.nested levels)) "(?" = false := by
  cases levels with
  | zero => simp [Text.startsWith, Regex.nested, List.isPrefixOf]
  | succ levels =>
      have front := Regex.front_of_nested levels [')']
      rw [Regex.nested, Text.startsWith, String.toList_ofList]
      generalize Regex.nested levels ++ [')'] = rest at front
      cases rest with
      | nil => rfl
      | cons c rest =>
          have other : '?' ≠ c := Ne.symm (by simpa using front)
          simp [List.isPrefixOf, other]

/-- A rule with an expression that nests as deep as it may, and whose case of letters is ignored,
is not read from the text that is written for it. -/
theorem deep_pattern_refused : ∃ source rule text, read source = .ok rule ∧
    (∀ selection ∈ rule.selections, selection.name ∈ rule.condition.terms) ∧
    rule.condition.depth ≤ 31 ∧ write rule = .ok text ∧ read text ≠ .ok rule := by
  let pattern := String.ofList (Regex.nested Regex.maxHeight)
  have valid : Regex.isValid pattern = true :=
    (Regex.valid_nested_iff Regex.maxHeight).mpr (Nat.le_refl _)
  have slashable : isSlashable pattern.toList = true := by
    rw [String.toList_ofList]
    exact slashable_nested _
  have plain : Text.startsWith pattern "(?" = false := plain_nested _
  have rereads := rereads_caseless slashable
  have mentioned : ∀ selection ∈ (caselessRule pattern).selections,
      selection.name ∈ (caselessRule pattern).condition.terms := by
    simp [caselessRule, NamedContent.selection, Logic.terms]
  obtain ⟨conditionText, rendered, written⟩ := write_eq rereads mentioned
  have spelled := List.Forall₂.cons (spells_caseless slashable) .nil
  have accepted := read_of_strings rereads spelled rendered
    (fun next => by
      rw [List.flatten_singleton]
      exact reads_caseless slashable valid plain next)
    (by simp [caselessRule, Logic.depth, Expression.maxDepth])
  refine ⟨_, caselessRule pattern, _, accepted, mentioned, by simp [caselessRule, Logic.depth],
    written, fun again => ?_⟩
  have spells := spells_rule rereads (spells_strings rereads.sound) rendered
  have checked := valid_of_read_back spells again _ (List.mem_singleton.mpr rfl) _
    (List.mem_singleton.mpr rfl) rfl (.str ("(?i)" ++ pattern)) (List.mem_singleton.mpr rfl)
  have small := (Regex.valid_caseless_iff Regex.maxHeight).mp checked
  omega

end DetectionRules.Yara
