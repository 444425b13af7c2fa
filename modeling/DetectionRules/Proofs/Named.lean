import DetectionRules.Dialect.Named
import DetectionRules.Proofs.Dialect

/-!
Names and metadata of rules. A name is a word of its own, and what is written
to the metadata is found there again under its key.
-/

namespace DetectionRules.Named

open DetectionRules.Parser (Reads reads_bind_cons reads_bind_nil reads_bind_last reads_pure)
open Token (Spells SpellsLine behind)

variable {quoting : Quoting}

theorem plain_of_name_part {c : Char} (part : isNamePart c = true) : Token.isPlain c = true := by
  rw [isNamePart, Bool.or_eq_true, beq_iff_eq] at part
  rcases part with part | rfl
  · simp [Token.isPlain, part]
  · decide

theorem is_identifier_to_identifier (text : String) : isIdentifier (toIdentifier text) = true := by
  have parts : ∀ c ∈ text.toList.map (fun c => if isNamePart c then c else '_'),
      isNamePart c = true := by
    intro c member
    obtain ⟨original, _, rfl⟩ := List.mem_map.mp member
    by_cases part : isNamePart original = true
    · rwa [if_pos part]
    · rw [if_neg part]
      decide
  have all := List.all_eq_true.mpr parts
  rw [toIdentifier, isIdentifier, String.toList_ofList]
  generalize text.toList.map (fun c => if isNamePart c then c else '_') = characters at all
  by_cases start : characters.head?.any isNameStart = true
  · rw [if_pos start, start, all]
    rfl
  · rw [if_neg start, List.all_cons, all]
    rfl

theorem plain_of_identifier {name : String} (known : isIdentifier name = true) :
    name.toList ≠ [] ∧ ∀ c ∈ name.toList, Token.isPlain c = true := by
  rw [isIdentifier, Bool.and_eq_true, List.all_eq_true] at known
  refine ⟨?_, fun c member => plain_of_name_part (known.2 c member)⟩
  intro empty
  rw [empty] at known
  cases known.1

theorem to_identifier_default_title : toIdentifier defaultTitle = defaultTitle := by decide

namespace Metadata

def lexemes (entry : String × String) : List Lexeme :=
  [.word entry.1, .symbol "=", .quoted entry.2]

theorem lookup_reverse {entries : Metadata} (distinct : (entries.map (·.1)).Nodup) (key : String) :
    entries.reverse.lookup key = entries.lookup key := by
  induction entries with
  | nil => rfl
  | cons entry rest induction =>
      obtain ⟨fresh, others⟩ := List.nodup_cons.mp distinct
      rw [List.reverse_cons, List.lookup_append, induction others, List.lookup_cons,
        List.lookup_cons]
      by_cases same : key = entry.1
      · have none : List.lookup key rest = none := by
          rw [List.lookup_eq_none_iff]
          rintro other member
          rw [bne_iff_ne]
          rintro rfl
          exact fresh (List.mem_map.mpr ⟨other, member, same⟩)
        rw [none, Option.none_or, same]
        simp
      · have different : (key == entry.1) = false := by simpa using same
        simp [different]

theorem lookup_filter_map {entries : List (String × Option String)}
    (distinct : (entries.map (·.1)).Nodup) (key : String) :
    List.lookup key (entries.filterMap fun (key, value) => value.map (key, ·)) =
      (List.lookup key entries).join := by
  induction entries with
  | nil => rfl
  | cons entry rest induction =>
      obtain ⟨name, value⟩ := entry
      obtain ⟨fresh, others⟩ := List.nodup_cons.mp distinct
      have tail := induction others
      by_cases same : key = name
      · subst same
        have absent : List.lookup key rest = none := by
          rw [List.lookup_eq_none_iff]
          intro other member
          rw [bne_iff_ne]
          rintro rfl
          exact fresh (List.mem_map.mpr ⟨other, member, rfl⟩)
        rw [absent] at tail
        cases value with
        | none =>
            rw [List.lookup_cons_self]
            exact tail
        | some text => simp
      · have different : (key == name) = false := by simpa using same
        cases value <;> simp [List.lookup_cons, different, tail]

theorem keys_sublist (entries : List (String × Option String)) :
    ((entries.filterMap fun (key, value) => value.map (key, ·)).map (·.1)).Sublist
      (entries.map (·.1)) := by
  induction entries with
  | nil => exact .slnil
  | cons entry rest induction =>
      obtain ⟨name, value⟩ := entry
      cases value with
      | none => exact .cons _ induction
      | some text => exact .cons_cons _ induction

def keys : List String := ["title", "description", "product", "category", "service"]

theorem keys_of_rule (rule : Rule) (name : String) : ∀ entry ∈ ofRule rule name, entry.1 ∈ keys := by
  intro entry member
  obtain ⟨⟨key, value⟩, inside, found⟩ := List.mem_filterMap.mp member
  obtain ⟨text, _, rfl⟩ := Option.map_eq_some_iff.mp found
  simp only [List.mem_cons, Prod.mk.injEq, List.not_mem_nil, or_false] at inside
  rcases inside with ⟨rfl, _⟩ | ⟨rfl, _⟩ | ⟨rfl, _⟩ | ⟨rfl, _⟩ | ⟨rfl, _⟩
  all_goals simp [keys]

/-- What a rule writes to its metadata, the absent values included. -/
def entriesOf (rule : Rule) (name : String) : List (String × Option String) :=
  [("title", rule.title.filter (· != name)), ("description", rule.description),
    ("product", rule.logSource.product), ("category", rule.logSource.category),
    ("service", rule.logSource.service)]

theorem lookup_of_rule (rule : Rule) (name key : String) :
    (ofRule rule name).reverse.lookup key = ((entriesOf rule name).lookup key).join := by
  have distinct : ((entriesOf rule name).map (·.1)).Nodup := by simp [entriesOf]
  have fewer := keys_sublist (entriesOf rule name)
  exact (lookup_reverse (distinct.sublist fewer) key).trans (lookup_filter_map distinct key)

theorem log_source_of_rule (rule : Rule) (name : String) :
    logSource (ofRule rule name).reverse = rule.logSource := by
  rw [logSource, lookup_of_rule, lookup_of_rule, lookup_of_rule]
  rfl

theorem description_of_rule (rule : Rule) (name : String) :
    (ofRule rule name).reverse.lookup "description" = rule.description := by
  rw [lookup_of_rule]
  rfl

/-- The title is the name of the rule if the metadata do not say otherwise. -/
theorem title_of_rule (rule : Rule) :
    ((ofRule rule (toIdentifier (rule.title.getD defaultTitle))).reverse.lookup "title").getD
      (toIdentifier (rule.title.getD defaultTitle)) = rule.title.getD defaultTitle := by
  have entry (name : String) : List.lookup "title" (entriesOf rule name) =
      some (rule.title.filter (· != name)) := rfl
  rw [lookup_of_rule, entry, Option.join_some]
  cases rule.title with
  | none => simpa using to_identifier_default_title
  | some title =>
      by_cases same : title = toIdentifier title
      · simp [Option.filter, ← same]
      · simp [Option.filter, same]

theorem spells_entry {entry : String × String}
    (word : entry.1.toList ≠ [] ∧ ∀ c ∈ entry.1.toList, Token.isPlain c = true) :
    Spells quoting (line entry) (lexemes entry) :=
  Token.connects_equal (Token.spells_plain word.1 word.2) (Token.spells_double_quote entry.2)

theorem plain_of_key {key : String} (known : key ∈ keys) :
    key.toList ≠ [] ∧ ∀ c ∈ key.toList, Token.isPlain c = true := by
  simp only [keys, List.mem_cons, List.not_mem_nil, or_false] at known
  rcases known with rfl | rfl | rfl | rfl | rfl
  all_goals simp [Token.isPlain]

theorem spells_lines (rule : Rule) (name : String) :
    List.Forall₂ (Spells quoting) ((ofRule rule name).map line) ((ofRule rule name).map lexemes) := by
  rw [List.forall₂_map_left_iff, List.forall₂_map_right_iff, List.forall₂_same]
  intro entry member
  exact spells_entry (plain_of_key (keys_of_rule rule name entry member))

def nextEntry (stop : List Token → Bool) : Parser (Option (String × String)) := do
  if ← Parser.sees (fun tokens => tokens.isEmpty || stop tokens) then return none
  let key ← Parser.word "a meta key"
  Parser.sign "="
  return some (key, (← Parser.literal "a meta value").text)

theorem reads_entry {stop : List Token → Bool} {entry : String × String}
    (goesOn : ∀ offset rest, stop (⟨.word entry.1, offset⟩ :: rest) = false) (next : List Lexeme) :
    Reads (nextEntry stop) (lexemes entry) (some entry) next := by
  apply Parser.reads_cons
  intro key
  apply Parser.reads_cons
  intro equal
  apply Parser.reads_cons
  intro value
  apply Parser.reads_nil
  intro rest _
  simp [nextEntry, goesOn]

theorem reads_no_entry {stop : List Token → Bool} {next : List Lexeme}
    (stops : ∀ tokens : List Token, tokens.map (·.lexeme) = next → stop tokens = true) :
    Reads (nextEntry stop) [] none next := by
  apply Parser.reads_nil
  intro rest follows
  simp [nextEntry, stops rest follows]

def sectionLexemes (entries : Metadata) : List Lexeme :=
  if entries.isEmpty then [] else .word "meta:" :: behind [] lexemes entries

theorem reads_metadata {stop : List Token → Bool} {entries : Metadata} {next : List Lexeme}
    (other : next.head? ≠ some (.word "meta:"))
    (goesOn : ∀ entry ∈ entries, ∀ offset rest, stop (⟨.word entry.1, offset⟩ :: rest) = false)
    (stops : ∀ tokens : List Token, tokens.map (·.lexeme) = next → stop tokens = true) :
    Reads (metadata stop) (sectionLexemes entries) entries.reverse next := by
  have listed : Reads (Parser.many (nextEntry stop)) (behind [] lexemes entries) entries next := by
    have each := @Parser.reads_many _ _ [] next lexemes (nextEntry stop) id entries
      (by simp [lexemes]) (Parser.along_of_forall fun entry member following =>
        reads_entry (goesOn entry member) following) (reads_no_entry stops)
    rwa [List.map_id] at each
  rw [sectionLexemes]
  cases entries with
  | nil =>
      exact reads_bind_last (Parser.reads_no_word other) (reads_pure _ _)
  | cons entry rest =>
      rw [if_neg (by simp)]
      apply reads_bind_cons (Parser.reads_take_word "meta:" _)
      exact reads_bind_last listed (reads_pure _ _)

end Metadata

theorem reads_heading (word : String) (next : List Lexeme) :
    Reads (heading word) [.word word] ⟨⟩ next := by
  apply reads_bind_cons (Parser.reads_take_word word _)
  exact reads_pure _ _

theorem spells_section {margin indent name : String} {lines : List String}
    {parts : List (List Lexeme)} (marginBlank : ∀ c ∈ margin.toList, Text.isBlank c = true)
    (indentBlank : ∀ c ∈ indent.toList, Text.isBlank c = true)
    (word : Spells quoting (name ++ ":") [.word (name ++ ":")])
    (each : List.Forall₂ (Spells quoting) lines parts) :
    SpellsLine quoting
      (margin ++ name ++ ":\n" ++ String.join (lines.map fun line => indent ++ line ++ "\n"))
      (.word (name ++ ":") :: parts.flatten) := by
  have heading : SpellsLine quoting (margin ++ (name ++ ":") ++ "\n") [.word (name ++ ":")] :=
    Token.line_of_spells marginBlank word (by simp) (by simp [Text.isBlank])
  have body : SpellsLine quoting
      (String.join (lines.map fun line => indent ++ line ++ "\n")) parts.flatten := by
    apply Token.line_join
    rw [List.forall₂_map_left_iff]
    apply each.imp
    intro line part spells
    exact Token.line_of_spells indentBlank spells (by simp) (by simp [Text.isBlank])
  have whole := Token.line_append heading body
  have same : margin ++ (name ++ ":") ++ "\n" = margin ++ name ++ ":\n" := by
    have split : ":\n" = ":" ++ "\n" := by simp
    rw [split]
    simp only [String.append_assoc]
  rwa [same] at whole

/-- The head of a rule, up to the brace that opens it. -/
theorem spells_head {name opening : String} (known : isIdentifier name = true) (gap : Char)
    (blank : Text.isBlank gap = true) (written : opening.toList = [gap, '\x7b', '\n']) :
    SpellsLine quoting ("rule " ++ name ++ opening)
      [.word "rule", .word name, .symbol "\x7b"] := by
  have parts := plain_of_identifier known
  have front := @Token.spells_behind_word quoting "rule" _ _ _ rfl (by simp) (by simp [Token.isPlain])
    (Token.spells_plain parts.1 parts.2)
  intro rest others scans
  have tail := Token.scans_blank (c := '\n') (by decide) scans
  have brace : Token.Scans quoting ('\x7b' :: '\n' :: rest) (.symbol "\x7b" :: others) :=
    Token.scans_sign (by simp [Token.sign?, Token.signs]) ⟨by decide, rfl⟩ tail
  have whole := front _ _ (Token.breaks_blank blank) (Token.scans_blank blank brace)
  simpa [written] using whole

theorem spells_end : SpellsLine quoting "\x7d\n" [.symbol "\x7d"] := by
  intro rest others scans
  have tail := Token.scans_blank (c := '\n') (by decide) scans
  have brace : Token.Scans quoting ('\x7d' :: '\n' :: rest) (.symbol "\x7d" :: others) :=
    Token.scans_sign (by simp [Token.sign?, Token.signs]) ⟨by decide, rfl⟩ tail
  simpa using brace

end DetectionRules.Named
