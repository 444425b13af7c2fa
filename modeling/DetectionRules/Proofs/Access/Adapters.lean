import DetectionRules.Proofs.Access.Writers
import DetectionRules.Proofs.Access.Readers
import DetectionRules.Proofs.Access.Text

/-!
No reader and no writer looks up a part that is not there. For readers this is
said of each function that looks something up, whatever it is given, so the
rest of the reader need not be known. Where a check was made in another
function, as for the tests that name where events come from, the two are
taken together. For writers it is said of all that they do with a rule.
-/

namespace DetectionRules

/-- As `Format.write`, with all that is looked up. -/
def Format.writeInRange? : Format → Rule → Ranged RuleError String
  | .splunk => Splunk.writeInRange?
  | .qradar => QRadar.writeInRange?
  | .sigma => Sigma.writeInRange?
  | .kql => Kql.writeInRange?
  | .paloalto => PaloAlto.writeInRange?
  | .crowdstrike => CrowdStrike.writeInRange?
  | .yara => Yara.writeInRange?
  | .yaral => YaraL.writeInRange?

theorem Format.written_in_range (format : Format) (rule : Rule) :
    format.writeInRange? rule = .of (format.write rule) := by
  cases format with
  | splunk => exact Splunk.write_in_range rule
  | qradar => exact QRadar.write_in_range rule
  | sigma => exact Sigma.write_in_range rule
  | kql => exact Kql.write_in_range rule
  | paloalto => exact PaloAlto.write_in_range rule
  | crowdstrike => exact CrowdStrike.write_in_range rule
  | yara => exact Yara.write_in_range rule
  | yaral => exact YaraL.write_in_range rule

/-- What all dialects share. -/
structure SharedInRange : Prop where
  /-- The member of a group that has no other. -/
  groups {Term : Type} (items : List (Logic Term)) :
    Logic.joinInRange? Logic.conjuncts .all items = some (Logic.conj items) ∧
      Logic.joinInRange? Logic.disjuncts .any items = some (Logic.disj items)
  /-- The number in a comparison. -/
  flaws (selection : String) (test : FieldTest) :
    test.flawInRange? selection = some (test.flaw? selection)

/-- What readers do with texts and with what they made of them. -/
structure ReadersInRange : Prop where
  /-- The parts of a text that tokens are made of. -/
  tokens (quoting : Quoting) (text : String) :
    Token.listInRange? quoting text = some (Token.list quoting text)
  /-- A glob without the wildcards at its ends. -/
  globs (wildcard : Char) (glob : List Char) :
    Glob.classifyInRange? wildcard glob = some (Glob.classify wildcard glob)
  /-- The digits and the unit of a stretch of time. -/
  windows (text : String) : TimeWindow.ofTextInRange? text = some (TimeWindow.ofText? text)
  /-- The parts of the header before the object of a rule, and the object. -/
  header (text : List Char) : PaloAlto.bodyInRange? text = some (PaloAlto.body text)
  /-- The number in a comparison. -/
  comparisons (field : String) :
    (∀ relation value, (PaloAlto.leafTestInRange? field relation value).run =
      some (PaloAlto.leafTest field relation value)) ∧
    ∀ op values, (Sigma.fieldTestInRange? field op values).run =
      some (Sigma.fieldTest field op values)
  /-- The mapping in a list that has no other. -/
  mappings (name : String) (value : Yaml) :
    (Sigma.selectionsInRange? name value).run = some (Sigma.selections name value)
  /-- The value of each test that says where events come from. -/
  sources :
    (∀ search, Splunk.toRuleInRange? search = some search.toRule) ∧
    (∀ filter clauses, QRadar.toRuleInRange? filter clauses = some (QRadar.toRule filter clauses)) ∧
    (∀ test, CrowdStrike.sourceOfInRange? test = some (CrowdStrike.sourceOf? test)) ∧
    ∀ expression, CrowdStrike.liftSourceInRange? expression =
      some (CrowdStrike.liftSource expression)
  /-- The first of the fields that are counted. -/
  counted (field : Option String) (distinct : Bool) (tokens : List Token) :
    (CrowdStrike.countArgumentInRange? field distinct tokens).run =
      some (CrowdStrike.countArgument field distinct tokens)
  /-- The text of a string whose letters match in any case. -/
  strings (tokens : List Token) :
    (Yara.stringDefinitionInRange? tokens).run = some (Yara.stringDefinition tokens)
  /-- The name of a placeholder without the sign before it. -/
  placeholders (word : String) :
    YaraL.placeholderInRange? word = some (YaraL.placeholder? word)
  /-- The variable of a predicate that has no other. -/
  eventVariables (groups : List YaraL.EventGroup) (conjunct : Logic (String × FieldTest))
    (tokens : List Token) :
    (YaraL.groupInRange? groups conjunct tokens).run = some (YaraL.group groups conjunct tokens)

/-- What writers do with rules, well-formed or not. -/
structure WritersInRange : Prop where
  texts (format : Format) (rule : Rule) :
    (format.writeInRange? rule).run = some (format.write rule)

/-- Whatever a text or a rule is like, no reader and no writer looks for a value, a member, a
character or a stretch of bytes that is not there. -/
theorem accesses_in_range : SharedInRange ∧ ReadersInRange ∧ WritersInRange := by
  refine ⟨⟨?_, FieldTest.flaw_in_range⟩, ?_, ⟨fun format rule => ?_⟩⟩
  · exact fun items => ⟨Logic.conj_in_range items, Logic.disj_in_range items⟩
  · exact {
      tokens := Token.list_in_range
      globs := Glob.classify_in_range
      windows := TimeWindow.of_text_in_range
      header := PaloAlto.body_in_range
      comparisons := fun field =>
        ⟨PaloAlto.leaf_test_in_range field, Sigma.field_test_in_range field⟩
      mappings := Sigma.selections_in_range
      sources := ⟨Splunk.to_rule_in_range, QRadar.to_rule_in_range,
        CrowdStrike.source_of_in_range, CrowdStrike.lift_source_in_range⟩
      counted := fun field distinct =>
        congrFun (CrowdStrike.count_argument_in_range field distinct)
      strings := congrFun Yara.string_definition_in_range
      placeholders := YaraL.placeholder_in_range
      eventVariables := fun groups conjunct => congrFun (YaraL.group_in_range groups conjunct) }
  · rw [Format.written_in_range]
    rfl

end DetectionRules
