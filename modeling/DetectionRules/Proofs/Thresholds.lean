import DetectionRules.Proofs.CrowdStrike.Query
import DetectionRules.Proofs.Kql.Time
import DetectionRules.Proofs.QRadar.Query
import DetectionRules.Proofs.Splunk.Query
import DetectionRules.Proofs.YaraL.Condition

/-!
The thresholds that are written in a query. The count of a rule compares as the
last of them says. Two dialects refuse a second threshold; in the others it
takes the place of the first, so a rule asks for all of them only if there is one.
-/

namespace DetectionRules

open DetectionRules.Parser (starts run_of_iterate of_bind of_word_at of_behind_sign of_choice)

/-- A comparison with a number. -/
abbrev Limit := Comparison × UInt64

namespace Limit

def accepts (limit : Limit) (count : Nat) : Bool :=
  match limit.1 with
  | .gt => limit.2.toNat < count
  | .gte => limit.2.toNat ≤ count
  | .lt => count < limit.2.toNat
  | .lte => count ≤ limit.2.toNat
  | .eq => count = limit.2.toNat

def some : Limit := (.gt, 0)

end Limit

def Aggregation.limit (aggregation : Aggregation) : Limit := (aggregation.comparison, aggregation.threshold)

def Parser.result? {Result : Type} (parser : Parser Result) (tokens : List Token) : Option Result :=
  (parser tokens).toOption.map (·.1)

theorem Parser.result_of {Result : Type} {parser : Parser Result} {tokens rest : List Token}
    {result : Result} (success : parser tokens = .ok (result, rest)) :
    parser.result? tokens = .some result := by
  rw [Parser.result?, success]
  rfl

namespace Splunk

/-- The result of `stats` and its limit, after `where`. -/
def limit : Parser Limit := do
  let _ ← subject
  let comparison ← Dialect.comparison
  return (comparison, ← Parser.number "a threshold")

/-- The limit at the start of a command. -/
def limitAt? (start : Search × List Token) : Option Limit :=
  match start.2.drop 1 with
  | ⟨.word name, _⟩ :: rest =>
      if Text.lower name = "where" && !nextIsMatch rest then limit.result? rest else none
  | _ => none

def limits (text : String) : List Limit :=
  match Token.list {} text >>= queryStart with
  | .error _ => []
  | .ok (start, tokens) => (starts nextCommand? start tokens).filterMap limitAt?

theorem threshold_of_where {query next : Search} {tokens rest : List Token}
    (success : whereCommand query tokens = .ok (next, rest)) :
    next.threshold =
      (if nextIsMatch tokens then none else limit.result? tokens).or query.threshold := by
  obtain ⟨isMatch, _, saw, success⟩ := of_bind success
  cases saw
  cases matched : nextIsMatch tokens with
  | true =>
      rw [matched, if_pos rfl] at success
      obtain ⟨filter, _, _, done⟩ := of_bind success
      cases done
      rfl
  | false =>
      rw [matched, if_neg (by decide)] at success
      obtain ⟨place, _, placed, success⟩ := of_bind success
      cases placed
      obtain ⟨name, left, named, success⟩ := of_bind success
      cases counted : query.stats with
      | none =>
          simp only [counted] at success
          cases success
      | some stats =>
          simp only [counted] at success
          split at success
          · cases success
          · obtain ⟨comparison, behind, compared, success⟩ := of_bind success
            obtain ⟨number, _, numbered, done⟩ := of_bind success
            cases done
            have read : limit tokens = .ok ((comparison, number), rest) := by
              simp only [limit, Parser.bind_apply, named, compared, numbered, Parser.pure_apply]
            rw [Parser.result_of read]
            rfl

theorem threshold_of_command {query next : Search} {tokens rest : List Token}
    (success : nextCommand? query tokens = .ok (.some next, rest)) :
    next.threshold = (limitAt? (query, tokens)).or query.threshold := by
  obtain ⟨bar, commands, rfl, command⟩ := of_behind_sign success
  obtain ⟨⟨name, place⟩, later, named, chosen⟩ := of_bind command
  obtain ⟨offset, rfl⟩ := of_word_at named
  have start : limitAt? (query, bar :: ⟨.word name, offset⟩ :: later) =
      if Text.lower name = "where" && !nextIsMatch later then limit.result? later else none := rfl
  rw [start]
  simp only at chosen
  generalize Text.lower name = known at chosen ⊢
  split at chosen
  case h_3 =>
    rw [threshold_of_where chosen]
    cases nextIsMatch later <;> rfl
  case h_7 other _ _ _ =>
    split at chosen
    · obtain ⟨_, _, _, done⟩ := of_bind chosen
      cases done
      simp [show ¬known = "where" from other]
    · cases chosen
  all_goals
    obtain ⟨_, _, _, done⟩ := of_bind chosen
    cases done
    simp [Search.filter]

theorem threshold_of_start {search : Search} {tokens rest : List Token}
    (success : queryStart tokens = .ok (search, rest)) : search.threshold = none := by
  obtain ⟨_, _, _, success⟩ := of_bind success
  obtain ⟨_, _, _, success⟩ := of_bind success
  obtain ⟨isEmpty, _, _, success⟩ := of_bind success
  cases isEmpty with
  | true =>
      cases success
      rfl
  | false =>
      obtain ⟨_, _, _, done⟩ := of_bind success
      cases done
      rfl

theorem limit_of_read {text : String} {rule : Rule} (accepted : read text = .ok rule) :
    ∀ aggregation ∈ rule.aggregation, aggregation.limit = (limits text).getLast?.getD .some := by
  obtain ⟨_, tokens, rest, listed, parsed⟩ := Dialect.of_located_tokens accepted
  rw [query_eq] at parsed
  obtain ⟨start, left, started, parsed⟩ := of_bind parsed
  obtain ⟨search, behind, searched, parsed⟩ := of_bind parsed
  have threshold := (run_of_iterate searched).last Search.threshold limitAt?
    fun _ _ _ _ => threshold_of_command
  have written : limits text = (starts nextCommand? start left).filterMap limitAt? := by
    rw [limits, listed]
    simp only [bind, Except.bind, started]
  rw [threshold_of_start started, Option.or_none, ← written] at threshold
  have built : rule = search.toRule := by
    obtain ⟨isDone, _, _, parsed⟩ := of_bind parsed
    cases isDone <;> cases parsed
    rfl
  intro aggregation counted
  rw [built] at counted
  obtain ⟨stats, _, rfl⟩ := Option.mem_map.mp counted
  rw [← threshold]
  rfl

end Splunk

namespace Kql

def limitAt? (start : Query × List Token) : Option Limit :=
  if Parser.nextIsWord "where" (start.2.drop 1) then
    start.1.summary.bind fun summary => (thresholdOn summary.result).result? (start.2.drop 2)
  else none

def limits (text : String) : List Limit :=
  match Token.list quoting text >>= table with
  | .error _ => []
  | .ok (_, tokens) => (starts nextStage {} tokens).filterMap limitAt?

theorem threshold_of_stage {query next : Query} {tokens rest : List Token}
    (success : nextStage query tokens = .ok (.some next, rest)) :
    next.threshold = (limitAt? (query, tokens)).or query.threshold := by
  obtain ⟨bar, operator, offset, later, rfl, staged⟩ := of_next_stage success
  have start : limitAt? (query, bar :: ⟨.word operator, offset⟩ :: later) =
      if operator == "where" then
        query.summary.bind fun summary => (thresholdOn summary.result).result? later else none := rfl
  rw [start]
  rcases staged with ⟨rfl, filtered⟩ | ⟨other, rfl | ⟨summary, rfl⟩⟩
  · rw [whereStage] at filtered
    cases summarized : query.summary with
    | none =>
        rw [summarized] at filtered
        obtain ⟨_, _, _, done⟩ := of_bind filtered
        cases done
        rfl
    | some summary =>
        rw [summarized] at filtered
        obtain ⟨limit, _, read, done⟩ := of_bind filtered
        cases done
        rw [if_pos (by decide), Option.bind_some, Parser.result_of read]
        rfl
  · simp [beq_eq_false_iff_ne.mpr other]
  · simp [beq_eq_false_iff_ne.mpr other]

theorem limit_of_read {text : String} {rule : Rule} (accepted : read text = .ok rule) :
    ∀ aggregation ∈ rule.aggregation, aggregation.limit = (limits text).getLast?.getD .some := by
  obtain ⟨tokens, source, later, query, left, listed, tabled, staged, rfl⟩ := of_read accepted
  have threshold := (run_of_iterate staged).last Query.threshold limitAt?
    fun _ _ _ _ => threshold_of_stage
  have written : limits text = (starts nextStage {} later).filterMap limitAt? := by
    rw [limits, listed]
    simp only [bind, Except.bind, tabled]
  rw [Option.or_none, ← written] at threshold
  intro aggregation counted
  obtain ⟨summary, _, rfl⟩ := Option.mem_map.mp counted
  rw [← threshold]
  rfl

end Kql

namespace CrowdStrike

def limitAt? (start : Query × List Token) : Option Limit :=
  if start.1.stats.isSome && [none, .some "in"].contains (Parser.nextCall? (start.2.drop 1)) then
    threshold.result? (start.2.drop 1)
  else none

def limits (text : String) : List Limit :=
  match Token.list { slashes := true } text >>= stage {} with
  | .error _ => []
  | .ok (first, tokens) => (starts nextStage first tokens).filterMap limitAt?

theorem of_stage {query next : Query} {tokens rest : List Token}
    (success : stage query tokens = .ok (next, rest)) :
    if [none, .some "in"].contains (Parser.nextCall? tokens) then
      ∃ place, testStage query place tokens = .ok (next, rest)
    else next.threshold = query.threshold := by
  obtain ⟨isDone, _, ended, success⟩ := of_bind success
  cases ended
  simp only at success
  split at success
  · cases success
  · obtain ⟨place, _, placed, success⟩ := of_bind success
    cases placed
    obtain ⟨_, _, got, success⟩ := of_bind success
    cases got
    generalize Parser.nextCall? tokens = called at success ⊢
    split at success
    · exact ⟨_, success⟩
    · exact ⟨_, success⟩
    · rename_i call other
      rw [if_neg (by simpa using other)]
      split at success
      · split at success
        · cases success
        · obtain ⟨_, _, _, done⟩ := of_bind success
          cases done
          rfl
      · split at success
        · obtain ⟨_, _, _, done⟩ := of_bind success
          cases done
          rfl
        · cases success

/-- A stage sets the limit only if there is none. -/
theorem threshold_of_stage {query next : Query} {tokens rest : List Token} (bar : Token)
    (success : stage query tokens = .ok (next, rest)) :
    next.threshold = (limitAt? (query, bar :: tokens)).or query.threshold ∧
      (limitAt? (query, bar :: tokens) ≠ none → query.threshold = none) := by
  have start : limitAt? (query, bar :: tokens) =
      if query.stats.isSome && [none, .some "in"].contains (Parser.nextCall? tokens) then
        threshold.result? tokens else none := rfl
  have staged := of_stage success
  rw [start]
  split at staged
  · rename_i tests
    obtain ⟨place, tested⟩ := staged
    rw [tests, Bool.and_true]
    rw [testStage] at tested
    split at tested
    · rename_i counted
      rw [if_pos counted]
      split at tested
      · cases tested
      · rename_i unknown
        obtain ⟨limit, _, read, done⟩ := of_bind tested
        cases done
        rw [Parser.result_of read]
        exact ⟨rfl, fun _ => by simpa using unknown⟩
    · rename_i uncounted
      obtain ⟨_, _, _, done⟩ := of_bind tested
      cases done
      rw [if_neg uncounted]
      exact ⟨rfl, fun limited => absurd rfl limited⟩
  · rename_i other
    rw [eq_false_of_ne_true other, Bool.and_false, if_neg (by decide)]
    exact ⟨staged, fun limited => absurd rfl limited⟩

theorem limit_of_read {text : String} {rule : Rule} (accepted : read text = .ok rule) :
    (∀ aggregation ∈ rule.aggregation, aggregation.limit = (limits text).getLast?.getD .some) ∧
      (limits text).length ≤ 1 := by
  obtain ⟨_, tokens, rest, listed, parsed⟩ := Dialect.of_located_tokens accepted
  obtain ⟨first, left, started, parsed⟩ := of_bind parsed
  obtain ⟨query, behind, staged, parsed⟩ := of_bind parsed
  have run := run_of_iterate (show Parser.iterate nextStage first left = .ok (query, behind) from staged)
  have each (query : Query) (tokens : List Token) (next : Query) (rest : List Token)
      (success : nextStage query tokens = .ok (.some next, rest)) :
      next.threshold = (limitAt? (query, tokens)).or query.threshold ∧
        (limitAt? (query, tokens) ≠ none → query.threshold = none) := by
    obtain ⟨bar, later, rfl, staged⟩ := of_behind_sign success
    exact threshold_of_stage bar staged
  have unlimited : first.threshold = none := (threshold_of_stage ⟨.symbol "|", 0⟩ started).1
  have written : limits text = (starts nextStage first left).filterMap limitAt? := by
    rw [limits, listed]
    simp only [bind, Except.bind, started]
  have threshold := run.last Query.threshold limitAt? fun _ _ _ _ found => (each _ _ _ _ found).1
  rw [unlimited, Option.or_none, ← written] at threshold
  have few := run.once Query.threshold limitAt? each
  rw [← written] at few
  refine ⟨?_, by omega⟩
  have built : rule = query.toRule := by
    obtain ⟨isDone, _, _, parsed⟩ := of_bind parsed
    simp only at parsed
    split at parsed
    · cases parsed
    · split at parsed <;> cases parsed
      rfl
  intro aggregation counted
  rw [built] at counted
  obtain ⟨stats, _, rfl⟩ := Option.mem_map.mp counted
  rw [← threshold]
  rfl

end CrowdStrike

namespace QRadar

def queryStart : Parser (Option (Logic FieldTest)) := do
  Parser.keyword "SELECT"
  Parser.skipUntil (Parser.nextIsKeyword "FROM")
  Parser.keyword "FROM"
  let (table, offset) ← Parser.wordAt "'events' or 'flows'"
  unless ["events", "flows"].any (Text.sameLetters table) do
    Parser.failAt offset ("unknown table '" ++ table ++ "'")
  if ← Parser.takeKeyword "WHERE" then return some (← Expression.parse connectives atClause term)
  else return none

theorem query_eq : query = do
    let filter ← queryStart
    let clauses ← Parser.iterate clause {}
    return toRule filter clauses := by
  rw [query, queryStart, bind_assoc]
  refine bind_congr fun _ => ?_
  rw [bind_assoc]
  refine bind_congr fun _ => ?_
  rw [bind_assoc]
  refine bind_congr fun _ => ?_
  rw [bind_assoc]
  refine bind_congr fun table => ?_
  simp only [pure_bind]
  split
  · rw [bind_assoc]
    refine bind_congr fun filtered => ?_
    cases filtered <;> simp
  · rfl

def limitAt? (start : Clauses × List Token) : Option Limit :=
  if Parser.nextIsKeyword "HAVING" start.2 then
    (havingClause.result? (start.2.drop 1)).map fun (_, comparison, number) => (comparison, number)
  else none

def limits (text : String) : List Limit :=
  match Token.list quoting text >>= queryStart with
  | .error _ => []
  | .ok (_, tokens) => (starts clause {} tokens).filterMap limitAt?

def Clauses.limit (clauses : Clauses) : Option Limit := clauses.having.map (·.2)

theorem not_having {keyword : String} (other : Text.sameLetters keyword "HAVING" = false)
    {tokens : List Token} (next : Parser.nextIsKeyword keyword tokens = true) :
    Parser.nextIsKeyword "HAVING" tokens = false := by
  rcases tokens with _ | ⟨⟨lexeme, offset⟩, rest⟩
  · cases next
  · cases lexeme with
    | word word =>
        rw [Parser.next_is_keyword_word, Text.sameLetters, beq_iff_eq] at next
        rw [Parser.next_is_keyword_word, Text.sameLetters, next]
        exact other
    | _ => cases next

theorem limit_of_clause {clauses next : Clauses} {tokens rest : List Token}
    (success : clause clauses tokens = .ok (.some next, rest)) :
    next.limit = (limitAt? (clauses, tokens)).or clauses.limit := by
  obtain ⟨isDone, _, ended, success⟩ := of_bind success
  cases ended
  simp only at success
  split at success
  · cases success
  · obtain ⟨_, _, placed, success⟩ := of_bind success
    cases placed
    have silent (other : Parser.nextIsKeyword "HAVING" tokens = false) :
        limitAt? (clauses, tokens) = none := by
      rw [limitAt?, if_neg (by simp [other])]
    rcases of_choice success with ⟨group, _, _, _, success⟩ | ⟨_, success⟩
    · obtain ⟨_, _, _, success⟩ := of_bind success
      obtain ⟨_, _, _, done⟩ := of_bind success
      cases done
      rw [silent (not_having (by decide) group)]
      rfl
    rcases of_choice success with ⟨having, bar, later, rfl, limited⟩ | ⟨noHaving, success⟩
    · obtain ⟨limit, _, read, done⟩ := of_bind limited
      cases done
      rw [limitAt?, if_pos having, List.drop_one, List.tail_cons, Parser.result_of read]
      rfl
    rw [silent noHaving]
    rcases of_choice success with ⟨_, _, _, _, success⟩ | ⟨_, success⟩
    · obtain ⟨_, _, _, success⟩ := of_bind success
      obtain ⟨_, _, _, done⟩ := of_bind success
      cases done
      rfl
    rcases of_choice success with ⟨_, _, _, _, success⟩ | ⟨_, success⟩
    · obtain ⟨_, _, _, done⟩ := of_bind success
      cases done
      rfl
    rcases of_choice success with ⟨_, _, _, _, success⟩ | ⟨_, success⟩
    · obtain ⟨_, _, _, done⟩ := of_bind success
      cases done
      rfl
    · cases success

theorem limit_of_read {text : String} {rule : Rule} (accepted : read text = .ok rule) :
    ∀ aggregation ∈ rule.aggregation, aggregation.limit = (limits text).getLast?.getD .some := by
  obtain ⟨_, tokens, rest, listed, parsed⟩ := Dialect.of_located_tokens accepted
  rw [query_eq] at parsed
  obtain ⟨filter, left, started, parsed⟩ := of_bind parsed
  obtain ⟨clauses, behind, read, done⟩ := of_bind parsed
  cases done
  have limit := (run_of_iterate read).last Clauses.limit limitAt? fun _ _ _ _ => limit_of_clause
  have written : limits text = (starts clause {} left).filterMap limitAt? := by
    rw [limits, listed]
    simp only [bind, Except.bind, started]
  have unlimited : Clauses.limit {} = none := rfl
  rw [unlimited, Option.or_none, ← written] at limit
  intro aggregation counted
  have built : clauses.aggregation = .some aggregation := counted
  rw [← limit, Clauses.limit]
  rw [Clauses.aggregation] at built
  split at built
  · cases built
  · cases built
    cases clauses.having <;> rfl

end QRadar

namespace YaraL

def Threshold.limit (threshold : Threshold) : Limit := (threshold.comparison, threshold.value)

def limits (text : String) : List Limit :=
  (outline? text).toList.flatMap fun outline => outline.thresholds.map Threshold.limit

theorem limit_of_read {text : String} {rule : Rule} (accepted : read text = .ok rule) :
    (∀ aggregation ∈ rule.aggregation, aggregation.limit = (limits text).getLast?.getD .some) ∧
      (limits text).length ≤ 1 := by
  obtain ⟨outline, found, sound, yields⟩ := Outline.of_read accepted
  have written : limits text = outline.thresholds.map Threshold.limit := by
    rw [limits, found, Option.toList_some, List.flatMap_singleton]
  have few := sound.few
  refine ⟨fun aggregation counted => ?_, by rwa [written, List.length_map]⟩
  rw [yields.aggregation, aggregation?] at counted
  rw [written]
  split at counted
  · cases counted
  · cases counted
    rcases all : outline.thresholds with _ | ⟨threshold, _ | ⟨second, others⟩⟩
    · rfl
    · rfl
    · rw [all] at few
      simp at few

end YaraL

/-- The limits of the count that are written in a query. -/
def Format.limits : Format → String → List Limit
  | .splunk => Splunk.limits
  | .kql => Kql.limits
  | .qradar => QRadar.limits
  | .crowdstrike => CrowdStrike.limits
  | .yaral => YaraL.limits
  | _ => fun _ => []

/-- The dialects whose queries count events. -/
def Format.isCounting (format : Format) : Bool :=
  [.splunk, .kql, .qradar, .crowdstrike, .yaral].contains format

/-- The last of several limits stands for all of them if it asks for no less than the others. -/
theorem last_accepts_iff {limits : List Limit} {limit : Limit} (last : limits.getLast? = some limit) :
    (∀ count, limit.accepts count = true ↔ ∀ other ∈ limits, other.accepts count = true) ↔
      ∀ earlier ∈ limits.dropLast, ∀ count, limit.accepts count = true →
        earlier.accepts count = true := by
  obtain ⟨front, rfl⟩ := List.getLast?_eq_some_iff.mp last
  rw [List.dropLast_concat]
  constructor
  · intro same earlier member count accepted
    exact (same count).mp accepted earlier (by simp [member])
  · intro implied count
    simp only [List.mem_append, List.mem_singleton]
    constructor
    · rintro accepted other (member | rfl)
      · exact implied other member count accepted
      · exact accepted
    · exact fun all => all limit (.inr rfl)

/-- The count of a rule compares as the last limit of its query says, and is just not nothing if no
limit is written. So a rule accepts the counts that all limits accept, if the last of them asks for
no less than the others. CrowdStrike and YARA-L queries have no others. -/
theorem last_limit_counts {format : Format} (counting : format.isCounting = true) {text : String}
    {rule : Rule} (accepted : format.read text = .ok rule) {aggregation : Aggregation}
    (counted : rule.aggregation = some aggregation) :
    aggregation.limit = (format.limits text).getLast?.getD .some ∧
      (format ∈ [.crowdstrike, .yaral] → (format.limits text).length ≤ 1) ∧
      (format.limits text ≠ [] →
        ((∀ count, aggregation.limit.accepts count = true ↔
            ∀ limit ∈ format.limits text, limit.accepts count = true) ↔
          ∀ earlier ∈ (format.limits text).dropLast, ∀ count,
            aggregation.limit.accepts count = true → earlier.accepts count = true)) := by
  have known : aggregation.limit = (format.limits text).getLast?.getD .some ∧
      (format ∈ [.crowdstrike, .yaral] → (format.limits text).length ≤ 1) := by
    cases format with
    | splunk => exact ⟨Splunk.limit_of_read accepted aggregation counted, by simp⟩
    | kql => exact ⟨Kql.limit_of_read accepted aggregation counted, by simp⟩
    | qradar => exact ⟨QRadar.limit_of_read accepted aggregation counted, by simp⟩
    | crowdstrike =>
        obtain ⟨limits, few⟩ := CrowdStrike.limit_of_read accepted
        exact ⟨limits aggregation counted, fun _ => few⟩
    | yaral =>
        obtain ⟨limits, few⟩ := YaraL.limit_of_read accepted
        exact ⟨limits aggregation counted, fun _ => few⟩
    | _ => cases counting
  refine ⟨known.1, known.2, fun written => last_accepts_iff ?_⟩
  obtain ⟨last, found⟩ := Option.ne_none_iff_exists'.mp (mt List.getLast?_eq_none_iff.mp written)
  rw [known.1, found, Option.getD_some]

def stricterLater : String := "x=1 | stats count by host | where count > 3 | where count > 5"

theorem stricter_limit_counts : ∃ rule aggregation,
    Format.splunk.read stricterLater = .ok rule ∧ rule.aggregation = some aggregation ∧
      Format.splunk.limits stricterLater = [(.gt, 3), (.gt, 5)] ∧
      ∀ count, aggregation.limit.accepts count = true ↔
        ∀ limit ∈ Format.splunk.limits stricterLater, limit.accepts count = true := by
  have read : ((Format.splunk.read stricterLater).map fun rule => rule.aggregation.any fun found =>
      decide (found.limit = (.gt, 5) ∧ Format.splunk.limits stricterLater = [(.gt, 3), (.gt, 5)])) =
        .ok true := by
    decide +kernel
  obtain ⟨rule, accepted, known⟩ := Success.of_map read
  obtain ⟨aggregation, counted, known⟩ := (Option.any_eq_true _ _).mp known
  obtain ⟨limit, limits⟩ := of_decide_eq_true known
  obtain ⟨_, _, accepts⟩ := last_limit_counts (by decide) accepted counted
  refine ⟨rule, aggregation, accepted, counted, limits, (accepts (by simp [limits])).mpr ?_⟩
  intro earlier member count more
  rw [limits] at member
  obtain rfl := List.mem_singleton.mp member
  rw [limit] at more
  have more : 5 < count := of_decide_eq_true more
  exact decide_eq_true (show 3 < count by omega)

def weakerLater : String := "x=1 | stats count by host | where count > 5 | where count > 3"

/-- The weaker limit takes the place of the other one, which is lost. -/
theorem stricter_limit_lost : ∃ rule aggregation,
    Format.splunk.read weakerLater = .ok rule ∧ rule.aggregation = some aggregation ∧
      Format.splunk.limits weakerLater = [(.gt, 5), (.gt, 3)] ∧
      aggregation.limit.accepts 4 = true ∧ Limit.accepts (.gt, 5) 4 = false := by
  have read : ((Format.splunk.read weakerLater).map fun rule => rule.aggregation.any fun found =>
      decide (Format.splunk.limits weakerLater = [(.gt, 5), (.gt, 3)] ∧
        found.limit.accepts 4 = true)) = .ok true := by
    decide +kernel
  obtain ⟨rule, accepted, known⟩ := Success.of_map read
  obtain ⟨aggregation, counted, known⟩ := (Option.any_eq_true _ _).mp known
  obtain ⟨limits, passed⟩ := of_decide_eq_true known
  exact ⟨rule, aggregation, accepted, counted, limits, passed, by decide⟩

end DetectionRules
