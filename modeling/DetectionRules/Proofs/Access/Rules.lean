import DetectionRules.Proofs.Ensuring
import DetectionRules.Proofs.Access.Text
import DetectionRules.Proofs.Logic
import DetectionRules.Rule.Basic

/-!
Computations that look up parts of what they are given. Such a computation ends
with a result or an error, or comes to nothing if a part is out of range. One
that needs no parts is a computation that is never out of range, and what is
made of such computations is one again.

Access in what all dialects share. Here and for the dialects, a function with
`InRange?` in its name does what the function without it does, but looks each
part up that it needs and comes to nothing if one is out of range.
-/

namespace DetectionRules

abbrev Ranged (Error Result : Type) := ExceptT Error Option Result

namespace Ranged

variable {Error Result Next : Type}

/-- What is never out of range. -/
def of (result : Except Error Result) : Ranged Error Result := ExceptT.mk (some result)

theorem of_pure (result : Result) : of (pure result : Except Error Result) = pure result := rfl

theorem of_throw (error : Error) : of (throw error : Except Error Result) = throw error := rfl

theorem of_bind (first : Except Error Result) (next : Result → Except Error Next) :
    of (first >>= next) = of first >>= fun result => of (next result) := by
  cases first <;> rfl

theorem of_ite (condition : Prop) [Decidable condition] (yes no : Except Error Result) :
    of (if condition then yes else no) = if condition then of yes else of no :=
  apply_ite of condition yes no

theorem bind_of {first : Except Error Result} {next : Result → Except Error Next}
    {rangedNext : Result → Ranged Error Next}
    (same : ∀ result, first = .ok result → rangedNext result = of (next result)) :
    (of first >>= rangedNext) = of (first >>= next) := by
  cases first with
  | error error => rfl
  | ok result => exact same result rfl

theorem map_m_in_range {Item : Type} {step : Item → Except Error Result}
    {rangedStep : Item → Ranged Error Result} {items : List Item}
    (each : ∀ item ∈ items, rangedStep item = of (step item)) :
    items.mapM rangedStep = of (items.mapM step) := by
  induction items with
  | nil => rfl
  | cons item rest induction =>
      have others := induction fun other member => each other (List.mem_cons_of_mem item member)
      simp only [List.mapM_cons, each item (by simp), others, of_bind, of_pure]

theorem lift_some (result : Result) : (liftM (some result) : Ranged Error Result) = pure result :=
  rfl

end Ranged

/-- As `Parser`, for parsers that look up parts. -/
abbrev RangedParser (Result : Type) := StateT (List Token) (ExceptT Fault Option) Result

namespace Parser

variable {Result Next : Type}

def ranged (parser : Parser Result) : RangedParser Result := fun tokens => Ranged.of (parser tokens)

theorem ranged_pure (result : Result) : ranged (pure result) = pure result := rfl

theorem ranged_get : ranged get = get := rfl

theorem ranged_set (tokens : List Token) : ranged (set tokens) = set tokens := rfl

theorem ranged_ite (condition : Prop) [Decidable condition] (yes no : Parser Result) :
    ranged (if condition then yes else no) = if condition then ranged yes else ranged no :=
  apply_ite ranged condition yes no

theorem bind_ranged {parser : Parser Result} {property : Result → Prop}
    {next : Result → Parser Next} {rangedNext : Result → RangedParser Next}
    (ensures : Ensures parser property)
    (same : ∀ result, property result → rangedNext result = ranged (next result)) :
    (ranged parser >>= rangedNext) = ranged (parser >>= next) := by
  funext tokens
  have known := ensures tokens
  change (Ranged.of (parser tokens) >>= fun pair => rangedNext pair.1 pair.2) =
    Ranged.of ((parser >>= next) tokens)
  rw [bind_apply]
  cases parsed : parser tokens with
  | error fault => rfl
  | ok pair => exact congrFun (same pair.1 (known pair.1 pair.2 parsed)) pair.2

theorem ranged_bind (parser : Parser Result) (next : Result → Parser Next) :
    ranged (parser >>= next) = ranged parser >>= fun result => ranged (next result) := by
  have always : Ensures parser fun _ => True := fun _ _ _ _ => trivial
  exact (bind_ranged always fun _ _ => rfl).symm

theorem lift_some (result : Result) : (liftM (some result) : RangedParser Result) = pure result :=
  rfl

def iterateInRange? (step : Result → RangedParser (Option Result)) (result : Result)
    (tokens : List Token) : Option (Except Fault (Result × List Token)) :=
  match step result tokens with
  | none => none
  | some (.error fault) => some (.error fault)
  | some (.ok (none, rest)) => some (.ok (result, rest))
  | some (.ok (some next, rest)) =>
      if rest.length < tokens.length then iterateInRange? step next rest
      else some (.ok (next, rest))
termination_by tokens.length

/-- Steps that are in range as long as an invariant holds, which they keep. -/
theorem iterate_in_range {rangedStep : Result → RangedParser (Option Result)}
    {step : Result → Parser (Option Result)} {invariant : Result → Prop}
    (same : ∀ result, invariant result → rangedStep result = ranged (step result))
    (keeps : ∀ result, invariant result →
      Ensures (step result) fun next => ∀ found ∈ next, invariant found)
    {start : Result} (holds : invariant start) :
    iterateInRange? rangedStep start = ranged (iterate step start) := by
  funext tokens
  change iterateInRange? rangedStep start tokens = some (iterate step start tokens)
  have inRange (result : Result) (tokens : List Token) (holds : invariant result) :
      rangedStep result tokens = some (step result tokens) := congrFun (same result holds) tokens
  induction start, tokens using iterate.induct step with
  | case1 start tokens fault failed =>
      rw [iterateInRange?, inRange start tokens holds, iterate, failed]
  | case2 start tokens rest ended =>
      rw [iterateInRange?, inRange start tokens holds, iterate, ended]
  | case3 start tokens next rest found shorter induction =>
      have kept := keeps start holds tokens (some next) rest found next rfl
      rw [iterateInRange?, inRange start tokens holds, iterate, found]
      simp only [shorter, if_true]
      exact induction kept
  | case4 start tokens next rest found longer =>
      rw [iterateInRange?, inRange start tokens holds, iterate, found]
      simp only [longer, if_false]

end Parser

open Text (from? upTo? withoutLast? placeOf? byteCount)

namespace Glob

def afterFirst? (wildcard : Char) (leading : Bool) (glob : List Char) : Option (List Char) :=
  if leading then from? wildcard.utf8Size glob else some glob

def beforeLast? (wildcard : Char) (trailing : Bool) (glob : List Char) : Option (List Char) :=
  if trailing then withoutLast? wildcard.utf8Size glob else some glob

def classifyInRange? (wildcard : Char) (glob : List Char) : Option (Operator × List Char) :=
  if !glob.contains wildcard then some (.equals, glob)
  else do
    let leading := glob.head? == some wildcard
    let trailing := 1 < glob.length && glob.getLast? == some wildcard
    let afterFirst ← afterFirst? wildcard leading glob
    let inner ← beforeLast? wildcard trailing afterFirst
    return if inner.isEmpty || inner.contains wildcard then (.regex, toRegex wildcard glob)
      else match leading, trailing with
        | true, true => (.contains, inner)
        | true, false => (.endsWith, inner)
        | false, true => (.startsWith, inner)
        | false, false => (.equals, inner)

theorem classify_in_range (wildcard : Char) (glob : List Char) :
    classifyInRange? wildcard glob = some (classify wildcard glob) := by
  unfold classifyInRange? classify
  split
  · rfl
  have front : afterFirst? wildcard (glob.head? == some wildcard) glob =
      some (if glob.head? == some wildcard then glob.drop 1 else glob) := by
    unfold afterFirst?
    split
    · rename_i begins
      exact Text.from_of_head (by simpa using begins)
    · rfl
  have back : beforeLast? wildcard (1 < glob.length && glob.getLast? == some wildcard)
      (if glob.head? == some wildcard then glob.drop 1 else glob) =
      some (if 1 < glob.length && glob.getLast? == some wildcard then
        (if glob.head? == some wildcard then glob.drop 1 else glob).dropLast
        else if glob.head? == some wildcard then glob.drop 1 else glob) := by
    unfold beforeLast?
    by_cases trailing : 1 < glob.length ∧ glob.getLast? = some wildcard
    · -- A wildcard at the end is not the one at the beginning.
      have ends : (if glob.head? == some wildcard then glob.drop 1 else glob).getLast? =
          some wildcard := by
        split
        · rw [List.getLast?_drop, if_neg (by omega)]
          exact trailing.2
        · exact trailing.2
      simp only [trailing, decide_true, beq_self_eq_true, Bool.and_self, if_true]
      exact Text.without_last_of_last ends
    · have none : (decide (1 < glob.length) && glob.getLast? == some wildcard) = false := by
        simpa using trailing
      simp only [none, Bool.false_eq_true, if_false]
  simp only [front, back, Option.bind_eq_bind, Option.bind_some]
  rfl

end Glob

namespace Logic

variable {Term : Type}

/-- A group of the members of several groups; a group of one member is the member. -/
def joinInRange? (members : Logic Term → List (Logic Term)) (group : List (Logic Term) → Logic Term)
    (items : List (Logic Term)) : Option (Logic Term) :=
  let flat := items.flatMap members
  if flat.length = 1 then flat[0]? else some (group flat)

theorem join_in_range (members : Logic Term → List (Logic Term))
    (group : List (Logic Term) → Logic Term) (items : List (Logic Term)) :
    joinInRange? members group items = some (match items.flatMap members with
      | [item] => item
      | flat => group flat) := by
  rw [joinInRange?]
  match items.flatMap members with
  | [] => rfl
  | [item] => rfl
  | _ :: _ :: _ => simp

theorem conj_in_range (items : List (Logic Term)) :
    joinInRange? conjuncts all items = some (conj items) := join_in_range ..

theorem disj_in_range (items : List (Logic Term)) :
    joinInRange? disjuncts any items = some (disj items) := join_in_range ..

end Logic

namespace TimeWindow

/-- Reads digits and the name of a unit, between which the text is cut. -/
def ofTextInRange? (text : String) : Option (Option TimeWindow) :=
  let characters := (Text.trim text).toList
  match placeOf? (fun c => !c.isDigit) characters with
  | none => some none
  | some place => do
      let digits ← upTo? place characters
      let unitName ← from? place characters
      return do
        let amount ← Text.uint64OfDigits? digits
        let timeUnit ← TimeUnit.ofName? (Text.trim (String.ofList unitName))
        ofAmount? amount timeUnit

theorem of_text_in_range (text : String) : ofTextInRange? text = some (ofText? text) := by
  unfold ofTextInRange? ofText?
  generalize (Text.trim text).toList = characters
  have whole := List.takeWhile_append_dropWhile (p := Char.isDigit) (l := characters)
  cases found : placeOf? (fun c => !c.isDigit) characters with
  | none =>
      have digits := Text.of_place_of_none found
      simp only [Bool.not_not] at digits
      have empty : characters.dropWhile Char.isDigit = [] := by
        rw [digits] at whole
        exact List.append_right_eq_self.mp whole
      simp [found, empty]
  | some place =>
      obtain ⟨front, c, behind, rfl, rfl, -, digits⟩ := Text.of_place_of found
      simp only [Bool.not_not] at digits
      rw [digits] at whole
      have unitName : (front ++ c :: behind).dropWhile Char.isDigit = c :: behind :=
        List.append_cancel_left whole
      have cut : from? (byteCount front) (front ++ c :: behind) = some (c :: behind) :=
        Text.from_eq_some_iff.mpr ⟨front, rfl, rfl⟩
      simp only [found, Text.up_to_byte_count, cut, digits, unitName, Option.bind_eq_bind,
        Option.bind_some]
      rfl

end TimeWindow

def oneIntegerInRange? (values : List Value) : Option Bool :=
  if values.length = 1 then values[0]?.map (·.int?.isSome) else some false

theorem one_integer_in_range (values : List Value) :
    oneIntegerInRange? values = some (values.length == 1 && values.all (·.int?.isSome)) := by
  match values with
  | [] => rfl
  | [value] => simp [oneIntegerInRange?]
  | _ :: _ :: _ => simp [oneIntegerInRange?]

def misfitsInRange? (op : Operator) (values : List Value) : Option Bool :=
  if op.isComparison then (oneIntegerInRange? values).map (!·) else some false

theorem misfits_in_range (op : Operator) (values : List Value) :
    misfitsInRange? op values =
      some (op.isComparison && !(values.length == 1 && values.all (·.int?.isSome))) := by
  rw [misfitsInRange?, one_integer_in_range]
  cases op.isComparison <;> rfl

def FieldTest.flawInRange? (selection : String) (test : FieldTest) : Option (Option RuleFlaw) := do
  if test.field.isEmpty then return some (.unnamedField selection)
  else if test.values.isEmpty then return some (.noValues test.field selection)
  else if ← misfitsInRange? test.op test.values then return some (.comparisonValues test.field)
  else return none

theorem FieldTest.flaw_in_range (selection : String) (test : FieldTest) :
    test.flawInRange? selection = some (test.flaw? selection) := by
  unfold flawInRange? flaw?
  rw [misfits_in_range]
  split_ifs <;> simp_all

end DetectionRules
