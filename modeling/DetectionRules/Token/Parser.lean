import DetectionRules.Rule.FieldTest
import DetectionRules.Token.Basic

/-!
Parsers over tokens. A parser takes tokens from the front of the list, or
reports a fault at the token it does not like.
-/

namespace DetectionRules

abbrev Parser (Result : Type) := StateT (List Token) (Except Fault) Result

namespace Parser

variable {Result : Type}

/-- Where the next token begins; nothing at the end of the text. -/
def offset? (tokens : List Token) : Option Nat := tokens.head?.map (·.offset)

def failAt (offset : Option Nat) (reason : String) : Parser Result :=
  fun _ => .error (.malformed offset reason)

def unsupported (construct : String) : Parser Result := fun _ => .error (.unsupported construct)

def fail (reason : String) : Parser Result := fun tokens => .error (.malformed (offset? tokens) reason)

def expected (what : String) : Parser Result := fun tokens =>
  let found := match tokens with
    | [] => "end of input"
    | token :: _ => token.lexeme.text
  .error (.malformed (offset? tokens) ("expected " ++ what ++ ", found " ++ found))

def offset : Parser (Option Nat) := return offset? (← get)

def nextIsSign (sign : String) : List Token → Bool
  | ⟨.symbol found, _⟩ :: _ => found == sign
  | _ => false

def nextIsWord (word : String) : List Token → Bool
  | ⟨.word found, _⟩ :: _ => found == word
  | _ => false

/-- As `nextIsWord`, whatever the case of letters. -/
def nextIsKeyword (keyword : String) : List Token → Bool
  | ⟨.word found, _⟩ :: _ => Text.sameLetters found keyword
  | _ => false

def secondIsSign (sign : String) (tokens : List Token) : Bool := nextIsSign sign (tokens.drop 1)

/-- The name of a call that comes next, in lower case. -/
def nextCall? : List Token → Option String
  | ⟨.word name, _⟩ :: rest => if nextIsSign "(" rest then some (Text.lower name) else none
  | _ => none

def sees (test : List Token → Bool) : Parser Bool := return test (← get)

def atEnd : Parser Bool := sees (·.isEmpty)

/-- Takes the next token if it passes a test, and tells whether it did. -/
def takeIf (test : List Token → Bool) : Parser Bool := fun tokens =>
  match tokens with
  | [] => .ok (false, [])
  | token :: rest => if test (token :: rest) then .ok (true, rest) else .ok (false, token :: rest)

def takeSign (sign : String) : Parser Bool := takeIf (nextIsSign sign)

def takeWord (word : String) : Parser Bool := takeIf (nextIsWord word)

def takeKeyword (keyword : String) : Parser Bool := takeIf (nextIsKeyword keyword)

def next? : Parser (Option Token) := fun tokens =>
  match tokens with
  | [] => .ok (none, [])
  | token :: rest => .ok (some token, rest)

def skip : Parser Unit := modify (·.drop 1)

def sign (sign : String) : Parser Unit := do
  if !(← takeSign sign) then expected ("'" ++ sign ++ "'")

def keyword (keyword : String) : Parser Unit := do
  if !(← takeKeyword keyword) then expected ("'" ++ keyword ++ "'")

/-- The next token as a word, with its offset. -/
def wordAt (what : String) : Parser (String × Option Nat) := do
  match ← get with
  | ⟨.word text, offset⟩ :: rest => set rest; return (text, some offset)
  | _ => expected what

def word (what : String) : Parser String := return (← wordAt what).1

structure Literal where
  text : String
  quoted : Bool
  offset : Option Nat

def literal (what : String) : Parser Literal := do
  match ← get with
  | ⟨.word text, offset⟩ :: rest => set rest; return ⟨text, false, some offset⟩
  | ⟨.quoted text, offset⟩ :: rest => set rest; return ⟨text, true, some offset⟩
  | _ => expected what

/-- The next token as a number of 64 bits. -/
def number (what : String) : Parser UInt64 := do
  let (text, offset) ← wordAt what
  match Text.uint64OfText? text with
  | some number => return number
  | none => failAt offset ("expected " ++ what ++ ", found '" ++ text ++ "'")

/-- The next token as a number of 64 bits with or without a sign. -/
def integer : Parser Value := do
  let (text, offset) ← wordAt "a number"
  match Text.int64OfText? text with
  | some number => return .int number
  | none => failAt offset ("expected a number, found '" ++ text ++ "'")

def skipUntil (test : List Token → Bool) : Parser Unit := modify dropUntil
where
  dropUntil : List Token → List Token
    | [] => []
    | token :: rest => if test (token :: rest) then token :: rest else dropUntil rest

/-- Repeats a step for as long as it gives a result and takes tokens. -/
def many (step : Parser (Option Result)) (tokens : List Token) :
    Except Fault (List Result × List Token) :=
  match step tokens with
  | .error fault => .error fault
  | .ok (none, rest) => .ok ([], rest)
  | .ok (some result, rest) =>
      if rest.length < tokens.length then
        match many step rest with
        | .error fault => .error fault
        | .ok (results, rest) => .ok (result :: results, rest)
      else .ok ([result], rest)
termination_by tokens.length

/-- As `many`, for steps that build on what the steps before them gave. -/
def iterate (step : Result → Parser (Option Result)) (result : Result) (tokens : List Token) :
    Except Fault (Result × List Token) :=
  match step result tokens with
  | .error fault => .error fault
  | .ok (none, rest) => .ok (result, rest)
  | .ok (some next, rest) =>
      if rest.length < tokens.length then iterate step next rest else .ok (next, rest)
termination_by tokens.length

/-- One or more results, each but the first after a separator that `separator` takes. -/
def sepBy (separator : Parser Bool) (element : Parser Result) : Parser (List Result) := do
  let first ← element
  let others ← many do
    if ← separator then return some (← element) else return none
  return first :: others

end Parser

end DetectionRules
