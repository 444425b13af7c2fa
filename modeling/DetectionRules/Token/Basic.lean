import DetectionRules.Rule.Error
import DetectionRules.Text.Basic

/-!
Tokens of the query dialects and how text is cut into them. A scanner looks at
the characters after the first one of a token and tells how many of them belong
to it, so every token takes at least one character. Quoting a text and scanning
it again gives the text back.
-/

namespace DetectionRules

inductive Lexeme where
  /-- A run of characters without quotes. -/
  | word (text : String)
  /-- The text between quotes, escapes undone. -/
  | quoted (text : String)
  /-- A regular expression between slashes, and the letters after it. -/
  | pattern (body flags : String)
  | symbol (sign : String)
deriving DecidableEq

structure Token where
  lexeme : Lexeme
  /-- The byte at which the token begins. -/
  offset : Nat
deriving DecidableEq

namespace Lexeme

/-- How a fault shows what was found. -/
def text : Lexeme → String
  | word text => "'" ++ text ++ "'"
  | quoted text => "string \"" ++ text ++ "\""
  | pattern body _ => "regex /" ++ body ++ "/"
  | symbol sign => "'" ++ sign ++ "'"

end Lexeme

/-- The quotes a dialect knows besides the double quote. -/
structure Quoting where
  /-- Strings in single quotes, with the quote doubled inside. -/
  single : Bool := false
  slashes : Bool := false
  /-- Strings between back ticks, without escapes. -/
  backticks : Bool := false

namespace Token

/-- Longer signs come before the signs they begin with. -/
def signs : List String :=
  ["==", "!=", "=~", "!~", "<>", "<=", ">=", "=", "<", ">", "!", "(", ")", "[", "]",
    "\x7b", "\x7d", ",", "|"]

def sign? (characters : List Char) : Option String :=
  signs.find? fun sign => sign.toList.isPrefixOf characters

def endsWord (quoting : Quoting) (c : Char) : Bool :=
  Text.isBlank c || "=!<>()[]\x7b\x7d,|\x22".toList.contains c
    || (quoting.single && c == '\'') || (quoting.backticks && c == '\x60')

/-- The text up to the closing quote and the characters it takes, the quote included.
A backslash makes a quote or a backslash literal and else stands for itself. -/
def scanDoubleQuoted : List Char → Option (List Char × Nat)
  | [] => none
  | '\\' :: '"' :: rest => (scanDoubleQuoted rest).map fun (text, size) => ('"' :: text, size + 2)
  | '\\' :: '\\' :: rest => (scanDoubleQuoted rest).map fun (text, size) => ('\\' :: text, size + 2)
  | '"' :: _ => some ([], 1)
  | c :: rest => (scanDoubleQuoted rest).map fun (text, size) => (c :: text, size + 1)

/-- As `scanDoubleQuoted`, for a quote that is doubled to be literal. -/
def scanSingleQuoted : List Char → Option (List Char × Nat)
  | [] => none
  | '\'' :: '\'' :: rest => (scanSingleQuoted rest).map fun (text, size) => ('\'' :: text, size + 2)
  | '\'' :: _ => some ([], 1)
  | c :: rest => (scanSingleQuoted rest).map fun (text, size) => (c :: text, size + 1)

def scanBackticked : List Char → Option (List Char × Nat)
  | [] => none
  | '\x60' :: _ => some ([], 1)
  | c :: rest => (scanBackticked rest).map fun (text, size) => (c :: text, size + 1)

/-- The expression up to the closing slash, without the backslash of an escaped slash. -/
def scanSlashed : List Char → Option (List Char × Nat)
  | [] => none
  | '\\' :: '/' :: rest => (scanSlashed rest).map fun (body, size) => ('/' :: body, size + 2)
  | '\\' :: c :: rest => (scanSlashed rest).map fun (body, size) => ('\\' :: c :: body, size + 2)
  | '/' :: _ => some ([], 1)
  | c :: rest => (scanSlashed rest).map fun (body, size) => (c :: body, size + 1)

/-- The token that begins with `first`, and how many characters of `rest` belong to it. -/
def scan (quoting : Quoting) (first : Char) (rest : List Char) : Except String (Lexeme × Nat) :=
  if first = '"' then
    match scanDoubleQuoted rest with
    | some (text, size) => .ok (.quoted (String.ofList text), size)
    | none => .error "unterminated string"
  else if first = '\'' && quoting.single then
    match scanSingleQuoted rest with
    | some (text, size) => .ok (.quoted (String.ofList text), size)
    | none => .error "unterminated string"
  else if first = '\x60' && quoting.backticks then
    match scanBackticked rest with
    | some (text, size) => .ok (.quoted (String.ofList text), size)
    | none => .error "unterminated backtick string"
  else if first = '/' && quoting.slashes then
    match scanSlashed rest with
    | some (body, size) =>
        let flags := (rest.drop size).takeWhile Char.isAlpha
        .ok (.pattern (String.ofList body) (String.ofList flags), size + flags.length)
    | none => .error "unterminated regex literal"
  else match sign? (first :: rest) with
    | some sign => .ok (.symbol sign, sign.length - 1)
    | none =>
        let others := rest.takeWhile fun c => !endsWord quoting c
        .ok (.word (String.ofList (first :: others)), others.length)

/-- Cuts text into tokens; `offset` is the byte at which the text begins. -/
def listFrom (quoting : Quoting) (offset : Nat) : List Char → Except Fault (List Token)
  | [] => .ok []
  | c :: rest =>
      if Text.isBlank c then listFrom quoting (offset + c.utf8Size) rest
      else match scan quoting c rest with
        | .error reason => .error (.malformed (some offset) reason)
        | .ok (lexeme, size) => do
            let tokens ← listFrom quoting
              (offset + c.utf8Size + Text.byteCount (rest.take size)) (rest.drop size)
            return ⟨lexeme, offset⟩ :: tokens
termination_by characters => characters.length
decreasing_by all_goals grind

def list (quoting : Quoting) (text : String) : Except Fault (List Token) :=
  listFrom quoting 0 text.toList

end Token

namespace Text

def doubleQuote (text : String) : String :=
  "\"" ++ String.ofList (text.toList.flatMap escaped) ++ "\""
where
  escaped : Char → List Char
    | '\\' => ['\\', '\\']
    | '"' => ['\\', '"']
    | c => [c]

def singleQuote (text : String) : String :=
  "'" ++ String.ofList (replaceChar '\'' ['\'', '\''] text.toList) ++ "'"

end Text

end DetectionRules
