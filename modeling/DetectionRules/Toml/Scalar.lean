import DetectionRules.Text.Basic
import DetectionRules.Json.Basic
import DetectionRules.Number.Literal
import DetectionRules.Text.Timestamp

/-!
Strings in TOML text, in single or double quotes, on one line or on several.
Only double quotes allow escapes. Lines may end with a carriage return, which is
not part of the string.

Dates and times in TOML text: a date, a time of day, or both, and with both an
offset from universal time. They are only checked.

Numbers in TOML text. Digits may be grouped by underscores, each of which stands
between two digits. Whole numbers have 64 bits with a sign and may be written
with the digits of four bases.
-/

namespace DetectionRules.Toml

abbrev TextReader := Reader Char

def isGap (c : Char) : Bool := c == ' ' || c == '\t'

/-- Whether a character may stand in strings and comments; line breaks may not. -/
def isPlain (c : Char) : Bool := c == '\t' || (0x20 ≤ c.toNat && c.toNat != 0x7F)

/-- The text after a line break, if one comes first. -/
def afterBreak? : List Char → Option (List Char)
  | '\n' :: rest => some rest
  | '\r' :: '\n' :: rest => some rest
  | _ => none

theorem length_of_after_break {text rest : List Char} (h : afterBreak? text = some rest) :
    rest.length < text.length := by
  unfold afterBreak? at h
  split at h <;> grind

def character? (code : Nat) : Option Char :=
  if 0xD800 ≤ code && code ≤ 0xDFFF || 0x10FFFF < code then none else some (Char.ofNat code)

/-- The character that a number of hexadecimal digits stands for, and what comes after them. -/
def codeEscape? (size : Nat) (text : List Char) : Option (Char × List Char) := do
  if text.length < size then none
  let c ← character? (← Text.hexValue? (text.take size))
  return (c, text.drop size)

def escape? : List Char → Option (Char × List Char)
  | 'b' :: rest => some ('\x08', rest)
  | 't' :: rest => some ('\t', rest)
  | 'n' :: rest => some ('\n', rest)
  | 'f' :: rest => some ('\x0C', rest)
  | 'r' :: rest => some ('\r', rest)
  | '"' :: rest => some ('"', rest)
  | '\\' :: rest => some ('\\', rest)
  | 'u' :: rest => codeEscape? 4 rest
  | 'U' :: rest => codeEscape? 8 rest
  | _ => none

/-- The text after all blanks and line breaks. -/
def skipLines (text : List Char) : List Char :=
  match _h : afterBreak? (text.dropWhile isGap) with
  | none => text.dropWhile isGap
  | some rest => skipLines rest
termination_by text.length
decreasing_by
  exact Nat.lt_of_lt_of_le (length_of_after_break _h) (List.dropWhile_suffix isGap).length_le

/-- The text after blanks and line breaks, of which there must be at least one break. -/
def afterContinuation? (text : List Char) : Option (List Char) :=
  (afterBreak? (text.dropWhile isGap)).map skipLines

/-- The rest of a string on one line, and what comes after its closing quote. -/
def lineBody (quote : Char) : List Char → Option (List Char × List Char)
  | [] => none
  | c :: rest =>
      if c = quote then some ([], rest)
      else if c = '\\' && quote = '"' then
        match escape? rest with
        | none => none
        | some (escaped, after) =>
            if after.length < rest.length then do
              let (body, after) ← lineBody quote after
              return (escaped :: body, after)
            else none
      else if isPlain c then do
        let (body, after) ← lineBody quote rest
        return (c :: body, after)
      else none
termination_by text => text.length

/-- The rest of a string on several lines, and what comes after its closing quotes. Up to two
quotes may stand anywhere in it, also before the three that close it. -/
def linesBody (quote : Char) : List Char → Option (List Char × List Char)
  | [] => none
  | c :: rest =>
      let run := ((c :: rest).takeWhile (· == quote)).length
      if 3 ≤ run then
        let inside := min (run - 3) 2
        some (List.replicate inside quote, (c :: rest).drop (inside + 3))
      else if c = '\\' && quote = '"' then
        match afterContinuation? rest with
        | some after => if after.length < rest.length then linesBody quote after else none
        | none =>
            match escape? rest with
            | none => none
            | some (escaped, after) =>
                if after.length < rest.length then do
                  let (body, after) ← linesBody quote after
                  return (escaped :: body, after)
                else none
      else match _h : afterBreak? (c :: rest) with
        | some after => do
            let (body, after) ← linesBody quote after
            return ('\n' :: body, after)
        | none =>
            if isPlain c then do
              let (body, after) ← linesBody quote rest
              return (c :: body, after)
            else none
termination_by text => text.length
decreasing_by
  all_goals first | exact length_of_after_break _h | (simp only [List.length_cons]; omega)

def string (allowsLines : Bool) : TextReader String := do
  match ← get with
  | quote :: rest =>
      if quote != '"' && quote != '\'' then failure
      else
        let isLong := allowsLines && [quote, quote].isPrefixOf rest
        let body := if isLong then
            let rest := rest.drop 2
            linesBody quote ((afterBreak? rest).getD rest)
          else lineBody quote rest
        match body with
        | none => failure
        | some (body, after) =>
            set after
            return String.ofList body
  | [] => failure

end DetectionRules.Toml

namespace DetectionRules.Toml.Date

open Reader

/-- Two digits whose number is in a range. -/
def twoDigits (least most : Nat) : Reader Char Nat := do
  let digits := (← get).take 2
  let number := Text.natOfDigits digits
  if digits.length = 2 && digits.all Char.isDigit && least ≤ number && number ≤ most then
    skip 2
    return number
  else failure

def date : Reader Char Unit := do
  let century ← twoDigits 0 99
  let year := century * 100 + (← twoDigits 0 99)
  expect ['-']
  let month ← twoDigits 1 12
  expect ['-']
  let _ ← twoDigits 1 (Text.daysInMonth year month)

def time : Reader Char Unit := do
  let _ ← twoDigits 0 23
  expect [':']
  let _ ← twoDigits 0 59
  expect [':']
  let _ ← twoDigits 0 60
  if ← takesWhere (· == '.') then
    if (← takeWhile Char.isDigit).isEmpty then failure

def offset : Reader Char Unit := do
  if ← takesWhere fun c => c == 'Z' || c == 'z' then return
  if ← takesWhere fun c => c == '+' || c == '-' then
    let _ ← twoDigits 0 23
    expect [':']
    let _ ← twoDigits 0 59

/-- Whether a separator and a time follow a date. A blank may separate only if a digit follows. -/
def hasTime (text : List Char) : Bool :=
  match text with
  | ' ' :: c :: _ => c.isDigit
  | c :: _ => c == 'T' || c == 't'
  | [] => false

def moment : Reader Char Unit := do
  let text ← get
  if (text.drop 2).head? == some ':' then time
  else
    date
    if hasTime (← get) then
      skip 1
      time
      offset

/-- Whether a text begins like a date or a time of day. -/
def begins (text : List Char) : Bool :=
  ((text.take 4).length = 4 && (text.take 4).all Char.isDigit && (text.drop 4).head? == some '-')
    || ((text.take 2).length = 2 && (text.take 2).all Char.isDigit && (text.drop 2).head? == some ':')

def read : Reader Char Json := do
  let text ← get
  moment
  let rest ← get
  return .object [("date", .str (String.ofList (text.take (text.length - rest.length))))]

end DetectionRules.Toml.Date

namespace DetectionRules.Toml.Number

/-- Digits without their underscores, and what comes after them; each underscore is followed by
a digit. -/
def grouped? (isDigit : Char → Bool) : List Char → Option (List Char × List Char)
  | [] => some ([], [])
  | '_' :: c :: rest =>
      if isDigit c then do
        let (digits, after) ← grouped? isDigit rest
        return (c :: digits, after)
      else none
  | c :: rest =>
      if isDigit c then do
        let (digits, after) ← grouped? isDigit rest
        return (c :: digits, after)
      else if c = '_' then none
      else some ([], c :: rest)

def digits? (isDigit : Char → Bool) (text : List Char) : Option (List Char × List Char) :=
  if text.head?.any isDigit then grouped? isDigit text else none

/-- Decimal digits of a whole number; after a zero that comes first there are none. -/
def whole? (text : List Char) : Option (List Char × List Char) :=
  match text with
  | '0' :: rest => some (['0'], rest)
  | text => digits? Char.isDigit text

def sign (text : List Char) : Bool × List Char :=
  match text with
  | '-' :: rest => (true, rest)
  | '+' :: rest => (false, rest)
  | rest => (false, rest)

def places? : List Char → Option (List Char × List Char)
  | '.' :: rest => do
      let (places, after) ← digits? Char.isDigit rest
      return ('.' :: places, after)
  | rest => some ([], rest)

def exponent? : List Char → Option (List Char × List Char)
  | [] => some ([], [])
  | letter :: rest =>
      if letter = 'e' || letter = 'E' then do
        let (isNegative, unsigned) := sign rest
        let (digits, after) ← digits? Char.isDigit unsigned
        return ('e' :: ((if isNegative then ['-'] else []) ++ digits), after)
      else some ([], letter :: rest)

/-- A number with a point or an exponent; one too far below zero to be finite is infinite. -/
def float? (text : List Char) : Option (Json × List Char) := do
  let (isNegative, unsigned) := sign text
  let (whole, rest) ← whole? unsigned
  let (places, rest) ← places? rest
  let (exponent, rest) ← exponent? rest
  if places.isEmpty && exponent.isEmpty then none
  match (← Number.literal? (whole ++ places ++ exponent)).nearest? with
  | some value => return (.float (.signed isNegative value), rest)
  | none => if isNegative then return (.float (.infinite true), rest) else none

/-- The names of what is not finite. -/
def special? (text : List Char) : Option (Json × List Char) :=
  let (isNegative, unsigned) := sign text
  match unsigned with
  | 'i' :: 'n' :: 'f' :: rest => some (.float (.infinite isNegative), rest)
  | 'n' :: 'a' :: 'n' :: rest => some (.float .nan, rest)
  | _ => none

def isBinaryDigit (c : Char) : Bool := c == '0' || c == '1'

def isOctalDigit (c : Char) : Bool := '0' ≤ c && c ≤ '7'

def based? (base : Nat) (isDigit : Char → Bool) (text : List Char) : Option (Int × List Char) := do
  let (digits, rest) ← digits? isDigit text
  let value := digits.foldl (fun number c => number * base + Text.hexValue [c]) 0
  return ((value : Int), rest)

def integerValue? (text : List Char) : Option (Int × List Char) :=
  match text with
  | '0' :: 'x' :: rest => based? 16 Text.isHexDigit rest
  | '0' :: 'o' :: rest => based? 8 isOctalDigit rest
  | '0' :: 'b' :: rest => based? 2 isBinaryDigit rest
  | text => do
      let (isNegative, unsigned) := sign text
      let (digits, rest) ← whole? unsigned
      let value : Int := Text.natOfDigits digits
      return (if isNegative then -value else value, rest)

def integer? (text : List Char) : Option (Json × List Char) := do
  let (value, rest) ← integerValue? text
  if (Text.int64? value).isSome then return (.int value, rest) else none

def read : Reader Char Json := do
  let text ← get
  let (value, rest) ← (special? text).or ((float? text).or (integer? text))
  set rest
  return value

end DetectionRules.Toml.Number
