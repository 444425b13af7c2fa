/-!
White space and letter case. Blanks are the characters of the Unicode property
White_Space, which is larger than the set `Char.isWhitespace` knows. Case is
folded for the ASCII letters only.

Numbers in decimal notation, of 64 bits where not said otherwise, and in
hexadecimal notation.

Readers that take symbols from the front of a list, or fail.
-/

namespace DetectionRules.Text

def isBlank (c : Char) : Bool :=
  (0x09 ≤ c.toNat && c.toNat ≤ 0x0D) || c.toNat == 0x20 || c.toNat == 0x85 || c.toNat == 0xA0
    || c.toNat == 0x1680 || (0x2000 ≤ c.toNat && c.toNat ≤ 0x200A)
    || c.toNat == 0x2028 || c.toNat == 0x2029 || c.toNat == 0x202F
    || c.toNat == 0x205F || c.toNat == 0x3000

def dropBlanks (characters : List Char) : List Char := characters.dropWhile isBlank

def trimBlanksEnd (characters : List Char) : List Char :=
  (characters.reverse.dropWhile isBlank).reverse

def trimBlanks (characters : List Char) : List Char := trimBlanksEnd (dropBlanks characters)

/-- Removes the blanks at both ends. -/
def trim (text : String) : String := String.ofList (trimBlanks text.toList)

def isAllBlank (text : String) : Bool := text.toList.all isBlank

/-- The maximal runs of characters that fail `separates`, empty runs included. -/
def splitWhen (separates : Char → Bool) : List Char → List (List Char)
  | [] => [[]]
  | c :: rest =>
      match splitWhen separates rest with
      | [] => [[c]]
      | part :: parts => if separates c then [] :: part :: parts else (c :: part) :: parts

/-- The non-empty runs between blanks. -/
def words (text : String) : List String :=
  ((splitWhen isBlank text.toList).filter (fun part => !part.isEmpty)).map String.ofList

def lower (text : String) : String := String.ofList (text.toList.map Char.toLower)

def upper (text : String) : String := String.ofList (text.toList.map Char.toUpper)

/-- Equality up to the case of ASCII letters. -/
def sameLetters (left right : String) : Bool :=
  left.toList.map Char.toLower == right.toList.map Char.toLower

def startsWith (text start : String) : Bool := start.toList.isPrefixOf text.toList

def endsWith (text ending : String) : Bool := ending.toList.isSuffixOf text.toList

/-- Whether `part` occurs as a run of consecutive characters. -/
def occursIn (part : List Char) : List Char → Bool
  | [] => part.isEmpty
  | c :: rest => part.isPrefixOf (c :: rest) || occursIn part rest

def contains (text part : String) : Bool := occursIn part.toList text.toList

def containsChar (text : String) (c : Char) : Bool := text.toList.contains c

def replaceChar (c : Char) (replacement : List Char) (characters : List Char) : List Char :=
  characters.flatMap fun other => if other = c then replacement else [other]

/-- The number of bytes that the characters take in UTF-8. -/
def byteCount : List Char → Nat
  | [] => 0
  | c :: rest => c.utf8Size + byteCount rest

end DetectionRules.Text

namespace DetectionRules.Text

def natOfDigits (digits : List Char) : Nat :=
  digits.foldl (fun number c => number * 10 + (c.toNat - '0'.toNat)) 0

def isDigits (characters : List Char) : Bool := !characters.isEmpty && characters.all Char.isDigit

def isHexDigit (c : Char) : Bool :=
  c.isDigit || ('a' ≤ c && c ≤ 'f') || ('A' ≤ c && c ≤ 'F')

def hexValue (digits : List Char) : Nat :=
  digits.foldl (fun number c =>
    number * 16 + (if c.isDigit then c.toNat - '0'.toNat else c.toLower.toNat - 'a'.toNat + 10)) 0

def hexValue? (characters : List Char) : Option Nat :=
  if characters.all isHexDigit then some (hexValue characters) else none

def uint64? (number : Nat) : Option UInt64 :=
  if number < UInt64.size then some (UInt64.ofNat number) else none

def int64? (number : Int) : Option Int64 :=
  if Int64.minValue.toInt ≤ number ∧ number ≤ Int64.maxValue.toInt then
    some (Int64.ofInt number)
  else none

/-- Reads digits, which may have leading zeros. -/
def uint64OfDigits? (digits : List Char) : Option UInt64 :=
  if isDigits digits then uint64? (natOfDigits digits) else none

/-- Reads digits with or without a plus sign. -/
def uint64OfText? (text : String) : Option UInt64 :=
  match text.toList with
  | '+' :: digits => uint64OfDigits? digits
  | digits => uint64OfDigits? digits

/-- Reads digits with or without a sign. -/
def int64OfText? (text : String) : Option Int64 :=
  let (negative, digits) := match text.toList with
    | '-' :: digits => (true, digits)
    | '+' :: digits => (false, digits)
    | digits => (false, digits)
  if isDigits digits then
    int64? (if negative then -(natOfDigits digits : Int) else natOfDigits digits)
  else none

end DetectionRules.Text

namespace DetectionRules

abbrev Reader (Symbol : Type) := StateT (List Symbol) Option

namespace Reader

variable {Symbol Result : Type}

def next? : Reader Symbol (Option Symbol) := return (← get).head?

def skip (count : Nat) : Reader Symbol Unit := modify (·.drop count)

/-- Takes a symbol that passes a test, if one comes next. -/
def takesWhere (test : Symbol → Bool) : Reader Symbol Bool := do
  if (← next?).any test then
    skip 1
    return true
  else return false

def expect [BEq Symbol] (symbols : List Symbol) : Reader Symbol Unit := do
  if symbols.isPrefixOf (← get) then skip symbols.length else failure

def takeWhile (test : Symbol → Bool) : Reader Symbol (List Symbol) := do
  let symbols ← get
  set (symbols.dropWhile test)
  return symbols.takeWhile test

/-- Repeats a step for as long as it gives a result and takes symbols. -/
def many (step : Reader Symbol (Option Result)) (symbols : List Symbol) :
    Option (List Result × List Symbol) :=
  match step symbols with
  | none => none
  | some (none, rest) => some ([], rest)
  | some (some result, rest) =>
      if rest.length < symbols.length then
        match many step rest with
        | none => none
        | some (results, rest) => some (result :: results, rest)
      else some ([result], rest)
termination_by symbols.length

/-- Repeats a step that knows whether it is the first. -/
def afterFirst (step : Bool → Reader Symbol (Option Result)) : Reader Symbol (List Result) := do
  match ← step true with
  | none => return []
  | some first => return first :: (← many (step false))

end Reader

end DetectionRules
