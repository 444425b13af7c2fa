import DetectionRules.Regex.Property
import DetectionRules.Text.Basic

/-!
Writing a literal text as a regular expression.

Which texts are regular expressions. The grammar has groups with names and
flags, counted repetitions, character classes with set operations, and Unicode
classes; it has no back references and no assertions about surroundings. While
the flag `u` is off, an expression must not be able to match half a character.
-/

namespace DetectionRules.Regex

def isMeta (c : Char) : Bool :=
  "\\.+*?()|[]\x7b\x7d^$#&-~".toList.contains c

/-- Puts a backslash before each character that has a meaning of its own. -/
def escapeChars (characters : List Char) : List Char :=
  characters.flatMap fun c => if isMeta c then ['\\', c] else [c]

def escape (literal : String) : String := String.ofList (escapeChars literal.toList)

end DetectionRules.Regex

namespace DetectionRules.Regex

/-- How deep parts may nest. -/
def maxHeight : Nat := 250

/-- The flags that decide what is valid: whether blanks and comments are passed over, and whether
classes hold characters instead of bytes. -/
structure Mode where
  verbose : Bool
  unicode : Bool

/-- A part of an expression: how deep it nests and whether a repetition may follow it. -/
structure Part where
  height : Nat
  repeatable : Bool := true

def heightOver (heights : List Nat) : Nat := heights.foldl max 0 + 1

/-- The height of parts in a row or beside each other; a single part stands for itself. -/
def heightOf : List Nat → Nat
  | [] => 0
  | [height] => height
  | heights => heightOver heights

def skipComment (characters : List Char) : List Char :=
  (characters.dropWhile (· != '\n')).drop 1

/-- Passes over blanks and comments, of which there are at most as many as characters. -/
def skipVerbose : Nat → List Char → List Char
  | 0, characters => characters
  | steps + 1, characters =>
      match characters.dropWhile Text.isBlank with
      | '#' :: rest => skipVerbose steps (skipComment rest)
      | rest => rest

namespace Mode

def skip (mode : Mode) (characters : List Char) : List Char :=
  if mode.verbose then skipVerbose characters.length characters else characters

def second? (mode : Mode) (characters : List Char) : Option Char :=
  let rest := characters.drop 1
  if mode.verbose then
    match rest.dropWhile Text.isBlank with
    | '#' :: rest => (rest.dropWhile Text.isBlank).head?
    | rest => rest.head?
  else rest.head?

end Mode

def isFlags (items : List Char) : Bool :=
  items.all ("imsUuRx-".toList.contains ·) && items.eraseDups.length == items.length
    && items.getLast? != some '-'

/-- Whether a flag is switched on or off. -/
def flag? (flag : Char) : List Char → Option Bool
  | items =>
      let (on, off) := items.span (· != '-')
      if on.contains flag then some true else if off.contains flag then some false else none

def Mode.withFlags (mode : Mode) (items : List Char) : Mode :=
  ⟨(flag? 'x' items).getD mode.verbose, (flag? 'u' items).getD mode.unicode⟩

inductive Atom where
  /-- A character; one above 127 that was given by two hexadecimal digits may stand for a byte. -/
  | literal (c : Char) (byte : Bool)
  | dot
  | assertion
  | digitClass (negated : Bool)
  | unicodeClass

def charOfCode? (code : Nat) : Option Char :=
  if h : code.isValidChar then some (Char.ofNatAux code h) else none

def hexDigits? (mode : Mode) : Nat → List Char → Option (List Char × List Char)
  | 0, characters => some ([], characters)
  | _ + 1, [] => none
  | count + 1, c :: rest =>
      if Text.isHexDigit c then
        (hexDigits? mode count (mode.skip rest)).map fun (digits, rest) => (c :: digits, rest)
      else none

def braced? (mode : Mode) : Nat → List Char → Option (List Char × List Char)
  | 0, _ => none
  | steps + 1, characters =>
      match mode.skip characters with
      | [] => none
      | '\x7d' :: rest => some ([], rest)
      | c :: rest => (braced? mode steps rest).map fun (content, rest) => (c :: content, rest)

/-- A character given by its code, after the letter that says how many digits follow. -/
def codeEscape? (mode : Mode) (width : Nat) (characters : List Char) :
    Option (Atom × List Char) := do
  match mode.skip characters with
  | '\x7b' :: rest =>
      let (digits, rest) ← braced? mode (rest.length + 1) rest
      if digits.isEmpty || !digits.all Text.isHexDigit then none
      let c ← charOfCode? (Text.hexValue digits)
      return (.literal c false, mode.skip rest)
  | rest =>
      let (digits, rest) ← hexDigits? mode width rest
      let c ← charOfCode? (Text.hexValue digits)
      return (.literal c (width == 2), mode.skip rest)

/-- A class of characters given by a letter or by a name between braces. -/
def unicodeEscape? (mode : Mode) (characters : List Char) : Option (Atom × List Char) := do
  match mode.skip characters with
  | [] => none
  | '\\' :: _ => none
  | '\x7b' :: rest =>
      let (name, rest) ← braced? mode (rest.length + 1) rest
      if Property.isClass name then return (.unicodeClass, rest) else none
  | c :: rest =>
      if Property.isClassName [c] then return (.unicodeClass, mode.skip rest) else none

def isBoundaryLetter (c : Char) : Bool := c.isAlpha || c == '-'

def boundaryName (mode : Mode) : Nat → List Char → List Char × List Char
  | 0, characters => ([], characters)
  | steps + 1, characters =>
      match characters with
      | [] => ([], [])
      | c :: rest =>
          if isBoundaryLetter c then
            let (name, rest) := boundaryName mode steps (mode.skip rest)
            (c :: name, rest)
          else ([], characters)

/-- What follows a word boundary, which may name its side between braces. -/
def boundary? (mode : Mode) (characters : List Char) : Option (Atom × List Char) :=
  match characters with
  | '\x7b' :: rest =>
      match mode.skip rest with
      | [] => none
      | c :: name =>
          if !isBoundaryLetter c then some (.assertion, characters)
          else
            let (name, rest) := boundaryName mode (name.length + 1) (c :: name)
            if rest.head? == some '\x7d'
                && ["start", "end", "start-half", "end-half"].contains (String.ofList name) then
              some (.assertion, rest.drop 1)
            else none
  | _ => some (.assertion, characters)

def escape? (mode : Mode) (characters : List Char) : Option (Atom × List Char) :=
  match characters with
  | [] => none
  | c :: rest =>
      if c.isDigit then none
      else if c = 'x' then codeEscape? mode 2 rest
      else if c = 'u' then codeEscape? mode 4 rest
      else if c = 'U' then codeEscape? mode 8 rest
      else if c = 'p' ∨ c = 'P' then unicodeEscape? mode rest
      else if "dsw".toList.contains c then some (.digitClass false, rest)
      else if "DSW".toList.contains c then some (.digitClass true, rest)
      else if "aftnrv".toList.contains c then some (.literal c false, rest)
      else if c = 'b' then boundary? mode rest
      else if "AzB<>".toList.contains c then some (.assertion, rest)
      else if c.isAlpha || 0x80 ≤ c.toNat then none
      else some (.literal c false, rest)

/-- Whether an atom may stand alone in a mode. -/
def Atom.isLegal (mode : Mode) : Atom → Bool
  | literal c byte => mode.unicode || !byte || c.toNat < 0x80
  | dot => mode.unicode
  | assertion => true
  | digitClass negated => mode.unicode || !negated
  | unicodeClass => mode.unicode

/-- A class in brackets that has not been closed yet: its items by height since the last set
operation, what stands before that operation, and whether the class is negated. -/
structure OpenClass where
  negated : Bool
  items : List Nat
  operand : Option Nat

namespace OpenClass

def add (bracket : OpenClass) (height : Nat) : OpenClass :=
  { bracket with items := height :: bracket.items }

def height (bracket : OpenClass) : Nat :=
  match bracket.operand with
  | none => heightOf bracket.items
  | some operand => heightOver [operand, heightOf bracket.items]

/-- Ends the items before a set operation. -/
def operate (bracket : OpenClass) : OpenClass :=
  { bracket with items := [], operand := some bracket.height }

end OpenClass

/-- Hyphens at the start of a class are literal. -/
def leadingHyphens (mode : Mode) : Nat → OpenClass → List Char → OpenClass × List Char
  | 0, bracket, characters => (bracket, characters)
  | steps + 1, bracket, characters =>
      match characters with
      | '-' :: rest => leadingHyphens mode steps (bracket.add 0) (mode.skip rest)
      | _ => (bracket, characters)

def openClass (mode : Mode) (characters : List Char) : OpenClass × List Char :=
  let (negated, characters) := match mode.skip characters with
    | '^' :: rest => (true, mode.skip rest)
    | rest => (false, rest)
  let (bracket, characters) :=
    leadingHyphens mode (characters.length + 1) ⟨negated, [], none⟩ characters
  match bracket.items, characters with
  | [], ']' :: rest => (bracket.add 0, mode.skip rest)
  | _, characters => (bracket, characters)

def namedClasses : List String :=
  ["alnum", "alpha", "ascii", "blank", "cntrl", "digit", "graph", "lower", "print", "punct",
    "space", "upper", "word", "xdigit"]

/-- Whether a named class such as `[:alpha:]` is negated, and what follows it, after its bracket. -/
def namedClass? (characters : List Char) : Option (Bool × List Char) :=
  match characters with
  | ':' :: rest =>
      let (negated, rest) := match rest with
        | '^' :: rest => (true, rest)
        | rest => (false, rest)
      let name := rest.takeWhile (· != ':')
      if namedClasses.contains (String.ofList name)
          && [':', ']'].isPrefixOf (rest.drop name.length) then
        some (negated, rest.drop (name.length + 2))
      else none
  | _ => none

/-- A member of a class: an escape or any other character. -/
def classAtom? (mode : Mode) (characters : List Char) : Option (Atom × List Char) :=
  match characters with
  | [] => none
  | '\\' :: rest => escape? mode rest
  | c :: rest => some (.literal c false, rest)

def Atom.isMember (mode : Mode) : Atom → Bool
  | literal c _ => mode.unicode || c.toNat < 0x80
  | dot | assertion => false
  | digitClass negated => mode.unicode || !negated
  | unicodeClass => mode.unicode

/-- What follows a member or a range of members. -/
def classItem? (mode : Mode) (characters : List Char) : Option (List Char) := do
  let (low, rest) ← classAtom? mode characters
  let rest := mode.skip rest
  if rest.isEmpty || !low.isMember mode then none
  let next := mode.second? rest
  if rest.head? != some '-' || next == some ']' || next == some '-' then return rest
  let (high, rest) ← classAtom? mode (mode.skip (rest.drop 1))
  match low, high with
  | .literal first _, .literal last _ =>
      if first ≤ last && high.isMember mode then return rest else none
  | _, _ => none

/-- Reads a class to its closing bracket, given the classes that are open, innermost first. Gives
the height of the whole. -/
def classRest? (mode : Mode) (brackets : List OpenClass) (characters : List Char) :
    Option (Nat × List Char) :=
  match brackets with
  | [] => none
  | bracket :: outer =>
      let step (brackets : List OpenClass) (rest : List Char) : Option (Nat × List Char) :=
        if rest.length < characters.length then classRest? mode brackets rest else none
      match mode.skip characters with
      | [] => none
      | '[' :: rest =>
          match namedClass? rest with
          | some (negated, rest) =>
              if negated && !mode.unicode then none else step (bracket.add 0 :: outer) rest
          | none =>
              let (inner, rest) := openClass mode rest
              step (inner :: bracket :: outer) rest
      | ']' :: rest =>
          if bracket.negated && !mode.unicode then none
          else
            let height := bracket.height + 1
            match outer with
            | [] => some (height, rest)
            | enclosing :: outer => step (enclosing.add height :: outer) rest
      | '&' :: '&' :: rest => step (bracket.operate :: outer) rest
      | '-' :: '-' :: rest => step (bracket.operate :: outer) rest
      | '~' :: '~' :: rest => step (bracket.operate :: outer) rest
      | rest => do
          let rest ← classItem? mode rest
          step (bracket.add 0 :: outer) rest
termination_by characters.length

def class? (mode : Mode) (characters : List Char) : Option (Nat × List Char) :=
  let (bracket, rest) := openClass mode characters
  classRest? mode [bracket] rest

def decimal (mode : Mode) (characters : List Char) : List Char × List Char :=
  let rest := characters.dropWhile Text.isBlank
  let (digits, rest) := digitsOf (rest.length + 1) rest
  (digits, rest.dropWhile Text.isBlank)
where
  digitsOf : Nat → List Char → List Char × List Char
    | 0, characters => ([], characters)
    | steps + 1, characters =>
        match characters with
        | [] => ([], [])
        | c :: rest =>
            if c.isDigit then
              let (digits, rest) := digitsOf steps (mode.skip rest)
              (c :: digits, rest)
            else ([], characters)

def count? (digits : List Char) : Option Nat :=
  let number := digits.foldl (fun number c => number * 10 + (c.toNat - '0'.toNat)) 0
  if digits.isEmpty || UInt32.size ≤ number then none else some number

/-- What follows the counts of a repetition, after its opening brace. -/
def counts? (mode : Mode) (characters : List Char) : Option (List Char) := do
  let (digits, rest) := decimal mode (mode.skip characters)
  let least ← count? digits
  match rest with
  | '\x7d' :: rest => return rest
  | ',' :: rest =>
      match mode.skip rest with
      | '\x7d' :: rest => return rest
      | rest =>
          let (digits, rest) := decimal mode rest
          let most ← count? digits
          match rest with
          | '\x7d' :: rest => if least ≤ most then return rest else none
          | _ => none
  | _ => none

/-- A question mark after a repetition belongs to it. -/
def skipLazy (characters : List Char) : List Char :=
  match characters with
  | '?' :: rest => rest
  | rest => rest

/-- A group that has not been closed yet, with the parts since the last bar and the heights of the
branches before it. -/
structure OpenGroup where
  /-- The flags that hold again after the group. -/
  outerMode : Mode
  parts : List Part := []
  branches : List Nat := []

namespace OpenGroup

def add (group : OpenGroup) (part : Part) : OpenGroup := { group with parts := part :: group.parts }

def branchHeight (group : OpenGroup) : Nat := heightOf (group.parts.map (·.height))

def endBranch (group : OpenGroup) : OpenGroup :=
  { group with parts := [], branches := group.branchHeight :: group.branches }

def height (group : OpenGroup) : Nat := heightOf (group.branchHeight :: group.branches)

def repeatLast? (group : OpenGroup) : Option OpenGroup :=
  match group.parts with
  | part :: parts => if part.repeatable then some { group with parts := ⟨part.height + 1, true⟩ :: parts } else none
  | [] => none

end OpenGroup

/-- What has been read: the open groups, innermost first, the flags and the names of groups. -/
structure Reading where
  group : OpenGroup
  outer : List OpenGroup := []
  mode : Mode
  names : List String := []

namespace Reading

def add (reading : Reading) (height : Nat) : Reading :=
  { reading with group := reading.group.add ⟨height, true⟩ }

def openGroup (reading : Reading) (mode : Mode) : Reading :=
  { reading with
    group := { outerMode := reading.mode }, outer := reading.group :: reading.outer, mode }

def isNameStart (c : Char) : Bool := c == '_' || c.isAlpha || 0xAA ≤ c.toNat

def isNameRest (c : Char) : Bool :=
  isNameStart c || c.isDigit || c == '.' || c == '[' || c == ']'

def namedGroup? (reading : Reading) (characters : List Char) : Option (Reading × List Char) := do
  let name := characters.takeWhile (· != '>')
  let rest ← (characters.drop name.length).tail?
  let first ← name.head?
  if !isNameStart first || !name.all isNameRest then none
  if reading.names.contains (String.ofList name) then none
  return ({ reading.openGroup reading.mode with names := String.ofList name :: reading.names }, rest)

/-- Flags, or a group with flags, after the question mark. -/
def flags? (reading : Reading) (characters : List Char) : Option (Reading × List Char) :=
  let items := characters.takeWhile fun c => c != ':' && c != ')'
  if !isFlags items then none
  else match characters.drop items.length with
    | ':' :: rest => some (reading.openGroup (reading.mode.withFlags items), rest)
    | ')' :: rest =>
        if items.isEmpty then none
        else some ({ reading with
          group := reading.group.add ⟨0, false⟩, mode := reading.mode.withFlags items }, rest)
    | _ => none

def opened? (reading : Reading) (characters : List Char) : Option (Reading × List Char) :=
  match reading.mode.skip characters with
  | '?' :: '=' :: _ | '?' :: '!' :: _ | '?' :: '<' :: '=' :: _ | '?' :: '<' :: '!' :: _ => none
  | '?' :: 'P' :: '<' :: rest => reading.namedGroup? rest
  | '?' :: '<' :: rest => reading.namedGroup? rest
  | '?' :: rest => reading.flags? rest
  | rest => some (reading.openGroup reading.mode, rest)

def closed? (reading : Reading) : Option Reading :=
  match reading.outer with
  | [] => none
  | enclosing :: outer => some { reading with
      group := enclosing.add ⟨reading.group.height + 1, true⟩, outer, mode := reading.group.outerMode }

def atom? (reading : Reading) (atom : Atom) (rest : List Char) : Option (Reading × List Char) :=
  if atom.isLegal reading.mode then some (reading.add 0, rest) else none

def step? (reading : Reading) (c : Char) (rest : List Char) : Option (Reading × List Char) := do
  match c with
  | '(' => reading.opened? rest
  | ')' => return (← reading.closed?, rest)
  | '|' => return ({ reading with group := reading.group.endBranch }, rest)
  | '[' =>
      let (height, rest) ← class? reading.mode rest
      return (reading.add height, rest)
  | '?' | '*' | '+' => return ({ reading with group := ← reading.group.repeatLast? }, skipLazy rest)
  | '\x7b' =>
      let group ← reading.group.repeatLast?
      let rest ← counts? reading.mode rest
      return ({ reading with group }, skipLazy (reading.mode.skip rest))
  | '\\' =>
      let (atom, rest) ← escape? reading.mode rest
      reading.atom? atom rest
  | '.' => reading.atom? .dot rest
  | '^' | '$' => reading.atom? .assertion rest
  | c => reading.atom? (.literal c false) rest

end Reading

/-- Reads an expression to its end and gives its height. -/
def height? (reading : Reading) (characters : List Char) : Option Nat :=
  match reading.mode.skip characters with
  | [] => if reading.outer.isEmpty then some reading.group.height else none
  | c :: rest =>
      match reading.step? c rest with
      | some (reading, rest) =>
          if rest.length < characters.length then height? reading rest else none
      | none => none
termination_by characters.length

def isValid (pattern : String) : Bool :=
  let mode : Mode := ⟨false, true⟩
  (height? { group := { outerMode := mode }, mode } pattern.toList).any (· ≤ maxHeight)

end DetectionRules.Regex
