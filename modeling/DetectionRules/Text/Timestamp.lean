import DetectionRules.Text.Basic

/-!
Points in time and unique identifiers as text. Points in time are dates and
times of day with an offset from universal time; blanks may stand before each
number, and numbers need no leading zeros.
-/

namespace DetectionRules.Text

/-- Takes a number of at least one and at most `width` digits. -/
def takeNumber? (width : Nat) (text : List Char) : Option (Nat × List Char) :=
  let text := dropBlanks text
  let digits := (text.take width).takeWhile Char.isDigit
  if digits.isEmpty then none else some (natOfDigits digits, text.drop digits.length)

/-- Takes a year, which has more than four digits only after a sign. -/
def takeYear? (text : List Char) : Option (Int × List Char) :=
  let text := dropBlanks text
  match text with
  | '-' :: rest => (takeSigned? rest).map fun (year, rest) => (-(year : Int), rest)
  | '+' :: rest => (takeSigned? rest).map fun (year, rest) => ((year : Int), rest)
  | text => (takeNumber? 4 text).map fun (year, rest) => ((year : Int), rest)
where
  takeSigned? (text : List Char) : Option (Nat × List Char) :=
    let digits := text.takeWhile Char.isDigit
    if digits.isEmpty then none else some (natOfDigits digits, text.drop digits.length)

/-- Takes a separator, perhaps after blanks. -/
def takeMark? (mark : Char) (text : List Char) : Option (List Char) :=
  match dropBlanks text with
  | c :: rest => if c = mark then some rest else none
  | [] => none

def isLeapYear (year : Int) : Bool := (year % 4 == 0 && year % 100 != 0) || year % 400 == 0

def daysInMonth (year : Int) (month : Nat) : Nat :=
  match month with
  | 2 => if isLeapYear year then 29 else 28
  | 4 | 6 | 9 | 11 => 30
  | _ => 31

/-- Takes a date that exists. -/
def takeDate? (text : List Char) : Option (List Char) := do
  let (year, text) ← takeYear? text
  let (month, text) ← takeNumber? 2 (← takeMark? '-' text)
  let (day, text) ← takeNumber? 2 (← takeMark? '-' text)
  if year < -262143 ∨ 262142 < year ∨ month < 1 ∨ 12 < month ∨ day < 1 ∨ daysInMonth year month < day
  then none
  else some text

/-- Takes digits after a point, if there is one. -/
def takeFraction? (text : List Char) : Option (List Char) :=
  match text with
  | '.' :: rest =>
      match rest with
      | c :: _ => if c.isDigit then some (rest.dropWhile Char.isDigit) else none
      | [] => none
  | text => some text

/-- Takes a time of day; the last minute of a day may have a leap second. -/
def takeTimeOfDay? (text : List Char) : Option (List Char) := do
  let (hour, text) ← takeNumber? 2 text
  let (minute, text) ← takeNumber? 2 (← takeMark? ':' text)
  let (second, text) ← takeNumber? 2 (← takeMark? ':' text)
  if 23 < hour ∨ 59 < minute ∨ 60 < second then none else takeFraction? text

def takeTwoDigits? (text : List Char) : Option (Nat × List Char) :=
  match text with
  | first :: second :: rest =>
      if first.isDigit && second.isDigit then some (natOfDigits [first, second], rest) else none
  | _ => none

/-- Takes an offset in hours and minutes of less than a day. -/
def takeSignedOffset? (text : List Char) : Option (List Char) := do
  let (hours, text) ← takeTwoDigits? text
  let (minutes, text) ← takeTwoDigits? (text.dropWhile fun c => c == ':' || isBlank c)
  if 23 < hours ∨ 59 < minutes then none else some text

def takeOffset? (text : List Char) : Option (List Char) :=
  let text := dropBlanks text
  if (text.take 3).map Char.toLower == ['u', 't', 'c'] then some (text.drop 3)
  else
    match text with
    | 'Z' :: rest | 'z' :: rest => some rest
    | '+' :: rest | '-' :: rest | '\u2212' :: rest => takeSignedOffset? rest
    | _ => none

def isTimestamp (text : String) : Bool :=
  let rest := do
    let rest ← takeDate? text.toList
    let rest ← match rest with
      | 'T' :: rest | 't' :: rest | ' ' :: rest => some rest
      | _ => none
    takeOffset? (← takeTimeOfDay? rest)
  rest.any fun rest => rest.all isBlank

/-- Thirty-two hexadecimal digits, in one run or in the five usual groups. -/
def isPlainUuid (characters : List Char) : Bool :=
  let groups := splitWhen (· == '-') characters
  groups.all (fun group => group.all isHexDigit) &&
    ([[32], [8, 4, 4, 4, 12]].contains (groups.map List.length))

/-- A unique identifier, which may be between braces or after `urn:uuid:`. -/
def isUuid (text : String) : Bool :=
  let characters := text.toList
  let urn := "urn:uuid:".toList
  if urn.isPrefixOf characters then
    isPlainUuid (characters.drop urn.length) && characters.length == urn.length + 36
  else
    match characters with
    | '\x7b' :: rest =>
        rest.getLast? == some '\x7d' && isPlainUuid rest.dropLast && rest.length == 37
    | characters => isPlainUuid characters

end DetectionRules.Text
