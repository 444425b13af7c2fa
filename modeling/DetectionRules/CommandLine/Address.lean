import DetectionRules.Text.Basic

/-!
Addresses to listen at: four numbers with points, or up to eight groups of
hexadecimal digits in brackets, and a port. One run of groups that are zero may
be left out.
-/

namespace DetectionRules.CommandLine.Address

open Reader

/-- A number of decimal digits, at most so many; a zero may come first only if that is allowed. -/
def number (maxDigits : Option Nat) (allowsZero : Bool) (bound : Nat) : Reader Char Nat := do
  let digits ← takeWhile Char.isDigit
  let value := Text.natOfDigits digits
  let fits := maxDigits.all (digits.length ≤ ·)
  if digits.isEmpty || !fits || bound ≤ value then failure
  else if !allowsZero && digits.head? == some '0' && 1 < digits.length then failure
  else return value

def fourNumbers : Reader Char Unit := do
  let octet := number (some 3) false 256
  let _ ← octet
  for _ in [1, 2, 3] do
    expect ['.']
    let _ ← octet

def group : Reader Char Unit := do
  let digits ← takeWhile Text.isHexDigit
  if digits.isEmpty || 4 < digits.length then failure

def separated (isFirst : Bool) (part : Reader Char Unit) : Reader Char Unit := do
  if !isFirst then expect [':']
  part

/-- Reads up to `limit` groups, of which four numbers may stand for the last two. Gives how many
there are, and whether four numbers came. -/
def groups (isFirst : Bool) : Nat → List Char → Nat × Bool × List Char
  | 0, text => (0, false, text)
  | limit + 1, text =>
      let numbers := if limit = 0 then none else separated isFirst fourNumbers text
      match numbers, separated isFirst group text with
      | some (_, rest), _ => (2, true, rest)
      | none, none => (0, false, text)
      | none, some (_, rest) =>
          let (count, hasNumbers, rest) := groups false limit rest
          (count + 1, hasNumbers, rest)

def eightGroups : Reader Char Unit := do
  let (count, hasNumbers, rest) := groups true 8 (← get)
  set rest
  if count = 8 then return
  if hasNumbers then failure
  expect [':', ':']
  let (_, _, rest) := groups true (7 - count) (← get)
  set rest

def port : Reader Char Unit := do
  expect [':']
  let _ ← number none true 65536

def address : Reader Char Unit := do
  if ← takesWhere (· == '[') then
    eightGroups
    if ← takesWhere (· == '%') then
      let _ ← number none true UInt32.size
    expect [']']
  else fourNumbers
  port

def isAddress (text : String) : Bool :=
  match address text.toList with
  | some ((), []) => true
  | _ => false

end DetectionRules.CommandLine.Address
