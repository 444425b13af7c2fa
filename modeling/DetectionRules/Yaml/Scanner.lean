import DetectionRules.Yaml.Token

/-!
YAML text as tokens. Indentation opens and closes blocks. What may be a key is
known to be one only when a colon follows it, so the tokens that announce a key
are put before tokens that have been read already. A key without such tokens
must be on one line and must not be longer than 1024 characters.
-/

namespace DetectionRules.Yaml

/-- A place where a key may have begun. -/
structure KeyStart where
  /-- Whether the place can begin nothing else. -/
  required : Bool
  tokenCount : Nat
  place : Cursor

structure Scanner where
  cursor : Cursor
  /-- The tokens so far, the last one first. -/
  tokens : List Token := []
  /-- The columns of the open blocks, the innermost first. -/
  indents : List Nat := []
  /-- The place of a key in each open flow collection, the innermost first, and outside of them. -/
  keys : List (Option KeyStart) := [none]
  mayStartKey : Bool := true

namespace Scanner

def inFlow (scanner : Scanner) : Bool := 1 < scanner.keys.length

/-- The smallest column of what is inside the innermost block. -/
def minIndent (scanner : Scanner) : Nat := scanner.indents.head?.elim 0 (· + 1)

def push (scanner : Scanner) (token : Token) : Scanner :=
  { scanner with tokens := token :: scanner.tokens }

def insert (scanner : Scanner) (count : Nat) (token : Token) : Scanner :=
  let behind := scanner.tokens.length - count
  { scanner with
    tokens := scanner.tokens.take behind ++ token :: scanner.tokens.drop behind }

def moveTo (scanner : Scanner) (cursor : Cursor) : Scanner := { scanner with cursor }

/-- Takes a character as a token. -/
def take (scanner : Scanner) (token : Token) : Scanner :=
  (scanner.push token).moveTo (scanner.cursor.pass 1)

def withKeys (scanner : Scanner) (mayStartKey : Bool) : Scanner := { scanner with mayStartKey }

/-- Opens a block at a column unless one is open there, with a token behind the first `count`. -/
def openBlock (scanner : Scanner) (column count : Nat) (token : Token) : Scanner :=
  if scanner.inFlow || !scanner.indents.head?.all (· < column) then scanner
  else ({ scanner with indents := column :: scanner.indents }).insert count token

def openBlockHere (scanner : Scanner) (token : Token) : Scanner :=
  scanner.openBlock scanner.cursor.column scanner.tokens.length token

/-- Closes the blocks to the right of a column, or all of them. -/
def closeBlocks (scanner : Scanner) (column : Option Nat) : Scanner :=
  if scanner.inFlow then scanner
  else
    let closed := scanner.indents.takeWhile fun indent => column.all (· < indent)
    { scanner with
      indents := scanner.indents.drop closed.length
      tokens := closed.map (fun _ => Token.blockEnd) ++ scanner.tokens }

def dropKey (scanner : Scanner) : Option Scanner :=
  match scanner.keys with
  | some key :: others =>
      if key.required then none else some { scanner with keys := none :: others }
  | _ => some scanner

/-- Marks the cursor as a place where a key may begin. -/
def saveKey (scanner : Scanner) : Option Scanner :=
  if !scanner.mayStartKey then some scanner
  else do
    let scanner ← scanner.dropKey
    let required := !scanner.inFlow && scanner.indents.head? == some scanner.cursor.column
    let key : KeyStart := ⟨required, scanner.tokens.length, scanner.cursor⟩
    return { scanner with keys := some key :: scanner.keys.drop 1 }

def isStale (cursor : Cursor) (key : KeyStart) : Bool :=
  key.place.line < cursor.line || key.place.index + 1024 < cursor.index

/-- Gives up the places of keys that the cursor has left too far behind. -/
def dropStaleKeys (scanner : Scanner) : Option Scanner := do
  let keys ← scanner.keys.mapM fun key =>
    match key with
    | some key =>
        if !isStale scanner.cursor key then some (some key)
        else if key.required then none
        else some none
    | none => some none
  return { scanner with keys }

/-- Passes over gaps, comments and line breaks; a tab may not indent a place for a key. -/
def gapStep (scanner : Scanner) (cursor : Cursor) : Option (Option (Scanner × Cursor)) :=
  let isSpace (c : Char) : Bool :=
    c == ' ' || (c == '\t' && (scanner.inFlow || !scanner.mayStartKey))
  let after := (cursor.passWhile isSpace).passComment
  if after.next?.any isBreak then
    some (some (scanner.withKeys (scanner.mayStartKey || !scanner.inFlow), after.passBreak.2))
  else if after.rest.length < cursor.rest.length then some (some (scanner, after))
  else some none

def skipGaps (scanner : Scanner) : Option Scanner := do
  let (scanner, cursor) ← scanner.cursor.iterate gapStep scanner
  return scanner.moveTo cursor

/-- Ends all blocks before something that stands outside of them. -/
def leaveBlocks (scanner : Scanner) : Option Scanner := do
  let scanner ← (scanner.closeBlocks none).dropKey
  return scanner.withKeys false

def openFlow (scanner : Scanner) (token : Token) : Option Scanner := do
  let scanner ← scanner.saveKey
  return (({ scanner with keys := none :: scanner.keys }).withKeys true).take token

def closeFlow (scanner : Scanner) (token : Token) : Option Scanner := do
  let scanner ← scanner.dropKey
  let keys := if scanner.inFlow then scanner.keys.drop 1 else scanner.keys
  return (({ scanner with keys }).withKeys false).take token

def flowEntry (scanner : Scanner) : Option Scanner := do
  return ((← scanner.dropKey).withKeys true).take .flowEntry

/-- Opens a block for an entry or a key at the cursor. -/
def enterBlock (scanner : Scanner) (token : Token) : Option Scanner :=
  if scanner.inFlow then some scanner
  else if scanner.mayStartKey then some (scanner.openBlockHere token)
  else none

def blockEntry (scanner : Scanner) : Option Scanner := do
  let scanner ← (← scanner.enterBlock .blockSequenceStart).dropKey
  return (scanner.withKeys true).take .blockEntry

def keyMark (scanner : Scanner) : Option Scanner := do
  let scanner ← (← scanner.enterBlock .blockMappingStart).dropKey
  return (scanner.withKeys (!scanner.inFlow)).take .key

/-- A colon, which makes a key of what came before it. -/
def valueMark (scanner : Scanner) : Option Scanner :=
  match scanner.keys with
  | some key :: others =>
      let scanner := ({ scanner with keys := none :: others }).insert key.tokenCount .key
      let scanner := scanner.openBlock key.place.column key.tokenCount .blockMappingStart
      some ((scanner.withKeys false).take .value)
  | _ => do
      let scanner ← scanner.enterBlock .blockMappingStart
      return (scanner.withKeys (!scanner.inFlow)).take .value

/-- Takes a token that may be a key or belong to one. -/
def takeNode (scanner : Scanner) (read : Cursor → Option (Token × Cursor)) : Option Scanner := do
  let scanner ← scanner.saveKey
  let (token, after) ← read scanner.cursor
  return ((scanner.withKeys false).push token).moveTo after

def quotedScalar (scanner : Scanner) (isSingle : Bool) : Option Scanner :=
  scanner.takeNode fun cursor => do
    let (text, after) ← quoted isSingle cursor
    return (.scalar text false, after)

def blockScalarToken (scanner : Scanner) (isLiteral : Bool) : Option Scanner := do
  let scanner ← scanner.dropKey
  let (text, after) ← blockScalar isLiteral scanner.minIndent scanner.cursor
  return ((scanner.withKeys true).push (.scalar text false)).moveTo after

def plainScalar (scanner : Scanner) : Option Scanner := do
  let scanner ← scanner.saveKey
  let (text, endsInBreak, after) ← plain scanner.inFlow scanner.minIndent scanner.cursor
  return ((scanner.withKeys endsInBreak).push (.scalar text true)).moveTo after

def isIndicator (c : Char) : Bool := "-?:,[]\x7b\x7d#&*!|>'\"%@\x60".toList.contains c

def startsPlain (inFlow : Bool) : List Char → Bool
  | [] => false
  | c :: rest =>
      if c = '-' then !rest.head?.any isGap
      else if c = '?' || c = ':' then !inFlow && !atWordEnd rest
      else !isGap c && !isBreak c && !isIndicator c

def token (scanner : Scanner) (c : Char) (rest : List Char) : Option Scanner :=
  let inFlow := scanner.inFlow
  let isMark := atWordEnd rest || inFlow
  match c with
  | '[' => scanner.openFlow .flowSequenceStart
  | '\x7b' => scanner.openFlow .flowMappingStart
  | ']' => scanner.closeFlow .flowSequenceEnd
  | '\x7d' => scanner.closeFlow .flowMappingEnd
  | ',' => scanner.flowEntry
  | '*' => scanner.takeNode fun cursor => (anchorName cursor).map fun (name, after) =>
      (.reference name, after)
  | '&' => scanner.takeNode fun cursor => (anchorName cursor).map fun (name, after) =>
      (.anchor name, after)
  | '!' => scanner.takeNode (tagToken inFlow)
  | '\'' => scanner.quotedScalar true
  | '"' => scanner.quotedScalar false
  | c =>
      if c = '-' && atWordEnd rest then scanner.blockEntry
      else if c = '?' && isMark then scanner.keyMark
      else if c = ':' && isMark then scanner.valueMark
      else if (c = '|' || c = '>') && !inFlow then scanner.blockScalarToken (c = '|')
      else if startsPlain inFlow (c :: rest) then scanner.plainScalar
      else none

def isDirective (cursor : Cursor) : Bool := cursor.column == 0 && cursor.nextIs '%'

def documentMark (scanner : Scanner) : Option Scanner := do
  let mark := if scanner.cursor.nextIs '-' then Token.documentStart else .documentEnd
  return ((← scanner.leaveBlocks).push mark).moveTo (scanner.cursor.pass 3)

def directiveToken (scanner : Scanner) : Option Scanner := do
  let scanner ← scanner.leaveBlocks
  let (token, after) ← directive scanner.cursor
  return (scanner.push token).moveTo after

def next (scanner : Scanner) : Option Scanner := do
  let scanner ← (← scanner.skipGaps).dropStaleKeys
  match scanner.cursor.rest with
  | [] => scanner.leaveBlocks
  | c :: rest =>
      let scanner := scanner.closeBlocks (some scanner.cursor.column)
      if isDirective scanner.cursor then scanner.directiveToken
      else if scanner.cursor.atDocumentMark then scanner.documentMark
      else scanner.token c rest

/-- The tokens of the text after the cursor. -/
def all (scanner : Scanner) : Option (List Token) :=
  match scanner.next with
  | none => none
  | some after =>
      if after.cursor.rest.isEmpty then do
        return (← after.next).tokens.reverse
      else if after.cursor.rest.length < scanner.cursor.rest.length then all after
      else none
termination_by scanner.cursor.rest.length

end Scanner

def isTextChar (c : Char) : Bool :=
  c == '\t' || c == '\n' || c == '\r' || c == '\u0085'
    || (0x20 ≤ c.toNat && c.toNat ≤ 0x7E) || (0xA0 ≤ c.toNat && c.toNat ≤ 0xFFFD)
    || 0x10000 ≤ c.toNat

/-- Reads text as tokens; a mark of the byte order at its start takes a column. -/
def tokens? (text : String) : Option (List Token) :=
  let cursor : Cursor := { rest := text.toList }
  if !text.toList.all isTextChar then none
  else
    let cursor := if cursor.nextIs '\uFEFF' then cursor.pass 1 else cursor
    Scanner.all { cursor }

end DetectionRules.Yaml
