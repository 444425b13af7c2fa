import DetectionRules.Text.Basic
import DetectionRules.Yaml.Scanner

/-!
Tokens as a tree of nodes. A stream holds at most one document; one that holds
none is a tree of its own. Collections may lie within each other in at most 128
levels.
-/

namespace DetectionRules.Yaml

/-- What stands before the content of a node. -/
structure Properties (Label : Type) where
  anchor : Option Label := none
  tag : Option String := none

/-- A node, whose anchors and aliases bear labels. -/
inductive Tree (Label : Type) where
  | reference (label : Label)
  | scalar (properties : Properties Label) (text : String) (isPlain : Bool)
  | sequence (properties : Properties Label) (items : List (Tree Label))
  | mapping (properties : Properties Label) (entries : List (Tree Label × Tree Label))

/-- A node as it is written, with names for labels. -/
abbrev Node := Tree String

def Node.empty : Node := .scalar {} "" true

abbrev NodeReader := Reader Token

namespace NodeReader

def skip : NodeReader Unit := Reader.skip 1

def sees (tokens : List Token) : NodeReader Bool := return (← Reader.next?).any tokens.contains

def takes (token : Token) : NodeReader Bool := Reader.takesWhere (· == token)

/-- A node, unless one of some tokens or the end comes next. -/
def nodeOrEmpty (node : NodeReader Node) (stops : List Token) : NodeReader Node := do
  if ← sees stops then return Node.empty else node

/-- Whether another entry follows in a flow collection, given whether it is the first. -/
def nextFlowEntry (closing : Token) (isFirst : Bool) : NodeReader Bool := do
  if ← takes closing then return false
  else if isFirst then return true
  else if ← takes .flowEntry then return !(← takes closing)
  else failure

end NodeReader

open NodeReader
open Reader (afterFirst many next?)

def blockSequenceItem (node : NodeReader Node) : NodeReader (Option Node) := do
  if ← takes .blockEntry then return some (← nodeOrEmpty node [.blockEntry, .blockEnd])
  else if ← takes .blockEnd then return none
  else failure

/-- An item of a sequence that shares the indentation of the mapping around it. -/
def indentlessItem (node : NodeReader Node) : NodeReader (Option Node) := do
  if ← takes .blockEntry then
    return some (← nodeOrEmpty node [.blockEntry, .key, .value, .blockEnd])
  else return none

def blockMappingEntry (node : NodeReader Node) : NodeReader (Option (Node × Node)) := do
  let stops := [Token.key, .value, .blockEnd]
  if ← takes .key then
    let key ← nodeOrEmpty node stops
    let value ← if ← takes .value then nodeOrEmpty node stops else pure Node.empty
    return some (key, value)
  else if ← takes .blockEnd then return none
  else failure

/-- A pair as an item of a flow sequence. A key that is missing takes a token with it. -/
def flowPair (node : NodeReader Node) : NodeReader Node := do
  let key ← if ← sees [.value, .flowEntry, .flowSequenceEnd] then do skip; pure Node.empty else node
  let value ← if ← takes .value then nodeOrEmpty node [.flowEntry, .flowSequenceEnd]
    else pure Node.empty
  return .mapping {} [(key, value)]

def flowSequenceItem (node : NodeReader Node) (isFirst : Bool) : NodeReader (Option Node) := do
  if !(← nextFlowEntry .flowSequenceEnd isFirst) then return none
  else if ← takes .key then return some (← flowPair node)
  else return some (← node)

def flowMappingEntry (node : NodeReader Node) (isFirst : Bool) :
    NodeReader (Option (Node × Node)) := do
  let stops := [Token.flowEntry, .flowMappingEnd]
  if !(← nextFlowEntry .flowMappingEnd isFirst) then return none
  else if ← takes .key then
    let key ← nodeOrEmpty node (.value :: stops)
    let value ← if ← takes .value then nodeOrEmpty node stops else pure Node.empty
    return some (key, value)
  else return some (← node, Node.empty)

/-- The handles of tags and what they stand for. -/
abbrev Handles := List (String × String)

def defaultHandles : Handles := [("!", "!"), ("!!", "tag:yaml.org,2002:")]

def tagText? (handles : Handles) (handle suffix : String) : Option String :=
  if handle.isEmpty then some suffix else (handles.lookup handle).map (· ++ suffix)

def takeAnchor : NodeReader (Option String) := do
  match ← next? with
  | some (.anchor name) => skip; return some name
  | _ => return none

def takeTag (handles : Handles) : NodeReader (Option String) := do
  match ← next? with
  | some (.tag handle suffix) =>
      skip
      match tagText? handles handle suffix with
      | some tag => return some tag
      | none => failure
  | _ => return none

/-- An anchor and a tag in any order. -/
def properties (handles : Handles) : NodeReader (Properties String) := do
  let anchor ← takeAnchor
  let tag ← takeTag handles
  let anchor ← if anchor.isNone then takeAnchor else pure anchor
  return { anchor, tag }

/-- The content of a node behind its properties, given how to read the nodes inside of it. -/
def content (inBlock isIndentless : Bool) (properties : Properties String)
    (inner : Option (Bool → Bool → NodeReader Node)) : NodeReader Node := do
  match ← next? with
  | some (.scalar text isPlain) =>
      skip
      let tag := properties.tag.filter (· != "!")
      return .scalar { properties with tag } text isPlain
  | some token =>
      match inner with
      | none => if isCollection token then failure else emptyNode
      | some node =>
          let block := node true false
          let flow := node false false
          if isIndentless && token = .blockEntry then
            return .sequence properties (← many (indentlessItem block))
          else match token with
            | .flowSequenceStart =>
                skip
                return .sequence properties (← afterFirst (flowSequenceItem flow))
            | .flowMappingStart =>
                skip
                return .mapping properties (← afterFirst (flowMappingEntry flow))
            | .blockSequenceStart =>
                if !inBlock then emptyNode
                else
                  skip
                  return .sequence properties (← many (blockSequenceItem block))
            | .blockMappingStart =>
                if !inBlock then emptyNode
                else
                  skip
                  return .mapping properties (← many (blockMappingEntry (node true true)))
            | _ => emptyNode
  | none => emptyNode
where
  isCollection (token : Token) : Bool :=
    [Token.flowSequenceStart, .flowMappingStart, .blockSequenceStart, .blockMappingStart,
      .blockEntry].contains token
  emptyNode : NodeReader Node :=
    if properties.anchor.isNone && properties.tag.isNone then failure
    else return .scalar properties "" true

/-- A node that may hold collections in at most `levels` levels. -/
def node (handles : Handles) : Nat → Bool → Bool → NodeReader Node
  | levels, inBlock, isIndentless => do
      match ← next? with
      | some (.reference name) => skip; return .reference name
      | _ =>
          let properties ← properties handles
          content inBlock isIndentless properties <|
            match levels with
            | 0 => none
            | levels + 1 => some (node handles levels)

def maxDepth : Nat := 128

structure Directives where
  hasVersion : Bool := false
  handles : Handles := []

def directivesStep (directives : Directives) : Token → Option (Option Directives)
  | .version major minor =>
      if directives.hasVersion || major ≠ 1 || !(minor == 1 || minor == 2) then none
      else some (some { directives with hasVersion := true })
  | .tagDirective handle tagStart =>
      if (directives.handles.lookup handle).isSome then none
      else some (some { directives with handles := directives.handles ++ [(handle, tagStart)] })
  | _ => some none

def readDirectives (directives : Directives) : List Token → Option (Directives × List Token)
  | [] => some (directives, [])
  | token :: rest =>
      match directivesStep directives token with
      | none => none
      | some none => some (directives, token :: rest)
      | some (some directives) => readDirectives directives rest

def isDirectiveToken : Token → Bool
  | .version _ _ | .tagDirective _ _ => true
  | _ => false

/-- The root of a document whose directives and mark have been read. -/
def explicitRoot (handles : Handles) : NodeReader Node := do
  let ended := (← next?).all fun token =>
    isDirectiveToken token || [Token.documentStart, .documentEnd].contains token
  if ended then return Node.empty else node handles maxDepth true false

def document : NodeReader (Option Node) := do
  match ← next? with
  | none => return none
  | some token =>
      let isExplicit := isDirectiveToken token || token = .documentStart
      let root ←
        if isExplicit then do
          let (directives, rest) ← readDirectives {} (← get)
          set rest
          if !(← takes .documentStart) then failure
          explicitRoot (directives.handles ++ defaultHandles)
        else node defaultHandles maxDepth true false
      modify (·.dropWhile (· = .documentEnd))
      if (← get).isEmpty then return some root else failure

/-- The tree of a text, or nothing if the text has no document. -/
def parse? (text : String) : Option (Option Node) := do
  let (root, _) ← document (← tokens? text)
  return root

end DetectionRules.Yaml
