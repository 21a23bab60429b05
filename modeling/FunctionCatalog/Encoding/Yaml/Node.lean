import FunctionCatalog.Encoding.Yaml.Plain
import FunctionCatalog.Encoding.Yaml.Token

/-
  FunctionCatalog: YAML nodes.
  A node is a scalar, a sequence or a mapping; what a scalar is spelled like, or what its tag says,
  is settled here, and an alias is the node that it stands for. `Node.ofTokens` reads the tokens of
  a text as one document.
-/

namespace FunctionCatalog.Yaml

inductive Node where
  | scalar (kind : ScalarKind) (text : String)
  | sequence (items : List Node)
  | mapping (fields : List (Node × Node))
  /-- Something with a tag that has no meaning for it. -/
  | strange

/-- What is left to be read of a document, and what is known so far. -/
structure Reading where
  tokens : List Token
  /-- What is wrong behind the last token. -/
  fault : DocumentFault
  /-- What the handles of tags stand for. -/
  handles : List (String × String) := []
  /-- The nodes with an anchor. One that is still being read is known by an empty node. -/
  anchors : List (String × Node) := []

/-- Reads a part of a document. -/
abbrev Reader (α : Type) := StateT Reading (Except DocumentFault) α

namespace Reader

/-- The next token. -/
def peek : Reader Token := do
  match (← get).tokens with
  | t :: _ => return t
  | [] => throw (← get).fault

def skip : Reader Unit :=
  modify (fun r => { r with tokens := r.tokens.drop 1 })

/-- Whether the next token is one of some. -/
def isNext (ts : List Token) : Reader Bool := do
  return ts.contains (← peek)

/-- Takes the next token if it is the one given. -/
def take? (t : Token) : Reader Bool := do
  if (← peek) = t then do
    skip
    return true
  else return false

/-- An anchor and a tag, in either order; both may be missing. -/
structure Properties where
  anchor : Option String := none
  tag : Option (Option String × String) := none

def properties : Reader Properties := do
  match ← peek with
  | .anchor a => do
    skip
    match ← peek with
    | .tag handle rest => do
      skip
      return ⟨some a, some (handle, rest)⟩
    | _ => return ⟨some a, none⟩
  | .tag handle rest => do
    skip
    match ← peek with
    | .anchor a => do
      skip
      return ⟨some a, some (handle, rest)⟩
    | _ => return ⟨none, some (handle, rest)⟩
  | _ => return {}

/-- The tag that is written down, in full. An exclamation mark by itself is no tag. -/
def fullTag : Option (Option String × String) → Reader (Option String)
  | none => return none
  | some (none, rest) => return some rest
  | some (some handle, rest) => do
    match (← get).handles.lookup handle with
    | some start => return some (start ++ rest)
    | none => throw .yaml

/-- Makes a node known by an anchor. -/
def know (anchor : Option String) (n : Node) : Reader Unit :=
  match anchor with
  | some a => modify (fun r => { r with anchors := (a, n) :: r.anchors })
  | none => pure ()

/-- An anchor must not be given twice. -/
def checkAnchor (anchor : Option String) : Reader Unit := do
  match anchor with
  | some a => if ((← get).anchors.lookup a).isSome then throw .yaml
  | none => pure ()

/-- The tag that says nothing. -/
def noTag : String := "!"

/-- The node of a scalar. -/
def scalarNode (tag : Option String) (isPlain : Bool) (text : String) : Node :=
  match tag with
  | none => .scalar (if isPlain then ScalarKind.ofText text else .text) text
  | some tag =>
    if tag = noTag then .scalar (ScalarKind.ofText text) text
    else match ScalarKind.ofTag? tag with
      | some kind => .scalar kind text
      | none => .strange

/-- A collection is what it is unless its tag says something else. -/
def collectionNode (tag : Option String) (meant : String) (n : Node) : Node :=
  if tag.all (fun tag => tag = noTag || tag = meant) then n else .strange

/-- A scalar that is not written at all. -/
def emptyNode : Node := .scalar .null ""

mutual

/-- The next node. In a block it may be a block collection, and below a key also a sequence that is
not indented. The budget bounds the depth of the reading. -/
def node : Nat → Bool → Bool → Reader Node
  | 0, _, _ => throw .yaml
  | budget + 1, block, belowKey => do
    match ← peek with
    | .alias a => do
      skip
      match (← get).anchors.lookup a with
      | some n => return n
      | none => throw .yaml
    | _ => do
      let props ← properties
      let tag ← fullTag props.tag
      let next ← peek
      let start (empty : Node) : Reader Unit := do
        checkAnchor props.anchor
        know props.anchor empty
      let known (n : Node) : Reader Node := do
        know props.anchor n
        return n
      let sequence (items : Reader (List Node)) : Reader Node := do
        start (.sequence [])
        known (collectionNode tag sequenceTag (.sequence (← items)))
      let mapping (fields : Reader (List (Node × Node))) : Reader Node := do
        start (.mapping [])
        known (collectionNode tag mappingTag (.mapping (← fields)))
      match next with
      | .scalar isPlain text => do
        skip
        checkAnchor props.anchor
        known (scalarNode tag isPlain text)
      | .flowSequence => do
        skip
        sequence (flowItems budget true)
      | .flowMapping => do
        skip
        mapping (flowFields budget true)
      | t =>
        if t = .blockEntry && belowKey then sequence (flatItems budget)
        else if t = .blockSequence && block then do
          skip
          sequence (blockItems budget)
        else if t = .blockMapping && block then do
          skip
          mapping (blockFields budget)
        else if props.anchor.isSome || tag.isSome then do
          checkAnchor props.anchor
          known (scalarNode tag true "")
        else throw .yaml

/-- A node, unless one of some tokens stands in its place. -/
def nodeUnless : Nat → List Token → Bool → Bool → Reader Node
  | 0, _, _, _ => throw .yaml
  | budget + 1, ends, block, belowKey => do
    if ← isNext ends then return emptyNode else node budget block belowKey

/-- The items of a block sequence, to its end. -/
def blockItems : Nat → Reader (List Node)
  | 0 => throw .yaml
  | budget + 1 => do
    if ← take? .blockEntry then do
      let n ← nodeUnless budget [.blockEntry, .blockEnd] true false
      return n :: (← blockItems budget)
    else if ← take? .blockEnd then return []
    else throw .yaml

/-- The items of a sequence that is not indented; it ends where no entry follows. -/
def flatItems : Nat → Reader (List Node)
  | 0 => throw .yaml
  | budget + 1 => do
    if ← take? .blockEntry then do
      let n ← nodeUnless budget [.blockEntry, .key, .value, .blockEnd] true false
      return n :: (← flatItems budget)
    else return []

/-- The fields of a block mapping, to its end. -/
def blockFields : Nat → Reader (List (Node × Node))
  | 0 => throw .yaml
  | budget + 1 => do
    let ends : List Token := [.key, .value, .blockEnd]
    if ← take? .key then do
      let key ← nodeUnless budget ends true true
      let value ←
        if ← take? .value then nodeUnless budget ends true true else pure emptyNode
      return (key, value) :: (← blockFields budget)
    else if ← take? .blockEnd then return []
    else throw .yaml

/-- A key and its value in a flow collection that ends with a token. -/
def flowField : Nat → Token → Reader (Node × Node)
  | 0, _ => throw .yaml
  | budget + 1, last => do
    let key ← nodeUnless budget [.value, .flowEntry, last] false false
    let value ←
      if ← take? .value then nodeUnless budget [.flowEntry, last] false false
      else pure emptyNode
    return (key, value)

/-- The items of a flow sequence, to its end. An item may be a mapping of one field. -/
def flowItems : Nat → Bool → Reader (List Node)
  | 0, _ => throw .yaml
  | budget + 1, first => do
    if ← take? .flowSequenceEnd then return []
    else do
      if !first then do
        if !(← take? .flowEntry) then throw .yaml
      if ← take? .key then do
        let field ← flowField budget .flowSequenceEnd
        return .mapping [field] :: (← flowItems budget false)
      else if ← take? .flowSequenceEnd then return []
      else do
        let n ← node budget false false
        return n :: (← flowItems budget false)

/-- The fields of a flow mapping, to its end. A key may stand alone. -/
def flowFields : Nat → Bool → Reader (List (Node × Node))
  | 0, _ => throw .yaml
  | budget + 1, first => do
    if ← take? .flowMappingEnd then return []
    else do
      if !first then do
        if !(← take? .flowEntry) then throw .yaml
      if ← take? .key then do
        let field ← flowField budget .flowMappingEnd
        return field :: (← flowFields budget false)
      else if ← take? .flowMappingEnd then return []
      else do
        let n ← node budget false false
        return (n, emptyNode) :: (← flowFields budget false)

end

/-- The handles that are known without being declared. -/
def commonHandles : List (String × String) :=
  [(noTag, noTag), ("!!", commonTag)]

/-- The directives ahead of a document. Each may be given once. -/
def directives : Nat → Bool → List (String × String) → Reader (List (String × String))
  | 0, _, _ => throw .yaml
  | budget + 1, versioned, handles => do
    match ← peek with
    | .directive d => do
      skip
      match d with
      | .version major =>
        if versioned || major != 1 then throw .yaml else directives budget true handles
      | .tag handle start =>
        if (handles.lookup handle).isSome then throw .yaml
        else directives budget versioned (handles ++ [(handle, start)])
      | .other => directives budget versioned handles
    | _ => return handles ++ commonHandles

/-- What only ends documents. -/
def skipEnds : Nat → Reader Unit
  | 0 => throw .yaml
  | budget + 1 => do
    if ← take? .documentEnd then skipEnds budget

/-- The one document that there is, if there is any. -/
def document : Reader (Option Node) := do
  let budget := 4 * (← get).tokens.length + 8
  let content ← match ← peek with
    | .streamEnd => return none
    | .directive _ | .documentStart => do
      let handles ← directives budget false []
      if !(← take? .documentStart) then throw .yaml
      modify (fun r => { r with handles })
      if (← isNext [.documentStart, .documentEnd, .streamEnd]) || (← peek) matches .directive _ then
        pure emptyNode
      else node budget true false
    | _ => do
      modify (fun r => { r with handles := commonHandles })
      node budget true false
  skipEnds budget
  if ← take? .streamEnd then return some content else throw .yaml

end Reader

/-- The node that some tokens write, if they write any. -/
def Node.ofTokens (tokens : List Token × DocumentFault) : Except DocumentFault (Option Node) :=
  (Reader.document.run ⟨tokens.1, tokens.2, [], []⟩).map (·.1)

end FunctionCatalog.Yaml
