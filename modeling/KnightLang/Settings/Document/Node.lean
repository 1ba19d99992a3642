import KnightLang.Settings.Document.Layout

/-!
The nodes of a document. A document is one node; names that are given to nodes by anchors stand for
them again as aliases.
-/

namespace KnightLang

/-- A scalar: its text, its tag if it has one, and whether its meaning may depend on its text, as
that of a plain one does. -/
structure Scalar where
  text : Bytes
  tag : Bytes := []
  isOpen : Bool
  deriving DecidableEq, Repr

namespace Document

/-- A node of a document. -/
inductive Node where
  | scalar (scalar : Scalar)
  | sequence (items : List Node)
  | mapping (entries : List (Node × Node))
  | alias (target : Node)

def Node.missing : Node := .scalar { text := [], isOpen := true }

/-- What anchors name. Each use of an anchor has a number, under which its node is found once all of
it has been read. -/
structure Anchors where
  numbers : List (Bytes × Nat) := []
  nodes : List (Nat × Node) := []

abbrev ReadNode := StateT Anchors Read

def look : ReadNode Token := nextToken

def take : ReadNode PUnit := takeToken

/-- The node that an anchor names, which may not be one that is still being read. -/
def named (name : Bytes) : ReadNode Node := do
  let anchors ← get
  match (anchors.numbers.lookup name).bind fun number => anchors.nodes.lookup number with
  | some node => return node
  | none => failure

/-- Reads a node and gives it the name of an anchor. -/
def naming (anchor : Option Bytes) (read : ReadNode Node) : ReadNode Node := do
  match anchor with
  | none => read
  | some name =>
    let number := (← get).numbers.length
    modify fun anchors => { anchors with numbers := (name, number) :: anchors.numbers }
    let node ← read
    modify fun anchors => { anchors with nodes := (number, node) :: anchors.nodes }
    return node

abbrev TagRules := List (Bytes × Bytes)

def tagOf (rules : TagRules) (handle suffix : Bytes) : ReadNode Bytes := do
  if handle.isEmpty then return suffix
  else
    match rules.lookup handle with
    | some start => return start ++ suffix
    | none => failure

/-- The anchor at the front of a node, if there is one. -/
def readAnchor : ReadNode (Option Bytes) := do
  match ← look with
  | .anchor name =>
    take
    return some name
  | _ => return none

/-- The tag at the front of a node, by its handle and its suffix, if there is one. -/
def readTagToken : ReadNode (Option (Bytes × Bytes)) := do
  match ← look with
  | .tag handle suffix =>
    take
    return some (handle, suffix)
  | _ => return none

/-- The anchor and the tag of a node, in either order; what has no tag has an empty one. -/
def readProperties (rules : TagRules) : ReadNode (Option Bytes × Bytes) := do
  let early ← readAnchor
  let tag ← readTagToken
  let late ← if early.isNone && tag.isSome then readAnchor else pure none
  let tag ← match tag with
    | some (handle, suffix) => tagOf rules handle suffix
    | none => pure []
  return (early.or late, tag)

/-- Whether a token ends the place of a node in a block. -/
def endsBlockNode : Token → Bool
  | .key => true
  | .value => true
  | .blockEnd => true
  | _ => false

/-- Whether a token ends the place of a node in braces. -/
def endsBraceNode : Token → Bool
  | .comma => true
  | .braceClose => true
  | _ => false

/-- Whether a token ends the place of a node in brackets. -/
def endsBracketNode : Token → Bool
  | .comma => true
  | .bracketClose => true
  | _ => false

mutual

/-- Reads a node. A block may begin only outside of brackets, and one of items in the column of the
mapping around it only as the name or the value of an entry. `fuel` bounds the steps of all these
readers. -/
def readNode (rules : TagRules) : Nat → Bool → Bool → ReadNode Node
  | 0, _, _ => failure
  | fuel + 1, inBlock, isEntry => do
    match ← look with
    | .alias name =>
      take
      return .alias (← named name)
    | _ =>
      let (anchor, tag) ← readProperties rules
      naming anchor do
        match ← look with
        | .scalar text isPlain =>
          take
          return .scalar
            { text, tag, isOpen := (tag.isEmpty && isPlain) || tag == Bytes.ofString "!" }
        | .bracketOpen =>
          take
          return .sequence (← readBracketItems rules fuel true)
        | .braceOpen =>
          take
          return .mapping (← readBraceEntries rules fuel true)
        | token =>
          if token = .dash && isEntry then return .sequence (← readFlatItems rules fuel)
          else if token = .blockSequence && inBlock then do
            take
            return .sequence (← readBlockItems rules fuel)
          else if token = .blockMapping && inBlock then do
            take
            return .mapping (← readBlockEntries rules fuel)
          else if anchor.isSome || !tag.isEmpty then
            return .scalar { text := [], tag, isOpen := tag.isEmpty }
          else failure

def readBlockItems (rules : TagRules) : Nat → ReadNode (List Node)
  | 0 => failure
  | fuel + 1 => do
    match ← look with
    | .dash =>
      take
      let next ← look
      let item ←
        if next = .dash || next = .blockEnd then pure Node.missing
        else readNode rules fuel true false
      return item :: (← readBlockItems rules fuel)
    | .blockEnd =>
      take
      return []
    | _ => failure

def readFlatItems (rules : TagRules) : Nat → ReadNode (List Node)
  | 0 => failure
  | fuel + 1 => do
    match ← look with
    | .dash =>
      take
      let next ← look
      let item ←
        if next = .dash || endsBlockNode next then pure Node.missing
        else readNode rules fuel true false
      return item :: (← readFlatItems rules fuel)
    | _ => return []

def readBlockEntries (rules : TagRules) : Nat → ReadNode (List (Node × Node))
  | 0 => failure
  | fuel + 1 => do
    match ← look with
    | .key =>
      take
      let key ← readBlockPart rules fuel
      let value ←
        if (← look) = .value then do
          take
          readBlockPart rules fuel
        else pure Node.missing
      return (key, value) :: (← readBlockEntries rules fuel)
    | .blockEnd =>
      take
      return []
    | _ => failure

/-- Reads the name or the value of an entry in a block. -/
def readBlockPart (rules : TagRules) : Nat → ReadNode Node
  | 0 => failure
  | fuel + 1 => do
    if endsBlockNode (← look) then return Node.missing
    else readNode rules fuel true true

def readBraceEntries (rules : TagRules) : Nat → Bool → ReadNode (List (Node × Node))
  | 0, _ => failure
  | fuel + 1, isFirst => do
    if (← look) = .braceClose then
      take
      return []
    if !isFirst then
      if (← look) = .comma then take else failure
    match ← look with
    | .braceClose =>
      take
      return []
    | .key =>
      take
      let next ← look
      let key ←
        if next = .value || endsBraceNode next then pure Node.missing
        else readNode rules fuel false false
      let value ← readBraceValue rules fuel
      return (key, value) :: (← readBraceEntries rules fuel false)
    | _ =>
      let key ← readNode rules fuel false false
      let _ ← look
      return (key, Node.missing) :: (← readBraceEntries rules fuel false)

def readBraceValue (rules : TagRules) : Nat → ReadNode Node
  | 0 => failure
  | fuel + 1 => do
    if (← look) = .value then
      take
      if endsBraceNode (← look) then return Node.missing
      else readNode rules fuel false false
    else return Node.missing

/-- Reads the items between brackets after the opening one. An item may be a single entry of a
mapping. -/
def readBracketItems (rules : TagRules) : Nat → Bool → ReadNode (List Node)
  | 0, _ => failure
  | fuel + 1, isFirst => do
    if (← look) = .bracketClose then
      take
      return []
    if !isFirst then
      if (← look) = .comma then take else failure
    match ← look with
    | .bracketClose =>
      take
      return []
    | .key =>
      take
      let next ← look
      let key ←
        if next = .value || endsBracketNode next then do
          take
          pure Node.missing
        else readNode rules fuel false false
      let value ← readBracketValue rules fuel
      return .mapping [(key, value)] :: (← readBracketItems rules fuel false)
    | _ =>
      let item ← readNode rules fuel false false
      return item :: (← readBracketItems rules fuel false)

def readBracketValue (rules : TagRules) : Nat → ReadNode Node
  | 0 => failure
  | fuel + 1 => do
    if (← look) = .value then
      take
      if endsBracketNode (← look) then return Node.missing
      else readNode rules fuel false false
    else return Node.missing

end

def standardTag : Bytes := "tag:yaml.org,2002:"

/-- The rules for tags with the ones that hold unless there are others for their handles. -/
def withStandardRules (rules : TagRules) : TagRules :=
  rules ++ [(Bytes.ofString "!", Bytes.ofString "!"), (Bytes.ofString "!!", standardTag)]

/-- Reads directives. The version is given at most once and is 1.1, and a handle has at most one
rule. `fuel` bounds their number. -/
def readDirectives : Nat → Bool → TagRules → ReadNode TagRules
  | 0, _, _ => failure
  | fuel + 1, hasVersion, rules => do
    match ← look with
    | .version major minor =>
      if hasVersion || major != 1 || minor != 1 then failure
      take
      readDirectives fuel true rules
    | .tagRule handle start =>
      if (rules.lookup handle).isSome then failure
      take
      readDirectives fuel hasVersion (rules ++ [(handle, start)])
    | _ => return withStandardRules rules

/-- Whether a token ends a document that a marker has begun. -/
def endsDocument : Token → Bool
  | .version _ _ => true
  | .tagRule _ _ => true
  | .documentStart => true
  | .documentEnd => true
  | .textEnd => true
  | _ => false

/-- Reads the first document, if there is one. A token after it has to be there, whatever it is. -/
def readDocument (fuel : Nat) : ReadNode (Option Node) := do
  let first ← look
  if first = .textEnd then return none
  let node ←
    if endsDocument first && first != .documentEnd then do
      let rules ← readDirectives fuel false []
      if (← look) != .documentStart then failure
      take
      if endsDocument (← look) then pure Node.missing else readNode rules fuel true false
    else readNode (withStandardRules []) fuel true false
  let _ ← look
  return some node

/-- The first document of a text, if it holds one; without a result, the text is malformed. -/
def parse (text : Bytes) : Option (Option Node) :=
  let bound := text.length + 8
  let reader : Reader := { characters := Characters.ofBytes text, bound }
  ((readDocument (8 * bound)).run' {} |>.run' reader)

end Document

end KnightLang
