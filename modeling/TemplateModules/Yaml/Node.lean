import TemplateModules.Yaml.Scan

/-!
# From tokens to nodes

A document is a tree of scalars, sequences, and mappings.  A node may have an anchor, and an alias
stands for the node of an anchor.  An anchor gets as its number the count of names that are
anchored before it.  Two anchors can get one number, since a name may be anchored again; the number
then stands for the node that starts last.
-/

namespace TemplateModules
namespace Yaml

/-- The bytes of a tag, with its handle replaced by what it stands for. -/
abbrev Tag := List UInt8

/-- A node of a document. -/
inductive Node where
  | scalar (tag : Option Tag) (text : List Char) (style : Style)
  /-- An alias of the node with a number. -/
  | reference (number : Nat)
  | sequence (tag : Option Tag) (items : List Node)
  | mapping (tag : Option Tag) (pairs : List (Node × Node))
  deriving Repr, Inhabited

namespace Node

/-- The node that stands where nothing is written. -/
def empty : Node :=
  scalar none [] .plain

mutual

/-- The number of starts and ends of nodes. -/
def size : Node → Nat
  | scalar _ _ _ => 1
  | reference _ => 1
  | sequence _ items => 2 + sizeOfItems items
  | mapping _ pairs => 2 + sizeOfPairs pairs

/-- The number of starts and ends of the nodes of a list. -/
def sizeOfItems : List Node → Nat
  | [] => 0
  | item :: items => item.size + sizeOfItems items

/-- The number of starts and ends of the nodes of a list of pairs. -/
def sizeOfPairs : List (Node × Node) → Nat
  | [] => 0
  | (key, value) :: pairs => key.size + value.size + sizeOfPairs pairs

end

end Node

/-- The anchors of a document. -/
structure Anchors where
  /-- The numbers of names. -/
  names : List (List Char × Nat)
  /-- The numbers of anchored nodes, in the order in which the nodes start. -/
  numbers : List Nat
  /-- The anchored nodes that are complete, by their place in that order. -/
  nodes : List (Nat × Node)
  deriving Repr, Inhabited

namespace Anchors

def none : Anchors := { names := [], numbers := [], nodes := [] }

/-- Starts a node with the anchor of a name. -/
def start (a : Anchors) (name : List Char) : Anchors :=
  let number := a.names.length
  { a with
    names := (name, number) :: a.names.filter fun entry => entry.1 ≠ name
    numbers := a.numbers ++ [number] }

/-- Completes the node that started at a place. -/
def complete (a : Anchors) (place : Nat) (node : Node) : Anchors :=
  { a with nodes := (place, node) :: a.nodes }

/-- The number that a name has. -/
def number? (a : Anchors) (name : List Char) : Option Nat :=
  a.names.lookup name

/-- The node that a number stands for: the last one that started with it. -/
def node? (a : Anchors) (number : Nat) : Option Node :=
  (a.numbers.zipIdx.reverse.lookup number).bind fun place => a.nodes.lookup place

end Anchors

/-- The handles of tags with what they stand for. -/
abbrev Handles := List (List Char × Tag)

/-- The handles of a document without directives. -/
def standardHandles : Handles :=
  [(['!'], charBytes '!'), (['!', '!'], "tag:yaml.org,2002:".toUTF8.toList)]

/-- The tag that is written, if its handle is known. -/
def TagText.resolve? (t : TagText) (handles : Handles) : Option Tag :=
  if t.handle.isEmpty then some t.suffix
  else (handles.lookup t.handle).map (· ++ t.suffix)

/-- What is left to read of a document. -/
structure Remainder where
  tokens : List Token
  anchors : Anchors
  deriving Repr

/-- A reader of a part of a document. -/
abbrev Reader (α : Type) := Remainder → Option (α × Remainder)

/-- The anchor and the tag in front of a node. -/
structure Properties where
  anchor : Option (List Char)
  tag : Option TagText
  deriving Repr

/-- Reads the anchor and the tag in front of a node, in either order. -/
def readProperties : List Token → Properties × List Token
  | .anchor name :: .tag t :: rest => ({ anchor := some name, tag := some t }, rest)
  | .tag t :: .anchor name :: rest => ({ anchor := some name, tag := some t }, rest)
  | .anchor name :: rest => ({ anchor := some name, tag := none }, rest)
  | .tag t :: rest => ({ anchor := none, tag := some t }, rest)
  | rest => ({ anchor := none, tag := none }, rest)

/-- Whether a part of a block is empty: the next token is one that ends it. -/
def endsPart (enders : List Token) : List Token → Bool
  | [] => false
  | t :: _ => enders.contains t

/-- The tag of a scalar.  The tag of one exclamation mark says nothing. -/
def scalarTag (tag : Option Tag) : Option Tag :=
  if tag = some (charBytes '!') then none else tag

/-- Where a node stands. -/
inductive Position where
  /-- In a block. -/
  | block
  /-- In a block mapping, where the entries of a sequence need no indentation. -/
  | blockPart
  /-- Between brackets. -/
  | flow
  deriving DecidableEq, Repr

section Reading

variable (handles : Handles)

mutual

/-- Reads a node.  The first number bounds the number of steps. -/
def readNode (position : Position) : Nat → Reader Node
  | 0, _ => none
  | fuel + 1, r =>
      match r.tokens with
      | .reference name :: rest =>
          (r.anchors.number? name).map fun number => (.reference number, { r with tokens := rest })
      | tokens =>
          let (properties, tokens) := readProperties tokens
          match properties.tag.mapM fun t => t.resolve? handles with
          | none => none
          | some tag =>
              match properties.anchor with
              | none => readContent position tag false fuel { r with tokens }
              | some name =>
                  let place := r.anchors.numbers.length
                  match readContent position tag true fuel
                      { tokens, anchors := r.anchors.start name } with
                  | none => none
                  | some (node, r) => some (node, { r with anchors := r.anchors.complete place node })

/-- Reads a node after its anchor and its tag. -/
def readContent (position : Position) (tag : Option Tag) (anchored : Bool) : Nat → Reader Node
  | 0, _ => none
  | fuel + 1, r =>
      match r.tokens with
      | .scalar text style :: rest =>
          some (.scalar (scalarTag tag) text style, { r with tokens := rest })
      | .flowSequenceStart :: rest =>
          (readFlowItems true fuel { r with tokens := rest }).map fun (items, r) =>
            (.sequence tag items, r)
      | .flowMappingStart :: rest =>
          (readFlowPairs true fuel { r with tokens := rest }).map fun (pairs, r) =>
            (.mapping tag pairs, r)
      | .blockEntry :: rest =>
          if position = .blockPart then
            (readBareItems fuel { r with tokens := .blockEntry :: rest }).map fun (items, r) =>
              (.sequence tag items, r)
          else readNothing tag anchored r
      | .blockSequenceStart :: rest =>
          if position = .flow then readNothing tag anchored r
          else
            (readBlockItems fuel { r with tokens := rest }).map fun (items, r) =>
              (.sequence tag items, r)
      | .blockMappingStart :: rest =>
          if position = .flow then readNothing tag anchored r
          else
            (readBlockPairs fuel { r with tokens := rest }).map fun (pairs, r) =>
              (.mapping tag pairs, r)
      | _ => readNothing tag anchored r

/-- The empty node, which needs an anchor or a tag. -/
def readNothing (tag : Option Tag) (anchored : Bool) : Reader Node := fun r =>
  if anchored || tag.isSome then some (.scalar tag [] .plain, r) else none

/-- Reads a part of a block or the empty node, if the next token is one of those that end it. -/
def readPart (position : Position) (enders : List Token) : Nat → Reader Node
  | 0, _ => none
  | fuel + 1, r => if endsPart enders r.tokens then some (.empty, r) else readNode position fuel r

/-- Reads the entries of an indented sequence up to its end. -/
def readBlockItems : Nat → Reader (List Node)
  | 0, _ => none
  | fuel + 1, r =>
      match r.tokens with
      | .blockEntry :: rest =>
          match readPart .block [.blockEntry, .blockEnd] fuel { r with tokens := rest } with
          | none => none
          | some (item, r) => (readBlockItems fuel r).map fun (items, r) => (item :: items, r)
      | .blockEnd :: rest => some ([], { r with tokens := rest })
      | _ => none

/-- Reads the entries of a sequence that is not indented. -/
def readBareItems : Nat → Reader (List Node)
  | 0, _ => none
  | fuel + 1, r =>
      match r.tokens with
      | .blockEntry :: rest =>
          match readPart .block [.blockEntry, .key, .value, .blockEnd] fuel
              { r with tokens := rest } with
          | none => none
          | some (item, r) => (readBareItems fuel r).map fun (items, r) => (item :: items, r)
      | _ => some ([], r)

/-- Reads the pairs of a block mapping up to its end. -/
def readBlockPairs : Nat → Reader (List (Node × Node))
  | 0, _ => none
  | fuel + 1, r =>
      match r.tokens with
      | .key :: rest =>
          match readPart .blockPart [.key, .value, .blockEnd] fuel { r with tokens := rest } with
          | none => none
          | some (key, r) =>
              match readValue .blockPart [.key, .value, .blockEnd] fuel r with
              | none => none
              | some (value, r) =>
                  (readBlockPairs fuel r).map fun (pairs, r) => ((key, value) :: pairs, r)
      | .blockEnd :: rest => some ([], { r with tokens := rest })
      | _ => none

/-- Reads what follows a key: a colon and a node, or nothing. -/
def readValue (position : Position) (enders : List Token) : Nat → Reader Node
  | 0, _ => none
  | fuel + 1, r =>
      match r.tokens with
      | .value :: rest => readPart position enders fuel { r with tokens := rest }
      | _ => some (.empty, r)

/-- Reads the entries of a sequence up to its closing bracket. -/
def readFlowItems (first : Bool) : Nat → Reader (List Node)
  | 0, _ => none
  | fuel + 1, r =>
      match r.tokens with
      | .flowSequenceEnd :: rest => some ([], { r with tokens := rest })
      | .flowEntry :: rest =>
          if first then none else readFlowItem fuel { r with tokens := rest }
      | _ => if first then readFlowItem fuel r else none

/-- Reads an entry of a sequence and those after it.  The entry may be a single pair. -/
def readFlowItem : Nat → Reader (List Node)
  | 0, _ => none
  | fuel + 1, r =>
      match r.tokens with
      | .flowSequenceEnd :: rest => some ([], { r with tokens := rest })
      | .key :: rest =>
          match readSinglePair fuel { r with tokens := rest } with
          | none => none
          | some (item, r) => (readFlowItems false fuel r).map fun (items, r) => (item :: items, r)
      | _ =>
          match readNode .flow fuel r with
          | none => none
          | some (item, r) => (readFlowItems false fuel r).map fun (items, r) => (item :: items, r)

/--
Reads a pair that stands as an entry of a sequence.  A token that follows the question mark in the
place of the key is lost.
-/
def readSinglePair : Nat → Reader Node
  | 0, _ => none
  | fuel + 1, r =>
      let key :=
        if endsPart [.value, .flowEntry, .flowSequenceEnd] r.tokens then
          some (.empty, { r with tokens := r.tokens.tail })
        else readNode .flow fuel r
      match key with
      | none => none
      | some (key, r) =>
          (readValue .flow [.flowEntry, .flowSequenceEnd] fuel r).map fun (value, r) =>
            (.mapping none [(key, value)], r)

/-- Reads the pairs of a mapping up to its closing bracket. -/
def readFlowPairs (first : Bool) : Nat → Reader (List (Node × Node))
  | 0, _ => none
  | fuel + 1, r =>
      match r.tokens with
      | .flowMappingEnd :: rest => some ([], { r with tokens := rest })
      | .flowEntry :: rest =>
          if first then none else readFlowPair fuel { r with tokens := rest }
      | _ => if first then readFlowPair fuel r else none

/-- Reads a pair of a mapping and those after it.  The pair may be a key alone. -/
def readFlowPair : Nat → Reader (List (Node × Node))
  | 0, _ => none
  | fuel + 1, r =>
      match r.tokens with
      | .flowMappingEnd :: rest => some ([], { r with tokens := rest })
      | .key :: rest =>
          match readPart .flow [.value, .flowEntry, .flowMappingEnd] fuel
              { r with tokens := rest } with
          | none => none
          | some (key, r) =>
              match readValue .flow [.flowEntry, .flowMappingEnd] fuel r with
              | none => none
              | some (value, r) =>
                  (readFlowPairs false fuel r).map fun (pairs, r) => ((key, value) :: pairs, r)
      | _ =>
          match readNode .flow fuel r with
          | none => none
          | some (key, r) =>
              (readFlowPairs false fuel r).map fun (pairs, r) => ((key, .empty) :: pairs, r)

end

end Reading

/-- A document: its node, unless nothing is written, and its anchors. -/
structure Document where
  root : Option Node
  anchors : Anchors
  deriving Repr

/-- What the directives of a document say. -/
structure Directives where
  hasVersion : Bool
  handles : Handles
  deriving Repr

/-- Reads directives.  Each version and each handle is set at most once. -/
def readDirectives (d : Directives) : List Token → Option (Directives × List Token)
  | .version major minor :: rest =>
      if d.hasVersion || major ≠ 1 || (minor ≠ 1 && minor ≠ 2) then none
      else readDirectives { d with hasVersion := true } rest
  | .tagHandle definition :: rest =>
      if (d.handles.lookup definition.handle).isSome then none
      else
        readDirectives
          { d with handles := (definition.handle, definition.suffix) :: d.handles } rest
  | rest => some (d, rest)

/-- Whether the next token starts a document with a mark or with directives. -/
def startsMarked : List Token → Bool
  | .version _ _ :: _ => true
  | .tagHandle _ :: _ => true
  | .documentStart :: _ => true
  | _ => false

/-- Whether the next token ends a document, or there is none. -/
def endsDocument (tokens : List Token) : Bool :=
  tokens.isEmpty || startsMarked tokens || tokens.head? = some .documentEnd

/-- Reads the node of a document. -/
def readRoot (handles : Handles) (tokens : List Token) : Option (Node × Remainder) :=
  readNode handles .block (6 * tokens.length + 6) { tokens, anchors := .none }

/-- Reads a document after its directives and its mark. -/
def readMarkedRoot (handles : Handles) (tokens : List Token) : Option (Node × Remainder) :=
  if endsDocument tokens then some (.empty, { tokens, anchors := .none })
  else readRoot handles tokens

/-- Reads a document that does not start at once with its end. -/
def readDocument (tokens : List Token) : Option (Node × Remainder) :=
  if startsMarked tokens then
    match readDirectives { hasVersion := false, handles := [] } tokens with
    | some (directives, .documentStart :: rest) =>
        readMarkedRoot (directives.handles ++ standardHandles) rest
    | _ => none
  else readRoot standardHandles tokens

/-- The single document of a text. -/
def document? (s : String) : Option Document :=
  match tokens? s with
  | none => none
  | some [] => some { root := none, anchors := .none }
  | some tokens =>
      match readDocument tokens with
      | none => none
      | some (root, r) =>
          if r.tokens.all (· = .documentEnd) then
            some { root := some root, anchors := r.anchors }
          else none

end Yaml
end TemplateModules
