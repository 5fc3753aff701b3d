import TemplateModules.Yaml.Scalar

/-!
# The values of nodes

Aliases are followed where a value is read.  Since an alias may stand inside the node that it
stands for, the nesting of values is bounded, and so is the number of aliases that are followed.
-/

namespace TemplateModules
namespace Yaml

/-- What the reading of a document needs to know. -/
structure Decoder where
  anchors : Anchors
  /-- How many aliases may be followed. -/
  limit : Nat
  deriving Repr

/-- A reading with the number of aliases that have been followed. -/
abbrev Decode (α : Type) := StateT Nat Option α

namespace Decoder

/-- How many aliases may be followed for each start and end of a node. -/
def aliasesPerNode : Nat := 100

/-- How deep values may be nested. -/
def maxDepth : Nat := 128

def ofDocument (d : Document) : Decoder where
  anchors := d.anchors
  limit := aliasesPerNode * ((d.root.map Node.size).getD 1)

/-- The node itself, or the one that it is an alias of. -/
def follow (d : Decoder) (node : Node) : Decode Node := fun followed =>
  match node with
  | .reference number =>
      if d.limit ≤ followed then none
      else (d.anchors.node? number).map fun target => (target, followed + 1)
  | node => some (node, followed)

/-- The text of a scalar. -/
def text (d : Decoder) (node : Node) : Decode String := do
  match ← d.follow node with
  | .scalar _ text _ => return String.ofList text
  | _ => failure

/-- The truth value of a scalar. -/
def bool (d : Decoder) (node : Node) : Decode Bool := do
  match ← d.follow node with
  | .scalar tag text style => (scalarBool? tag text style : Option Bool)
  | _ => failure

/-- Whether a node stands for nothing: it is a plain scalar without text. -/
def isNothing : Node → Bool
  | .scalar _ text style => text.isEmpty && style = .plain
  | _ => false

/-- The items of a sequence. -/
def items (d : Decoder) (node : Node) : Decode (List Node) := do
  match ← d.follow node with
  | .sequence _ items => return items
  | node => if isNothing node then return [] else failure

/-- The pairs of a mapping. -/
def pairs (d : Decoder) (node : Node) : Decode (List (Node × Node)) := do
  match ← d.follow node with
  | .mapping _ pairs => return pairs
  | node => if isNothing node then return [] else failure

/-- The texts of a sequence. -/
def texts (d : Decoder) (node : Node) : Decode (List String) := do
  (← d.items node).mapM d.text

/-- The texts of a mapping. -/
def textFields (d : Decoder) (node : Node) : Decode (Fields String) := do
  let entries ← (← d.pairs node).mapM fun (key, value) => do
    let key ← d.text key
    let value ← d.text value
    return (key, value)
  return Fields.ofPairs entries

mutual

/-- The value of a node whose sequences and mappings are nested at most `depth` deep. -/
def value (d : Decoder) (depth : Nat) (node : Node) : Decode Json := do
  match ← d.follow node with
  | .scalar tag text style => (scalarValue tag text style : Option Json)
  | .reference _ => failure
  | .sequence tag items =>
      if asksForType tag then failure
      else
        match depth with
        | 0 => failure
        | depth + 1 => return .list (← d.values depth items)
  | .mapping tag pairs =>
      if asksForType tag then failure
      else
        match depth with
        | 0 => failure
        | depth + 1 => return .object (Fields.ofPairs (← d.fields depth pairs))
termination_by (depth, 0)

/-- The values of nodes. -/
def values (d : Decoder) (depth : Nat) (items : List Node) : Decode (List Json) :=
  match items with
  | [] => return []
  | item :: items => do
      let v ← d.value depth item
      let vs ← d.values depth items
      return v :: vs
termination_by (depth, items.length + 1)

/-- The fields that pairs of nodes are, with repetitions. -/
def fields (d : Decoder) (depth : Nat) (pairs : List (Node × Node)) :
    Decode (List (String × Json)) :=
  match pairs with
  | [] => return []
  | (key, item) :: pairs => do
      let key ← d.text key
      let v ← d.value depth item
      let rest ← d.fields depth pairs
      return (key, v) :: rest
termination_by (depth, pairs.length + 1)

end

/-- The fields of a mapping. -/
def object (d : Decoder) (depth : Nat) (node : Node) : Decode (Fields Json) := do
  match depth with
  | 0 => failure
  | depth + 1 => return Fields.ofPairs (← d.fields depth (← d.pairs node))

end Decoder
end Yaml
end TemplateModules
