import TemplateModules.Decimal.Shortest
import TemplateModules.Text.Quoted

/-!
# JSON values

Values of JSON, with the fields of an object in the order of their first appearance, and their
text without spaces.
-/

namespace TemplateModules

/-- A number: an integer of 64 bits, with or without a sign, or a binary floating-point number. -/
inductive JsonNumber where
  | int (n : Int)
  | float (x : Decimal.Binary64)
  deriving DecidableEq, Repr

namespace JsonNumber

def text : JsonNumber → String
  | int n => toString n
  | float x => Decimal.text x

end JsonNumber

/-- A list of pairs with each key once, in the order in which the keys came. -/
abbrev Fields (α : Type) := List (String × α)

namespace Fields

/-- Gives a key a value: in its place if it has one, at the end if it is new. -/
def insert {α : Type} (fields : Fields α) (key : String) (value : α) : Fields α :=
  match fields with
  | [] => [(key, value)]
  | (k, v) :: rest => if k = key then (k, value) :: rest else (k, v) :: insert rest key value

/-- The value of a key. -/
def get? {α : Type} (fields : Fields α) (key : String) : Option α :=
  match fields with
  | [] => none
  | (k, v) :: rest => if k = key then some v else get? rest key

/-- The fields that a list of pairs stands for: of equal keys the first place and the last value. -/
def ofPairs {α : Type} (pairs : List (String × α)) : Fields α :=
  pairs.foldl (fun fields (key, value) => insert fields key value) []

/-- The keys in their order. -/
def keys {α : Type} (fields : Fields α) : List String :=
  fields.map Prod.fst

end Fields

inductive Json where
  | null
  | bool (b : Bool)
  | number (n : JsonNumber)
  | text (s : String)
  | list (items : List Json)
  | object (fields : List (String × Json))
  deriving Repr, Inhabited

namespace Json

/-- Whether a value is the truth value `true`. -/
def isTrue : Json → Bool
  | bool b => b
  | _ => false

mutual

/-- The text of a value, without spaces. -/
def write : Json → String
  | null => "null"
  | bool b => if b then "true" else "false"
  | number n => n.text
  | text s => Text.quoted s
  | list items => "[" ++ writeItems items ++ "]"
  | object fields => "\x7b" ++ writeFields fields ++ "\x7d"

/-- The texts of values, with commas between them. -/
def writeItems : List Json → String
  | [] => ""
  | [v] => v.write
  | v :: vs => v.write ++ "," ++ writeItems vs

/-- The texts of fields, with commas between them. -/
def writeFields : List (String × Json) → String
  | [] => ""
  | [(key, v)] => Text.quoted key ++ ":" ++ v.write
  | (key, v) :: fields => Text.quoted key ++ ":" ++ v.write ++ "," ++ writeFields fields

end

/-- A list of texts. -/
def texts (items : List String) : Json :=
  list (items.map text)

/-- An object with texts as values. -/
def textFields (fields : List (String × String)) : Json :=
  object (fields.map fun (key, value) => (key, text value))

end Json
end TemplateModules
