import TemplateModules.Decimal.Nearest
import TemplateModules.Json.Value
import TemplateModules.Yaml.Node

/-!
# The values of scalars

A plain scalar without a tag is a null, a truth value, a number, or else a text.  A number with
needless zeros in front is a text.  Integers beyond 64 bits are refused as long as they have at
most 128 bits; larger ones are read as floating-point numbers.
-/

namespace TemplateModules
namespace Yaml

def isNullWord (cs : List Char) : Bool :=
  ["null", "Null", "NULL", "~"].contains (String.ofList cs)

/-- The truth value that a scalar is a word for. -/
def boolWord? (cs : List Char) : Option Bool :=
  if ["true", "True", "TRUE"].contains (String.ofList cs) then some true
  else if ["false", "False", "FALSE"].contains (String.ofList cs) then some false
  else none

/-- The number that digits of a base stand for. -/
def baseNumber? (base : Nat) (cs : List Char) : Option Nat :=
  if cs.isEmpty then none
  else
    cs.foldl
      (fun n c =>
        match n, hexValue? c with
        | some n, some d => if d < base then some (base * n + d) else none
        | _, _ => none)
      (some 0)

/-- Whether digits start with a needless zero. -/
def hasNeedlessZero (cs : List Char) : Bool :=
  1 < cs.length && cs.head? = some '0' && cs.all Char.isDigit

/-- The integer without a sign that a text is. -/
def natural? : List Char → Option Nat
  | '0' :: 'x' :: cs => baseNumber? 16 cs
  | '0' :: 'o' :: cs => baseNumber? 8 cs
  | '0' :: 'b' :: cs => baseNumber? 2 cs
  | cs => if hasNeedlessZero cs then none else baseNumber? 10 cs

/-- The integer that a text is. -/
def integer? (cs : List Char) : Option Int :=
  let (negative, cs) := Decimal.splitSign cs
  (natural? cs).map fun n => if negative then -(n : Int) else n

/-- Whether an integer can be written with a number of bits, with or without a sign. -/
def fitsBits (bits : Nat) (n : Int) : Bool :=
  -(Nat.pow 2 (bits - 1) : Int) ≤ n && n < (Nat.pow 2 bits : Int)

/-- The value of an integer, or nothing if it is beyond 64 bits. -/
def integerValue? (n : Int) : Option Json :=
  if fitsBits 64 n then some (.number (.int n)) else none

/-- The value of a floating-point number.  Infinities and what is no number become null. -/
def floatValue? (cs : List Char) : Option Json :=
  let positive := if cs.head? = some '+' then cs.tail else cs
  let word := String.ofList cs
  if [".inf", ".Inf", ".INF"].contains (String.ofList positive) ||
      ["-.inf", "-.Inf", "-.INF", ".nan", ".NaN", ".NAN"].contains word then some .null
  else (Decimal.read? cs).map fun x => .number (.float x)

/-- The value of a plain scalar without a tag. -/
def plainValue? (cs : List Char) : Option Json :=
  let text : Json := .text (String.ofList cs)
  if cs.isEmpty || isNullWord cs then some .null
  else
    match boolWord? cs with
    | some b => some (.bool b)
    | none =>
        match integer? cs with
        | some n => if fitsBits 128 n then integerValue? n else some ((floatValue? cs).getD text)
        | none =>
            if hasNeedlessZero (Decimal.splitSign cs).2 then some text
            else some ((floatValue? cs).getD text)

/-- A tag of the standard handle. -/
def standardTag (name : String) : Tag :=
  ("tag:yaml.org,2002:" ++ name).toUTF8.toList

/-- Whether a tag starts with an exclamation mark. -/
def isLocalTag (tag : Tag) : Bool :=
  tag.head? = some 0x21

/-- Whether a tag asks for a type of its own. -/
def asksForType (tag : Option Tag) : Bool :=
  match tag with
  | some tag => isLocalTag tag && (String.fromUTF8? ⟨tag.tail.toArray⟩).isSome
  | none => false

def scalarValue (tag : Option Tag) (cs : List Char) (style : Style) : Option Json :=
  let untagged : Option Json :=
    if style = .plain then plainValue? cs else some (.text (String.ofList cs))
  match tag with
  | none => untagged
  | some tag =>
      if asksForType (some tag) then none
      else if tag = standardTag "bool" then (boolWord? cs).map .bool
      else if tag = standardTag "int" then (integer? cs).bind integerValue?
      else if tag = standardTag "float" then floatValue? cs
      else if tag = standardTag "null" then if isNullWord cs then some .null else none
      else if isLocalTag tag then untagged
      else some (.text (String.ofList cs))

/-- The truth value of a scalar, which is plain or a tagged literal. -/
def scalarBool? (tag : Option Tag) (cs : List Char) (style : Style) : Option Bool :=
  if style = .plain ∨ (style = .literal ∧ tag = some (standardTag "bool")) then boolWord? cs
  else none

end Yaml
end TemplateModules
