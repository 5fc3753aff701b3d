import TemplateModules.Json.Value

/-!
# JSON as it is written

Reading JSON has two stages.  The first knows the grammar only: it keeps the fields that an object
repeats, and leaves a gap where a number is out of range or half of a surrogate pair stands alone.
The second, `Written.value?`, refuses such gaps and nesting that is too deep.  Parts of a document
that nobody asks for need to pass the first stage only.
-/

namespace TemplateModules

/-- A JSON document as it is written. -/
inductive Written where
  | null
  | bool (b : Bool)
  /-- The gap is a number that is out of range. -/
  | number (n : Option JsonNumber)
  /-- The gap is a text with half of a surrogate pair. -/
  | text (s : Option String)
  | list (items : List Written)
  /-- Fields in the order in which they are written, with repetitions. -/
  | object (fields : List (Option String × Written))
  deriving Repr, Inhabited

namespace Written

/-- The largest integer that is kept exactly. -/
def maxNatural : Nat := Nat.pow 2 64 - 1

/-- Drops blank characters of JSON. -/
def skipBlanks : List Char → List Char
  | c :: cs =>
      if c = ' ' ∨ c = '\n' ∨ c = '\t' ∨ c = '\r' then skipBlanks cs else c :: cs
  | [] => []

/-- The digits at the front of a text, and what follows them. -/
def takeDigits (cs : List Char) : List Nat × List Char :=
  let (digits, rest) := cs.span fun c => '0' ≤ c && c ≤ '9'
  (digits.map fun c => c.toNat - 0x30, rest)

/--
Appends digits to a number while the result is at most `maxNatural`; also gives the number of
digits that are left over.
-/
def appendDigits : Nat → List Nat → Nat × Nat
  | n, [] => (n, 0)
  | n, d :: ds =>
      if maxNatural < n * 10 + d then (n, ds.length + 1) else appendDigits (n * 10 + d) ds

/-- Divides by a power of ten, in steps of at most `10 ^ 308`. -/
def scaleDown (x : Decimal.Binary64) (power : Nat) : Option Decimal.Binary64 :=
  if power ≤ 308 then (Decimal.Binary64.powerOfTen power).bind x.div
  else if x.isZero then some x
  else
    (Decimal.Binary64.powerOfTen 308).bind fun ten =>
      (x.div ten).bind fun y => scaleDown y (power - 308)
termination_by power

/--
The floating-point number `significand * 10 ^ power`.  The significand and the power of ten are
rounded before they are multiplied or divided.
-/
def floatOfParts (significand : Nat) (power : Int) : Option Decimal.Binary64 :=
  (Decimal.Binary64.ofRatio significand 1).bind fun x =>
    if power < 0 then scaleDown x (-power).toNat
    else if power ≤ 308 then (Decimal.Binary64.powerOfTen power.toNat).bind x.mul
    else if x.isZero then some x
    else none

/-- The number with an integer part only, without its sign. -/
def integer (negative : Bool) (n : Nat) : Option JsonNumber :=
  if negative then
    if 0 < n ∧ n ≤ Nat.pow 2 63 then some (.int (-n))
    else (Decimal.Binary64.ofRatio n 1).map fun x => .float (x.withSign true)
  else some (.int n)

/-- The power of ten that an exponent stands for, and what follows it. -/
def readPower : List Char → Option (Int × List Char)
  | c :: cs =>
      if c = 'e' ∨ c = 'E' then
        let (negative, cs) :=
          match cs with
          | '+' :: cs => (false, cs)
          | '-' :: cs => (true, cs)
          | cs => (false, cs)
        let (digits, rest) := takeDigits cs
        if digits.isEmpty then none
        else
          let power : Nat := digits.foldl (fun n d => n * 10 + d) 0
          some (if negative then -(power : Int) else power, rest)
      else some (0, c :: cs)
  | [] => some (0, [])

/-- Reads a number after its sign. -/
def readNumber (negative : Bool) (cs : List Char) : Option (Written × List Char) :=
  let (whole, rest) := takeDigits cs
  match whole with
  | [] => none
  | 0 :: _ :: _ => none
  | _ =>
      let (significand, dropped) := appendDigits 0 whole
      let signed (x : Option Decimal.Binary64) : Written :=
        .number (x.map fun x => .float (x.withSign negative))
      match rest with
      | '.' :: afterPoint =>
          let (fraction, rest) := takeDigits afterPoint
          if fraction.isEmpty then none
          else
            let (significand, cutOff) := appendDigits significand fraction
            let shift : Int := dropped - (fraction.length - cutOff : Nat)
            (readPower rest).map fun (power, rest) =>
              (signed (floatOfParts significand (shift + power)), rest)
      | c :: _ =>
          if c = 'e' ∨ c = 'E' then
            (readPower rest).map fun (power, rest) =>
              (signed (floatOfParts significand (dropped + power)), rest)
          else if dropped = 0 then some (.number (integer negative significand), rest)
          else some (signed (floatOfParts significand dropped), rest)
      | [] =>
          if dropped = 0 then some (.number (integer negative significand), [])
          else some (signed (floatOfParts significand dropped), [])

/-- Reads the rest of a text after its opening quote. -/
def readText (cs : List Char) : Option (Option String × List Char) :=
  (Text.unquoteUnits cs).map fun (units, rest) =>
    ((Text.joinUnits units).map String.ofList, rest)

mutual

/-- Reads a value.  The first argument bounds the number of steps. -/
def readValue : Nat → List Char → Option (Written × List Char)
  | 0, _ => none
  | fuel + 1, cs =>
      match skipBlanks cs with
      | '"' :: rest => (readText rest).map fun (s, rest) => (.text s, rest)
      | '[' :: rest =>
          match skipBlanks rest with
          | ']' :: rest => some (.list [], rest)
          | rest => (readItems fuel rest).map fun (items, rest) => (.list items, rest)
      | '\x7b' :: rest =>
          match skipBlanks rest with
          | '\x7d' :: rest => some (.object [], rest)
          | rest => (readFields fuel rest).map fun (fields, rest) => (.object fields, rest)
      | 'n' :: 'u' :: 'l' :: 'l' :: rest => some (.null, rest)
      | 't' :: 'r' :: 'u' :: 'e' :: rest => some (.bool true, rest)
      | 'f' :: 'a' :: 'l' :: 's' :: 'e' :: rest => some (.bool false, rest)
      | '-' :: rest => readNumber true rest
      | rest => readNumber false rest

/-- Reads the items of a list up to its closing bracket. -/
def readItems : Nat → List Char → Option (List Written × List Char)
  | 0, _ => none
  | fuel + 1, cs =>
      match readValue fuel cs with
      | none => none
      | some (item, rest) =>
          match skipBlanks rest with
          | ',' :: rest => (readItems fuel rest).map fun (items, rest) => (item :: items, rest)
          | ']' :: rest => some ([item], rest)
          | _ => none

/-- Reads the fields of an object up to its closing brace. -/
def readFields : Nat → List Char → Option (List (Option String × Written) × List Char)
  | 0, _ => none
  | fuel + 1, cs =>
      match skipBlanks cs with
      | '"' :: rest =>
          match readText rest with
          | none => none
          | some (key, rest) =>
              match skipBlanks rest with
              | ':' :: rest =>
                  match readValue fuel rest with
                  | none => none
                  | some (value, rest) =>
                      match skipBlanks rest with
                      | ',' :: rest =>
                          (readFields fuel rest).map fun (fields, rest) =>
                            ((key, value) :: fields, rest)
                      | '\x7d' :: rest => some ([(key, value)], rest)
                      | _ => none
              | _ => none
      | _ => none

end

/-- The document that a text is. -/
def read? (s : String) : Option Written :=
  let cs := s.toList
  match readValue (2 * cs.length + 2) cs with
  | some (document, rest) => if (skipBlanks rest).isEmpty then some document else none
  | none => none

/-- The deepest nesting of lists and objects. -/
def maxDepth : Nat := 127

mutual

/-- The value of a document whose lists and objects are nested at most `depth` deep. -/
def valueWithin? : Nat → Written → Option Json
  | _, null => some .null
  | _, bool b => some (.bool b)
  | _, number n => n.map .number
  | _, text s => s.map .text
  | 0, list _ => none
  | 0, object _ => none
  | depth + 1, list items => (itemsWithin? depth items).map .list
  | depth + 1, object fields =>
      (fieldsWithin? depth fields).map fun pairs => .object (Fields.ofPairs pairs)

/-- The values of the items of a list. -/
def itemsWithin? : Nat → List Written → Option (List Json)
  | _, [] => some []
  | depth, item :: items =>
      match valueWithin? depth item, itemsWithin? depth items with
      | some v, some vs => some (v :: vs)
      | _, _ => none

/-- The values of the fields of an object, with repetitions. -/
def fieldsWithin? : Nat → List (Option String × Written) → Option (List (String × Json))
  | _, [] => some []
  | depth, (key, item) :: fields =>
      match key, valueWithin? depth item, fieldsWithin? depth fields with
      | some key, some v, some vs => some ((key, v) :: vs)
      | _, _, _ => none

end

/-- The value of a document. -/
def value? (document : Written) : Option Json :=
  valueWithin? maxDepth document

end Written

/-- The value that a text stands for. -/
def Json.read? (s : String) : Option Json :=
  (Written.read? s).bind Written.value?

end TemplateModules
