import TemplateModules.Yaml.Quoted
import TemplateModules.Yaml.Token

/-!
# Tags and directives

A tag is written with a handle, or as a whole between angle brackets.  A directive stands in front
of a document and sets its version, or what a handle stands for.
-/

namespace TemplateModules
namespace Yaml

/-- Whether a character may stand in a tag as it is. -/
def isTagChar (c : Char) : Bool :=
  isNameChar c || ";/?:@&=+$.!~*'()".toList.contains c

/-- Whether a character may stand in a whole tag, but not in one with a handle. -/
def isWholeTagChar (c : Char) : Bool :=
  c = ',' || c = '[' || c = ']'

/-- The bytes of a character. -/
def charBytes (c : Char) : List UInt8 :=
  (String.singleton c).toUTF8.toList

/-- The number of bytes of a character that starts with a byte. -/
def byteCount? (b : Nat) : Option Nat :=
  if b < 0x80 then some 1
  else if 0xc0 ≤ b ∧ b < 0xe0 then some 2
  else if 0xe0 ≤ b ∧ b < 0xf0 then some 3
  else if 0xf0 ≤ b ∧ b < 0xf8 then some 4
  else none

/-- Reads a byte written as a percent sign and two hexadecimal digits. -/
def readEscapedByte : List Char → Option (Nat × List Char)
  | '%' :: a :: b :: cs => (hexNumber? 0 [a, b]).map fun n => (n, cs)
  | _ => none

/-- Reads a number of bytes that continue a character. -/
def readLaterBytes : Nat → List Char → Option (List UInt8 × List Char)
  | 0, cs => some ([], cs)
  | n + 1, cs =>
      match readEscapedByte cs with
      | none => none
      | some (b, cs) =>
          if 0x80 ≤ b ∧ b < 0xc0 then
            (readLaterBytes n cs).map fun (bs, cs) => (b.toUInt8 :: bs, cs)
          else none

/-- Reads the bytes of one character. -/
def readEscapedChar (cs : List Char) : Option (List UInt8 × List Char) :=
  match readEscapedByte cs with
  | none => none
  | some (b, cs) =>
      (byteCount? b).bind fun n =>
        (readLaterBytes (n - 1) cs).map fun (bs, cs) => (b.toUInt8 :: bs, cs)

/-- Reads the characters of a tag.  The second argument bounds their number. -/
def readTagChars (whole : Bool) : Nat → List Char → Option (List UInt8 × List Char)
  | 0, _ => none
  | _ + 1, [] => some ([], [])
  | fuel + 1, c :: cs =>
      if c = '%' then
        match readEscapedChar (c :: cs) with
        | none => none
        | some (bytes, cs) =>
            (readTagChars whole fuel cs).map fun (more, cs) => (bytes ++ more, cs)
      else if isTagChar c || (whole && isWholeTagChar c) then
        (readTagChars whole fuel cs).map fun (more, cs) => (charBytes c ++ more, cs)
      else some ([], c :: cs)

/-- The bytes before the first zero, which ends a tag. -/
def beforeZero (bytes : List UInt8) : List UInt8 :=
  bytes.takeWhile (· ≠ 0)

/-- Reads the characters of a tag, which are at least one. -/
def readTagText (whole : Bool) (cs : List Char) : Option (List UInt8 × List Char) :=
  match readTagChars whole (cs.length + 1) cs with
  | some (bytes, rest) => if bytes.isEmpty then none else some (beforeZero bytes, rest)
  | none => none

/-- Reads a handle: names between exclamation marks, or what may be the start of a tag. -/
def readHandle : List Char → Option (List Char × List Char)
  | '!' :: cs =>
      let name := cs.takeWhile isNameChar
      match cs.dropWhile isNameChar with
      | '!' :: rest => some ('!' :: name ++ ['!'], rest)
      | rest => some ('!' :: name, rest)
  | _ => none

/-- Whether a handle has an exclamation mark at both ends. -/
def isFullHandle (handle : List Char) : Bool :=
  handle.length ≥ 2 && handle.getLast? = some '!'

def readTag : List Char → Option (TagText × List Char)
  | '!' :: '<' :: cs =>
      match readTagText true cs with
      | some (suffix, '>' :: rest) => some ({ handle := [], suffix }, rest)
      | _ => none
  | cs =>
      match readHandle cs with
      | none => none
      | some (handle, rest) =>
          if isFullHandle handle then
            (readTagText false rest).map fun (suffix, rest) => ({ handle, suffix }, rest)
          else
            (readTagChars false (rest.length + 1) rest).map fun (bytes, rest) =>
              let suffix := beforeZero (handle.tail.flatMap charBytes ++ bytes)
              if suffix.isEmpty then ({ handle := [], suffix := charBytes '!' }, rest)
              else ({ handle := ['!'], suffix }, rest)

/-- The most digits of a part of a version. -/
def maxVersionDigits : Nat := 9

def readVersionPart (cs : List Char) : Option (Nat × List Char) :=
  let digits := cs.takeWhile Char.isDigit
  if digits.isEmpty || maxVersionDigits < digits.length then none
  else some (digits.foldl (fun n c => 10 * n + (c.toNat - 0x30)) 0, cs.dropWhile Char.isDigit)

def readVersion (cs : List Char) : Option (Token × List Char) :=
  match readVersionPart (cs.dropWhile isSpace) with
  | some (major, '.' :: cs) =>
      (readVersionPart cs).map fun (minor, cs) => (.version major minor, cs)
  | _ => none

/-- Reads what a handle stands for. -/
def readTagHandle (cs : List Char) : Option (Token × List Char) :=
  match readHandle (cs.dropWhile isSpace) with
  | none => none
  | some (handle, cs) =>
      if (handle = ['!'] || isFullHandle handle) && startsWithSpace cs then
        match readTagText true (cs.dropWhile isSpace) with
        | some (suffix, rest) =>
            if startsGap rest then some (.tagHandle { handle, suffix }, rest) else none
        | none => none
      else none
where
  /-- Whether a text starts with a space or a tab. -/
  startsWithSpace : List Char → Bool
    | c :: _ => isSpace c
    | [] => false

/-- Reads a directive after its percent sign, up to the end of its line. -/
def readDirective (cs : List Char) : Option (Token × List Char) :=
  let name := cs.takeWhile isNameChar
  let rest := cs.dropWhile isNameChar
  if name.isEmpty || !startsGap rest then none
  else if name = "YAML".toList then readVersion rest
  else if name = "TAG".toList then readTagHandle rest
  else none

end Yaml
end TemplateModules
