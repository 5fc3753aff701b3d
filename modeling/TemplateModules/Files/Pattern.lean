import TemplateModules.Files.Listing

/-!
# Patterns of paths

In a pattern a question mark stands for one character, a star for any number of them, and brackets
for one of some characters.  None of them stands for a slash, since each part of a pattern is held
against one name; two stars as a part stand for any number of directories.
-/

namespace TemplateModules

/-- Characters from one to another. -/
structure CharRange where
  first : Char
  last : Char
  deriving DecidableEq, Repr

/-- What a pattern asks for. -/
inductive PatternItem where
  | char (c : Char)
  | anyChar
  | anyText
  /-- Any number of directories. -/
  | anyDirectories
  | oneOf (ranges : List CharRange)
  | noneOf (ranges : List CharRange)
  deriving DecidableEq, Repr

/-- Why a pattern is refused. -/
inductive PatternFault where
  /-- There are three stars or more. -/
  | tooManyStars
  /-- Two stars are only a part of a name. -/
  | partialStars
  /-- Brackets are not closed, or there is nothing between them. -/
  | openBracket
  deriving DecidableEq, Repr

/-- An error of a pattern with its place, counted in characters. -/
structure PatternError where
  fault : PatternFault
  place : Nat
  deriving DecidableEq, Repr

namespace PatternError

/-- The text of an error. -/
def message (e : PatternError) : String :=
  let text :=
    match e.fault with
    | .tooManyStars => "wildcards are either regular \u0060*\u0060 or recursive \u0060**\u0060"
    | .partialStars => "recursive wildcards must form a single path component"
    | .openBracket => "invalid range pattern"
  "Pattern syntax error near position " ++ toString e.place ++ ": " ++ text

end PatternError

/-- A pattern, or a part of one. -/
structure Pattern where
  items : List PatternItem
  deriving DecidableEq, Repr

namespace Pattern

/-- The ranges that the characters between brackets stand for. -/
def readRanges : List Char → List CharRange
  | a :: '-' :: b :: cs => { first := a, last := b } :: readRanges cs
  | c :: cs => { first := c, last := c } :: readRanges cs
  | [] => []

/-- The text before and after the first closing bracket that is not the first character. -/
def splitBracket : List Char → Option (List Char × List Char)
  | [] => none
  | c :: cs =>
      match cs.dropWhile (· ≠ ']') with
      | [] => none
      | _ :: rest => some (c :: cs.takeWhile (· ≠ ']'), rest)

/-- Reads what stands after an opening bracket. -/
def readBracket : List Char → Option (PatternItem × List Char)
  | '!' :: cs => (splitBracket cs).map fun (body, rest) => (.noneOf (readRanges body), rest)
  | cs => (splitBracket cs).map fun (body, rest) => (.oneOf (readRanges body), rest)

/-- Whether two stars may stand between what is before and after them. -/
def starsFault? (previous : Option Char) (place : Nat) (after : List Char) :
    Option PatternError :=
  if previous.isSome ∧ previous ≠ some '/' then
    some { fault := .partialStars, place := place - 1 }
  else if after.isEmpty ∨ after.head? = some '/' then none
  else some { fault := .partialStars, place := place + 2 }

/--
Reads a pattern, given the character before it and its place.  The first argument bounds the number
of items.
-/
def readItems : Nat → Option Char → Nat → List Char → Except PatternError (List PatternItem)
  | 0, _, _, _ => .ok []
  | _ + 1, _, _, [] => .ok []
  | fuel + 1, previous, place, c :: cs =>
      if c = '?' then (readItems fuel (some c) (place + 1) cs).map (.anyChar :: ·)
      else if c = '*' then
        let stars := 1 + (cs.takeWhile (· = '*')).length
        let after := cs.dropWhile (· = '*')
        if 2 < stars then .error { fault := .tooManyStars, place := place + 2 }
        else if stars = 2 then
          match starsFault? previous place after with
          | some e => .error e
          | none =>
              (readItems fuel (some '/') (place + 2 + min 1 after.length) after.tail).map
                (.anyDirectories :: ·)
        else (readItems fuel (some c) (place + 1) cs).map (.anyText :: ·)
      else if c = '[' then
        match readBracket cs with
        | none => .error { fault := .openBracket, place }
        | some (item, rest) =>
            (readItems fuel (some ']') (place + 1 + (cs.length - rest.length)) rest).map
              (item :: ·)
      else (readItems fuel (some c) (place + 1) cs).map (.char c :: ·)

/-- The pattern that a text stands for. -/
def read (cs : List Char) : Except PatternError Pattern :=
  (readItems cs.length none 0 cs).map fun items => { items }

/-- Whether a pattern stands for any number of directories. -/
def isRecursive (p : Pattern) : Bool :=
  p.items.contains .anyDirectories

/-- Whether ranges hold a character. -/
def inRanges (ranges : List CharRange) (c : Char) : Bool :=
  ranges.any fun r => r.first ≤ c && c ≤ r.last

/-- Whether a text holds an ending for which a condition is true. -/
def anyEnding (f : List Char → Bool) : List Char → Bool
  | [] => f []
  | c :: cs => f (c :: cs) || anyEnding f cs

/-- Whether items stand for a text. -/
def matchesItems : List PatternItem → List Char → Bool
  | [], cs => cs.isEmpty
  | .anyText :: items, cs => anyEnding (matchesItems items) cs
  | .anyDirectories :: items, cs => anyEnding (matchesItems items) cs
  | _ :: _, [] => false
  | .char d :: items, c :: cs => c = d && matchesItems items cs
  | .anyChar :: items, _ :: cs => matchesItems items cs
  | .oneOf ranges :: items, c :: cs => inRanges ranges c && matchesItems items cs
  | .noneOf ranges :: items, c :: cs => !inRanges ranges c && matchesItems items cs

/-- Whether a pattern stands for a name. -/
def accepts (p : Pattern) (name : String) : Bool :=
  matchesItems p.items name.toList

/-- The characters of items that stand for one text only. -/
def literalItems? : List PatternItem → Option (List Char)
  | [] => some []
  | .char c :: items => (literalItems? items).map (c :: ·)
  | _ :: _ => none

/-- The only text that a pattern stands for, if there is only one. -/
def literal? (p : Pattern) : Option String :=
  (literalItems? p.items).map String.ofList

end Pattern

/-- A pattern of paths: where it starts, and a pattern for each part. -/
structure PathPattern where
  /-- The pattern starts at the root. -/
  absolute : Bool
  parts : List Pattern
  /-- The pattern ends in a slash and stands for directories only. -/
  directoriesOnly : Bool
  deriving DecidableEq, Repr

namespace PathPattern

/-- The parts of a text between its slashes, without an empty part at the end. -/
def splitParts (cs : List Char) : List (List Char) :=
  let parts := FilePath.splitSlashes cs
  if parts.getLast? = some [] then parts.dropLast else parts

/-- The pattern of paths that a text stands for.  The text as a whole must be a pattern too. -/
def read (text : String) : Except PatternError PathPattern :=
  let cs := text.toList
  match Pattern.read cs with
  | .error e => .error e
  | .ok _ =>
      let absolute := cs.head? = some '/'
      let rest := if absolute then cs.tail else cs
      let parts := if rest.isEmpty then [[]] else splitParts rest
      (parts.mapM Pattern.read).map fun parts =>
        { absolute, parts, directoriesOnly := cs.getLast? = some '/' }

/-- A directory as it is written in front of names.  The current directory is left out. -/
def base (directory : FilePath) : FilePath :=
  if directory.text = "." then { text := "" } else directory

/-- The path of names in a directory. -/
def enter (directory : FilePath) (names : List String) : FilePath :=
  (base directory).below names

/-- Whether a name stands for the directory itself or the one around it. -/
def isPoints (name : String) : Bool :=
  name = "." || name = ".."

/-- The names of points that a part of a pattern stands for, which must start with a point. -/
def points (p : Pattern) : List String :=
  if p.items.head? = some (.char '.') then [".", ".."].filter p.accepts else []

/-- The paths below a directory that the parts of a pattern stand for. -/
def expandParts (l : Listing) (here : Location) (directory : FilePath)
    (parts : List Pattern) : List FilePath :=
  match parts with
  | [] => [directory]
  | part :: rest =>
      match part.literal? with
      | some name =>
          let path := enter directory [name]
          let found :=
            if isPoints name then (l.directory? here directory).isSome else l.contains here path
          if found then expandParts l here path rest else []
      | none =>
          match l.directory? here directory with
          | none => []
          | some location =>
              if part.isRecursive then
                match hrest : rest.dropWhile Pattern.isRecursive with
                | [] =>
                    (l.openBelow (base directory) location).filterMap fun (names, kind) =>
                      if kind = .directory then some (enter directory names) else none
                | next :: rest' =>
                    (l.openBelow (base directory) location).flatMap fun (names, _) =>
                      if (names.getLast?.map next.accepts).getD false then
                        have : rest'.length < rest.length := by
                          have := (List.dropWhile_suffix (l := rest) Pattern.isRecursive).length_le
                          rw [hrest] at this
                          simp only [List.length_cons] at this
                          omega
                        expandParts l here (enter directory names) rest'
                      else []
              else
                ((l.names location).filter part.accepts).flatMap
                    (fun name => expandParts l here (enter directory [name]) rest) ++
                  (points part).flatMap
                    (fun name => expandParts l here (directory.below [name]) rest)
termination_by parts.length

/-- The paths that a pattern stands for. -/
def expand (p : PathPattern) (l : Listing) (here : Location) : List FilePath :=
  let start : FilePath := { text := if p.absolute then "/" else "." }
  let found := expandParts l here start p.parts
  if p.directoriesOnly then found.filter fun path => (l.directory? here path).isSome else found

end PathPattern
end TemplateModules
