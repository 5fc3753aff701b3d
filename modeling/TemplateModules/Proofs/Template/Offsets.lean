import Mathlib.Data.List.Basic
import TemplateModules.Proofs.Except
import TemplateModules.Proofs.Template.Spans
import TemplateModules.Proofs.Text.Bytes

/-!
# Scanning by offsets

The scanner again, with byte offsets for places.  It keeps two offsets and takes slices between
offsets that it has computed; a slice whose bounds are out of order, out of range or inside of a
character halts it, and so does a byte past the end.  Both loops go on for as long as the offset
grows.
-/

namespace TemplateModules
namespace Template
namespace ByOffset

open Text

/-- How a scan by offsets can end without tokens. -/
inductive Halt where
  | refused (e : Error)
  | slice (start stop : Nat)
  | byte (place : Nat)
  deriving DecidableEq, Repr

/-- The characters between two offsets. -/
def slice (source : List Char) (start stop : Nat) : Except Halt (List Char) :=
  match slice? source start stop with
  | some piece => .ok piece
  | none => .error (.slice start stop)

/-- The characters from an offset on. -/
def sliceFrom (source : List Char) (start : Nat) : Except Halt (List Char) :=
  slice source start (byteSize source)

/-- The offset of a mark in a text, if it stands there. -/
def find? (mark part : List Char) : Option Nat :=
  (cut mark part).map fun pieces => byteSize pieces.1

def startsWith (part lead : List Char) : Bool :=
  (after? lead part).isSome

/-- A byte of the encoding of a source. -/
def byteAt (source : List Char) (place : Nat) : Except Halt UInt8 :=
  match (source.flatMap String.utf8EncodeChar)[place]? with
  | some b => .ok b
  | none => .error (.byte place)

/-- The byte of a backslash. -/
def backslash : UInt8 := 0x5c

/-- Whether the byte right before an offset is a backslash. -/
def followsBackslash (source : List Char) (place : Nat) : Except Halt Bool :=
  if 0 < place then do return (← byteAt source (place - 1)) == backslash
  else pure false

/-! ## Slices -/

theorem slice_eq_ok {source piece : List Char} {start stop : Nat} :
    slice source start stop = .ok piece ↔ slice? source start stop = some piece := by
  unfold slice
  split
  · next found hfound => simp [hfound]
  · next hnone => simp [hnone]

/-- What follows a slice from an offset is the rest of the source. -/
theorem byteSize_of_sliceFrom
    {source part : List Char} {start : Nat} (h : sliceFrom source start = .ok part) :
    start + byteSize part = byteSize source := by
  rw [sliceFrom, slice_eq_ok, slice?] at h
  split at h
  · next hle =>
    obtain ⟨rest, -, hpart⟩ := Option.bind_eq_some_iff.mp h
    obtain ⟨-, -, hsize⟩ := exists_of_takeBytes? hpart
    omega
  · cases h

/-- A mark that is found ends before the text does. -/
theorem le_of_find?
    {mark part : List Char} {place : Nat} (h : find? mark part = some place) :
    place + byteSize mark ≤ byteSize part := by
  obtain ⟨⟨before, rest⟩, hcut, rfl⟩ := Option.map_eq_some_iff.mp h
  have hsize := congrArg byteSize (eq_append_of_cut hcut)
  rw [byteSize_append, byteSize_append] at hsize
  show byteSize before + byteSize mark ≤ byteSize part
  omega

/-- A mark that is found in the rest of a source stands before its end. -/
theorem lt_of_find?
    {source mark part : List Char} {start place : Nat}
    (hpart : sliceFrom source start = .ok part) (hfind : find? mark part = some place)
    (hmark : 0 < byteSize mark) :
    start + place < byteSize source := by
  have hsize := byteSize_of_sliceFrom hpart
  have hle := le_of_find? hfind
  omega

/-! ## Comments -/

/-- Looks for the end of a long comment: where its text ends, where the comment ends, and whether
there is a tilde. -/
def closeDashes (source : List Char) (start : Nat) : Except Halt (Option (Nat × Nat × Bool)) :=
  match hpart : sliceFrom source start with
  | .error h => .error h
  | .ok part =>
      match hfind : find? ['-', '-'] part with
      | none => .ok none
      | some place =>
          match sliceFrom source (start + place + 2) with
          | .error h => .error h
          | .ok rest =>
              if startsWith rest closeBraces then
                .ok (some (start + place, start + place + 4, false))
              else if startsWith rest ('~' :: closeBraces) then
                .ok (some (start + place, start + place + 5, true))
              else
                have := lt_of_find? hpart hfind (by decide)
                closeDashes source (start + place + 1)
termination_by byteSize source - start

/-- Whether a text between two offsets ends with a tilde. -/
def endsWithTilde (source : List Char) (start stop : Nat) : Except Halt Bool :=
  if start < stop then do return (← slice source 0 stop).getLast? == some '~'
  else pure false

/-- The bounds of a comment whose text starts at an offset: where its text starts and ends, where
the comment ends, and whether there is a tilde. -/
def commentBounds (source : List Char) (start : Nat) :
    Except Halt (Option (Nat × Nat × Nat × Bool)) := do
  let part ← sliceFrom source start
  if startsWith part ['-', '-'] then
    let found ← closeDashes source (start + 2)
    return found.map fun (last, stop, tilde) => (start + 2, last, stop, tilde)
  else
    match find? closeBraces part with
    | none => return none
    | some place =>
        let close := start + place
        if ← endsWithTilde source start close then return some (start, close - 1, close + 2, true)
        else return some (start, close, close + 2, false)

/-- Reads a comment whose braces open at an offset and whose text starts at another one. -/
def lexComment (index : LineIndex) (source : List Char) (opening start : Nat) (before : Bool) :
    Except Halt (Tag × Nat) := do
  match ← commentBounds source start with
  | none =>
      .error (.refused
        { cause := .malformed .unclosedComment, span := index.span opening (byteSize source) })
  | some (first, last, stop, after) =>
      let body ← slice source first last
      return ({ kind := .comment, body := String.ofList body, strip := { before, after },
                span := index.span opening stop }, stop)

/-! ## Tags -/

/-- The marks between the braces of a tag and its sigil: whether there is a third brace, whether
there is a tilde, and the offset behind both. -/
def openingMarks (source : List Char) (opening : Nat) : Except Halt (Bool × Bool × Nat) := do
  let here := opening + 2
  let triple := startsWith (← sliceFrom source here) ['\x7b']
  let here := if triple then here + 1 else here
  let before := startsWith (← sliceFrom source here) ['~']
  return (triple, before, if before then here + 1 else here)

/-- The kind of tag that a mark announces. -/
def kindOf : Option Char → TagKind
  | some '#' => .block
  | some '^' => .inverse
  | some '/' => .close
  | some '>' => .inclusion
  | some '&' => .unescaped
  | _ => .mustache

/-- The kind of tag announced at an offset, and the offset behind the mark. -/
def announced (source : List Char) (here : Nat) (triple : Bool) :
    Except Halt (TagKind × Nat) := do
  if triple then return (.unescaped, here)
  else
    let kind := kindOf (← sliceFrom source here).head?
    return (kind, if kind = .mustache then here else here + 1)

/-- The final kind and expression of a tag. -/
def finalKind (kind : TagKind) (body : List Char) : Except Halt (TagKind × List Char) :=
  if kind = .mustache ∧ (body = elseWord ∨ startsWith body (elseWord ++ [' '])) then do
    return (.alternative, trim (← sliceFrom body (byteSize elseWord)))
  else if kind = .inverse ∧ body.isEmpty then return (.alternative, body)
  else return (kind, body)

/-- The end of a tag with two or three opening braces. -/
def closer (triple : Bool) : List Char :=
  if triple then '\x7d' :: closeBraces else closeBraces

/-- Reads the inside of a tag from behind its marks to its closing braces. -/
def lexInside (index : LineIndex) (source : List Char) (opening here : Nat)
    (triple before : Bool) : Except Halt (Tag × Nat) := do
  let fail (cause : Cause) (stop : Nat) : Except Halt (Tag × Nat) :=
    .error (.refused { cause, span := index.span opening stop })
  let (kind, here) ← announced source here triple
  let part ← sliceFrom source here
  match find? (closer triple) part with
  | none => fail (.malformed .unclosedTag) (byteSize source)
  | some place =>
      let close := here + place
      let stop := close + byteSize (closer triple)
      match refusedFeature? kind part with
      | some feature => fail (.unsupported feature) stop
      | none =>
          let inside ← slice source here close
          let (kind, body) ← finalKind kind (trim (dropTilde inside).2)
          if body.isEmpty && kind ≠ .alternative then fail (.malformed .emptyTag) stop
          else
            return ({ kind, body := String.ofList body,
                      strip := { before, after := (dropTilde inside).1 },
                      span := index.span opening stop }, stop)

/-- Reads the tag whose braces open at an offset; gives it and the offset behind it. -/
def lexTag (index : LineIndex) (source : List Char) (opening : Nat) :
    Except Halt (Tag × Nat) := do
  let part ← sliceFrom source opening
  if startsWith part (openBraces ++ openBraces) then
    let stop :=
      match find? (closeBraces ++ closeBraces) part with
      | some place => opening + place + 4
      | none => byteSize source
    .error (.refused { cause := .unsupported .rawBlocks, span := index.span opening stop })
  else
    let (triple, before, here) ← openingMarks source opening
    if !triple && startsWith (← sliceFrom source here) ['!'] then
      lexComment index source opening (here + 1) before
    else lexInside index source opening here triple before

/-! ## Tags grow -/

theorem le_of_closeDashes
    {source : List Char} {start last stop : Nat} {tilde : Bool}
    (h : closeDashes source start = .ok (some (last, stop, tilde))) :
    start ≤ stop := by
  fun_induction closeDashes source start with
  | case1 => cases h
  | case2 => cases h
  | case3 => cases h
  | case4 =>
      cases h
      omega
  | case5 =>
      cases h
      omega
  | case6 start part hpart place hfind rest hrest hplain htilde hlt ih =>
      have hle := ih h
      omega

theorem le_of_commentBounds
    {source : List Char} {start first last stop : Nat} {tilde : Bool}
    (h : commentBounds source start = .ok (some (first, last, stop, tilde))) :
    start ≤ stop := by
  unfold commentBounds at h
  obtain ⟨part, -, h⟩ := bind_eq_ok.mp h
  split at h
  · obtain ⟨found, hfound, h⟩ := bind_eq_ok.mp h
    obtain ⟨⟨l, s, t⟩, rfl, hbounds⟩ := Option.map_eq_some_iff.mp (Except.ok.inj h)
    cases hbounds
    have hle := le_of_closeDashes hfound
    omega
  · split at h
    · cases h
    · obtain ⟨ends, -, h⟩ := bind_eq_ok.mp h
      split at h
      · cases h
        omega
      · cases h
        omega

theorem le_of_openingMarks
    {source : List Char} {opening here : Nat} {triple before : Bool}
    (h : openingMarks source opening = .ok (triple, before, here)) :
    opening + 2 ≤ here := by
  unfold openingMarks at h
  obtain ⟨part, -, h⟩ := bind_eq_ok.mp h
  obtain ⟨later, -, h⟩ := bind_eq_ok.mp h
  cases h
  split <;> split <;> omega

theorem le_of_announced
    {source : List Char} {here behind : Nat} {triple : Bool} {kind : TagKind}
    (h : announced source here triple = .ok (kind, behind)) :
    here ≤ behind := by
  unfold announced at h
  split at h
  · cases h
    exact Nat.le_refl _
  · obtain ⟨part, -, h⟩ := bind_eq_ok.mp h
    cases h
    split <;> omega

theorem le_of_lexComment
    {index : LineIndex} {source : List Char} {opening start stop : Nat} {before : Bool} {tag : Tag}
    (h : lexComment index source opening start before = .ok (tag, stop)) :
    start ≤ stop := by
  unfold lexComment at h
  obtain ⟨found, hfound, h⟩ := bind_eq_ok.mp h
  split at h
  · cases h
  · obtain ⟨body, -, h⟩ := bind_eq_ok.mp h
    cases h
    exact le_of_commentBounds hfound

theorem le_of_lexInside
    {index : LineIndex} {source : List Char} {opening here stop : Nat} {triple before : Bool}
    {tag : Tag} (h : lexInside index source opening here triple before = .ok (tag, stop)) :
    here ≤ stop := by
  unfold lexInside at h
  obtain ⟨⟨kind, behind⟩, hkind, h⟩ := bind_eq_ok.mp h
  obtain ⟨part, -, h⟩ := bind_eq_ok.mp h
  have hbehind := le_of_announced hkind
  split at h
  · cases h
  · split at h
    · cases h
    · obtain ⟨inside, -, h⟩ := bind_eq_ok.mp h
      obtain ⟨⟨final, body⟩, -, h⟩ := bind_eq_ok.mp h
      dsimp only at h
      split at h
      · cases h
      · cases h
        omega

/-- The offset behind a tag lies behind its braces. -/
theorem lt_of_lexTag
    {index : LineIndex} {source : List Char} {opening stop : Nat} {tag : Tag}
    (h : lexTag index source opening = .ok (tag, stop)) :
    opening < stop := by
  unfold lexTag at h
  obtain ⟨part, -, h⟩ := bind_eq_ok.mp h
  split at h
  · cases h
  · obtain ⟨⟨triple, before, here⟩, hmarks, h⟩ := bind_eq_ok.mp h
    have hhere := le_of_openingMarks hmarks
    obtain ⟨comment, -, h⟩ := bind_eq_ok.mp h
    split at h
    · have hle := le_of_lexComment h
      omega
    · have hle := le_of_lexInside h
      omega

/-! ## The main loop -/

/-- What one round of the main loop comes to. -/
inductive Round where
  /-- Nothing but content follows. -/
  | last (text : List Char)
  /-- Braces after one backslash are content, up to where the next round starts. -/
  | literal (text : List Char) (resume : Nat)
  /-- The content ends with a tag. -/
  | tag (text : List Char) (opening : Nat)

/-- Whether the byte before an offset is a backslash, and whether the one before it is, too. -/
def backslashesBefore (source : List Char) (place : Nat) : Except Halt (Bool × Bool) := do
  if ← followsBackslash source place then return (true, ← followsBackslash source (place - 1))
  else return (false, false)

/-- The offset of the first braces in the rest of a source, or else the end of the source. -/
def resumption (source : List Char) (place : Nat) (later : List Char) : Nat :=
  match find? openBraces later with
  | some further => place + further
  | none => byteSize source

theorem lt_resumption
    {source later : List Char} {pos place : Nat}
    (hpos : pos < byteSize source) (hplace : pos < place) :
    pos < resumption source place later := by
  unfold resumption
  split <;> omega

/-- One round of the main loop, up to the tag. -/
def nextRound (source : List Char) (pos : Nat) : Except Halt Round := do
  let part ← sliceFrom source pos
  match find? openBraces part with
  | none => return .last part
  | some place =>
      let opening := pos + place
      let (escaped, doubled) ← backslashesBefore source opening
      if escaped && !doubled then
        let front ← slice source pos (opening - 1)
        let later ← sliceFrom source (opening + 2)
        let resume := resumption source (opening + 2) later
        return .literal (front ++ (← slice source opening resume)) resume
      else
        return .tag (← slice source pos (if doubled then opening - 1 else opening)) opening

/-- A round ends the source, or comes to opening braces further on.  Braces that are escaped are
text, with all that stands up to where the scan goes on. -/
theorem nextRound_cases {source : List Char} {pos : Nat} {round : Round}
    (h : nextRound source pos = .ok round) :
    (∃ part, round = .last part) ∨
      ∃ opening, pos ≤ opening ∧
        ((∃ text later, round = .literal text (resumption source (opening + 2) later)) ∨
          ∃ text, round = .tag text opening) := by
  unfold nextRound at h
  obtain ⟨part, -, h⟩ := bind_eq_ok.mp h
  split at h
  · cases h
    exact .inl ⟨part, rfl⟩
  · next place _ =>
    obtain ⟨⟨escaped, doubled⟩, -, h⟩ := bind_eq_ok.mp h
    dsimp only at h
    refine .inr ⟨pos + place, Nat.le_add_right pos place, ?_⟩
    split at h
    · obtain ⟨front, -, h⟩ := bind_eq_ok.mp h
      obtain ⟨later, -, h⟩ := bind_eq_ok.mp h
      obtain ⟨literal, -, h⟩ := bind_eq_ok.mp h
      cases h
      exact .inl ⟨front ++ literal, later, rfl⟩
    · obtain ⟨text, -, h⟩ := bind_eq_ok.mp h
      cases h
      exact .inr ⟨text, rfl⟩

theorem lt_of_nextRound_literal
    {source text : List Char} {pos resume : Nat}
    (h : nextRound source pos = .ok (.literal text resume)) (hpos : pos < byteSize source) :
    pos < resume := by
  obtain ⟨part, ⟨⟩⟩ | ⟨opening, hle, ⟨front, later, ⟨⟩⟩ | ⟨front, ⟨⟩⟩⟩ := nextRound_cases h
  exact lt_resumption hpos (by omega)

theorem le_of_nextRound_tag
    {source text : List Char} {pos opening : Nat}
    (h : nextRound source pos = .ok (.tag text opening)) :
    pos ≤ opening := by
  obtain ⟨part, ⟨⟩⟩ | ⟨place, hle, ⟨front, later, ⟨⟩⟩ | ⟨front, ⟨⟩⟩⟩ := nextRound_cases h
  exact hle

/-- The token of a content, if it is not empty. -/
def flush (index : LineIndex) (text : List Char) (start stop : Nat) : List Token :=
  if text.isEmpty then [] else [.content (String.ofList text) (index.span start stop)]

/-- The tokens from an offset on; `text` is the content read since `start`. -/
def tokensFrom (index : LineIndex) (source : List Char) (pos start : Nat) (text : List Char) :
    Except Halt (List Token) :=
  if hpos : pos < byteSize source then
    match hround : nextRound source pos with
    | .error h => .error h
    | .ok (.last more) => .ok (flush index (text ++ more) start (byteSize source))
    | .ok (.literal more resume) =>
        have := lt_of_nextRound_literal hround hpos
        tokensFrom index source resume start (text ++ more)
    | .ok (.tag more opening) =>
        match htag : lexTag index source opening with
        | .error h => .error h
        | .ok (tag, stop) =>
            have := le_of_nextRound_tag hround
            have := lt_of_lexTag htag
            match tokensFrom index source stop stop [] with
            | .error h => .error h
            | .ok tokens => .ok (flush index (text ++ more) start opening ++ .tag tag :: tokens)
  else .ok (flush index text start (byteSize source))
termination_by byteSize source - pos

/-! ## Blanks -/

/-- Content cut off at an offset. -/
def truncate (text : List Char) (stop : Nat) : Except Halt (List Char) :=
  slice text 0 stop

/-- Content without the blanks at its end, if the tag that follows removes them. -/
def controlEnd (strips : Bool) (text : List Char) : Except Halt (List Char) :=
  if strips then truncate text (byteSize (trimEnd text)) else pure text

/-- Removes the blanks next to tags that ask for it, and content that is empty then.  The flag
says whether the tag in front removes the blanks after it. -/
def control : Bool → List Token → Except Halt (List Token)
  | _, [] => .ok []
  | _, .tag tag :: tokens => do return .tag tag :: (← control tag.strip.after tokens)
  | stripped, .content text span :: tokens => do
      let cs ← controlEnd (stripsBefore tokens)
        (if stripped then trimStart text.toList else text.toList)
      let tokens ← control false tokens
      return if cs.isEmpty then tokens else .content (String.ofList cs) span :: tokens

/-- The tokens of a template. -/
def tokenize (source : String) : Except Halt (List Token) := do
  control false (← tokensFrom (LineIndex.ofSource source.toList) source.toList 0 0 [])

end ByOffset
end Template
end TemplateModules
