import TemplateModules.Source.LineIndex
import TemplateModules.Template.Error
import TemplateModules.Template.Token
import TemplateModules.Text.Blank
import TemplateModules.Text.Cut

/-!
# From source to tokens

The scanner alternates between two readers.  `stretch` reads the content up to the next tag, and
deals with backslashes in front of braces: one of them makes the braces content, two of them stand
for one.  `readTag` reads the tag.  Afterwards `trimTokens` removes the blanks next to tags that ask
for it.

A place in the source is the part of it that is still to be read, so every step is a cut of that
part and ends with a shorter one.
-/

namespace TemplateModules
namespace Template

open Text

/-- The opening of a tag. -/
def openBraces : List Char := ['\x7b', '\x7b']

/-- The end of a tag. -/
def closeBraces : List Char := ['\x7d', '\x7d']

/-- The content up to the next tag. -/
inductive Stretch where
  /-- No tag follows. -/
  | last (text : List Char)
  /-- The braces of a tag follow, and then `rest`. -/
  | upTo (text rest : List Char)
  /-- A backslash stands before the first braces that follow an escaped pair of braces. -/
  | backwards
  deriving Repr

/--
Reads the content up to the next tag.  Braces after one backslash are content, and so is all up to
the next pair of braces, which opens a tag.  Of two backslashes before a tag one is content.
-/
def stretch (source : List Char) : Stretch :=
  match cut openBraces source with
  | none => .last source
  | some (before, rest) =>
      match before.reverse with
      | '\\' :: '\\' :: _ => .upTo before.dropLast rest
      | '\\' :: _ =>
          let escaped := before.dropLast ++ openBraces
          match cut openBraces rest with
          | none => .last (escaped ++ rest)
          | some (inner, later) =>
              if inner.getLast? = some '\\' then .backwards
              else .upTo (escaped ++ inner) later
      | _ => .upTo before rest

/-- Whether a text starts with a character, and what follows it then. -/
def skip (mark : Char) : List Char → Bool × List Char
  | [] => (false, [])
  | c :: cs => if c = mark then (true, cs) else (false, c :: cs)

/-- Whether a text ends with a tilde, and the text without it. -/
def dropTilde (inside : List Char) : Bool × List Char :=
  if inside.getLast? = some '~' then (true, inside.dropLast) else (false, inside)

/-- The kind of tag that the mark after two braces announces. -/
def sigil : List Char → TagKind × List Char
  | '#' :: cs => (.block, cs)
  | '^' :: cs => (.inverse, cs)
  | '/' :: cs => (.close, cs)
  | '>' :: cs => (.inclusion, cs)
  | '&' :: cs => (.unescaped, cs)
  | cs => (.mustache, cs)

/-- The feature that a tag asks for in vain, if there is one. -/
def refusedFeature? : TagKind → List Char → Option Feature
  | .block, '>' :: _ => some .partialBlocks
  | .block, '*' :: _ => some .decoratorBlocks
  | .mustache, '*' :: _ => some .decorators
  | _, _ => none

/-- The word that opens the other section of a block. -/
def elseWord : List Char := ['e', 'l', 's', 'e']

/--
The final kind and expression of a tag.  The word `else` and the lone `^` open the other section
of a block; every other tag needs an expression.
-/
def classify (kind : TagKind) (body : List Char) : Option (TagKind × List Char) :=
  let (kind, body) : TagKind × List Char :=
    match kind, after? elseWord body with
    | .mustache, some [] => (.alternative, [])
    | .mustache, some (' ' :: chained) => (.alternative, trim chained)
    | .inverse, _ => (if body.isEmpty then .alternative else .inverse, body)
    | kind, _ => (kind, body)
  if body.isEmpty && kind ≠ .alternative then none else some (kind, body)

/--
The end of a long comment: the text before the first two dashes that stand before closing braces,
whether a tilde stands between, and what follows.
-/
def closeLongComment : List Char → Option (List Char × Bool × List Char)
  | [] => none
  | c :: cs =>
      match after? ('-' :: '-' :: closeBraces) (c :: cs) with
      | some rest => some ([], false, rest)
      | none =>
          match after? ('-' :: '-' :: '~' :: closeBraces) (c :: cs) with
          | some rest => some ([], true, rest)
          | none =>
              (closeLongComment cs).map fun (text, tilde, rest) => (c :: text, tilde, rest)

/-- The text of a comment, whether a tilde ends it, and what follows it. -/
def closeComment (inside : List Char) : Option (List Char × Bool × List Char) :=
  match after? ['-', '-'] inside with
  | some text => closeLongComment text
  | none =>
      (cut closeBraces inside).map fun (text, rest) =>
        let (tilde, text) := dropTilde text
        (text, tilde, rest)

/-- Reads the tag whose opening braces stand before `rest`; gives it and what follows it. -/
def readTag (index : LineIndex) (rest : List Char) : Except Error (Tag × List Char) :=
  let opening := openBraces ++ rest
  let fail (cause : Cause) (stop : List Char) : Except Error (Tag × List Char) :=
    .error { cause, span := index.between opening stop }
  if (after? openBraces rest).isSome then
    fail (.unsupported .rawBlocks) (((cut (closeBraces ++ closeBraces) opening).map Prod.snd).getD [])
  else
    let (triple, rest) := skip '\x7b' rest
    let (before, rest) := skip '~' rest
    match triple, rest with
    | false, '!' :: inside =>
        match closeComment inside with
        | none => fail (.malformed .unclosedComment) []
        | some (text, after, rest) =>
            .ok ({ kind := .comment, body := String.ofList text, strip := { before, after },
                   span := index.between opening rest }, rest)
    | _, _ =>
        let (kind, rest) := if triple then (.unescaped, rest) else sigil rest
        match cut (if triple then '\x7d' :: closeBraces else closeBraces) rest with
        | none => fail (.malformed .unclosedTag) []
        | some (inside, rest) =>
            match refusedFeature? kind inside with
            | some feature => fail (.unsupported feature) rest
            | none =>
                let (after, inside) := dropTilde inside
                match classify kind (trim inside) with
                | none => fail (.malformed .emptyTag) rest
                | some (kind, body) =>
                    .ok ({ kind, body := String.ofList body, strip := { before, after },
                           span := index.between opening rest }, rest)

/-- The token of a content, if it is not empty. -/
def contentToken (index : LineIndex) (text opening after : List Char) : List Token :=
  if text.isEmpty then [] else [.content (String.ofList text) (index.between opening after)]

/-- What follows the opening braces is shorter than the source. -/
theorem length_lt_of_stretch
    {source text rest : List Char}
    (h : stretch source = .upTo text rest) :
    rest.length < source.length := by
  unfold stretch at h
  split at h
  · simp at h
  · next before tail hcut =>
    have hlt := length_lt_of_cut hcut (by decide)
    split at h
    · simp only [Stretch.upTo.injEq] at h
      rw [← h.2]
      exact hlt
    · simp only at h
      split at h
      · simp at h
      · next inner later hlater =>
        have := length_lt_of_cut hlater (by decide)
        split at h
        · simp at h
        · simp only [Stretch.upTo.injEq] at h
          rw [← h.2]
          omega
    · simp only [Stretch.upTo.injEq] at h
      rw [← h.2]
      exact hlt

/-- Skipping a mark does not lengthen a text. -/
theorem length_skip_le (mark : Char) (cs : List Char) :
    (skip mark cs).2.length ≤ cs.length := by
  cases cs with
  | nil => simp [skip]
  | cons c cs =>
    simp only [skip]
    split <;> simp

/-- Reading the mark of a tag does not lengthen a text. -/
theorem length_sigil_le (cs : List Char) :
    (sigil cs).2.length ≤ cs.length := by
  unfold sigil
  split <;> simp

/-- What follows a long comment is shorter than its text. -/
theorem length_lt_of_closeLongComment
    {inside text rest : List Char} {tilde : Bool}
    (h : closeLongComment inside = some (text, tilde, rest)) :
    rest.length < inside.length := by
  induction inside generalizing text with
  | nil => simp [closeLongComment] at h
  | cons c cs ih =>
    rw [closeLongComment] at h
    split at h
    · next r hr =>
      have := eq_append_of_after? hr
      simp only [Option.some.injEq, Prod.mk.injEq] at h
      rw [this, ← h.2.2]
      simp only [List.length_append, closeBraces, List.length_cons]
      omega
    · split at h
      · next r hr =>
        have := eq_append_of_after? hr
        simp only [Option.some.injEq, Prod.mk.injEq] at h
        rw [this, ← h.2.2]
        simp only [List.length_append, closeBraces, List.length_cons]
        omega
      · simp only [Option.map_eq_some_iff, Prod.mk.injEq, Prod.exists] at h
        obtain ⟨t, b, r, htail, rfl, rfl, rfl⟩ := h
        have := ih htail
        simp only [List.length_cons]
        omega

/-- What follows a comment is shorter than its text. -/
theorem length_lt_of_closeComment
    {inside text rest : List Char} {tilde : Bool}
    (h : closeComment inside = some (text, tilde, rest)) :
    rest.length < inside.length := by
  unfold closeComment at h
  split at h
  · next t ht =>
    have := length_lt_of_closeLongComment h
    rw [eq_append_of_after? ht]
    simp only [List.length_append]
    omega
  · simp only [Option.map_eq_some_iff, Prod.mk.injEq, Prod.exists] at h
    obtain ⟨t, r, hcut, _, _, rfl⟩ := h
    exact length_lt_of_cut hcut (by decide)

/-- What follows a tag is shorter than what follows its opening braces. -/
theorem length_lt_of_readTag
    {index : LineIndex} {rest after : List Char} {tag : Tag}
    (h : readTag index rest = .ok (tag, after)) :
    after.length < rest.length := by
  unfold readTag at h
  simp only at h
  split at h
  · simp at h
  · have htilde := length_skip_le '~' (skip '\x7b' rest).2
    have hbrace := length_skip_le '\x7b' rest
    split at h
    · next inside hinside =>
      split at h
      · simp at h
      · next text tilde r hclose =>
        have hshort := length_lt_of_closeComment hclose
        simp only [Except.ok.injEq, Prod.mk.injEq] at h
        rw [hinside] at htilde
        simp only [List.length_cons] at htilde
        rw [← h.2]
        omega
    · split at h
      · simp at h
      · next inside r hcut =>
        have hshort := length_lt_of_cut hcut (by split <;> decide)
        have hsigil :
            (if (skip '\x7b' rest).1 = true then
              (TagKind.unescaped, (skip '~' (skip '\x7b' rest).2).2)
            else sigil (skip '~' (skip '\x7b' rest).2).2).2.length ≤
              (skip '~' (skip '\x7b' rest).2).2.length := by
          split
          · exact Nat.le_refl _
          · exact length_sigil_le _
        split at h
        · simp at h
        · split at h
          · simp at h
          · simp only [Except.ok.injEq, Prod.mk.injEq] at h
            rw [← h.2]
            omega

/-- The tokens of the part of a source that is still to be read, blanks included. -/
def scanFrom (index : LineIndex) (source : List Char) : Except Failure (List Token) :=
  match hstretch : stretch source with
  | .backwards => .error .backwards
  | .last text => .ok (contentToken index text source [])
  | .upTo text rest =>
      match htag : readTag index rest with
      | .error e => .error (.refused e)
      | .ok (tag, after) =>
          have := length_lt_of_stretch hstretch
          have := length_lt_of_readTag htag
          match scanFrom index after with
          | .error f => .error f
          | .ok tokens =>
              .ok (contentToken index text source (openBraces ++ rest) ++ .tag tag :: tokens)
termination_by source.length

/-- Whether the next token is a tag that removes the blanks before it. -/
def stripsBefore : List Token → Bool
  | .tag tag :: _ => tag.strip.before
  | _ => false

/--
Removes the blanks of content next to a tag that asks for it, and then content that is empty.
The flag says whether the tag in front removes the blanks after it.
-/
def trimTokens : Bool → List Token → List Token
  | _, [] => []
  | _, .tag tag :: tokens => .tag tag :: trimTokens tag.strip.after tokens
  | stripped, .content text span :: tokens =>
      let cs := text.toList
      let cs := if stripped then trimStart cs else cs
      let cs := if stripsBefore tokens then trimEnd cs else cs
      if cs.isEmpty then trimTokens false tokens
      else .content (String.ofList cs) span :: trimTokens false tokens

/-- The tokens of a template. -/
def scan (source : String) : Except Failure (List Token) :=
  match scanFrom (LineIndex.ofSource source.toList) source.toList with
  | .error f => .error f
  | .ok tokens => .ok (trimTokens false tokens)

end Template
end TemplateModules
