import Mathlib.Data.List.Forall2
import TemplateModules.Proofs.Template.Blocks
import TemplateModules.Proofs.Template.Locality

/-!
# Scans that are alike

Two sources that differ in one tag are scanned alike if this tag says the same in both: the scans
end in the same way, and their tokens are the same up to spans and up to the blanks in that tag.
-/

namespace TemplateModules
namespace Template

open Text

/-! ## Ends that are alike -/

/-- Two readings end in the same way, with related results if they give any. -/
inductive EndsAlike {α β : Type} (R : α → β → Prop) :
    Except Failure α → Except Failure β → Prop where
  | ok {a : α} {b : β} (h : R a b) : EndsAlike R (.ok a) (.ok b)
  | refused (e e' : Error) : EndsAlike R (.error (.refused e)) (.error (.refused e'))
  | backwards : EndsAlike R (.error .backwards) (.error .backwards)

theorem EndsAlike.map
    {α β γ δ : Type} {R : α → β → Prop} {S : γ → δ → Prop} {x : Except Failure α}
    {y : Except Failure β} {f : α → γ} {g : β → δ} (h : EndsAlike R x y)
    (hfg : ∀ a b, R a b → S (f a) (g b)) :
    EndsAlike S (x.map f) (y.map g) := by
  cases h with
  | ok h => exact .ok (hfg _ _ h)
  | refused e e' => exact .refused e e'
  | backwards => exact .backwards

/-! ## Tokens -/

/-- Two tags say the same: their bodies have the same lexemes, and as close tags they close the same
blocks. -/
structure Tag.Relaid (Opened : String → Prop) (tag tag' : Tag) : Prop where
  kind : tag'.kind = tag.kind
  strip : tag'.strip = tag.strip
  lexemes : Lexeme.ofBody tag'.body = Lexeme.ofBody tag.body
  empty : tag'.body = "" ↔ tag.body = ""
  comment : tag.kind = .comment → tag'.body = tag.body
  close : tag.kind = .close → ∀ name, Opened name → (tag'.body = name ↔ tag.body = name)

/-- Two tokens are the same up to their spans and the blanks in tags. -/
inductive Token.Relaid (Opened : String → Prop) : Token → Token → Prop where
  | content (text : String) (span span' : Span) :
      Relaid Opened (.content text span) (.content text span')
  | tag {tag tag' : Tag} (h : tag.Relaid Opened tag') : Relaid Opened (.tag tag) (.tag tag')

theorem Tag.Moved.relaid {tag tag' : Tag} (h : tag.Moved tag') (Opened : String → Prop) :
    tag.Relaid Opened tag' where
  kind := h.kind
  strip := h.strip
  lexemes := by rw [h.body]
  empty := by rw [h.body]
  comment _ := h.body
  close _ _ _ := by rw [h.body]

/-- Two lists of tokens are related one by one. -/
abbrev RelaidTokens (Opened : String → Prop) : List Token → List Token → Prop :=
  List.Forall₂ (Token.Relaid Opened)

section

variable {Opened : String → Prop} {index index' : LineIndex}

theorem relaid_contentToken (text opening after opening' after' : List Char) :
    RelaidTokens Opened (contentToken index text opening after)
      (contentToken index' text opening' after') := by
  unfold contentToken
  split
  · exact .nil
  · exact .cons (.content _ _ _) .nil

theorem stripsBefore_relaid {ts ts' : List Token} (h : RelaidTokens Opened ts ts') :
    stripsBefore ts' = stripsBefore ts := by
  cases h with
  | nil => rfl
  | cons hfirst hrest =>
      cases hfirst with
      | content text span span' => rfl
      | tag htag => exact congrArg Strip.before htag.strip

theorem relaid_trimTokens {ts ts' : List Token} (h : RelaidTokens Opened ts ts') (stripped : Bool) :
    RelaidTokens Opened (trimTokens stripped ts) (trimTokens stripped ts') := by
  induction h generalizing stripped with
  | nil => exact .nil
  | cons hfirst hrest ih =>
      cases hfirst with
      | tag htag =>
          rw [trimTokens, trimTokens, htag.strip]
          exact .cons (.tag htag) (ih _)
      | content text span span' =>
          simp only [trimTokens, stripsBefore_relaid hrest]
          generalize (if stripsBefore _ then trimEnd _ else _ : List Char) = cs
          by_cases hempty : cs.isEmpty = true
          · rw [if_pos hempty, if_pos hempty]
            exact ih false
          · rw [if_neg hempty, if_neg hempty]
            exact .cons (.content _ _ _) (ih false)

/-! ## Scanning -/

/-- The tokens from a tag on. -/
def scanTag (index : LineIndex) (rest : List Char) : Except Failure (List Token) :=
  match readTag index rest with
  | .error e => .error (.refused e)
  | .ok (tag, after) => (scanFrom index after).map (.tag tag :: ·)

theorem scanTag_of_ok {rest after : List Char} {tag : Tag}
    (h : readTag index rest = .ok (tag, after)) :
    scanTag index rest = (scanFrom index after).map (.tag tag :: ·) := by
  rw [scanTag, h]

theorem scanFrom_of_upTo {part text rest : List Char} (h : stretch part = .upTo text rest) :
    scanFrom index part =
      (scanTag index rest).map (contentToken index text part (openBraces ++ rest) ++ ·) := by
  rw [scanFrom]
  split
  · next hstretch => cases hstretch.symm.trans h
  · next hstretch => cases hstretch.symm.trans h
  · next text' rest' hstretch =>
      cases hstretch.symm.trans h
      rw [scanTag]
      split
      · next e htag => simp only [htag]; rfl
      · next tag after htag =>
          simp only [htag]
          split
          · next f hafter => rw [hafter]; rfl
          · next tokens hafter => rw [hafter]; rfl

abbrev ScansAlike (Opened : String → Prop) :
    Except Failure (List Token) → Except Failure (List Token) → Prop :=
  EndsAlike (RelaidTokens Opened)

/-- Two scans that come to related tags are alike if they are so behind these. -/
theorem ScansAlike.tag
    {rest rest' after after' : List Char} {tag tag' : Tag}
    (htag : readTag index rest = .ok (tag, after))
    (htag' : readTag index' rest' = .ok (tag', after')) (hrelaid : tag.Relaid Opened tag')
    (h : ScansAlike Opened (scanFrom index after) (scanFrom index' after')) :
    ScansAlike Opened (scanTag index rest) (scanTag index' rest') := by
  rw [scanTag_of_ok htag, scanTag_of_ok htag']
  exact h.map fun _ _ htokens => .cons (.tag hrelaid) htokens

theorem ScansAlike.tag_refused
    {rest rest' : List Char} {e e' : Error} (htag : readTag index rest = .error e)
    (htag' : readTag index' rest' = .error e') :
    ScansAlike Opened (scanTag index rest) (scanTag index' rest') := by
  rw [scanTag, scanTag, htag, htag']
  exact .refused e e'

theorem ScansAlike.upTo
    {part part' text rest rest' : List Char} (hstretch : stretch part = .upTo text rest)
    (hstretch' : stretch part' = .upTo text rest')
    (h : ScansAlike Opened (scanTag index rest) (scanTag index' rest')) :
    ScansAlike Opened (scanFrom index part) (scanFrom index' part') := by
  rw [scanFrom_of_upTo hstretch, scanFrom_of_upTo hstretch']
  exact h.map fun _ _ htokens => List.rel_append (relaid_contentToken _ _ _ _ _) htokens

theorem scanFrom_of_backwards {part : List Char} (h : stretch part = .backwards) :
    scanFrom index part = .error .backwards := by
  rw [scanFrom]
  split
  · rfl
  · next hstretch => cases hstretch.symm.trans h
  · next hstretch => cases hstretch.symm.trans h

theorem scanFrom_of_last {part text : List Char} (h : stretch part = .last text) :
    scanFrom index part = .ok (contentToken index text part []) := by
  rw [scanFrom]
  split
  · next hstretch => cases hstretch.symm.trans h
  · next hstretch =>
      cases hstretch.symm.trans h
      rfl
  · next hstretch => cases hstretch.symm.trans h

/-- A tag that is refused is refused in every source. -/
theorem readTag_error {rest : List Char} {e : Error} (h : readTag index rest = .error e)
    (index' : LineIndex) :
    ∃ e', readTag index' rest = .error e' := by
  cases hread : readTag index' rest with
  | error e' => exact ⟨e', rfl⟩
  | ok found =>
      obtain ⟨tag, after⟩ := found
      obtain ⟨piece, rfl, hlocal⟩ := readTag_append hread
      obtain ⟨tag', htag', -⟩ := hlocal index after
      cases htag'.symm.trans h

/-- Where the lines of a source start matters for spans only. -/
theorem scansAlike_self (index' : LineIndex) (part : List Char) :
    ScansAlike Opened (scanFrom index part) (scanFrom index' part) := by
  induction hlength : part.length using Nat.strong_induction_on generalizing part with
  | _ length ih =>
      cases hstretch : stretch part with
      | backwards =>
          rw [scanFrom_of_backwards hstretch, scanFrom_of_backwards hstretch]
          exact .backwards
      | last text =>
          rw [scanFrom_of_last hstretch, scanFrom_of_last hstretch]
          exact .ok (relaid_contentToken _ _ _ _ _)
      | upTo text rest =>
          refine .upTo hstretch hstretch ?_
          cases htag : readTag index rest with
          | error e =>
              obtain ⟨e', htag'⟩ := readTag_error htag index'
              exact .tag_refused htag htag'
          | ok found =>
              obtain ⟨tag, after⟩ := found
              obtain ⟨piece, rfl, hlocal⟩ := readTag_append htag
              obtain ⟨tag', htag', hmoved⟩ := hlocal index' after
              have hlt := (length_lt_of_readTag htag).trans (length_lt_of_stretch hstretch)
              exact .tag htag htag' (hmoved.relaid Opened) (ih _ (hlength ▸ hlt) after rfl)

/-! ## Places in two sources -/

theorem scanFrom_openBraces (later : List Char) :
    scanFrom index (openBraces ++ later) = scanTag index later := by
  rw [scanFrom_of_upTo (stretch_of_plain (cut_openBraces later) (by decide))]
  cases scanTag index later <;> rfl

/-- The braces that open a tag lead to it in both sources. -/
theorem ScansAlike.braces
    {common rest rest' : List Char} (hcut : cut openBraces (common ++ (openBraces ++ rest)) =
      some (common, rest)) (hplain : ¬ Escaped common)
    (h : ScansAlike Opened (scanTag index rest) (scanTag index' rest')) :
    ScansAlike Opened (scanFrom index (common ++ (openBraces ++ rest)))
      (scanFrom index' (common ++ (openBraces ++ rest'))) := by
  obtain ⟨text, hstretch⟩ := exists_stretch_of_not_escaped hplain
  exact .upTo (hstretch hcut) (hstretch (cut_append hcut rest')) h

/-- The braces behind an escaped mustache lead to their tag in both sources. -/
theorem ScansAlike.literal
    {before inner later later' : List Char} (hescaped : Escaped before)
    (hcut : cut openBraces (before ++ (openBraces ++ (inner ++ (openBraces ++ later)))) =
      some (before, inner ++ (openBraces ++ later)))
    (hlater : cut openBraces (inner ++ (openBraces ++ later)) = some (inner, later))
    (hforward : (openBraces ++ inner).getLast? ≠ some '\\')
    (h : ScansAlike Opened (scanTag index later) (scanTag index' later')) :
    ScansAlike Opened
      (scanFrom index (before ++ (openBraces ++ (inner ++ (openBraces ++ later)))))
      (scanFrom index' (before ++ (openBraces ++ (inner ++ (openBraces ++ later'))))) := by
  obtain ⟨lead, rfl, hlead⟩ := hescaped
  have hinner := mt (getLast?_openBraces_append inner).mpr hforward
  have hstretch {later : List Char}
      (hcut : cut openBraces (lead ++ ['\\'] ++ (openBraces ++ (inner ++ (openBraces ++ later)))) =
        some (lead ++ ['\\'], inner ++ (openBraces ++ later)))
      (hlater : cut openBraces (inner ++ (openBraces ++ later)) = some (inner, later)) :
      stretch (lead ++ ['\\'] ++ (openBraces ++ (inner ++ (openBraces ++ later)))) =
        .upTo (lead ++ openBraces ++ inner) later := by
    rw [stretch_of_escaped hcut hlead, hlater]
    simp only [if_neg hinner]
  exact .upTo (hstretch hcut hlater) (hstretch (cut_append hcut _) (cut_append hlater _)) h

/-- Two sources that are the same up to a place behind one that is reached are alike if they are so
from that place on. -/
theorem Reached.scansAlike
    {source front part common tail tail' : List Char} (h : Reached source front part)
    (hpart : part = common ++ tail) (hlength : openBraces.length ≤ common.length)
    (halike : ScansAlike Opened (scanFrom (LineIndex.ofSource source) (common ++ tail))
      (scanFrom index' (common ++ tail'))) :
    ScansAlike Opened (scanFrom (LineIndex.ofSource source) source)
      (scanFrom index' (front ++ (common ++ tail'))) := by
  induction h generalizing common with
  | start =>
      rw [← hpart] at halike
      exact halike
  | @tag front part before rest piece after tag hreached hcut hplain htag hpiece ih =>
      obtain ⟨inside, rfl, hlocal⟩ := readTag_append htag
      obtain rfl : openBraces ++ inside = piece := by
        rw [← List.append_assoc] at hpiece
        exact List.append_cancel_right hpiece
      subst hpart
      obtain rfl : part = before ++ (openBraces ++ (inside ++ (common ++ tail))) := by
        rw [eq_append_of_cut hcut, List.append_assoc]
      rw [hreached.escaped_iff] at hplain
      obtain ⟨tag', htag', hmoved⟩ := hlocal index' (common ++ tail')
      have hbraces := ScansAlike.braces hcut hplain
        (.tag htag htag' (hmoved.relaid Opened) halike)
      have hfront := @ih (before ++ (openBraces ++ (inside ++ common))) (by simp) (by simp; omega)
        (by simpa only [List.append_assoc] using hbraces)
      simpa only [List.append_assoc] using hfront
  | @literal front part before rest inner later hreached hcut hescaped hlater hforward ih =>
      obtain ⟨more, rfl⟩ : openBraces <+: common :=
        List.prefix_of_prefix_length_le (List.prefix_append openBraces later)
          (hpart ▸ List.prefix_append common tail) hlength
      rw [List.append_assoc] at hpart
      obtain rfl : later = more ++ tail := List.append_cancel_left hpart
      obtain rfl : rest = inner ++ (openBraces ++ (more ++ tail)) := by
        rw [eq_append_of_cut hlater, List.append_assoc]
      obtain rfl : part = before ++ (openBraces ++ (inner ++ (openBraces ++ (more ++ tail)))) := by
        rw [eq_append_of_cut hcut, List.append_assoc]
      rw [List.append_assoc, List.append_assoc, scanFrom_openBraces, scanFrom_openBraces] at halike
      rw [hreached.escaped_iff] at hescaped
      have hliteral := ScansAlike.literal hescaped hcut hlater hforward halike
      have hfront := @ih (before ++ (openBraces ++ (inner ++ (openBraces ++ more)))) (by simp)
        (by simp; omega) (by simpa only [List.append_assoc] using hliteral)
      simpa only [List.append_assoc] using hfront

/-- Two sources are alike if they are so from behind the braces of a tag on. -/
theorem OpensTag.scansAlike
    {source front rest rest' : List Char} (h : OpensTag source front rest)
    (halike : ScansAlike Opened (scanTag (LineIndex.ofSource source) rest)
      (scanTag index' rest')) :
    ScansAlike Opened (scanFrom (LineIndex.ofSource source) source)
      (scanFrom index' (front ++ (openBraces ++ rest'))) := by
  obtain ⟨lead, part, gap, hreached, hcut, hplain, rfl⟩ := h
  have hpart : part = gap ++ openBraces ++ rest := eq_append_of_cut hcut
  rw [hreached.escaped_iff] at hplain
  have hbraces : ScansAlike Opened
      (scanFrom (LineIndex.ofSource source) (gap ++ openBraces ++ rest))
      (scanFrom index' (gap ++ openBraces ++ rest')) := by
    rw [hpart, List.append_assoc] at hcut
    rw [List.append_assoc, List.append_assoc]
    exact .braces hcut hplain halike
  have hsource := hreached.scansAlike hpart (by simp) hbraces
  simpa only [List.append_assoc] using hsource

end

end Template
end TemplateModules
