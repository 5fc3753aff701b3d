import TemplateModules.Proofs.Template.Pieces

/-!
# Tokens tile their source

The tokens of a template follow each other in its source.  What no token stands for is blank, and
next to a tag that asks for such blanks to be removed.  A content says what its slice of the source
does, without the backslashes that protect something and without these blanks.
-/

namespace TemplateModules
namespace Template

open Text

/-- A span stands for a piece of a source that starts at an offset. -/
def Covers (span : Span) (offset : Nat) (piece : List Char) : Prop :=
  span.start = offset ∧ span.stop = offset + byteSize piece

/-- The token of a content that starts at an offset, if text is left. -/
inductive IsContent (offset : Nat) (slice text : List Char) : List Token → Prop where
  | empty (htext : text = []) : IsContent offset slice text []
  | token {span : Span} (htext : text ≠ []) (hspan : Covers span offset slice) :
      IsContent offset slice text [.content (String.ofList text) span]

/-- Tokens tile the rest of a source from an offset on: a content and a tag in turn.  The flag says
that the tag in front removes the blanks after it. -/
inductive Tiled : Nat → Bool → List Char → List Token → Prop where
  | last {offset : Nat} {stripped : Bool} {slice : List Char} {front : List Token}
      (hfront :
        IsContent offset slice (trimAt stripped false (contentText false slice)) front) :
      Tiled offset stripped slice front
  | tag {offset : Nat} {stripped : Bool} {slice piece after : List Char} {tag : Tag}
      {front tokens : List Token}
      (hfront :
        IsContent offset slice (trimAt stripped tag.strip.before (contentText true slice)) front)
      (htag : IsTagText tag piece)
      (hspan : Covers tag.span (offset + byteSize slice) piece)
      (htokens : Tiled (offset + byteSize slice + byteSize piece) tag.strip.after after tokens) :
      Tiled offset stripped (slice ++ (piece ++ after)) (front ++ .tag tag :: tokens)

/-! ## The scanner -/

theorem covers_between (before piece after : List Char) :
    Covers ((LineIndex.ofSource (before ++ (piece ++ after))).between (piece ++ after) after)
      (byteSize before) piece := by
  simp only [Covers, LineIndex.between, LineIndex.span, LineIndex.offsetOf, LineIndex.ofSource,
    byteSize_append]
  omega

theorem trimAt_nil (atStart atEnd : Bool) : trimAt atStart atEnd [] = [] := by
  cases atStart <;> cases atEnd <;> rfl

/-- Of the token of a content what text is left stays. -/
theorem exists_isContent
    {index : LineIndex} {opening after slice : List Char} {offset : Nat} {tokens : List Token}
    (text : List Char) (hspan : Covers (index.between opening after) offset slice) (stripped : Bool)
    (htokens : ∀ stripped, trimTokens stripped tokens = trimTokens false tokens) :
    ∃ front,
      trimTokens stripped (contentToken index text opening after ++ tokens) =
        front ++ trimTokens false tokens ∧
      IsContent offset slice (trimAt stripped (stripsBefore tokens) text) front := by
  unfold contentToken
  split
  · next hempty =>
      rw [List.isEmpty_iff.mp hempty, trimAt_nil]
      exact ⟨[], htokens stripped, .empty rfl⟩
  · rw [List.singleton_append, trimTokens, String.toList_ofList]
    change ∃ front,
      (if (trimAt stripped (stripsBefore tokens) text).isEmpty = true then _ else _) = _ ∧ _
    split
    · next hempty => exact ⟨[], rfl, .empty (List.isEmpty_iff.mp hempty)⟩
    · next hempty =>
        refine ⟨_, rfl, .token ?_ hspan⟩
        rwa [List.isEmpty_iff] at hempty

/-- What is scanned tiles the source. -/
theorem tiled_of_scanFrom
    {before part : List Char} {tokens : List Token}
    (h : scanFrom (LineIndex.ofSource (before ++ part)) part = .ok tokens) (stripped : Bool) :
    Tiled (byteSize before) stripped part (trimTokens stripped tokens) := by
  -- Offsets are those of the whole source, so the part that is already read is carried along.
  rw [scanFrom] at h
  split at h
  · contradiction
  · next text hstretch =>
      cases h
      have hcovers := covers_between before part []
      rw [List.append_nil] at hcovers
      have hnil : ∀ stripped, trimTokens stripped [] = trimTokens false [] := fun _ => rfl
      obtain ⟨front, hfront, hcontent⟩ := exists_isContent text hcovers stripped hnil
      rw [List.append_nil] at hfront
      rw [hfront, trimTokens, List.append_nil]
      rw [eq_contentText_of_last hstretch] at hcontent
      exact .last hcontent
  · next text rest hstretch =>
      split at h
      · contradiction
      · next tag after htag =>
          simp only at h
          split at h
          · contradiction
          · next later hlater =>
              cases h
              have hshort : after.length < part.length :=
                (length_lt_of_readTag htag).trans (length_lt_of_stretch hstretch)
              obtain ⟨slice, rfl, htext⟩ := exists_contentText_of_upTo hstretch
              obtain ⟨piece, hpiece, htagText⟩ := readTag_isTagText htag
              obtain ⟨-, hspan⟩ := readTag_span htag
              rw [hpiece] at hspan hlater ⊢
              have hsource : before ++ (slice ++ (piece ++ after)) =
                  before ++ slice ++ (piece ++ after) := by
                simp only [List.append_assoc]
              have hcovers := covers_between (before ++ slice) piece after
              rw [← hsource, ← hspan, byteSize_append] at hcovers
              have hcontent := covers_between before slice (piece ++ after)
              have htokens (stripped : Bool) :
                  trimTokens stripped (.tag tag :: later) =
                    trimTokens false (.tag tag :: later) := by
                rw [trimTokens, trimTokens]
              obtain ⟨front, hfront, hcontent⟩ := exists_isContent text hcontent stripped htokens
              rw [htext] at hcontent
              rw [hfront, trimTokens]
              have hlater :
                  scanFrom (LineIndex.ofSource (before ++ slice ++ piece ++ after)) after =
                    .ok later := by
                rw [← hlater, hsource, ← List.append_assoc (before ++ slice)]
              have htiled := tiled_of_scanFrom hlater tag.strip.after
              rw [byteSize_append, byteSize_append] at htiled
              exact .tag hcontent htagText hcovers htiled
termination_by part.length

/-! ## Places in a source -/

/-- A piece of the rest of a source stands between two offsets. -/
def Stands (offset : Nat) (part : List Char) (start stop : Nat) (piece : List Char) : Prop :=
  ∃ lead tail,
    part = lead ++ (piece ++ tail) ∧ start = offset + byteSize lead ∧ stop = start + byteSize piece

theorem Stands.slice
    {source piece : List Char} {start stop : Nat} (h : Stands 0 source start stop piece) :
    slice? source start stop = some piece := by
  obtain ⟨lead, tail, rfl, rfl, rfl⟩ := h
  rw [Nat.zero_add, ← List.append_assoc]
  exact slice?_append lead piece tail

theorem Stands.append
    {offset start stop : Nat} {lead part piece : List Char}
    (h : Stands (offset + byteSize lead) part start stop piece) :
    Stands offset (lead ++ part) start stop piece := by
  obtain ⟨more, tail, rfl, hstart, hstop⟩ := h
  refine ⟨lead ++ more, tail, by rw [List.append_assoc], ?_, hstop⟩
  rw [hstart, byteSize_append, Nat.add_assoc]

theorem Covers.stands
    {span : Span} {offset : Nat} {piece : List Char} (h : Covers span offset piece)
    (tail : List Char) :
    Stands offset (piece ++ tail) span.start span.stop piece :=
  ⟨[], tail, rfl, h.1, by rw [h.1, h.2]⟩

theorem byteSize_pos {cs : List Char} (h : cs ≠ []) : 0 < byteSize cs := by
  obtain ⟨c, cs, rfl⟩ := List.exists_cons_of_ne_nil h
  rw [byteSize_cons]
  have := c.utf8Size_pos
  omega

theorem IsTagText.ne_nil {tag : Tag} {piece : List Char} (h : IsTagText tag piece) :
    piece ≠ [] := by
  obtain ⟨⟨inside, rfl⟩, -⟩ := h
  simp [openBraces]

/-! ## Contents -/

section Contents

variable {offset : Nat} {tagFollows atStart atEnd : Bool} {slice : List Char} {front : List Token}

/-- A content that has a token stands for a slice that is not empty. -/
theorem IsContent.bounds
    (h : IsContent offset slice (trimAt atStart atEnd (contentText tagFollows slice)) front) :
    ∀ t ∈ front, t.span.start = offset ∧ t.span.start < t.span.stop ∧
      t.span.stop = offset + byteSize slice := by
  cases h with
  | empty => simp
  | @token span htext hspan =>
      intro t ht
      obtain rfl := List.mem_singleton.mp ht
      have hslice : slice ≠ [] := by
        rintro rfl
        apply htext
        have hnil : contentText tagFollows [] = [] := by cases tagFollows <;> rfl
        rw [hnil, trimAt_nil]
      have hpos := byteSize_pos hslice
      obtain ⟨hstart, hstop⟩ := hspan
      refine ⟨hstart, ?_, hstop⟩
      simp only [Token.span]
      omega

/-- A content without a token is blank, and has a neighbour that asks for it to be removed. -/
theorem IsContent.blank
    {k : Nat}
    (h : IsContent offset slice (trimAt atStart atEnd (contentText tagFollows slice)) front)
    (hlow : offset ≤ k) (hhigh : k < offset + byteSize slice)
    (hout : ∀ t ∈ front, ¬ (t.span.start ≤ k ∧ k < t.span.stop)) :
    (∀ c ∈ slice, isBlank c = true) ∧ (atStart = true ∨ atEnd = true) := by
  cases h with
  | token htext hspan =>
      obtain ⟨hstart, hstop⟩ := hspan
      refine absurd ⟨?_, ?_⟩ (hout _ List.mem_cons_self)
      · exact hstart.trans_le hlow
      · exact hhigh.trans_eq hstop.symm
  | empty htext =>
      obtain ⟨hblank, hnil | hstrip⟩ := blank_of_trimAt_eq_nil htext
      · rw [contentText_of_blank hblank] at hnil
        subst hnil
        simp only [byteSize_nil] at hhigh
        omega
      · rw [contentText_of_blank hblank] at hblank
        exact ⟨hblank, hstrip⟩

/-- A content among tokens is the one in front of the first tag, or stands behind this tag. -/
theorem IsContent.split
    {text : List Char} {tag : Tag} {tokens before after : List Token} {s : String} {span : Span}
    (h : IsContent offset slice text front)
    (htokens : front ++ .tag tag :: tokens = before ++ .content s span :: after) :
    (before = [] ∧ front = [.content s span] ∧ after = .tag tag :: tokens) ∨
      ∃ between, before = front ++ .tag tag :: between ∧
        tokens = between ++ .content s span :: after := by
  cases h with
  | empty =>
      cases before with
      | nil => simp at htokens
      | cons first before =>
          simp only [List.nil_append, List.cons_append, List.cons.injEq] at htokens
          obtain ⟨rfl, htokens⟩ := htokens
          exact .inr ⟨before, rfl, htokens⟩
  | token =>
      cases before with
      | nil =>
          simp only [List.nil_append, List.cons_append, List.cons.injEq] at htokens
          obtain ⟨hfirst, rfl⟩ := htokens
          exact .inl ⟨rfl, by rw [hfirst], rfl⟩
      | cons first before =>
          cases before with
          | nil => simp at htokens
          | cons second before =>
              simp only [List.nil_append, List.cons_append, List.cons.injEq] at htokens
              obtain ⟨rfl, rfl, htokens⟩ := htokens
              exact .inr ⟨before, rfl, htokens⟩

end Contents

/-! ## What tiles a source -/

/-- Whether the last of the tokens in front is a tag that removes the blanks after it.  Where there
are none, the flag says it. -/
def stripsAfter (stripped : Bool) (before : List Token) : Bool :=
  match before.getLast? with
  | none => stripped
  | some (.content _ _) => false
  | some (.tag tag) => tag.strip.after

theorem stripsAfter_append_tag
    (stripped : Bool) (front between : List Token) (tag : Tag) :
    stripsAfter stripped (front ++ .tag tag :: between) = stripsAfter tag.strip.after between := by
  cases between with
  | nil => simp [stripsAfter]
  | cons t between =>
      rw [stripsAfter, stripsAfter, List.getLast?_append_of_ne_nil _ (List.cons_ne_nil _ _),
        List.getLast?_cons_cons]
      cases hlast : (t :: between).getLast? with
      | none => simp at hlast
      | some last => cases last <;> rfl

theorem ofList_ne_empty {cs : List Char} (h : cs ≠ []) : String.ofList cs ≠ "" := by
  intro heq
  apply h
  rw [← String.toList_ofList (l := cs), heq]
  rfl

section Tiled

variable {offset : Nat} {stripped : Bool} {part : List Char} {tokens : List Token}

/-- Spans lie in the part of the source that is tiled. -/
theorem Tiled.bounds (h : Tiled offset stripped part tokens) :
    ∀ t ∈ tokens,
      offset ≤ t.span.start ∧ t.span.start < t.span.stop ∧
        t.span.stop ≤ offset + byteSize part := by
  induction h with
  | last hfront =>
      intro t ht
      have := hfront.bounds t ht
      omega
  | tag hfront htag hspan htokens ih =>
      intro t ht
      rw [byteSize_append, byteSize_append]
      rcases List.mem_append.mp ht with ht | ht
      · have := hfront.bounds t ht
        omega
      · rcases List.mem_cons.mp ht with rfl | ht
        · have hpos := byteSize_pos htag.ne_nil
          obtain ⟨hstart, hstop⟩ := hspan
          simp only [Token.span]
          omega
        · have := ih t ht
          omega

/-- Spans follow each other. -/
theorem Tiled.pairwise (h : Tiled offset stripped part tokens) :
    tokens.Pairwise fun t u => t.span.stop ≤ u.span.start := by
  induction h with
  | last hfront => cases hfront <;> simp
  | @tag offset stripped slice piece after tag front tokens hfront htag hspan htokens ih =>
      have hlater : ∀ t ∈ tokens, tag.span.stop ≤ t.span.start := by
        intro t ht
        have := htokens.bounds t ht
        obtain ⟨hstart, hstop⟩ := hspan
        omega
      have hrest : (Token.tag tag :: tokens).Pairwise fun t u => t.span.stop ≤ u.span.start :=
        List.pairwise_cons.mpr ⟨hlater, ih⟩
      refine List.pairwise_append.mpr ⟨?_, hrest, ?_⟩
      · cases hfront <;> simp
      · intro t ht u hu
        have hfirst := hfront.bounds t ht
        obtain ⟨hstart, hstop⟩ := hspan
        rcases List.mem_cons.mp hu with rfl | hu
        · change t.span.stop ≤ tag.span.start
          omega
        · have := htokens.bounds u hu
          omega

/-- The span of a tag stands for its text. -/
theorem Tiled.exists_tagText
    {tag : Tag} (h : Tiled offset stripped part tokens) (htag : Token.tag tag ∈ tokens) :
    ∃ piece, Stands offset part tag.span.start tag.span.stop piece ∧ IsTagText tag piece := by
  induction h with
  | last hfront =>
      cases hfront <;> simp at htag
  | tag hfront htext hspan htokens ih =>
      rcases List.mem_append.mp htag with htag | htag
      · cases hfront <;> simp at htag
      · rcases List.mem_cons.mp htag with heq | htag
        · cases heq
          exact ⟨_, (hspan.stands _).append, htext⟩
        · obtain ⟨piece, hstands, htext⟩ := ih htag
          exact ⟨piece, hstands.append.append, htext⟩

/-- A content stands for a slice between its neighbours, which are tags, and says what it does. -/
theorem Tiled.exists_slice
    {before after : List Token} {text : String} {span : Span}
    (h : Tiled offset stripped part tokens)
    (htokens : tokens = before ++ .content text span :: after) :
    text ≠ "" ∧
    (before = [] → span.start = offset) ∧
    (∀ t ∈ before.getLast?, ∃ tag, t = .tag tag ∧ tag.span.stop = span.start) ∧
    (∀ t ∈ after.head?, ∃ tag, t = .tag tag ∧ tag.span.start = span.stop) ∧
    ∃ slice,
      Stands offset part span.start span.stop slice ∧
      text.toList = trimAt (stripsAfter stripped before) (stripsBefore after)
        (contentText (!after.isEmpty) slice) := by
  -- On the tags: a content stands in front of the first of them, or is found among the rest.
  induction h generalizing before with
  | @last offset stripped slice front hfront =>
      cases hfront with
      | empty => simp at htokens
      | token htext hspan =>
          cases before with
          | nil =>
              simp only [List.nil_append, List.cons.injEq, Token.content.injEq] at htokens
              obtain ⟨⟨rfl, rfl⟩, rfl⟩ := htokens
              have hstands := hspan.stands []
              rw [List.append_nil] at hstands
              refine ⟨ofList_ne_empty htext, fun _ => hspan.1, by simp, by simp, slice, hstands, ?_⟩
              rw [String.toList_ofList]
              rfl
          | cons first before => simp at htokens
  | @tag offset stripped slice piece later tag front tokens hfront htag hspan hrest ih =>
      obtain ⟨rfl, rfl, rfl⟩ | ⟨between, rfl, hbetween⟩ := hfront.split htokens
      · cases hfront with
        | token htext hcovers =>
            refine ⟨ofList_ne_empty htext, fun _ => hcovers.1, by simp, ?_, slice,
              hcovers.stands _, ?_⟩
            · rintro t ⟨⟩
              exact ⟨tag, rfl, hspan.1.trans hcovers.2.symm⟩
            · rw [String.toList_ofList]
              rfl
      · obtain ⟨htext, hstart, hbehind, hahead, slice', hstands, hreads⟩ := ih hbetween
        refine ⟨htext, by simp, ?_, hahead, slice', hstands.append.append, ?_⟩
        · rw [List.getLast?_append_of_ne_nil _ (List.cons_ne_nil _ _)]
          cases between with
          | nil =>
              rintro t ⟨⟩
              exact ⟨tag, rfl, hspan.2.trans (hstart rfl).symm⟩
          | cons second between =>
              rw [List.getLast?_cons_cons]
              exact hbehind
        · rw [stripsAfter_append_tag]
          exact hreads

/-- What no span covers is blank, up to a tag that asks for it to be removed. -/
theorem Tiled.exists_blank
    {k : Nat} (h : Tiled offset stripped part tokens)
    (hlow : offset ≤ k) (hhigh : k < offset + byteSize part)
    (hout : ∀ t ∈ tokens, ¬ (t.span.start ≤ k ∧ k < t.span.stop)) :
    ∃ start stop blanks,
      Stands offset part start stop blanks ∧ start ≤ k ∧ k < stop ∧
      (∀ c ∈ blanks, isBlank c = true) ∧
      ((start = offset ∧ stripped = true) ∨
        (∃ tag, Token.tag tag ∈ tokens ∧ tag.span.stop = start ∧ tag.strip.after = true) ∨
        ∃ tag, Token.tag tag ∈ tokens ∧ tag.span.start = stop ∧ tag.strip.before = true) := by
  induction h with
  | @last offset stripped slice front hfront =>
      obtain ⟨hblank, hstrip⟩ := hfront.blank hlow hhigh hout
      refine ⟨offset, offset + byteSize slice, slice, ⟨[], [], by simp⟩, hlow, hhigh, hblank, ?_⟩
      obtain hstrip | hstrip := hstrip
      · exact .inl ⟨rfl, hstrip⟩
      · contradiction
  | @tag offset stripped slice piece later tag front tokens hfront htag hspan hrest ih =>
      have hmem : Token.tag tag ∈ front ++ .tag tag :: tokens :=
        List.mem_append_right _ List.mem_cons_self
      have htagOut : ¬ (tag.span.start ≤ k ∧ k < tag.span.stop) := hout _ hmem
      obtain ⟨hstart, hstop⟩ := hspan
      by_cases hk : k < offset + byteSize slice
      · obtain ⟨hblank, hstrip⟩ :=
          hfront.blank hlow hk fun t ht => hout t (List.mem_append_left _ ht)
        refine ⟨offset, offset + byteSize slice, slice, ⟨[], _, rfl, rfl, rfl⟩, hlow, hk, hblank,
          ?_⟩
        obtain hstrip | hstrip := hstrip
        · exact .inl ⟨rfl, hstrip⟩
        · exact .inr (.inr ⟨tag, hmem, hstart, hstrip⟩)
      · rw [byteSize_append, byteSize_append] at hhigh
        have hlater : ∀ t ∈ tokens, ¬ (t.span.start ≤ k ∧ k < t.span.stop) := by
          intro t ht
          exact hout t (List.mem_append_right _ (List.mem_cons_of_mem _ ht))
        obtain ⟨start, stop, blanks, hstands, hfrom, hto, hblank, hstrip⟩ :=
          ih (by omega) (by omega) hlater
        refine ⟨start, stop, blanks, hstands.append.append, hfrom, hto, hblank, ?_⟩
        have hmono (t : Token) (ht : t ∈ tokens) : t ∈ front ++ .tag tag :: tokens :=
          List.mem_append_right _ (List.mem_cons_of_mem _ ht)
        obtain ⟨rfl, hstrip⟩ | ⟨next, hnext, hstrip⟩ | ⟨next, hnext, hstrip⟩ := hstrip
        · exact .inr (.inl ⟨tag, hmem, hstop, hstrip⟩)
        · exact .inr (.inl ⟨next, hmono _ hnext, hstrip⟩)
        · exact .inr (.inr ⟨next, hmono _ hnext, hstrip⟩)

end Tiled

/-- Certain tokens tile a source. -/
structure Tiles (source : List Char) (tokens : List Token) : Prop where
  /-- Spans are not empty and lie inside the source. -/
  bounds : ∀ t ∈ tokens, t.span.start < t.span.stop ∧ t.span.stop ≤ byteSize source
  /-- Each span ends before all later ones start. -/
  ordered : tokens.Pairwise fun t u => t.span.stop ≤ u.span.start
  /-- A tag stands between braces, and its flags are the tildes next to them. -/
  tags : ∀ tag, Token.tag tag ∈ tokens →
    ∃ piece, slice? source tag.span.start tag.span.stop = some piece ∧ IsTagText tag piece
  /-- A content is not empty, stands between tags, and says what its slice does. -/
  contents : ∀ before text span after, tokens = before ++ .content text span :: after →
    text ≠ "" ∧
    (∀ t ∈ before.getLast?, ∃ tag, t = .tag tag ∧ tag.span.stop = span.start) ∧
    (∀ t ∈ after.head?, ∃ tag, t = .tag tag ∧ tag.span.start = span.stop) ∧
    ∃ slice,
      slice? source span.start span.stop = some slice ∧
      text.toList = trimAt (stripsAfter false before) (stripsBefore after)
        (contentText (!after.isEmpty) slice)
  /-- A byte outside of all spans belongs to blanks that reach up to a tag with a tilde there. -/
  blanks : ∀ k < byteSize source, (∀ t ∈ tokens, ¬ (t.span.start ≤ k ∧ k < t.span.stop)) →
    ∃ start stop slice,
      slice? source start stop = some slice ∧ start ≤ k ∧ k < stop ∧
      (∀ c ∈ slice, isBlank c = true) ∧
      ((∃ tag, Token.tag tag ∈ tokens ∧ tag.span.stop = start ∧ tag.strip.after = true) ∨
        ∃ tag, Token.tag tag ∈ tokens ∧ tag.span.start = stop ∧ tag.strip.before = true)

/-- The tokens of a template tile its source. -/
theorem scan_tiles {source : String} {tokens : List Token} (h : scan source = .ok tokens) :
    Tiles source.toList tokens := by
  have htiled : Tiled 0 false source.toList tokens := by
    unfold scan at h
    split at h
    · contradiction
    · next found hfound =>
        obtain rfl := Except.ok.inj h
        exact tiled_of_scanFrom (show scanFrom (.ofSource ([] ++ _)) _ = _ from hfound) false
  constructor
  · intro t ht
    have := htiled.bounds t ht
    omega
  · exact htiled.pairwise
  · intro tag htag
    obtain ⟨piece, hstands, htext⟩ := htiled.exists_tagText htag
    exact ⟨piece, hstands.slice, htext⟩
  · intro before text span after htokens
    obtain ⟨htext, -, hbehind, hahead, slice, hstands, hreads⟩ := htiled.exists_slice htokens
    exact ⟨htext, hbehind, hahead, slice, hstands.slice, hreads⟩
  · intro k hk hout
    obtain ⟨start, stop, slice, hstands, hfrom, hto, hblank, hstrip⟩ :=
      htiled.exists_blank (Nat.zero_le k) (by omega) hout
    refine ⟨start, stop, slice, hstands.slice, hfrom, hto, hblank, ?_⟩
    obtain ⟨-, hstrip⟩ | hstrip := hstrip
    · contradiction
    · exact hstrip

/-- A source with an escaped backslash in front of a tag, a tilde, and escaped braces. -/
def escapes : String :=
  "x\\\\\x7b\x7ba~\x7d\x7d \n\x7b\x7bb\x7d\x7d\\\x7b\x7bc"

/-- Its tokens.  The blanks between the tags belong to none of them. -/
def escapesTokens : List Token :=
  [.content "x\\" ⟨0, 3, 1, 0, 1, 3⟩,
    .tag ⟨.mustache, "a", ⟨false, true⟩, ⟨3, 9, 1, 3, 1, 9⟩⟩,
    .tag ⟨.mustache, "b", ⟨false, false⟩, ⟨11, 16, 2, 0, 2, 5⟩⟩,
    .content "\x7b\x7bc" ⟨16, 20, 2, 5, 2, 9⟩]

theorem escapes_tiles :
    scan escapes = .ok escapesTokens ∧ Tiles escapes.toList escapesTokens := by
  have hscan : scan escapes = .ok escapesTokens := by decide +kernel
  exact ⟨hscan, scan_tiles hscan⟩

end Template
end TemplateModules
