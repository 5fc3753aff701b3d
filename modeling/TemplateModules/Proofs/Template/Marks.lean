import TemplateModules.Proofs.Template.Statements
import TemplateModules.Proofs.Template.Tiling

/-!
# The marks of tags

The kind of a tag is read off the marks behind its opening braces.  For the tags of a template this
can be seen in the source: whether a value is escaped, and whether the sections of a block are
exchanged, is shown by the part of the source that the tag stands for.
-/

namespace TemplateModules
namespace Template

open Text

/-! ## The text of a tag -/

/-- Whether a mark stands behind the two braces of a tag, and perhaps a tilde. -/
def opensWithMark (mark : Char) (piece : List Char) : Bool :=
  (openBraces ++ [mark]).isPrefixOf piece || (openBraces ++ ['~', mark]).isPrefixOf piece

/-- Whether the text of a mustache asks for its value as it is: with a third brace, or with an
ampersand. -/
def opensUnescaped (piece : List Char) : Bool :=
  (openBraces ++ ['\x7b']).isPrefixOf piece || opensWithMark '&' piece

/-- Whether the text of a tag opens a block for an absent value. -/
def opensInverse (piece : List Char) : Bool :=
  opensWithMark '^' piece

theorem opensWithMark_append {mark : Char} (hmark : mark ≠ '~') (rest : List Char) :
    opensWithMark mark (openBraces ++ rest) = ((skip '~' rest).2.head? == some mark) := by
  cases rest with
  | nil => rfl
  | cons c rest =>
      by_cases htilde : c = '~'
      · have hnot : (mark == c) = false := beq_false_of_ne (htilde ▸ hmark)
        cases rest with
        | nil => simp [skip, opensWithMark, openBraces, List.isPrefixOf, htilde, htilde ▸ hnot]
        | cons d rest =>
            simp [skip, opensWithMark, openBraces, List.isPrefixOf, htilde, htilde ▸ hnot,
              Bool.beq_comm]
      · have hnot : ('~' == c) = false := beq_false_of_ne (Ne.symm htilde)
        simp [skip, opensWithMark, openBraces, List.isPrefixOf, htilde, hnot, Bool.beq_comm]

theorem sigil_fst (cs : List Char) :
    ((sigil cs).1 = .unescaped ↔ cs.head? = some '&') ∧
      ((sigil cs).1 = .inverse ↔ cs.head? = some '^') := by
  unfold sigil
  split
  · simp
  · simp
  · simp
  · simp
  · simp
  · next hinverse _ _ hunescaped =>
      constructor
      · refine iff_of_false (by simp) ?_
        intro hhead
        obtain ⟨rest, rfl⟩ := List.head?_eq_some_iff.mp hhead
        exact hunescaped rest rfl
      · refine iff_of_false (by simp) ?_
        intro hhead
        obtain ⟨rest, rfl⟩ := List.head?_eq_some_iff.mp hhead
        exact hinverse rest rfl

/-- The kind that the braces of a tag and the mark behind them announce. -/
def announcedKind (rest : List Char) : TagKind :=
  if (skip '\x7b' rest).1 then .unescaped else (sigil (skip '~' (skip '\x7b' rest).2).2).1

theorem announcedKind_iff (rest : List Char) :
    (announcedKind rest = .unescaped ↔ opensUnescaped (openBraces ++ rest) = true) ∧
      (announcedKind rest = .inverse ↔ opensInverse (openBraces ++ rest) = true) := by
  have hmarks := sigil_fst (skip '~' rest).2
  rw [opensUnescaped, opensInverse, opensWithMark_append (by decide), opensWithMark_append (by decide)]
  by_cases hbrace : ∃ later, rest = '\x7b' :: later
  · obtain ⟨later, rfl⟩ := hbrace
    simp [announcedKind, skip, openBraces]
  · have hskip : skip '\x7b' rest = (false, rest) := by
      cases rest with
      | nil => rfl
      | cons c rest => exact if_neg fun hc => hbrace ⟨rest, by rw [hc]⟩
    have hprefix : (openBraces ++ ['\x7b']).isPrefixOf (openBraces ++ rest) = false := by
      rw [Bool.eq_false_iff, Ne, List.isPrefixOf_iff_prefix, List.prefix_append_right_inj]
      rintro ⟨later, hlater⟩
      exact hbrace ⟨later, hlater.symm⟩
    rw [announcedKind, hskip, hprefix, if_neg Bool.false_ne_true, Bool.false_or, beq_iff_eq,
      beq_iff_eq]
    exact hmarks

/-- The text of a tag shows its kind. -/
structure ShowsKind (tag : Tag) (piece : List Char) : Prop where
  unescaped : tag.kind = .unescaped → opensUnescaped piece = true
  mustache : tag.kind = .mustache → opensUnescaped piece = false
  inverse : tag.kind = .inverse → opensInverse piece = true
  block : tag.kind = .block → opensInverse piece = false
  /-- A lone mark of an inverse block is an `else`. -/
  chained : tag.kind = .alternative → tag.body ≠ "" → opensInverse piece = false

/-- Apart from the tags that open other sections, a tag has the kind that is announced. -/
theorem kind_of_classify
    {kind found : TagKind} {inside body : List Char} (h : classify kind inside = some (found, body)) :
    found = kind ∨ found = .alternative ∧ (kind = .mustache ∨ body = []) := by
  unfold classify at h
  split at h
  next known left hmarked =>
    have hknown : known = kind ∨ known = .alternative ∧ (kind = .mustache ∨ left = []) := by
      split at hmarked
      · cases hmarked
        exact Or.inr ⟨rfl, Or.inl rfl⟩
      · cases hmarked
        exact Or.inr ⟨rfl, Or.inl rfl⟩
      · cases hmarked
        split_ifs with hempty
        · exact Or.inr ⟨rfl, Or.inr (List.isEmpty_iff.mp hempty)⟩
        · exact Or.inl rfl
      · cases hmarked
        exact Or.inl rfl
    split_ifs at h
    · cases h
      exact hknown

theorem announcedKind_ne_alternative (rest : List Char) : announcedKind rest ≠ .alternative := by
  unfold announcedKind sigil
  split_ifs
  · simp
  · split <;> simp

theorem showsKind_of_classify
    {rest inside body : List Char} {tag : Tag}
    (h : classify (announcedKind rest) inside = some (tag.kind, body))
    (hbody : tag.body = String.ofList body) :
    ShowsKind tag (openBraces ++ rest) := by
  obtain ⟨hunescaped, hinverse⟩ := announcedKind_iff rest
  obtain hkind | ⟨hkind, hother⟩ := kind_of_classify h
  · rw [← hkind] at hunescaped hinverse
    have halternative : tag.kind ≠ .alternative := hkind ▸ announcedKind_ne_alternative rest
    exact {
      unescaped := hunescaped.mp
      inverse := hinverse.mp
      mustache := fun hmustache => by simpa [hmustache] using hunescaped
      block := fun hblock => by simpa [hblock] using hinverse
      chained := fun hchained => absurd hchained halternative }
  · have hchained (hne : tag.body ≠ "") : opensInverse (openBraces ++ rest) = false := by
      obtain hmustache | rfl := hother
      · simpa [hmustache] using hinverse
      · exact absurd hbody hne
    exact {
      unescaped := fun h => by cases hkind.symm.trans h
      mustache := fun h => by cases hkind.symm.trans h
      inverse := fun h => by cases hkind.symm.trans h
      block := fun h => by cases hkind.symm.trans h
      chained := fun _ => hchained }

theorem showsKind_of_readTag
    {index : LineIndex} {rest after : List Char} {tag : Tag}
    (h : readTag index rest = .ok (tag, after)) :
    ShowsKind tag (openBraces ++ rest) := by
  have hannounced :
      (if (skip '\x7b' rest).1 then (TagKind.unescaped, (skip '~' (skip '\x7b' rest).2).2)
      else sigil (skip '~' (skip '\x7b' rest).2).2).1 = announcedKind rest := by
    unfold announcedKind
    split_ifs <;> rfl
  unfold readTag at h
  simp only at h
  split at h
  · cases h
  · split at h
    · split at h
      · cases h
      · cases h
        exact ⟨nofun, nofun, nofun, nofun, nofun⟩
    · split at h
      · cases h
      · split at h
        · cases h
        · split at h
          · cases h
          · next kind body hclassify =>
              cases h
              rw [hannounced] at hclassify
              exact showsKind_of_classify hclassify rfl

theorem isPrefixOf_append
    {lead piece : List Char} (h : lead.length ≤ piece.length) (after : List Char) :
    lead.isPrefixOf (piece ++ after) = lead.isPrefixOf piece := by
  rw [Bool.eq_iff_iff, List.isPrefixOf_iff_prefix, List.isPrefixOf_iff_prefix]
  constructor
  · intro hprefix
    exact List.prefix_of_prefix_length_le hprefix (List.prefix_append ..) h
  · intro hprefix
    exact hprefix.trans (List.prefix_append ..)

/-- What stands behind the text of a tag does not matter, since this is long enough for a mark. -/
theorem ShowsKind.of_append
    {tag : Tag} {piece after : List Char} (h : ShowsKind tag (piece ++ after))
    (htext : IsTagText tag piece) : ShowsKind tag piece := by
  have hlength : 4 ≤ piece.length := by
    obtain ⟨⟨inside, rfl⟩, -⟩ := htext
    simp [openBraces, closeBraces]
  have hshort (c : Char) : (openBraces ++ [c]).length ≤ piece.length := Nat.le_of_succ_le hlength
  have hlong (c : Char) : (openBraces ++ ['~', c]).length ≤ piece.length := hlength
  have hmark (c : Char) : opensWithMark c (piece ++ after) = opensWithMark c piece := by
    rw [opensWithMark, opensWithMark, isPrefixOf_append (hshort c), isPrefixOf_append (hlong c)]
  have hunescaped : opensUnescaped (piece ++ after) = opensUnescaped piece := by
    rw [opensUnescaped, opensUnescaped, isPrefixOf_append (hshort _), hmark]
  have hinverse : opensInverse (piece ++ after) = opensInverse piece := hmark '^'
  exact {
    unescaped := hunescaped ▸ h.unescaped
    mustache := hunescaped ▸ h.mustache
    inverse := hinverse ▸ h.inverse
    block := hinverse ▸ h.block
    chained := hinverse ▸ h.chained }

/-- The text of a tag is the part of the source at its span, and it shows its kind. -/
theorem exists_piece_of_mem_scan
    {source : String} {tokens : List Token} {tag : Tag}
    (h : scan source = .ok tokens) (htag : Token.tag tag ∈ tokens) :
    ∃ piece, slice? source.toList tag.span.start tag.span.stop = some piece ∧
      ShowsKind tag piece := by
  obtain ⟨rest, after, ⟨before, hsource⟩, hread⟩ := exists_readTag_of_mem_scan h htag
  obtain ⟨piece, hpiece, htext⟩ := readTag_isTagText hread
  have hkind := showsKind_of_readTag hread
  have hcovers := covers_between before piece after
  rw [← hpiece, hsource, ← (readTag_span hread).2] at hcovers
  have hslice := slice?_append before piece after
  rw [List.append_assoc, ← hpiece, hsource, ← hcovers.2, ← hcovers.1] at hslice
  rw [hpiece] at hkind
  exact ⟨piece, hslice, hkind.of_append htext⟩

/-! ## Statements -/

/-- A mustache is escaped unless the marks of its tag in the source ask for its value as it is. -/
def Statement.ShowsMarks (source : List Char) : Statement → Prop
  | .mustache _ escaped tag =>
      ∃ piece, slice? source tag.start tag.stop = some piece ∧ escaped = !opensUnescaped piece
  | _ => True

theorem showsMarks_of_parse
    {source : String} {program : Program} (h : parse source = .ok program) :
    ∀ p ∈ program :: program.sections, ∀ s ∈ p.body, s.ShowsMarks source.toList := by
  refine forall_of_parse h ?_
  rintro tokens hscan token htoken s (hs | hnames)
  · cases hs with
    | content text span => trivial
    | comment hkind => trivial
    | inclusion hkind hp => trivial
    | mustache hkind hcall =>
        obtain ⟨piece, hslice, hshows⟩ := exists_piece_of_mem_scan hscan htoken
        exact ⟨piece, hslice, by rw [hshows.mustache hkind, Bool.not_false]⟩
    | unescaped hkind hcall =>
        obtain ⟨piece, hslice, hshows⟩ := exists_piece_of_mem_scan hscan htoken
        exact ⟨piece, hslice, by rw [hshows.unescaped hkind, Bool.not_true]⟩
  · trivial

/-- Tilde and ampersand may stand together, and a tilde alone asks for nothing. -/
example :
    ["\x7b\x7ba\x7d\x7d", "\x7b\x7b~a\x7d\x7d", "\x7b\x7b\x7ba\x7d\x7d\x7d",
      "\x7b\x7b~& a\x7d\x7d"].map
      (fun piece => opensUnescaped piece.toList) = [false, false, true, true] := by
  decide +kernel

end Template
end TemplateModules
