import TemplateModules.Proofs.Template.StepsBack

/-!
# Spans of tags

A tag opens where the scan comes to braces that are not escaped.  Its span goes from there up to
closing braces, or up to the end of the source where the tag is not closed.  Every tag that is read
has such a span, and so has every error that a tag is refused with.
-/

namespace TemplateModules
namespace Template

open Text

/-- A tag opens behind `front`: the scan comes to its braces, which are not escaped. -/
def OpensTag (source front rest : List Char) : Prop :=
  ∃ lead part gap,
    Reached source lead part ∧
    cut openBraces part = some (gap, rest) ∧
    ¬ Escaped (lead ++ gap) ∧
    front = lead ++ gap

/-- A span is that of a tag: it starts at the braces that open the tag, and ends behind closing
braces or at the end of the source. -/
structure IsTagSpan (source : List Char) (span : Span) : Prop where
  text : ∃ front inside after,
    source = front ++ (openBraces ++ (inside ++ after)) ∧
    OpensTag source front (inside ++ after) ∧
    (closeBraces <:+ inside ∨ after = []) ∧
    span.start = byteSize front ∧
    span.stop = byteSize (front ++ (openBraces ++ inside))
  /-- The place of the start is the one that the offset has among the lines of the source. -/
  startsAt : (span.line, span.column) = (LineIndex.ofSource source).locate span.start
  endsAt : (span.endLine, span.endColumn) = (LineIndex.ofSource source).locate span.stop

theorem OpensTag.source_eq {source front rest : List Char} (h : OpensTag source front rest) :
    source = front ++ (openBraces ++ rest) := by
  obtain ⟨lead, part, gap, hreached, hcut, -, rfl⟩ := h
  rw [hreached.source_eq, eq_append_of_cut hcut]
  simp only [List.append_assoc]

/-- A span ends behind where it starts. -/
theorem IsTagSpan.start_lt_stop {source : List Char} {span : Span} (h : IsTagSpan source span) :
    span.start < span.stop := by
  obtain ⟨front, inside, after, -, -, -, hstart, hstop⟩ := h.text
  rw [hstart, hstop, byteSize_append, byteSize_append]
  have hbraces : byteSize openBraces = 2 := rfl
  omega

/-! ## One tag -/

/-- What ends a tag: its closing braces, or the end of the source. -/
def EndsTag (rest after : List Char) : Prop :=
  ∃ inside, rest = inside ++ after ∧ (closeBraces <:+ inside ∨ after = [])

theorem endsTag_nil (rest : List Char) : EndsTag rest [] :=
  ⟨rest, (List.append_nil rest).symm, .inr rfl⟩

theorem EndsTag.of_suffix {rest inner after : List Char} (h : EndsTag inner after)
    (hsuffix : inner <:+ rest) : EndsTag rest after := by
  obtain ⟨lead, rfl⟩ := hsuffix
  obtain ⟨inside, rfl, hend⟩ := h
  refine ⟨lead ++ inside, (List.append_assoc lead inside after).symm, ?_⟩
  exact hend.imp_left fun hclose => hclose.trans (List.suffix_append lead inside)

theorem endsTag_of_cut {close cs before rest : List Char} (hclose : closeBraces <:+ close)
    (h : cut close cs = some (before, rest)) :
    EndsTag cs rest :=
  ⟨before ++ close, eq_append_of_cut h, .inl (hclose.trans (List.suffix_append before close))⟩

/-- The end of a raw block is not looked for among its opening braces only. -/
theorem cut_opening (rest : List Char) :
    (cut (closeBraces ++ closeBraces) (openBraces ++ rest)).map Prod.snd =
      (cut (closeBraces ++ closeBraces) rest).map Prod.snd := by
  simp [cut, after?, openBraces, closeBraces, Option.map_map, Function.comp_def]

/-- A tag that is read ends with its closing braces. -/
theorem endsTag_of_readTag
    {index : LineIndex} {rest after : List Char} {tag : Tag}
    (h : readTag index rest = .ok (tag, after)) :
    EndsTag rest after := by
  obtain ⟨piece, hpiece, ⟨inside, rfl⟩, -⟩ := readTag_isTagText h
  refine ⟨inside ++ closeBraces, ?_, .inl (List.suffix_append inside closeBraces)⟩
  simpa only [List.append_assoc, List.append_cancel_left_eq] using hpiece

/-- A tag that is refused has a span of the same kind. -/
theorem exists_span_of_readTag
    {index : LineIndex} {rest : List Char} {e : Error} (h : readTag index rest = .error e) :
    ∃ after, EndsTag rest after ∧ e.span = index.between (openBraces ++ rest) after := by
  unfold readTag at h
  simp only at h
  split at h
  · cases h
    refine ⟨_, ?_, rfl⟩
    rw [cut_opening]
    cases hcut : cut (closeBraces ++ closeBraces) rest with
    | none => exact endsTag_nil rest
    | some found => exact endsTag_of_cut (List.suffix_append _ _) hcut
  · have hskipped : (skip '~' (skip '\x7b' rest).2).2 <:+ rest :=
      (skip_suffix '~' _).trans (skip_suffix '\x7b' rest)
    split at h
    · split at h
      · cases h
        exact ⟨[], endsTag_nil rest, rfl⟩
      · cases h
    · split at h
      · cases h
        exact ⟨[], endsTag_nil rest, rfl⟩
      · next inside later hcut =>
          have hsigil :
              (if (skip '\x7b' rest).1 = true then
                (TagKind.unescaped, (skip '~' (skip '\x7b' rest).2).2)
              else sigil (skip '~' (skip '\x7b' rest).2).2).2 <:+ rest := by
            split
            · exact hskipped
            · exact (sigil_suffix _).trans hskipped
          have hclose : closeBraces <:+
              if (skip '\x7b' rest).1 = true then '\x7d' :: closeBraces else closeBraces := by
            split
            · exact List.suffix_cons _ _
            · exact List.suffix_refl _
          have hends := (endsTag_of_cut hclose hcut).of_suffix hsigil
          split at h
          · cases h
            exact ⟨later, hends, rfl⟩
          · split at h
            · cases h
              exact ⟨later, hends, rfl⟩
            · cases h

/-- The span from the braces of a tag up to its end is a span of the tag. -/
theorem OpensTag.isTagSpan {source front rest after : List Char}
    (h : OpensTag source front rest) (hends : EndsTag rest after) :
    IsTagSpan source ((LineIndex.ofSource source).between (openBraces ++ rest) after) := by
  obtain ⟨inside, rfl, hend⟩ := hends
  have hsource := h.source_eq
  have hoffset {lead tail : List Char} (heq : source = lead ++ tail) :
      (LineIndex.ofSource source).offsetOf tail = byteSize lead := by
    rw [LineIndex.offsetOf, heq]
    simp [LineIndex.ofSource]
  refine ⟨⟨front, inside, after, hsource, h, hend, hoffset hsource, ?_⟩, rfl, rfl⟩
  refine hoffset ?_
  rw [hsource]
  simp only [List.append_assoc]

/-! ## All tags of a source -/

section Scan

variable {source front part : List Char}

theorem Reached.opensTag {text rest : List Char} (h : Reached source front part)
    (hstretch : stretch part = .upTo text rest) :
    ∃ front', OpensTag source front' rest := by
  obtain ⟨lead, part', gap, hreached, hcut, hplain⟩ := h.braces hstretch
  exact ⟨lead ++ gap, lead, part', gap, hreached, hcut, hplain, rfl⟩

/-- The tags behind a place that the scan comes to have spans of tags. -/
theorem Reached.isTagSpan_of_mem
    {tokens : List Token} {tag : Tag} (h : Reached source front part)
    (hscan : scanFrom (LineIndex.ofSource source) part = .ok tokens)
    (htag : Token.tag tag ∈ tokens) :
    IsTagSpan source tag.span := by
  fun_induction scanFrom (LineIndex.ofSource source) part generalizing front tokens with
  | case1 => cases hscan
  | case2 part text hstretch =>
      obtain rfl := Except.ok.inj hscan
      exact absurd htag tag_notMem_contentToken
  | case3 => cases hscan
  | case4 => cases hscan
  | case5 part text rest hstretch first after hfirst _ _ later hlater ih =>
      obtain rfl := Except.ok.inj hscan
      rcases List.mem_append.mp htag with htag | htag
      · exact absurd htag tag_notMem_contentToken
      · rcases List.mem_cons.mp htag with heq | htag
        · obtain rfl := Token.tag.inj heq
          obtain ⟨front', hopens⟩ := h.opensTag hstretch
          rw [(readTag_span hfirst).2]
          exact hopens.isTagSpan (endsTag_of_readTag hfirst)
        · obtain ⟨front', hreached⟩ := h.past_tag hstretch hfirst
          exact ih hreached hlater htag

/-- A scan that refuses comes to the tag that it refuses. -/
theorem Reached.exists_refused
    {e : Error} (h : Reached source front part)
    (hscan : scanFrom (LineIndex.ofSource source) part = .error (.refused e)) :
    ∃ front' rest,
      OpensTag source front' rest ∧ readTag (LineIndex.ofSource source) rest = .error e := by
  fun_induction scanFrom (LineIndex.ofSource source) part generalizing front with
  | case1 => cases hscan
  | case2 => cases hscan
  | case3 part text rest hstretch e' htag =>
      cases hscan
      obtain ⟨front', hopens⟩ := h.opensTag hstretch
      exact ⟨front', rest, hopens, htag⟩
  | case4 part text rest hstretch tag after htag _ _ f hafter ih =>
      obtain ⟨front', hreached⟩ := h.past_tag hstretch htag
      obtain rfl := Except.error.inj hscan
      exact ih hreached hafter
  | case5 => cases hscan

end Scan

/-- Each tag of a template has the span of a tag. -/
theorem isTagSpan_of_mem_scan
    {source : String} {tokens : List Token} {tag : Tag}
    (h : scan source = .ok tokens) (htag : Token.tag tag ∈ tokens) :
    IsTagSpan source.toList tag.span := by
  unfold scan at h
  split at h
  · cases h
  · next found hfound =>
      obtain rfl := Except.ok.inj h
      exact Reached.start.isTagSpan_of_mem hfound (mem_of_mem_trimTokens htag)

theorem exists_refused_of_scan
    {source : String} {e : Error} (h : scan source = .error (.refused e)) :
    ∃ front rest,
      OpensTag source.toList front rest ∧
        readTag (LineIndex.ofSource source.toList) rest = .error e := by
  unfold scan at h
  split at h
  · next f hfound =>
      obtain rfl := Except.error.inj h
      exact Reached.start.exists_refused hfound
  · cases h

/-- A tag that the scan refuses has such a span as well. -/
theorem isTagSpan_of_scan_refused
    {source : String} {e : Error} (h : scan source = .error (.refused e)) :
    IsTagSpan source.toList e.span := by
  obtain ⟨front, rest, hopens, htag⟩ := exists_refused_of_scan h
  obtain ⟨after, hends, hspan⟩ := exists_span_of_readTag htag
  rw [hspan]
  exact hopens.isTagSpan hends

end Template
end TemplateModules
