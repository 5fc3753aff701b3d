import TemplateModules.Proofs.Template.Statements
import TemplateModules.Proofs.Template.TagSpans

/-!
# Refused templates

A template is refused for one of its tags: for the tag that cannot be read, for the block that is
not closed, or for the tag that stands in a wrong place.
-/

namespace TemplateModules
namespace Template

/-! ## Reading blocks -/

/-- An error is found in a tag among certain tokens. -/
def FoundIn (ts : List Token) (e : Error) : Prop :=
  ∃ tag, Token.tag tag ∈ ts ∧ e.span = tag.span

theorem FoundIn.mono {ts us : List Token} {e : Error} (h : FoundIn ts e) (hsubset : ts ⊆ us) :
    FoundIn us e := by
  obtain ⟨tag, htag, hspan⟩ := h
  exact ⟨tag, hsubset htag, hspan⟩

theorem FoundIn.cons {ts : List Token} {e : Error} (h : FoundIn ts e) (token : Token) :
    FoundIn (token :: ts) e :=
  h.mono (List.subset_cons_self token ts)

theorem foundIn_of_refuse
    {α : Type} {ts : List Token} {tag : Tag} {cause : Cause} {e : Error}
    (h : (tag.refuse cause : Except Error α) = .error e) (htag : Token.tag tag ∈ ts) :
    FoundIn ts e := by
  cases h
  exact ⟨tag, htag, rfl⟩

theorem foundIn_of_call
    {ts : List Token} {tag : Tag} {allowed : Bool} {e : Error}
    (h : tag.call allowed = .error e) (htag : Token.tag tag ∈ ts) :
    FoundIn ts e := by
  unfold Tag.call at h
  split at h
  · cases h
  · exact foundIn_of_refuse h htag

theorem foundIn_of_inclusion
    {ts : List Token} {tag : Tag} {e : Error}
    (h : tag.inclusion = .error e) (htag : Token.tag tag ∈ ts) :
    FoundIn ts e := by
  unfold Tag.inclusion at h
  split at h
  · cases h
  · exact foundIn_of_refuse h htag

mutual

/-- An error that ends the reading of statements is found in one of the tokens. -/
theorem readBody_foundIn
    (ts : List Token) {e : Error} (h : readBody ts = .error e) : FoundIn ts e := by
  match ts with
  | [] =>
      rw [readBody] at h
      cases h
  | .content text span :: ts =>
      rw [readBody] at h
      exact (continueBody_foundIn _ ts h).cons _
  | .tag tag :: ts =>
      have htag : Token.tag tag ∈ Token.tag tag :: ts := List.mem_cons_self
      rw [readBody] at h
      split at h
      · cases h
      · cases h
      · exact (continueBody_foundIn _ ts h).cons _
      · split at h
        · next e' hcall =>
            cases h
            exact foundIn_of_call hcall htag
        · exact (continueBody_foundIn _ ts h).cons _
      · split at h
        · next e' hcall =>
            cases h
            exact foundIn_of_call hcall htag
        · exact (continueBody_foundIn _ ts h).cons _
      · split at h
        · next e' hp =>
            cases h
            exact foundIn_of_inclusion hp htag
        · exact (continueBody_foundIn _ ts h).cons _
      · split at h
        · next e' hblock =>
            cases h
            exact readBlock_foundIn tag ts hblock
        · next call main inverse later hlater hblock =>
            split at h
            · next e' hlast =>
                cases h
                have hsuffix := TakesBlock.suffix ⟨hlater, hblock⟩
                exact ((continueBody_foundIn _ later hlast).mono hsuffix.subset).cons _
            · cases h
      · split at h
        · next e' hblock =>
            cases h
            exact readBlock_foundIn tag ts hblock
        · next call main inverse later hlater hblock =>
            split at h
            · next e' hlast =>
                cases h
                have hsuffix := TakesBlock.suffix ⟨hlater, hblock⟩
                exact ((continueBody_foundIn _ later hlast).mono hsuffix.subset).cons _
            · cases h
termination_by 4 * ts.length

theorem continueBody_foundIn
    (first : Statement) (ts : List Token) {e : Error} (h : continueBody first ts = .error e) :
    FoundIn ts e := by
  rw [continueBody] at h
  split at h
  · next e' hread =>
      cases h
      exact readBody_foundIn ts hread
  · cases h
termination_by 4 * ts.length + 1

/-- An error of a block is found in its opening tag or in a token behind it. -/
theorem readBlock_foundIn
    (tag : Tag) (ts : List Token) {e : Error} (h : readBlock tag ts = .error e) :
    FoundIn (.tag tag :: ts) e := by
  have htag : Token.tag tag ∈ Token.tag tag :: ts := List.mem_cons_self
  rw [readBlock] at h
  split at h
  · next e' hcall =>
      cases h
      exact foundIn_of_call hcall htag
  · split at h
    · next e' hsections =>
        cases h
        exact (readSections_foundIn _ ts hsections).cons _
    · next main inverse later hlater hsections =>
        have hsuffix := TakesSections.suffix ⟨hlater, hsections⟩
        simp only at h
        split at h
        · next closing later' hlater' =>
            split at h
            · split at h
              · cases h
              · have hclosing : Token.tag closing ∈ ts := hsuffix.mem List.mem_cons_self
                exact foundIn_of_refuse h (List.mem_cons_of_mem _ hclosing)
            · exact foundIn_of_refuse h htag
        · exact foundIn_of_refuse h htag
termination_by 4 * ts.length + 2

theorem readSections_foundIn
    (names : List String) (ts : List Token) {e : Error} (h : readSections names ts = .error e) :
    FoundIn ts e := by
  rw [readSections] at h
  split at h
  · next e' hread =>
      cases h
      exact readBody_foundIn ts hread
  · next body later hlater hread =>
      have hsuffix := TakesBody.suffix ⟨hlater, hread⟩
      simp only at h
      split at h
      · next tag later' hlater' =>
          have hbehind : later' <:+ ts := (List.suffix_cons _ _).trans hsuffix
          have hlt : later'.length < ts.length := hlater'
          split at h
          · split at h
            · split at h
              · next e' hother =>
                  cases h
                  exact (readBody_foundIn later' hother).mono hbehind.subset
              · next other rest hrest hother =>
                  have hmore := TakesBody.suffix ⟨hrest, hother⟩
                  split at h
                  · next second rest' hrest' =>
                      split at h
                      · have hsecond : Token.tag second ∈ ts :=
                          (hmore.trans hbehind).mem List.mem_cons_self
                        exact foundIn_of_refuse h hsecond
                      · cases h
                  · cases h
            · split at h
              · next e' hcall =>
                  cases h
                  exact foundIn_of_call hcall (hsuffix.mem List.mem_cons_self)
              · split at h
                · next e' hinner =>
                    cases h
                    exact (readSections_foundIn _ later' hinner).mono hbehind.subset
                · cases h
          · cases h
      · cases h
termination_by 4 * ts.length + 1

end

theorem ofTokens_foundIn
    {ts : List Token} {e : Error} (h : ofTokens ts = .error e) : FoundIn ts e := by
  cases hread : readBody ts with
  | error e' =>
      rw [ofTokens, hread] at h
      cases h
      exact readBody_foundIn ts hread
  | ok read =>
      obtain ⟨body, rest, hrest⟩ := read
      have hsuffix := TakesBody.suffix ⟨hrest, hread⟩
      rw [ofTokens, hread] at h
      cases rest with
      | nil => cases h
      | cons t rest =>
          cases t with
          | content text span => cases h
          | tag tag =>
              have htag : Token.tag tag ∈ ts := hsuffix.mem List.mem_cons_self
              simp only at h
              split at h
              · exact foundIn_of_refuse h htag
              · exact foundIn_of_refuse h htag

/-! ## Templates -/

/-- A source that is not read is refused for one of its tags. -/
theorem isTagSpan_of_parse_refused
    {source : String} {e : Error} (h : parse source = .error (.refused e)) :
    IsTagSpan source.toList e.span := by
  unfold parse at h
  split at h
  · next f hscan =>
      obtain rfl := Except.error.inj h
      exact isTagSpan_of_scan_refused hscan
  · next tokens hscan =>
      split at h
      · next e' htokens =>
          cases h
          obtain ⟨tag, htag, hspan⟩ := ofTokens_foundIn htokens
          rw [hspan]
          exact isTagSpan_of_mem_scan hscan htag
      · cases h

/-- The statements of a source that is read, however deep, have spans of tags. -/
theorem isTagSpan_of_parse
    {source : String} {program : Program} (h : parse source = .ok program) :
    ∀ p ∈ program :: program.sections, ∀ s ∈ p.body, ∀ span ∈ s.span?,
      IsTagSpan source.toList span :=
  forall_span_of_parse h fun _ hscan _ htag => isTagSpan_of_mem_scan hscan htag

end Template
end TemplateModules
