import TemplateModules.Proofs.Spec.Reported

/-!
# Numbering keeps what is mentioned

Numbering moves the sections of blocks into functions of their own.  The lines of all these
functions together mention what the lines of the tree do; only the references to sections are new.
-/

namespace TemplateModules
namespace Spec

/-- The mentions of the lines of a function, without the sections that they refer to. -/
def Function.own (f : Function) : List Mention :=
  f.lines.flatMap Line.mentions

/-- The mentions of the lines of functions, without the sections that they refer to. -/
def ownMentions (fs : List Function) : List Mention :=
  fs.flatMap Function.own

@[simp]
theorem ownMentions_nil : ownMentions [] = [] := rfl

@[simp]
theorem ownMentions_cons (f : Function) (fs : List Function) :
    ownMentions (f :: fs) = f.own ++ ownMentions fs := rfl

@[simp]
theorem ownMentions_append (fs gs : List Function) :
    ownMentions (fs ++ gs) = ownMentions fs ++ ownMentions gs :=
  List.flatMap_append

mutual

theorem mem_ownMentions_numberSection (m : Mention) :
    ∀ (number : Nat) (s : Section),
      m ∈ ownMentions (numberSection number s).2 ↔ m ∈ s.mentions
  | number, .mk names lines => by
      have hlines := mem_ownMentions_numberLines m (number + 1) lines
      simpa [numberSection, Section.mentions, Function.own] using hlines

theorem mem_ownMentions_numberLines (m : Mention) :
    ∀ (number : Nat) (lines : List (Line Section)),
      (m ∈ (numberLines number lines).1.flatMap Line.mentions ∨
        m ∈ ownMentions (numberLines number lines).2) ↔ m ∈ linesMentions lines
  | _, [] => by simp [numberLines, linesMentions]
  | number, line :: lines => by
      have hline := mem_ownMentions_numberLine m number line
      have hlines := mem_ownMentions_numberLines m
        (number + (numberLine number line).2.length) lines
      simp only [numberLines, linesMentions, List.flatMap_cons, ownMentions_append,
        List.mem_append, ← hline, ← hlines]
      tauto

theorem mem_ownMentions_numberLine (m : Mention) :
    ∀ (number : Nat) (line : Line Section),
      (m ∈ (numberLine number line).1.mentions ∨ m ∈ ownMentions (numberLine number line).2) ↔
        m ∈ lineMentions line
  | _, .text _ => by simp [numberLine, lineMentions, Line.mentions]
  | _, .mustache _ _ _ => by simp [numberLine, lineMentions, Line.mentions]
  | _, .inclusion _ _ _ _ => by simp [numberLine, lineMentions, Line.mentions]
  | number, .block opening main inverse tag => by
      have hmain := mem_ownMentions_numberSection m number main
      have hinverse := mem_ownMentions_numberInverse m
        (number + (numberSection number main).2.length) inverse
      simp only [numberLine, lineMentions, Line.mentions, ownMentions_append, List.mem_append,
        hmain, hinverse, or_assoc]

theorem mem_ownMentions_numberInverse (m : Mention) :
    ∀ (number : Nat) (inverse : Option Section),
      m ∈ ownMentions (numberInverse number inverse).2 ↔ m ∈ inverseMentions inverse
  | _, none => by simp [numberInverse, inverseMentions]
  | number, some inverse => mem_ownMentions_numberSection m number inverse

end

/-- A function mentions what its lines do, and the sections that they refer to. -/
theorem Function.mem_mentions {f : Function} {m : Mention} :
    m ∈ f.mentions ↔ m ∈ f.own ∨ ∃ ref ∈ f.lines.flatMap Line.sections, m = .child ref := by
  simp only [mentions, own, List.mem_flatMap, List.mem_append, List.mem_map]
  constructor
  · rintro ⟨line, hline, hm | ⟨ref, href, rfl⟩⟩
    · exact Or.inl ⟨line, hline, hm⟩
    · exact Or.inr ⟨ref, ⟨line, hline, href⟩, rfl⟩
  · rintro (⟨line, hline, hm⟩ | ⟨ref, ⟨line, hline, href⟩, rfl⟩)
    · exact ⟨line, hline, Or.inl hm⟩
    · exact ⟨line, hline, Or.inr ⟨ref, href, rfl⟩⟩

/-- The helpers and partials that a layout mentions are those of its tree of sections. -/
theorem mem_mentions_layout {main : Section} {m : Mention} (hnamed : m.isNamed = true) :
    m ∈ main.layout.mentions ↔ m ∈ main.mentions := by
  have hnotChild : ∀ ref, m ≠ .child ref := by
    rintro ref rfl
    cases hnamed
  have hown : ∀ f : Function, m ∈ f.mentions ↔ m ∈ f.own := by
    intro f
    rw [Function.mem_mentions]
    exact or_iff_left fun ⟨ref, _, href⟩ => hnotChild ref href
  obtain ⟨names, lines⟩ := main
  have hlines := mem_ownMentions_numberLines m 1 lines
  simp only [Layout.mentions, Layout.functions, Section.layout, Section.lines, Section.mentions,
    List.flatMap_cons, List.mem_append, List.mem_flatMap, hown, ← hlines]
  simp [Function.own, ownMentions]

/-- A helper or a partial is mentioned by the code of a compiled section just if it is reported. -/
theorem mem_mentions_iff_reported
    {options : Options} {program : Template.Program} {main : Section} {m : Mention}
    (hmain : (compileSection options [] program).result = .ok main) (hnamed : m.isNamed = true) :
    m ∈ main.layout.mentions ↔ m ∈ reported (compileSection options [] program).lookups := by
  have hreports := (reports_compileSection options [] program).reported_eq main hmain
  rw [List.nil_append] at hreports
  rw [mem_mentions_layout hnamed, hreports, named, List.mem_filter, and_iff_left hnamed]

end Spec
end TemplateModules
