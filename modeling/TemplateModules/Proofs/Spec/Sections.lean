import TemplateModules.Proofs.Spec.Compiled
import TemplateModules.Proofs.Spec.Emitted

/-!
# Numbers follow the nesting of blocks

`Laid` relates the statements of a section to its lines and to the functions of the sections inside
it, which have the numbers from some number on.  Compiling and numbering a program gives such a
relation, and everything about the numbers is read off it: they follow one another, each is
referred to once, and only from functions with smaller numbers.
-/

namespace TemplateModules

namespace Template

mutual

/-- The sections of the blocks of a program: each before those inside it, and the main section of a
block before the inverse one. -/
def Program.sections : Program → List Program
  | { body, .. } => bodySections body

def bodySections : List Statement → List Program
  | [] => []
  | s :: rest => s.sections ++ bodySections rest

def Statement.sections : Statement → List Program
  | .block _ main inverse _ => main :: main.sections ++ inverseSections inverse
  | _ => []

def inverseSections : Option Program → List Program
  | none => []
  | some inverse => inverse :: inverse.sections

end

theorem Program.sections_eq (p : Program) : p.sections = bodySections p.body := by
  cases p
  rfl

/-- The sections of a block and of the statements behind it. -/
theorem bodySections_block
    (call : Call) (main : Program) (inverse : Option Program) (tag : Span) (rest : List Statement) :
    bodySections (.block call main inverse tag :: rest) =
      main :: bodySections main.body ++ inverseSections inverse ++ bodySections rest := by
  rw [bodySections, Statement.sections, main.sections_eq]

namespace Statement

/-- Whether a statement has no line of its own. -/
def isSilent : Statement → Bool
  | .content text => text.isEmpty
  | .comment _ => true
  | _ => false

def isBlock : Statement → Bool
  | .block _ _ _ _ => true
  | _ => false

end Statement

theorem sections_of_not_isBlock {s : Statement} (h : s.isBlock = false) : s.sections = [] := by
  cases s with
  | content text => rfl
  | comment text => rfl
  | mustache call escaped tag => rfl
  | block call main inverse tag => cases h
  | inclusion name context hash tag => rfl

theorem not_isBlock_of_isSilent {s : Statement} (h : s.isSilent = true) : s.isBlock = false := by
  cases s with
  | content text => rfl
  | comment text => rfl
  | mustache call escaped tag => rfl
  | block call main inverse tag => cases h
  | inclusion name context hash tag => rfl

end Template

namespace Spec

open Template

/-- The sections that the lines of a function refer to. -/
def Function.refs (f : Function) : List SectionRef :=
  f.lines.flatMap Line.sections

/-- The reference to a section of a program. -/
def refTo (number : Nat) (p : Program) : SectionRef :=
  { number, params := p.blockParams.length }

/-- References to programs with numbers from some number on. -/
def refsFrom (number : Nat) : List Program → List SectionRef
  | [] => []
  | p :: ps => refTo number p :: refsFrom (number + 1) ps

/-- Statements, the lines that they become, and the functions of the sections inside them, which
have the numbers from `n` on. -/
inductive Laid : Nat → List Statement → List (Line SectionRef) → List Function → Prop
  | nil (n : Nat) : Laid n [] [] []
  | silent
      {n : Nat} {s : Statement} {rest : List Statement} {lines : List (Line SectionRef)}
      {fs : List Function}
      (hsilent : s.isSilent = true) (hrest : Laid n rest lines fs) :
      Laid n (s :: rest) lines fs
  | plain
      {n : Nat} {s : Statement} {line : Line SectionRef} {rest : List Statement}
      {lines : List (Line SectionRef)} {fs : List Function}
      (hsilent : s.isSilent = false) (hblock : s.isBlock = false) (hsections : line.sections = [])
      (hrest : Laid n rest lines fs) :
      Laid n (s :: rest) (line :: lines) fs
  | block
      {n : Nat} {call : Call} {main : Program} {tag tag' : Span} {opening : Opening}
      {rest : List Statement} {lines inner : List (Line SectionRef)} {fs later : List Function}
      (hmain : Laid (n + 1) main.body inner fs)
      (hrest : Laid (n + 1 + fs.length) rest lines later) :
      Laid n (.block call main none tag :: rest)
        (.block opening (refTo n main) none tag' :: lines) ({ lines := inner } :: fs ++ later)
  | alternative
      {n : Nat} {call : Call} {main inverse : Program} {tag tag' : Span} {opening : Opening}
      {rest : List Statement} {lines inner other : List (Line SectionRef)}
      {fs gs later : List Function}
      (hmain : Laid (n + 1) main.body inner fs)
      (hinverse : Laid (n + 1 + fs.length + 1) inverse.body other gs)
      (hrest : Laid (n + 1 + fs.length + 1 + gs.length) rest lines later) :
      Laid n (.block call main (some inverse) tag :: rest)
        (.block opening (refTo n main) (some (refTo (n + 1 + fs.length) inverse)) tag' :: lines)
        ({ lines := inner } :: fs ++ ({ lines := other } :: gs ++ later))

/-! ## Compiled programs -/

section

variable {options : Options} {scopes : Scopes}

/-- A section has the block parameters of its program, and the lines of its statements. -/
theorem exists_of_compileSection
    {p : Program} {s : Section} (h : (compileSection options scopes p).result = .ok s) :
    ∃ lines, s = .mk p.blockParams lines ∧
      (compileLines options (p.blockParams :: scopes) p.body).result = .ok lines := by
  obtain ⟨body, blockParams⟩ := p
  obtain ⟨lines, hlines, h⟩ := Reporting.exists_of_bind h
  cases h
  exact ⟨lines, rfl, hlines⟩

theorem numberSection_mk (n : Nat) (p : Program) (lines : List (Line Section)) :
    numberSection n (.mk p.blockParams lines) =
      (refTo n p, { lines := (numberLines (n + 1) lines).1 } :: (numberLines (n + 1) lines).2) := by
  simp [numberSection, refTo]

mutual

/-- The sections of a compiled program are laid out as its blocks are nested. -/
theorem laid_compileSection :
    ∀ (scopes : Scopes) (p : Program) (s : Section) (n : Nat),
      (compileSection options scopes p).result = .ok s →
        ∃ lines fs, numberSection n s = (refTo n p, { lines } :: fs) ∧ Laid (n + 1) p.body lines fs
  | scopes, { body, blockParams }, s, n, h => by
      obtain ⟨lines, rfl, hlines⟩ := exists_of_compileSection h
      exact ⟨_, _, numberSection_mk n { body, blockParams } lines,
        laid_compileLines (blockParams :: scopes) body lines (n + 1) hlines⟩

theorem laid_compileLines :
    ∀ (scopes : Scopes) (body : List Statement) (lines : List (Line Section)) (n : Nat),
      (compileLines options scopes body).result = .ok lines →
        Laid n body (numberLines n lines).1 (numberLines n lines).2
  | scopes, [], lines, n, h => by
      cases h
      exact .nil n
  | scopes, s :: rest, lines, n, h => by
      obtain ⟨line?, later, rfl, hline, hlater⟩ := exists_of_compileLines_cons h
      exact laid_compileStatement scopes s line? later rest n hline
        fun m => laid_compileLines scopes rest later m hlater

theorem laid_compileStatement :
    ∀ (scopes : Scopes) (s : Statement) (line? : Option (Line Section))
      (later : List (Line Section)) (rest : List Statement) (n : Nat),
      (compileStatement options scopes s).result = .ok line? →
        (∀ m, Laid m rest (numberLines m later).1 (numberLines m later).2) →
        Laid n (s :: rest) (numberLines n (line?.toList ++ later)).1
          (numberLines n (line?.toList ++ later)).2
  | scopes, .content text, line?, later, rest, n, h, hrest => by
      cases h
      cases htext : text.isEmpty with
      | true => exact .silent htext (hrest n)
      | false => exact .plain htext rfl rfl (hrest n)
  | scopes, .comment text, line?, later, rest, n, h, hrest => by
      cases h
      exact .silent rfl (hrest n)
  | scopes, .mustache call escaped tag, line?, later, rest, n, h, hrest => by
      obtain ⟨shown, -, h⟩ := Reporting.exists_of_bind h
      cases h
      exact .plain rfl rfl rfl (hrest n)
  | scopes, .inclusion name context hash tag, line?, later, rest, n, h, hrest => by
      obtain ⟨-, -, h⟩ := Reporting.exists_of_bind h
      obtain ⟨value, -, h⟩ := Reporting.exists_of_bind h
      obtain ⟨fields, -, h⟩ := Reporting.exists_of_bind h
      cases h
      exact .plain rfl rfl rfl (hrest n)
  | scopes, .block call main none tag, line?, later, rest, n, h, hrest => by
      obtain ⟨opening, -, h⟩ := Reporting.exists_of_bind h
      obtain ⟨section', hmain, h⟩ := Reporting.exists_of_bind h
      obtain ⟨other, hother, h⟩ := Reporting.exists_of_bind h
      cases hother
      cases h
      obtain ⟨inner, fs, hnumber, hlaid⟩ := laid_compileSection scopes main section' n hmain
      have hlater := hrest (n + 1 + fs.length)
      have hnext : n + (fs.length + 1) = n + 1 + fs.length := by omega
      simp only [Option.toList_some, List.singleton_append, numberLines, numberLine, numberInverse,
        hnumber, List.append_nil, List.length_cons, hnext]
      exact .block hlaid hlater
  | scopes, .block call main (some inverse) tag, line?, later, rest, n, h, hrest => by
      obtain ⟨opening, -, h⟩ := Reporting.exists_of_bind h
      obtain ⟨section', hmain, h⟩ := Reporting.exists_of_bind h
      obtain ⟨other, hother, h⟩ := Reporting.exists_of_bind h
      cases h
      obtain ⟨inverse', hinverse, hother⟩ := Reporting.exists_of_bind hother
      cases hother
      obtain ⟨inner, fs, hnumber, hlaid⟩ := laid_compileSection scopes main section' n hmain
      obtain ⟨others, gs, hnumber', hlaid'⟩ :=
        laid_compileSection scopes inverse inverse' (n + 1 + fs.length) hinverse
      have hlater := hrest (n + 1 + fs.length + 1 + gs.length)
      have hnext : n + (fs.length + 1) = n + 1 + fs.length := by omega
      have hlast : n + (fs.length + 1 + (gs.length + 1)) = n + 1 + fs.length + 1 + gs.length := by
        omega
      simp only [Option.toList_some, List.singleton_append, numberLines, numberLine, numberInverse,
        hnumber, List.length_cons, hnext, hnumber', List.length_append, hlast, List.append_assoc]
      exact .alternative hlaid hlaid' hlater

end

end

/-! ## What the numbers say -/

theorem refsFrom_append (n : Nat) (ps qs : List Program) :
    refsFrom n (ps ++ qs) = refsFrom n ps ++ refsFrom (n + ps.length) qs := by
  induction ps generalizing n with
  | nil => rfl
  | cons p ps ih =>
      have hnext : n + 1 + ps.length = n + (ps.length + 1) := by omega
      simp only [List.cons_append, refsFrom, ih, List.length_cons, hnext]

/-- A reference among references to programs with consecutive numbers. -/
theorem mem_refsFrom {n : Nat} {ps : List Program} {ref : SectionRef} :
    ref ∈ refsFrom n ps ↔
      n ≤ ref.number ∧ ∃ p, ps[ref.number - n]? = some p ∧ ref = refTo ref.number p := by
  induction ps generalizing n with
  | nil => simp [refsFrom]
  | cons p ps ih =>
      rw [refsFrom, List.mem_cons, ih]
      constructor
      · rintro (rfl | ⟨hle, q, hq, href⟩)
        · exact ⟨Nat.le_refl n, p, by simp [refTo], rfl⟩
        · have hindex : ref.number - n = ref.number - (n + 1) + 1 := by omega
          exact ⟨by omega, q, by rw [hindex]; exact hq, href⟩
      · rintro ⟨hle, q, hq, href⟩
        by_cases hfirst : ref.number = n
        · rw [hfirst] at hq href
          simp only [Nat.sub_self, List.getElem?_cons_zero, Option.some.injEq] at hq
          exact Or.inl (hq ▸ href)
        · have hindex : ref.number - n = ref.number - (n + 1) + 1 := by omega
          rw [hindex, List.getElem?_cons_succ] at hq
          exact Or.inr ⟨by omega, q, hq, href⟩

theorem nodup_numbers_refsFrom (n : Nat) (ps : List Program) :
    ((refsFrom n ps).map SectionRef.number).Nodup := by
  induction ps generalizing n with
  | nil => simp [refsFrom]
  | cons p ps ih =>
      rw [refsFrom, List.map_cons, List.nodup_cons]
      refine ⟨?_, ih (n + 1)⟩
      intro hmem
      obtain ⟨ref, href, hnumber⟩ := List.mem_map.mp hmem
      have hle := (mem_refsFrom.mp href).1
      have hn : (refTo n p).number = n := rfl
      omega

namespace Laid

variable {n : Nat} {body : List Statement} {lines : List (Line SectionRef)} {fs : List Function}

/-- There is one function for each section. -/
theorem length_eq (h : Laid n body lines fs) : fs.length = (bodySections body).length := by
  induction h with
  | nil n => rfl
  | silent hsilent hrest ih =>
      rw [bodySections, sections_of_not_isBlock (not_isBlock_of_isSilent hsilent)]
      exact ih
  | plain hsilent hblock hsections hrest ih =>
      rw [bodySections, sections_of_not_isBlock hblock]
      exact ih
  | block hmain hrest ihmain ihrest =>
      rw [bodySections_block, inverseSections]
      simp [ihmain, ihrest]
  | alternative hmain hinverse hrest ihmain ihinverse ihrest =>
      rw [bodySections_block, inverseSections, Program.sections_eq]
      simp [ihmain, ihinverse, ihrest, Nat.add_assoc]

/-- The lines and the functions together refer to each section once. -/
theorem perm_refs (h : Laid n body lines fs) :
    (lines.flatMap Line.sections ++ fs.flatMap Function.refs).Perm
      (refsFrom n (bodySections body)) := by
  induction h with
  | nil n => exact .refl _
  | silent hsilent hrest ih =>
      rw [bodySections, sections_of_not_isBlock (not_isBlock_of_isSilent hsilent)]
      exact ih
  | plain hsilent hblock hsections hrest ih =>
      rw [bodySections, sections_of_not_isBlock hblock, List.flatMap_cons, hsections]
      exact ih
  | @block n call main tag tag' opening rest lines inner fs later hmain hrest ihmain ihrest =>
      have hrefs : refsFrom n (bodySections (.block call main none tag :: rest)) =
          refTo n main ::
            (refsFrom (n + 1) (bodySections main.body) ++
              refsFrom (n + 1 + fs.length) (bodySections rest)) := by
        rw [bodySections_block, inverseSections, List.append_nil, List.cons_append, refsFrom,
          refsFrom_append, hmain.length_eq]
      rw [hrefs, List.perm_iff_count]
      intro ref
      have hcount := ihmain.count_eq ref
      have hcount' := ihrest.count_eq ref
      simp only [List.count_append, List.count_cons, List.flatMap_cons, List.flatMap_append,
        Line.sections, Function.refs, Option.toList_none, List.count_nil] at hcount hcount' ⊢
      omega
  | @alternative n call main inverse tag tag' opening rest lines inner other fs gs later
      hmain hinverse hrest ihmain ihinverse ihrest =>
      have hrefs : refsFrom n (bodySections (.block call main (some inverse) tag :: rest)) =
          refTo n main ::
            (refsFrom (n + 1) (bodySections main.body) ++
              (refTo (n + 1 + fs.length) inverse ::
                (refsFrom (n + 1 + fs.length + 1) (bodySections inverse.body) ++
                  refsFrom (n + 1 + fs.length + 1 + gs.length) (bodySections rest)))) := by
        rw [bodySections_block, inverseSections, inverse.sections_eq, List.append_assoc,
          List.cons_append, refsFrom, refsFrom_append, ← hmain.length_eq, List.cons_append,
          refsFrom, refsFrom_append, ← hinverse.length_eq]
      rw [hrefs, List.perm_iff_count]
      intro ref
      have hcount := ihmain.count_eq ref
      have hcount' := ihinverse.count_eq ref
      have hcount'' := ihrest.count_eq ref
      simp only [List.count_append, List.count_cons, List.flatMap_cons, List.flatMap_append,
        Line.sections, Function.refs, Option.toList_some, List.count_nil]
        at hcount hcount' hcount'' ⊢
      omega

/-- A section that the lines of a function refer to comes behind it. -/
theorem le_number_of_mem
    (h : Laid n body lines fs) {ref : SectionRef} (href : ref ∈ lines.flatMap Line.sections) :
    n ≤ ref.number := by
  have hmem := h.perm_refs.mem_iff.mp (List.mem_append_left _ href)
  exact (mem_refsFrom.mp hmem).1

/-- A function refers to sections with greater numbers only. -/
theorem number_lt (h : Laid n body lines fs) :
    ∀ f ∈ fs.zipIdx n, ∀ ref ∈ f.1.refs, f.2 < ref.number := by
  induction h with
  | nil n => simp
  | silent hsilent hrest ih => exact ih
  | plain hsilent hblock hsections hrest ih => exact ih
  | block hmain hrest ihmain ihrest =>
      rw [List.cons_append, List.zipIdx_cons, List.zipIdx_append, List.forall_mem_cons,
        List.forall_mem_append]
      exact ⟨fun ref href => hmain.le_number_of_mem href, ihmain, ihrest⟩
  | alternative hmain hinverse hrest ihmain ihinverse ihrest =>
      rw [List.cons_append, List.cons_append, List.zipIdx_cons, List.zipIdx_append,
        List.zipIdx_cons, List.zipIdx_append, List.forall_mem_cons, List.forall_mem_append,
        List.forall_mem_cons, List.forall_mem_append]
      exact ⟨fun ref href => hmain.le_number_of_mem href, ihmain,
        fun ref href => hinverse.le_number_of_mem href, ihinverse, ihrest⟩

end Laid

end Spec
end TemplateModules
