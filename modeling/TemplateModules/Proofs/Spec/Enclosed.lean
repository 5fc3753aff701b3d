import TemplateModules.Module.Text
import TemplateModules.Proofs.Spec.Compiled
import TemplateModules.Proofs.Spec.Emitted

/-!
# A template cannot leave its module's expression

Whatever a template holds, its text reaches the code only inside string literals or as numerals.
So every literal is closed on its line, every bracket is closed by its partner, and the code is one
object from its first brace to its last one.
-/

namespace TemplateModules
namespace Spec

open Script Text

/-- A text consists of pieces of code, is one object, and stays one inside of the line that exports
it. -/
structure Enclosed (pieces : List Piece) (code : String) : Prop where
  /-- Nothing but fragments of the compiler, decimal numbers, numerals and literals. -/
  toList_eq : code.toList = pieces.flatMap Piece.chars
  /-- Every literal is closed on the line on which it is opened, and no other literal is met than
  those of the pieces. -/
  scan_eq : scan code.toList = some (pieces.flatMap Piece.marks)
  balanced : Balanced (pieces.flatMap Piece.marks)
  /-- The first brace is closed by the last one. -/
  braces : ∃ inner, pieces.flatMap Piece.marks = .char '\x7b' :: (inner ++ [.char '\x7d']) ∧
    Balanced inner
  /-- The exporting line adds one pair of brackets around the object. -/
  exported : scan (Module.templateLine code).toList =
    some (chars "export default Handlebars.template(".toList ++ pieces.flatMap Piece.marks ++
      chars ");".toList)

/-- Text in braces whose inside closes its own brackets is enclosed. -/
theorem enclosed_of_body
    {ps : List Piece} {body : String} (h : Written ps body [] []) :
    ∃ pieces, Enclosed pieces ("\x7b" ++ body ++ "\x7d") := by
  have hopen : Written _ "\x7b" [] ['\x7d'] := Fragment.openBrace.written
  have hclose : Written _ "\x7d" ['\x7d'] [] := Fragment.closeBrace.written
  have hcode := (hopen.append (h.frame ['\x7d'])).append hclose
  refine ⟨_, hcode.toList_eq, hcode.scan_eq, hcode.nest_eq, ?_, ?_⟩
  · refine ⟨ps.flatMap Piece.marks, ?_, h.nest_eq⟩
    simp only [List.flatMap_append]
    rfl
  · have hstart : scan "export default Handlebars.template(".toList =
        some (chars "export default Handlebars.template(".toList) := scan_chars (by decide +kernel)
    have hend : scan ");".toList = some (chars ");".toList) := scan_chars (by decide)
    have hruntime : "export default " ++ Module.runtimeName ++ ".template(" =
        "export default Handlebars.template(" := by decide +kernel
    have hline : Module.templateLine ("\x7b" ++ body ++ "\x7d") =
        "export default Handlebars.template(" ++ ("\x7b" ++ body ++ "\x7d") ++ ");" :=
      congrArg (· ++ ("\x7b" ++ body ++ "\x7d") ++ ");") hruntime
    rw [hline, String.toList_append, String.toList_append]
    exact scan_append (scan_append hstart hcode.scan_eq) hend

/-- The code of every template is enclosed. -/
theorem code_enclosed
    {options : Options} {source : String} {artifact : Artifact}
    (h : (precompile options source).result = .ok artifact) :
    ∃ pieces, Enclosed pieces artifact.code := by
  obtain ⟨program, main, -, -, rfl⟩ := exists_section_of_precompile h
  obtain ⟨body, hbody, ps, hps, -⟩ := main.layout.exists_body options.strict
  rw [Spec.artifact, hbody]
  exact enclosed_of_body hps

/-- Quotes, brackets and a line end in a template change nothing about that. -/
theorem code_enclosed_of_quotes :
    ∃ artifact,
      (precompile { srcName := none, knownHelpers := [], knownHelpersOnly := false, extra := [] }
        "\"])\x7b\x7b#if \"\x7d\\\"\"\x7d\x7d\n\x7b\x7ba.b\x7d\x7d\x7b\x7b/if\x7d\x7d").result =
          .ok artifact ∧
      ∃ pieces, Enclosed pieces artifact.code := by
  exact (exists_ok_of_isOk (by decide +kernel)).imp fun _ hartifact =>
    ⟨hartifact, code_enclosed hartifact⟩

end Spec
end TemplateModules
