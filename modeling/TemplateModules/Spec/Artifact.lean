import TemplateModules.SourceMap.Builder
import TemplateModules.Spec.Compile
import TemplateModules.Spec.Text
import TemplateModules.Template.Block

/-!
# Artifacts

Compiling a source gives its code and, on request, a source map.  The map relates the start of each
statement of the main function to the tag that it comes from.
-/

namespace TemplateModules
namespace Spec

open Template

/-- What compilation makes of a source. -/
structure Artifact where
  code : String
  map : Option String
  deriving DecidableEq, Repr

/-- Writes the lines of the main function, and relates those of tags to their tags. -/
def mapLines (b : SourceMap.Builder) (lines : List (Line SectionRef)) : SourceMap.Builder :=
  lines.foldl
    (fun b line =>
      let b := b.advance "  "
      let b :=
        match line.tag? with
        | some tag => b.map tag none
        | none => b
      b.advance (line.statement ++ "\n"))
    b

def sourceMap (options : Options) (source : String) (layout : Layout) : SourceMap.Builder :=
  let b := SourceMap.Builder.new (options.srcName.getD "template.hbs")
  let b := b.addContent source
  let b := b.advance (Layout.heading ++ Function.opening options.strict)
  mapLines b layout.main.lines

/-- The artifact of a compiled section. -/
def artifact (options : Options) (source : String) (main : Section) : Artifact :=
  let layout := main.layout
  { code := layout.code options.strict,
    map := if options.sourceMap then (sourceMap options source layout).text? else none }

/-- How a compilation ends: an artifact or a failure, and the lookups up to there. -/
structure Compilation where
  lookups : List Lookup
  result : Except Failure Artifact

/-- Compiles a source. -/
def precompile (options : Options) (source : String) : Compilation :=
  match parse source with
  | .error f => { lookups := [], result := .error f }
  | .ok program =>
      let main := compileSection options [] program
      { lookups := main.lookups,
        result :=
          match main.result with
          | .error e => .error (.refused e)
          | .ok main => .ok (artifact options source main) }

end Spec
end TemplateModules
