import TemplateModules.Spec.Numbering

/-!
# What the code needs from the runtime

A template tells the runtime whether it looks at outer contexts, whether it gives names to block
parameters, and whether it includes partials.
-/

namespace TemplateModules
namespace Spec

namespace Access

/-- Whether an access starts at a context further out. -/
def usesDepths (access : Access) : Bool :=
  match access.root with
  | .parent _ => true
  | _ => false

end Access

mutual

/-- Whether a value looks at an outer context. -/
def Value.usesDepths : Value → Bool
  | .literal _ => false
  | .access access => access.usesDepths
  | .call call => call.usesDepths

/-- Whether an argument of a call looks at an outer context. -/
def HelperCall.usesDepths : HelperCall → Bool
  | { params, hash, .. } => anyUsesDepths params || hashUsesDepths hash

/-- Whether one of several values looks at an outer context. -/
def anyUsesDepths : List Value → Bool
  | [] => false
  | v :: vs => v.usesDepths || anyUsesDepths vs

/-- Whether one of several values with names looks at an outer context. -/
def hashUsesDepths : List (String × Value) → Bool
  | [] => false
  | (_, v) :: hash => v.usesDepths || hashUsesDepths hash

end

namespace Shown

/-- Whether a mustache looks at an outer context. -/
def usesDepths : Shown → Bool
  | value v => v.usesDepths
  | lambda access => access.usesDepths
  | helperOrField _ access _ => access.usesDepths

end Shown

namespace Opening

/-- Whether the head of a block looks at an outer context. -/
def usesDepths : Opening → Bool
  | helper call => call.usesDepths
  | value access _ _ => access.usesDepths
  | helperOrValue _ access _ _ => access.usesDepths

end Opening

namespace Line

/-- Whether a line itself looks at an outer context. -/
def usesDepths {σ : Type} : Line σ → Bool
  | text _ => false
  | mustache _ shown _ => shown.usesDepths
  | block opening _ _ _ => opening.usesDepths
  | inclusion _ context hash _ => context.any Value.usesDepths || hashUsesDepths hash

/-- Whether a line includes a partial. -/
def usesPartial {σ : Type} : Line σ → Bool
  | inclusion _ _ _ _ => true
  | _ => false

/-- Whether a line refers to a section with block parameters. -/
def declaresParams : Line SectionRef → Bool
  | block _ main inverse _ => main.params != 0 || inverse.any fun ref => ref.params != 0
  | _ => false

end Line

namespace Layout

/-- All functions of a template. -/
def functions (layout : Layout) : List Function :=
  layout.main :: layout.children

/-- Whether some line of the template has a property. -/
def anyLine (layout : Layout) (p : Line SectionRef → Bool) : Bool :=
  layout.functions.any fun f => f.lines.any p

/-- Whether the template looks at outer contexts. -/
def usesDepths (layout : Layout) : Bool :=
  layout.anyLine Line.usesDepths

/-- Whether the template has sections with block parameters. -/
def usesBlockParams (layout : Layout) : Bool :=
  layout.anyLine Line.declaresParams

/-- Whether the template includes partials. -/
def usesPartials (layout : Layout) : Bool :=
  layout.anyLine Line.usesPartial

end Layout
end Spec
end TemplateModules
