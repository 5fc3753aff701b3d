import TemplateModules.Spec.Code
import TemplateModules.Spec.Lookup
import TemplateModules.Spec.Options

/-!
# Compiling programs

Compilation resolves the head of every call.  A name in scope as a block parameter is a value,
whatever helpers there are; a known helper is called; for another name it depends on the options
whether it may be a helper, a field or nothing at all.

A scope is the list of the block parameters of a section.  The scopes of the sections around a
place are kept with the innermost first.
-/

namespace TemplateModules
namespace Spec

open Template

/-- The block parameters of the sections around a place, the innermost section first. -/
abbrev Scopes := List (List String)

/-- The place of a name in a list. -/
def position? (name : String) : List String → Option Nat
  | [] => none
  | n :: ns => if n = name then some 0 else (position? name ns).map (· + 1)

/-- The innermost block parameter of a name: how many sections out it is, and its place there. -/
def blockParam? (name : String) : Scopes → Option (Nat × Nat)
  | [] => none
  | names :: scopes =>
      match position? name names with
      | some index => some (0, index)
      | none => (blockParam? name scopes).map fun (level, index) => (level + 1, index)

/-- The path of a head that is the bare name of a block parameter. -/
def shadowed? (scopes : Scopes) (call : Call) : Option Path :=
  match call.head with
  | .path path =>
      (path.simpleName?.bind fun name => blockParam? name scopes).map fun _ => path
  | _ => none

/-- The block parameter that a path starts at, if it does. -/
def Scopes.resolve? (scopes : Scopes) (path : Path) : Option (Nat × Nat) :=
  if path.anchored || path.depth != 0 then none
  else path.parts.head?.bind fun name => blockParam? name scopes

/-- Reports the first field of a path. -/
def reportFirst (path : Path) (kind : LookupKind) (tag : Span) : Reporting Unit :=
  match path.parts with
  | [] => pure ()
  | name :: _ => .report name kind tag

def compilePath (scopes : Scopes) (path : Path) (tag : Span) : Reporting Access := do
  if path.data then
    if 0 < path.depth then .fail (.unsupported .parentData) tag
    else
      reportFirst path .data tag
      return { root := .data, parts := path.parts }
  else
    match scopes.resolve? path with
    | some (level, index) =>
        return { root := .blockParam level index, parts := path.parts.tail }
    | none =>
        reportFirst path .context tag
        return { root := if 0 < path.depth then .parent path.depth else .context,
                 parts := path.parts }

/-- The error of a call of a helper that is not known. -/
def refuseUnknown {α : Type} (call : Call) (tag : Span) : Reporting α :=
  match call.head with
  | .path path => .fail (.unknownHelper path.text) tag
  | _ => .fail (.unknownHelper "(literal)") tag

mutual

/-- Compiles an expression to a value. -/
def compileValue (options : Options) (scopes : Scopes) (tag : Span) : Expr → Reporting Value
  | .literal value => pure (.literal value)
  | .path path => do return .access (← compilePath scopes path tag)
  | .sub call => compileSub options scopes tag call

/-- Compiles a call in parentheses. -/
def compileSub (options : Options) (scopes : Scopes) (tag : Span) : Call → Reporting Value
  | { head, params, hash } =>
      match shadowed? scopes { head, params, hash } with
      | some path => do return .access (← compilePath scopes path tag)
      | none =>
          match Call.simpleName? { head, params, hash } with
          | none => .fail (.malformed .invalidSubexpressionHelper) tag
          | some name =>
              let known := options.isKnown name
              if !known && options.knownHelpersOnly then
                refuseUnknown { head, params, hash } tag
              else do
                .report name .helper tag
                let params ← compileValues options scopes tag params
                let hash ← compileHash options scopes tag hash
                return .call { name, known, params, hash, tag }

/-- Compiles positional arguments. -/
def compileValues (options : Options) (scopes : Scopes) (tag : Span) :
    List Expr → Reporting (List Value)
  | [] => pure []
  | e :: es => do
      let v ← compileValue options scopes tag e
      let vs ← compileValues options scopes tag es
      return v :: vs

/-- Compiles arguments with names. -/
def compileHash (options : Options) (scopes : Scopes) (tag : Span) :
    List (String × Expr) → Reporting (List (String × Value))
  | [] => pure []
  | (key, e) :: hash => do
      let v ← compileValue options scopes tag e
      let vs ← compileHash options scopes tag hash
      return (key, v) :: vs

end

/-- Compiles the call of a helper with its arguments. -/
def compileHelper (options : Options) (scopes : Scopes) (tag : Span)
    (name : String) (known : Bool) (call : Call) : Reporting HelperCall := do
  .report name .helper tag
  let params ← compileValues options scopes tag call.params
  let hash ← compileHash options scopes tag call.hash
  return { name, known, params, hash, tag }

/-- Compiles a mustache whose head is a path that is no block parameter. -/
def compileMustachePath (options : Options) (scopes : Scopes) (tag : Span)
    (path : Path) (call : Call) : Reporting Shown :=
  let asField : Reporting Shown := do return .lambda (← compilePath scopes path tag)
  let asHelper (name : String) (known : Bool) : Reporting Shown := do
    return .value (.call (← compileHelper options scopes tag name known call))
  match path.simpleName? with
  | some name =>
      if options.isKnown name then asHelper name true
      else if call.hasArguments then
        if options.knownHelpersOnly then refuseUnknown call tag else asHelper name false
      else if options.knownHelpersOnly then asField
      else do
        .report name .helper tag
        return .helperOrField name (← compilePath scopes path tag) tag
  | none =>
      if call.hasArguments then
        if options.knownHelpersOnly then refuseUnknown call tag
        else .fail (.unsupported .pathHelper) tag
      else asField

/-- Compiles what a mustache shows. -/
def compileMustache (options : Options) (scopes : Scopes) (tag : Span)
    (call : Call) : Reporting Shown :=
  match shadowed? scopes call, call.head with
  | some path, _ => do return .lambda (← compilePath scopes path tag)
  | none, .path path => compileMustachePath options scopes tag path call
  | none, head =>
      if call.hasArguments then .fail (.malformed .invalidHelperName) tag
      else do return .value (← compileValue options scopes tag head)

/-- Compiles the head of a block and its arguments. -/
def compileOpening (options : Options) (scopes : Scopes) (tag : Span)
    (call : Call) : Reporting Opening :=
  let name? := if (shadowed? scopes call).isSome then none else call.simpleName?
  let asHelper (name : String) (known : Bool) : Reporting Opening := do
    return .helper (← compileHelper options scopes tag name known call)
  let asValue : Reporting Opening :=
    match call.head with
    | .path path =>
        match name? with
        | some name =>
            if options.knownHelpersOnly then do
              return .value (← compilePath scopes path tag) path.text tag
            else do
              .report name .helper tag
              return .helperOrValue name (← compilePath scopes path tag) path.text tag
        | none => do return .value (← compilePath scopes path tag) path.text tag
    | _ => .fail (.malformed .invalidBlockName) tag
  match name? with
  | some name =>
      if options.isKnown name then asHelper name true
      else if call.hasArguments then
        if options.knownHelpersOnly then refuseUnknown call tag else asHelper name false
      else asValue
  | none =>
      if call.hasArguments && (shadowed? scopes call).isNone then
        if options.knownHelpersOnly then refuseUnknown call tag
        else .fail (.unsupported .pathBlockHelper) tag
      else asValue

/-- Compiles the context of a partial. -/
def compileContext (options : Options) (scopes : Scopes) (tag : Span) :
    Option Expr → Reporting (Option Value)
  | none => pure none
  | some e => do return some (← compileValue options scopes tag e)

mutual

/-- Compiles a program to a section. -/
def compileSection (options : Options) (scopes : Scopes) : Program → Reporting Section
  | { body, blockParams } => do
      return .mk blockParams (← compileLines options (blockParams :: scopes) body)

/-- Compiles statements to lines.  Comments and empty content have none. -/
def compileLines (options : Options) (scopes : Scopes) :
    List Statement → Reporting (List (Line Section))
  | [] => pure []
  | s :: rest => do
      let line ← compileStatement options scopes s
      let lines ← compileLines options scopes rest
      return line.toList ++ lines

def compileStatement (options : Options) (scopes : Scopes) :
    Statement → Reporting (Option (Line Section))
  | .content text => pure (if text.isEmpty then none else some (.text text))
  | .comment _ => pure none
  | .mustache call escaped tag => do
      let shown ← compileMustache options scopes tag call
      return some (.mustache (escaped && !options.noEscape) shown tag)
  | .block call main inverse tag => do
      let opening ← compileOpening options scopes tag call
      let main ← compileSection options scopes main
      let inverse ← compileInverse options scopes inverse
      return some (.block opening main inverse tag)
  | .inclusion name context hash tag => do
      .report name .inclusion tag
      let context ← compileContext options scopes tag context
      let hash ← compileHash options scopes tag hash
      return some (.inclusion name context hash tag)

/-- Compiles the inverse section of a block, if there is one. -/
def compileInverse (options : Options) (scopes : Scopes) :
    Option Program → Reporting (Option Section)
  | none => pure none
  | some p => do return some (← compileSection options scopes p)

end

end Spec
end TemplateModules
