import TemplateModules.Proofs.Spec.Flags

/-!
# Compiling in one pass

Here compilation gives a tree of sections first.  The sections are numbered afterwards, and what the
code needs from the runtime is read off the finished lines.  A compiler that works in one pass does
all of this on the way: it keeps the scopes on a stack, reserves a place among the functions before
it goes into a section, and sets a flag wherever it meets what the flag stands for.

The main result is that both make the same of every source.  Each function of the compiler in one
pass has one lemma: from any progress it reports and refuses what the function of its name does, and
it ends with what is made of the result of that function.
-/

namespace TemplateModules
namespace Spec

open Template

/-! ## Progress -/

/-- What a compiler in one pass keeps on its way. -/
structure Progress where
  /-- The block parameters of the sections around the place, the innermost on top. -/
  scopes : Scopes
  /-- The functions of sections in the order of their numbers.  The place of a section is taken
  before the sections inside it, and filled behind them. -/
  functions : List Function
  usesDepths : Bool
  usesBlockParams : Bool
  usesPartials : Bool

namespace Progress

/-- The progress at the start of a template. -/
def start : Progress :=
  { scopes := [], functions := [], usesDepths := false, usesBlockParams := false,
    usesPartials := false }

/-- Puts the block parameters of a section on the stack. -/
def push (p : Progress) (names : List String) : Progress :=
  { p with scopes := names :: p.scopes }

/-- Takes the innermost block parameters from the stack. -/
def pop (p : Progress) : Progress :=
  { p with scopes := p.scopes.tail }

/-- Takes the next place among the functions. -/
def reserve (p : Progress) : Progress :=
  { p with functions := p.functions ++ [{ lines := [] }] }

/-- Puts a function in its place. -/
def fill (p : Progress) (place : Nat) (f : Function) : Progress :=
  { p with functions := p.functions.set place f }

/-- Notes that a section declares block parameters, if it does. -/
def declare (p : Progress) (names : List String) : Progress :=
  { p with usesBlockParams := p.usesBlockParams || !names.isEmpty }

/-- Notes a value that is read from a block parameter. -/
def meetBlockParam (p : Progress) : Progress :=
  { p with usesBlockParams := true }

/-- Notes a value that is read from a context further out. -/
def meetDepth (p : Progress) : Progress :=
  { p with usesDepths := true }

/-- Notes a partial. -/
def meetPartial (p : Progress) : Progress :=
  { p with usesPartials := true }

end Progress

/-- A compilation that works in one pass. -/
abbrev OnePass (α : Type) := StateT Progress Reporting α

namespace OnePass

/-! ## Values -/

/-- Compiles a path, and sets the flag of where it starts. -/
def compilePath (path : Path) (tag : Span) : OnePass Access := do
  if path.data then
    if 0 < path.depth then Reporting.fail (.unsupported .parentData) tag
    else
      reportFirst path .data tag
      return { root := .data, parts := path.parts }
  else
    match (← get).scopes.resolve? path with
    | some (level, index) =>
        modify Progress.meetBlockParam
        return { root := .blockParam level index, parts := path.parts.tail }
    | none =>
        if 0 < path.depth then
          modify Progress.meetDepth
          reportFirst path .context tag
          return { root := .parent path.depth, parts := path.parts }
        else
          reportFirst path .context tag
          return { root := .context, parts := path.parts }

mutual

def compileValue (options : Options) (tag : Span) : Expr → OnePass Value
  | .literal value => pure (.literal value)
  | .path path => do return .access (← compilePath path tag)
  | .sub call => compileSub options tag call

def compileSub (options : Options) (tag : Span) : Call → OnePass Value
  | { head, params, hash } => do
      let scopes := (← get).scopes
      match shadowed? scopes { head, params, hash } with
      | some path => return .access (← compilePath path tag)
      | none =>
          match Call.simpleName? { head, params, hash } with
          | none => Reporting.fail (.malformed .invalidSubexpressionHelper) tag
          | some name =>
              let known := options.isKnown name
              if !known && options.knownHelpersOnly then
                (refuseUnknown { head, params, hash } tag : Reporting Value)
              else
                Reporting.report name .helper tag
                let params ← compileValues options tag params
                let hash ← compileHash options tag hash
                return .call { name, known, params, hash, tag }

def compileValues (options : Options) (tag : Span) : List Expr → OnePass (List Value)
  | [] => pure []
  | e :: es => do
      let v ← compileValue options tag e
      let vs ← compileValues options tag es
      return v :: vs

def compileHash (options : Options) (tag : Span) :
    List (String × Expr) → OnePass (List (String × Value))
  | [] => pure []
  | (key, e) :: hash => do
      let v ← compileValue options tag e
      let vs ← compileHash options tag hash
      return (key, v) :: vs

end

/-- Compiles the call of a helper with its arguments. -/
def compileHelper (options : Options) (tag : Span) (name : String) (known : Bool) (call : Call) :
    OnePass HelperCall := do
  Reporting.report name .helper tag
  let params ← compileValues options tag call.params
  let hash ← compileHash options tag call.hash
  return { name, known, params, hash, tag }

/-- Compiles a call by what it stands for. -/
def compileRole {α : Type} (outcomes : Outcomes α) (options : Options) (tag : Span) (call : Call)
    (plain : OnePass α) : Role → OnePass α
  | .helper name known => do
      return outcomes.helper (← compileHelper options tag name known call)
  | .value path => do return outcomes.value path (← compilePath path tag)
  | .either name path => do
      Reporting.report name .helper tag
      return outcomes.either name path (← compilePath path tag)
  | .plain => plain
  | .refused cause => Reporting.fail cause tag

def compileMustache (options : Options) (tag : Span) (call : Call) : OnePass Shown := do
  let scopes := (← get).scopes
  compileRole (mustacheOutcomes tag) options tag call
    (do return .value (← compileValue options tag call.head)) (mustacheRole options scopes call)

def compileOpening (options : Options) (tag : Span) (call : Call) : OnePass Opening := do
  let scopes := (← get).scopes
  compileRole (openingOutcomes tag) options tag call
    (Reporting.fail (.malformed .invalidBlockName) tag) (openingRole options scopes call)

def compileContext (options : Options) (tag : Span) : Option Expr → OnePass (Option Value)
  | none => pure none
  | some e => do return some (← compileValue options tag e)

/-! ## Sections -/

/-- Compiles with the block parameters of a section on the stack. -/
def inside {α : Type} (names : List String) (x : OnePass α) : OnePass α := do
  modify (·.push names)
  let a ← x
  modify Progress.pop
  return a

mutual

/-- Compiles the section of a block to its function, and gives a reference to it. -/
def compileSection (options : Options) : Program → OnePass SectionRef
  | { body, blockParams } => do
      let place := (← get).functions.length
      modify Progress.reserve
      modify (·.declare blockParams)
      let lines ← inside blockParams (compileLines options body)
      modify (·.fill place { lines })
      return { number := place + 1, params := blockParams.length }

def compileLines (options : Options) : List Statement → OnePass (List (Line SectionRef))
  | [] => pure []
  | s :: rest => do
      let line ← compileStatement options s
      let lines ← compileLines options rest
      return line.toList ++ lines

def compileStatement (options : Options) : Statement → OnePass (Option (Line SectionRef))
  | .content text => pure (if text.isEmpty then none else some (.text text))
  | .comment _ => pure none
  | .mustache call escaped tag => do
      let shown ← compileMustache options tag call
      return some (.mustache (escaped && !options.noEscape) shown tag)
  | .block call main inverse tag => do
      let opening ← compileOpening options tag call
      let main ← compileSection options main
      let inverse ← compileInverse options inverse
      return some (.block opening main inverse tag)
  | .inclusion name context hash tag => do
      Reporting.report name .inclusion tag
      modify Progress.meetPartial
      let context ← compileContext options tag context
      let hash ← compileHash options tag hash
      return some (.inclusion name context hash tag)

def compileInverse (options : Options) : Option Program → OnePass (Option SectionRef)
  | none => pure none
  | some p => do return some (← compileSection options p)

end

/-- The text of flags that are set or not. -/
def flagsText (depths blockParams partials : Bool) : String :=
  ",\"useData\":true" ++ (if depths then ",\"useDepths\":true" else "") ++
    (if blockParams then ",\"useBlockParams\":true" else "") ++
    (if partials then ",\"usePartial\":true" else "")

/-- Puts the code of a template together, and its source map on request. -/
def assemble (options : Options) (source : String) (lines : List (Line SectionRef))
    (p : Progress) : Artifact where
  code :=
    Layout.heading ++ Function.code options.strict { lines } ++
      childrenText options.strict 1 p.functions ++
      flagsText p.usesDepths p.usesBlockParams p.usesPartials ++ "\x7d"
  map :=
    if options.sourceMap then
      (sourceMap options source { main := { lines }, children := p.functions }).text?
    else none

/-- Compiles a source in one pass. -/
def precompile (options : Options) (source : String) : Compilation :=
  match parse source with
  | .error f => { lookups := [], result := .error f }
  | .ok program =>
      let main := (inside program.blockParams (compileLines options program.body)).run .start
      { lookups := main.lookups,
        result :=
          match main.result with
          | .error e => .error (.refused e)
          | .ok (lines, p) => .ok (assemble options source lines p) }

end OnePass

/-! ## Additions -/

/-- Whether an access starts at a block parameter. -/
def Access.usesBlockParams (access : Access) : Bool :=
  match access.root with
  | .blockParam _ _ => true
  | _ => false

/-- Whether a line reads a block parameter or refers to a section that declares some. -/
def Line.usesBlockParams (line : Line SectionRef) : Bool :=
  line.declaresParams || line.accesses.any Access.usesBlockParams

/-- Whether some line of functions has a property. -/
def anyLineOf (fs : List Function) (q : Line SectionRef → Bool) : Bool :=
  fs.any fun f => f.lines.any q

namespace Progress

/-- Adds functions, and sets the flags that are needed. -/
def add (p : Progress) (fs : List Function) (depths blockParams partials : Bool) : Progress :=
  { p with
    functions := p.functions ++ fs
    usesDepths := p.usesDepths || depths
    usesBlockParams := p.usesBlockParams || blockParams
    usesPartials := p.usesPartials || partials }

theorem add_nothing (p : Progress) : p.add [] false false false = p := by
  simp [add]

theorem add_add (p : Progress) (fs gs : List Function) (a b c a' b' c' : Bool) :
    (p.add fs a b c).add gs a' b' c' = p.add (fs ++ gs) (a || a') (b || b') (c || c') := by
  simp [add, Bool.or_assoc]

/-- Sets the flags of what accesses start at. -/
def note (p : Progress) (as : List Access) : Progress :=
  p.add [] (as.any Access.usesDepths) (as.any Access.usesBlockParams) false

theorem note_nil (p : Progress) : p.note [] = p :=
  p.add_nothing

theorem length_note (p : Progress) (as : List Access) :
    (p.note as).functions.length = p.functions.length := by
  simp [note, add]

theorem note_append (p : Progress) (as bs : List Access) :
    p.note (as ++ bs) = (p.note as).note bs := by
  rw [note, note, note, add_add, List.any_append, List.any_append, Bool.or_false, List.nil_append]

theorem note_context (p : Progress) (parts : List String) :
    p.note [{ root := .context, parts }] = p :=
  p.add_nothing

theorem note_data (p : Progress) (parts : List String) :
    p.note [{ root := .data, parts }] = p :=
  p.add_nothing

theorem note_parent (p : Progress) (depth : Nat) (parts : List String) :
    p.note [{ root := .parent depth, parts }] = p.meetDepth := by
  simp [note, add, meetDepth, Access.usesDepths, Access.usesBlockParams]

theorem note_blockParam (p : Progress) (level index : Nat) (parts : List String) :
    p.note [{ root := .blockParam level index, parts }] = p.meetBlockParam := by
  simp [note, add, meetBlockParam, Access.usesDepths, Access.usesBlockParams]

/-- Adds the functions of a section to which there is a reference now. -/
def enter (p : Progress) (ref : SectionRef) (fs : List Function) : Progress :=
  p.add fs (anyLineOf fs Line.usesDepths) (ref.params != 0 || anyLineOf fs Line.usesBlockParams)
    (anyLineOf fs Line.usesPartial)

theorem length_enter (p : Progress) (ref : SectionRef) (fs : List Function) :
    (p.enter ref fs).functions.length = p.functions.length + fs.length :=
  List.length_append

/-- Adds the functions of the sections of lines, which are written themselves. -/
def write (p : Progress) (lines : List (Line SectionRef)) (fs : List Function) : Progress :=
  p.add fs (lines.any Line.usesDepths || anyLineOf fs Line.usesDepths)
    (lines.any Line.usesBlockParams || anyLineOf fs Line.usesBlockParams)
    (lines.any Line.usesPartial || anyLineOf fs Line.usesPartial)

theorem length_write (p : Progress) (lines : List (Line SectionRef)) (fs : List Function) :
    (p.write lines fs).functions.length = p.functions.length + fs.length :=
  List.length_append

theorem write_nil (p : Progress) : p.write [] [] = p :=
  p.add_nothing

theorem write_append
    (p : Progress) (xs ys : List (Line SectionRef)) (fs gs : List Function) :
    p.write (xs ++ ys) (fs ++ gs) = (p.write xs fs).write ys gs := by
  have hany (q : Line SectionRef → Bool) :
      ((xs ++ ys).any q || anyLineOf (fs ++ gs) q) =
        ((xs.any q || anyLineOf fs q) || (ys.any q || anyLineOf gs q)) := by
    rw [List.any_append, anyLineOf, List.any_append, Bool.or_assoc, Bool.or_assoc,
      Bool.or_left_comm (ys.any q)]
    rfl
  rw [write, write, write, add_add, hany, hany, hany]

theorem write_text (p : Progress) (text : String) : p.write [.text text] [] = p :=
  p.add_nothing

theorem write_mustache (p : Progress) (escaped : Bool) (shown : Shown) (tag : Span) :
    p.write [.mustache escaped shown tag] [] = p.note shown.accesses := by
  simp [write, note, anyLineOf, Line.usesDepths_eq, Line.usesBlockParams, Line.declaresParams,
    Line.usesPartial, Line.accesses]

theorem write_inclusion
    (p : Progress) (name : String) (context : Option Value) (hash : List (String × Value))
    (tag : Span) :
    p.write [.inclusion name context hash tag] [] =
      (p.meetPartial.note (contextAccesses context)).note (hashAccesses hash) := by
  rw [← note_append]
  simp [write, note, add, meetPartial, anyLineOf, Line.usesDepths_eq, Line.usesBlockParams,
    Line.declaresParams, Line.usesPartial, Line.accesses]

theorem write_block
    (p : Progress) (opening : Opening) (main : SectionRef) (tag : Span) (fs : List Function) :
    p.write [.block opening main none tag] fs = (p.note opening.accesses).enter main fs := by
  rw [write, enter, note, add_add]
  simp [Line.usesDepths_eq, Line.usesBlockParams, Line.declaresParams, Line.usesPartial,
    Line.accesses, Bool.or_assoc, Bool.or_left_comm]

theorem write_blockWithInverse
    (p : Progress) (opening : Opening) (main inverse : SectionRef) (tag : Span)
    (fs gs : List Function) :
    p.write [.block opening main (some inverse) tag] (fs ++ gs) =
      ((p.note opening.accesses).enter main fs).enter inverse gs := by
  rw [write, enter, enter, note, add_add, add_add]
  simp [Line.usesDepths_eq, Line.usesBlockParams, Line.declaresParams, Line.usesPartial,
    Line.accesses, anyLineOf, Bool.or_assoc, Bool.or_left_comm]

/-- A section is entered by taking its place, writing its lines and filling the place. -/
theorem fill_write
    (p : Progress) (names : List String) (lines : List (Line SectionRef)) (fs : List Function)
    (number : Nat) :
    (((p.reserve.declare names).push names).write lines fs).pop.fill p.functions.length { lines } =
      p.enter { number, params := names.length } ({ lines } :: fs) := by
  have hparams : (names.length != 0) = !names.isEmpty := by
    cases names <;> rfl
  simp [reserve, declare, push, write, add, pop, fill, enter, anyLineOf, hparams, Bool.or_assoc]

end Progress

/-! ## Steps -/

/-- From some progress a compilation does what another one does, and ends with what is made of the
result of that one. -/
def Does {α β : Type} (p : Progress) (x : OnePass α) (y : Reporting β) (k : β → α × Progress) :
    Prop :=
  x.run p = do return k (← y)

namespace Does

variable {α β γ δ : Type} {p : Progress} {x : OnePass α} {y : Reporting β} {k : β → α × Progress}

protected theorem pure {a : α} {b : β} (h : k b = (a, p)) : Does p (pure a) (pure b) k := by
  rw [Does, pure_bind, h]
  rfl

protected theorem bind
    {f : α → OnePass γ} {g : β → Reporting δ} {l : δ → γ × Progress} (hx : Does p x y k)
    (hf : ∀ b, Does (k b).2 (f (k b).1) (g b) l) :
    Does p (x >>= f) (y >>= g) l := by
  rw [Does, StateT.run_bind, hx, bind_assoc, bind_assoc]
  exact bind_congr fun b => by rw [pure_bind, hf b]

/-- What does not depend on progress does not change it. -/
theorem lift (y : Reporting α) : Does p (liftM y) y fun a => (a, p) :=
  rfl

theorem fail {cause : Cause} {span : Span} :
    Does p (liftM (Reporting.fail cause span : Reporting α)) (Reporting.fail cause span) k :=
  rfl

/-- A first step that only changes the progress. -/
theorem first {c : γ} {q : Progress} {first : OnePass γ} {f : γ → OnePass α}
    (hfirst : first.run p = pure (c, q)) (h : Does q (f c) y k) :
    Does p (first >>= f) y k := by
  rw [Does, StateT.run_bind, hfirst, pure_bind]
  exact h

end Does

namespace OnePass

section

variable {options : Options} {tag : Span}

theorem does_compilePath (p : Progress) (path : Path) :
    Does p (compilePath path tag) (Spec.compilePath p.scopes path tag) fun access =>
      (access, p.note [access]) := by
  unfold compilePath Spec.compilePath
  cases hdata : path.data with
  | true =>
      rw [if_pos rfl, if_pos rfl]
      by_cases hdepth : 0 < path.depth
      · rw [if_pos hdepth, if_pos hdepth]
        exact .fail
      · rw [if_neg hdepth, if_neg hdepth]
        refine .bind (.lift _) fun _ => .pure ?_
        rw [p.note_data]
  | false =>
      rw [if_neg Bool.false_ne_true, if_neg Bool.false_ne_true]
      refine .first rfl ?_
      cases hresolve : p.scopes.resolve? path with
      | some place =>
          refine .first rfl (.pure ?_)
          rw [p.note_blockParam]
      | none =>
          by_cases hdepth : 0 < path.depth
          · rw [if_pos hdepth, if_pos hdepth]
            refine .first rfl (.bind (.lift _) fun _ => .pure ?_)
            rw [p.note_parent]
          · rw [if_neg hdepth, if_neg hdepth]
            refine .bind (.lift _) fun _ => .pure ?_
            rw [p.note_context]

theorem does_refuseUnknown
    {α β : Type} {k : β → α × Progress} (p : Progress) (call : Call) :
    Does p (liftM (refuseUnknown call tag : Reporting α)) (refuseUnknown call tag) k := by
  unfold refuseUnknown
  split <;> exact .fail

mutual

theorem does_compileValue :
    ∀ (e : Expr) (p : Progress),
      Does p (compileValue options tag e) (Spec.compileValue options p.scopes tag e) fun v =>
        (v, p.note v.accesses)
  | .literal value, p => .pure (by rw [Value.accesses, p.note_nil])
  | .path path, p => .bind (does_compilePath p path) fun access => .pure rfl
  | .sub call, p => does_compileSub call p

theorem does_compileSub :
    ∀ (call : Call) (p : Progress),
      Does p (compileSub options tag call) (Spec.compileSub options p.scopes tag call) fun v =>
        (v, p.note v.accesses)
  | { head, params, hash }, p => by
      unfold compileSub Spec.compileSub
      refine .first rfl ?_
      dsimp only
      cases shadowed? p.scopes { head, params, hash } with
      | some path => exact .bind (does_compilePath p path) fun access => .pure rfl
      | none =>
          cases Call.simpleName? { head, params, hash } with
          | none => exact .fail
          | some name =>
              dsimp only
              split
              · exact does_refuseUnknown p _
              · refine .bind (.lift _) fun _ => ?_
                refine .bind (does_compileValues params p) fun vs => ?_
                refine .bind (does_compileHash hash _) fun fields => .pure ?_
                rw [Value.accesses, HelperCall.accesses, p.note_append]

theorem does_compileValues :
    ∀ (es : List Expr) (p : Progress),
      Does p (compileValues options tag es) (Spec.compileValues options p.scopes tag es) fun vs =>
        (vs, p.note (valuesAccesses vs))
  | [], p => .pure (by rw [valuesAccesses, p.note_nil])
  | e :: es, p => by
      refine .bind (does_compileValue e p) fun v => ?_
      refine .bind (does_compileValues es _) fun vs => .pure ?_
      rw [valuesAccesses, p.note_append]

theorem does_compileHash :
    ∀ (hash : List (String × Expr)) (p : Progress),
      Does p (compileHash options tag hash) (Spec.compileHash options p.scopes tag hash)
        fun fields => (fields, p.note (hashAccesses fields))
  | [], p => .pure (by rw [hashAccesses, p.note_nil])
  | (key, e) :: hash, p => by
      refine .bind (does_compileValue e p) fun v => ?_
      refine .bind (does_compileHash hash _) fun fields => .pure ?_
      rw [hashAccesses, p.note_append]

end

theorem does_compileHelper (p : Progress) (name : String) (known : Bool) (call : Call) :
    Does p (compileHelper options tag name known call)
      (Spec.compileHelper options p.scopes tag name known call) fun compiled =>
        (compiled, p.note compiled.accesses) := by
  refine .bind (.lift _) fun _ => ?_
  refine .bind (does_compileValues call.params p) fun vs => ?_
  refine .bind (does_compileHash call.hash _) fun fields => .pure ?_
  rw [HelperCall.accesses, p.note_append]

/-- If the outcome of a call accesses just what it is made of, then the flags that are set for the
call are those of its accesses. -/
theorem does_compileRole
    {α : Type} {outcomes : Outcomes α} {accesses : α → List Access} {call : Call}
    {plain : OnePass α} {plain' : Reporting α} (p : Progress) (role : Role)
    (hhelper : ∀ compiled, accesses (outcomes.helper compiled) = compiled.accesses)
    (hvalue : ∀ path access, accesses (outcomes.value path access) = [access])
    (heither : ∀ name path access, accesses (outcomes.either name path access) = [access])
    (hplain : Does p plain plain' fun a => (a, p.note (accesses a))) :
    Does p (compileRole outcomes options tag call plain role)
      (outcomes.compile options p.scopes tag call plain' role) fun a =>
        (a, p.note (accesses a)) := by
  cases role with
  | helper name known =>
      refine .bind (does_compileHelper p name known call) fun compiled => .pure ?_
      rw [hhelper]
  | value path =>
      refine .bind (does_compilePath p path) fun access => .pure ?_
      rw [hvalue]
  | either name path =>
      refine .bind (.lift _) fun _ => .bind (does_compilePath p path) fun access => .pure ?_
      rw [heither]
  | plain => exact hplain
  | refused cause => exact .fail

theorem does_compileMustache (p : Progress) (call : Call) :
    Does p (compileMustache options tag call) (Spec.compileMustache options p.scopes tag call)
      fun shown => (shown, p.note shown.accesses) := by
  rw [compileMustache_eq]
  refine .first rfl (does_compileRole p _ ?_ (fun _ _ => rfl) (fun _ _ _ => rfl) ?_)
  · intro compiled
    rw [mustacheOutcomes, Shown.accesses, Value.accesses]
  · exact .bind (does_compileValue call.head p) fun v => .pure rfl

theorem does_compileOpening (p : Progress) (call : Call) :
    Does p (compileOpening options tag call) (Spec.compileOpening options p.scopes tag call)
      fun opening => (opening, p.note opening.accesses) := by
  rw [compileOpening_eq]
  exact .first rfl
    (does_compileRole p _ (fun _ => rfl) (fun _ _ => rfl) (fun _ _ _ => rfl) .fail)

theorem does_compileContext (p : Progress) (context : Option Expr) :
    Does p (compileContext options tag context)
      (Spec.compileContext options p.scopes tag context) fun value =>
        (value, p.note (contextAccesses value)) := by
  cases context with
  | none => exact .pure (by rw [contextAccesses, p.note_nil])
  | some e => exact .bind (does_compileValue e p) fun v => .pure rfl

end

/-! ## Sections -/

/-- What is made of the lines of a section. -/
def placeLines (p : Progress) (lines : List (Line Section)) :
    List (Line SectionRef) × Progress :=
  let (lines, fs) := numberLines (p.functions.length + 1) lines
  (lines, p.write lines fs)

/-- What is made of a line, if a statement has one. -/
def placeLine (p : Progress) : Option (Line Section) → Option (Line SectionRef) × Progress
  | none => (none, p)
  | some line =>
      let (line, fs) := numberLine (p.functions.length + 1) line
      (some line, p.write [line] fs)

/-- What is made of the section of a block. -/
def placeSection (p : Progress) (s : Section) : SectionRef × Progress :=
  let (ref, fs) := numberSection (p.functions.length + 1) s
  (ref, p.enter ref fs)

/-- What is made of an inverse section, if there is one. -/
def placeInverse (p : Progress) : Option Section → Option SectionRef × Progress
  | none => (none, p)
  | some s =>
      let (ref, p) := placeSection p s
      (some ref, p)

theorem placeLines_append (p : Progress) (line? : Option (Line Section))
    (lines : List (Line Section)) :
    placeLines p (line?.toList ++ lines) =
      ((placeLine p line?).1.toList ++ (placeLines (placeLine p line?).2 lines).1,
        (placeLines (placeLine p line?).2 lines).2) := by
  cases line? with
  | none => rfl
  | some line =>
      simp only [placeLines, placeLine, Option.toList_some, List.singleton_append, numberLines,
        Progress.length_write, Nat.add_right_comm]
      rw [← List.singleton_append, p.write_append]

theorem scopes_placeLine (p : Progress) (line? : Option (Line Section)) :
    (placeLine p line?).2.scopes = p.scopes := by
  cases line? <;> rfl

/-- Before the lines of a section are compiled its place is taken, and behind them it is filled. -/
theorem placeSection_mk (p : Progress) (names : List String) (lines : List (Line Section)) :
    placeSection p (.mk names lines) =
      let inner := placeLines ((p.reserve.declare names).push names) lines
      ({ number := p.functions.length + 1, params := names.length },
        inner.2.pop.fill p.functions.length { lines := inner.1 }) := by
  have hplace : ((p.reserve.declare names).push names).functions.length =
      p.functions.length + 1 := by
    simp [Progress.reserve, Progress.declare, Progress.push]
  simp only [placeSection, numberSection, placeLines, hplace]
  rw [p.fill_write names _ _ (p.functions.length + 1)]

theorem placeLine_block
    (p : Progress) (opening : Opening) (main : Section) (inverse : Option Section) (tag : Span) :
    placeLine p (some (.block opening main inverse tag)) =
      let main := placeSection (p.note opening.accesses) main
      let inverse := placeInverse main.2 inverse
      (some (.block opening main.1 inverse.1 tag), inverse.2) := by
  cases inverse with
  | none =>
      simp only [placeLine, numberLine, numberInverse, placeSection, placeInverse,
        Progress.length_note, List.append_nil, p.write_block]
  | some inverse =>
      simp only [placeLine, numberLine, numberInverse, placeSection, placeInverse,
        Progress.length_note, Progress.length_enter, Nat.add_right_comm, p.write_blockWithInverse]

theorem does_inside
    {α β : Type} {p : Progress} {names : List String} {x : OnePass α} {y : Reporting β}
    {k : β → α × Progress} (h : Does (p.push names) x y k) :
    Does p (inside names x) y fun b => ((k b).1, (k b).2.pop) := by
  refine .first rfl ?_
  rw [← bind_pure y]
  exact .bind h fun b => .first rfl (.pure rfl)

mutual

theorem does_compileSection (options : Options) :
    ∀ (s : Program) (p : Progress),
      Does p (compileSection options s) (Spec.compileSection options p.scopes s) (placeSection p)
  | { body, blockParams }, p => by
      -- In front of the lines the place is read and taken, and block parameters are noted.
      refine .first rfl (.first rfl (.first rfl ?_))
      refine .bind (does_inside (does_compileLines options body _)) fun lines => ?_
      exact .first rfl (.pure (placeSection_mk p blockParams lines))

theorem does_compileLines (options : Options) :
    ∀ (body : List Statement) (p : Progress),
      Does p (compileLines options body) (Spec.compileLines options p.scopes body) (placeLines p)
  | [], p => .pure (congrArg (Prod.mk []) p.write_nil)
  | s :: rest, p => by
      refine .bind (does_compileStatement options s p) fun line? => ?_
      rw [← scopes_placeLine p line?]
      refine .bind (does_compileLines options rest _) fun lines => .pure ?_
      rw [placeLines_append]

theorem does_compileStatement (options : Options) :
    ∀ (s : Statement) (p : Progress),
      Does p (compileStatement options s) (Spec.compileStatement options p.scopes s) (placeLine p)
  | .content text, p => .pure (by
      split
      · rfl
      · exact congrArg (Prod.mk _) (p.write_text text))
  | .comment _, p => .pure rfl
  | .mustache call escaped tag, p => by
      refine .bind (does_compileMustache p call) fun shown => .pure ?_
      exact congrArg (Prod.mk _) (p.write_mustache _ shown tag)
  | .inclusion name context hash tag, p => by
      refine .bind (.lift _) fun _ => .first rfl ?_
      refine .bind (does_compileContext _ context) fun value => ?_
      refine .bind (does_compileHash hash _) fun fields => .pure ?_
      exact congrArg (Prod.mk _) (p.write_inclusion name value fields tag)
  | .block call main inverse tag, p => by
      refine .bind (does_compileOpening p call) fun opening => ?_
      refine .bind (does_compileSection options main _) fun main' => ?_
      refine .bind (does_compileInverse options inverse _) fun inverse' => .pure ?_
      exact placeLine_block p opening main' inverse' tag

theorem does_compileInverse (options : Options) :
    ∀ (inverse : Option Program) (p : Progress),
      Does p (compileInverse options inverse) (Spec.compileInverse options p.scopes inverse)
        (placeInverse p)
  | none, _ => .pure rfl
  | some s, p => .bind (does_compileSection options s p) fun _ => .pure rfl

end

end OnePass

/-! ## Templates -/

theorem Access.usesBlockParams_iff (access : Access) :
    access.usesBlockParams = true ↔ ∃ level index, access.root = .blockParam level index := by
  unfold Access.usesBlockParams
  cases access.root <;> simp

/-- The flag of block parameters may be set for the sections that declare some alone, since a block
parameter is only read where some section declares it. -/
theorem anyLine_usesBlockParams
    {options : Options} {program : Program} {main : Section}
    (hmain : (compileSection options [] program).result = .ok main)
    (hnames : program.blockParams = []) :
    main.layout.anyLine Line.usesBlockParams = main.layout.usesBlockParams := by
  rw [Bool.eq_iff_iff]
  constructor
  · intro h
    obtain ⟨f, hf, line, hline, huse⟩ := Layout.anyLine_iff.mp h
    rcases Bool.or_eq_true_iff.mp huse with hdeclares | hreads
    · exact Layout.anyLine_iff.mpr ⟨f, hf, line, hline, hdeclares⟩
    · obtain ⟨access, haccess, hroot⟩ := List.any_eq_true.mp hreads
      obtain ⟨level, index, hroot⟩ := access.usesBlockParams_iff.mp hroot
      have hmem : .blockParam level index ∈ line.mentions :=
        (line.mem_mentions_iff rfl).mpr ⟨access, haccess, Root.blockParam_mem_mentions.mpr hroot⟩
      have hfunction : .blockParam level index ∈ f.mentions :=
        List.mem_flatMap.mpr ⟨line, hline, List.mem_append_left _ hmem⟩
      obtain ⟨p, hp, hparams⟩ :=
        exists_params_of_mentions hmain (List.mem_flatMap.mpr ⟨f, hf, hfunction⟩)
      refine (layout_of_compileSection hmain).usesBlockParams_iff.mpr ⟨p, ?_, hparams⟩
      rcases List.mem_cons.mp hp with rfl | hp
      · exact absurd hnames hparams
      · exact hp
  · intro h
    obtain ⟨f, hf, line, hline, hdeclares⟩ := Layout.anyLine_iff.mp h
    exact Layout.anyLine_iff.mpr ⟨f, hf, line, hline, Bool.or_eq_true_iff.mpr (.inl hdeclares)⟩

theorem Reporting.bind_pure_eq {α β : Type} (x : Reporting α) (k : α → β) :
    (do return k (← x)) = ({ lookups := x.lookups, result := x.result.map k } : Reporting β) := by
  obtain ⟨lookups, result⟩ := x
  cases result with
  | error e => rfl
  | ok a => simp [Bind.bind, Pure.pure, Reporting.bind, Reporting.pure, Except.map]

namespace OnePass

theorem flagsText_layout (layout : Layout) :
    layout.flagsText =
      flagsText layout.usesDepths layout.usesBlockParams layout.usesPartials :=
  rfl

/-- What is put together in one pass is the artifact of the tree of sections. -/
theorem assemble_eq
    {options : Options} {source : String} {body : List Statement} {lines : List (Line Section)}
    (hlines : (Spec.compileLines options [[]] body).result = .ok lines) :
    let placed := placeLines (Progress.start.push []) lines
    assemble options source placed.1 placed.2.pop = artifact options source (.mk [] lines) := by
  have hmain : (Spec.compileSection options [] { body, blockParams := [] }).result =
      .ok (.mk [] lines) := by
    rw [Spec.compileSection, Reporting.bind_pure_eq, hlines]
    rfl
  have hany (q : Line SectionRef → Bool) :
      (false || ((numberLines 1 lines).1.any q || anyLineOf (numberLines 1 lines).2 q)) =
        (Section.mk [] lines).layout.anyLine q := by
    rw [Bool.false_or]
    rfl
  have hdepths : (placeLines (Progress.start.push []) lines).2.pop.usesDepths =
      (Section.mk [] lines).layout.usesDepths := hany Line.usesDepths
  have hparams : (placeLines (Progress.start.push []) lines).2.pop.usesBlockParams =
      (Section.mk [] lines).layout.usesBlockParams :=
    (hany Line.usesBlockParams).trans (anyLine_usesBlockParams hmain rfl)
  have hpartials : (placeLines (Progress.start.push []) lines).2.pop.usesPartials =
      (Section.mk [] lines).layout.usesPartials := hany Line.usesPartial
  simp only [assemble, artifact, Layout.code, flagsText_layout, hdepths, hparams, hpartials]
  rfl

/-- A compiler in one pass makes the same of every source. -/
theorem precompile_eq (options : Options) (source : String) :
    OnePass.precompile options source = Spec.precompile options source := by
  unfold OnePass.precompile Spec.precompile
  cases hparse : parse source with
  | error f => rfl
  | ok program =>
      obtain ⟨tokens, -, hnames, -⟩ := exists_tokens_of_parse hparse
      obtain ⟨body, names⟩ := program
      subst hnames
      have hscopes : (Progress.start.push []).scopes = [[]] := rfl
      have hrun := does_inside (does_compileLines options body (Progress.start.push []))
      rw [Does, Reporting.bind_pure_eq, hscopes] at hrun
      dsimp only
      rw [hrun, Spec.compileSection, Reporting.bind_pure_eq]
      cases hlines : (Spec.compileLines options [[]] body).result with
      | error e => rfl
      | ok lines =>
          dsimp only [Except.map]
          rw [assemble_eq hlines]

end OnePass
end Spec
end TemplateModules
