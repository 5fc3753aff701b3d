import TemplateModules.Proofs.Spec.Paths

/-!
# What calls stand for

The call of a mustache and the call at the head of a block are compiled by what they stand for: a
helper, the value of a path, or either of these.  Which of them it is depends on the options and on
the names in scope.  It is worked out here once, and what is proved of the compilation of such calls
is proved for one role after another.
-/

namespace TemplateModules
namespace Spec

open Template

/-- What the call of a tag stands for. -/
inductive Role where
  | helper (name : String) (known : Bool)
  /-- The value of a path. -/
  | value (path : Path)
  /-- A helper if there is one of the name when the template runs, and a value otherwise. -/
  | either (name : String) (path : Path)
  /-- A literal or a call in parentheses. -/
  | plain
  | refused (cause : Cause)

/-- What a call stands for whose head is a path and no block parameter. -/
def pathRole (options : Options) (feature : Feature) (call : Call) (path : Path) : Role :=
  match path.simpleName? with
  | some name =>
      if options.isKnown name then .helper name true
      else if call.hasArguments then
        if options.knownHelpersOnly then .refused (.unknownHelper path.text)
        else .helper name false
      else if options.knownHelpersOnly then .value path
      else .either name path
  | none =>
      if call.hasArguments then
        if options.knownHelpersOnly then .refused (.unknownHelper path.text)
        else .refused (.unsupported feature)
      else .value path

/-- What a call stands for.  The feature is that of a path with arguments, and the cause that of
another head with arguments. -/
def roleOf (options : Options) (scopes : Scopes) (call : Call) (feature : Feature) (cause : Cause) :
    Role :=
  match shadowed? scopes call, call.head with
  | some path, _ => .value path
  | none, .path path => pathRole options feature call path
  | none, _ => if call.hasArguments then .refused cause else .plain

/-- What the call of a mustache stands for. -/
def mustacheRole (options : Options) (scopes : Scopes) (call : Call) : Role :=
  roleOf options scopes call .pathHelper (.malformed .invalidHelperName)

/-- What the call at the head of a block stands for. -/
def openingRole (options : Options) (scopes : Scopes) (call : Call) : Role :=
  roleOf options scopes call .pathBlockHelper
    (if options.knownHelpersOnly then .unknownHelper "(literal)"
      else .unsupported .pathBlockHelper)

/-! ## Roles of calls -/

section

variable {options : Options} {scopes : Scopes} {tag : Span} {call : Call} {feature : Feature}
  {cause : Cause} {path : Path}

/-- The head of a call is a block parameter, another path or no path. -/
theorem head_cases (scopes : Scopes) (call : Call) :
    (∃ path, shadowed? scopes call = some path) ∨
      shadowed? scopes call = none ∧
        ((∃ path, call.head = .path path) ∨ ∀ path, call.head = .path path → False) := by
  cases hshadowed : shadowed? scopes call with
  | some path => exact .inl ⟨path, rfl⟩
  | none =>
      by_cases hpath : ∃ path, call.head = .path path
      · exact .inr ⟨rfl, .inl hpath⟩
      · exact .inr ⟨rfl, .inr (not_exists.mp hpath)⟩

theorem roleOf_of_shadowed? (h : shadowed? scopes call = some path) :
    roleOf options scopes call feature cause = .value path := by
  rw [roleOf, h]

theorem roleOf_of_path (h : shadowed? scopes call = none) (hhead : call.head = .path path) :
    roleOf options scopes call feature cause = pathRole options feature call path := by
  rw [roleOf, h, hhead]

theorem roleOf_of_not_path
    (h : shadowed? scopes call = none) (hhead : ∀ path, call.head = .path path → False) :
    roleOf options scopes call feature cause =
      if call.hasArguments then .refused cause else .plain := by
  unfold roleOf
  split
  · next path hsome =>
    rw [h] at hsome
    cases hsome
  · next path _ hpath => exact absurd hpath (hhead path)
  · rfl

/-- What has to hold of a call for it to stand for something. -/
inductive Plays (options : Options) (scopes : Scopes) (call : Call) : Role → Prop where
  | param {path : Path} (hshadowed : shadowed? scopes call = some path) :
      Plays options scopes call (.value path)
  | helper {name : String} (hfree : shadowed? scopes call = none)
      (hname : call.simpleName? = some name)
      (hcalled : options.isKnown name = true ∨
        call.hasArguments = true ∧ options.knownHelpersOnly = false) :
      Plays options scopes call (.helper name (options.isKnown name))
  | field {path : Path} (hfree : shadowed? scopes call = none) (hhead : call.head = .path path)
      (harguments : call.hasArguments = false)
      (hother : ∀ name, path.simpleName? = some name →
        options.isKnown name = false ∧ options.knownHelpersOnly = true) :
      Plays options scopes call (.value path)
  | either {name : String} {path : Path} (hfree : shadowed? scopes call = none)
      (hhead : call.head = .path path) (hname : path.simpleName? = some name)
      (hunknown : options.isKnown name = false) (harguments : call.hasArguments = false)
      (hopen : options.knownHelpersOnly = false) :
      Plays options scopes call (.either name path)
  | plain (hfree : shadowed? scopes call = none) (hhead : ∀ path, call.head = .path path → False)
      (harguments : call.hasArguments = false) :
      Plays options scopes call .plain
  | refused {cause : Cause} : Plays options scopes call (.refused cause)

theorem plays_pathRole (hfree : shadowed? scopes call = none) (hhead : call.head = .path path) :
    Plays options scopes call (pathRole options feature call path) := by
  have hsimple : call.simpleName? = path.simpleName? := by
    rw [Call.simpleName?, hhead]
  unfold pathRole
  cases hname : path.simpleName? with
  | some name =>
      rw [hname] at hsimple
      dsimp only
      cases hknown : options.isKnown name with
      | true =>
          rw [if_pos rfl, ← hknown]
          exact .helper hfree hsimple (.inl hknown)
      | false =>
          rw [if_neg Bool.false_ne_true, ← hknown]
          cases harguments : call.hasArguments with
          | true =>
              rw [if_pos rfl]
              split
              · exact .refused
              · next hopen => exact .helper hfree hsimple (.inr ⟨harguments, by simpa using hopen⟩)
          | false =>
              rw [if_neg Bool.false_ne_true]
              split
              · next honly =>
                refine .field hfree hhead harguments fun other hother => ?_
                rw [hname] at hother
                obtain rfl := Option.some.inj hother
                exact ⟨hknown, honly⟩
              · next hopen =>
                exact .either hfree hhead hname hknown harguments (by simpa using hopen)
  | none =>
      dsimp only
      split
      · split
        · exact .refused
        · exact .refused
      · next harguments =>
        refine .field hfree hhead (by simpa using harguments) fun name hother => ?_
        rw [hname] at hother
        cases hother

theorem plays_roleOf : Plays options scopes call (roleOf options scopes call feature cause) := by
  obtain ⟨path, hshadowed⟩ | ⟨hfree, ⟨path, hhead⟩ | hhead⟩ := head_cases scopes call
  · rw [roleOf_of_shadowed? hshadowed]
    exact .param hshadowed
  · rw [roleOf_of_path hfree hhead]
    exact plays_pathRole hfree hhead
  · rw [roleOf_of_not_path hfree hhead]
    split
    · exact .refused
    · next harguments => exact .plain hfree hhead (by simpa using harguments)

theorem plays_mustacheRole : Plays options scopes call (mustacheRole options scopes call) :=
  plays_roleOf

theorem plays_openingRole : Plays options scopes call (openingRole options scopes call) :=
  plays_roleOf

end

/-! ## Options -/

section

variable {options options' : Options} {scopes : Scopes} {call : Call} {feature : Feature}
  {cause : Cause} {path : Path}
  (honly : options.knownHelpersOnly = options'.knownHelpersOnly)
include honly

theorem pathRole_congr
    (hknown : ∀ name, path.simpleName? = some name →
      options.isKnown name = options'.isKnown name) :
    pathRole options feature call path = pathRole options' feature call path := by
  unfold pathRole
  cases hname : path.simpleName? with
  | some name => simp only [hknown name hname, honly]
  | none => simp only [honly]

variable
  (hknown : ∀ name, call.simpleName? = some name → options.isKnown name = options'.isKnown name)
include hknown

/-- Of the helpers that are known, only those matter that have the name of the call. -/
theorem roleOf_congr :
    roleOf options scopes call feature cause = roleOf options' scopes call feature cause := by
  obtain ⟨path, hshadowed⟩ | ⟨hfree, ⟨path, hhead⟩ | hhead⟩ := head_cases scopes call
  · rw [roleOf_of_shadowed? hshadowed, roleOf_of_shadowed? hshadowed]
  · have hsimple : call.simpleName? = path.simpleName? := by
      rw [Call.simpleName?, hhead]
    rw [roleOf_of_path hfree hhead, roleOf_of_path hfree hhead]
    exact pathRole_congr honly fun name hname => hknown name (hsimple.trans hname)
  · rw [roleOf_of_not_path hfree hhead, roleOf_of_not_path hfree hhead]

theorem mustacheRole_congr :
    mustacheRole options scopes call = mustacheRole options' scopes call :=
  roleOf_congr honly hknown

theorem openingRole_congr :
    openingRole options scopes call = openingRole options' scopes call := by
  unfold openingRole
  rw [honly]
  exact roleOf_congr honly hknown

end

/-! ## Compilation by roles -/

/-- What is made of the call of a helper, of the value of a path and of a name that may be
either. -/
structure Outcomes (α : Type) where
  helper : HelperCall → α
  value : Path → Access → α
  either : String → Path → Access → α

/-- What the call of a mustache becomes. -/
def mustacheOutcomes (tag : Span) : Outcomes Shown where
  helper compiled := .value (.call compiled)
  value _ access := .lambda access
  either name _ access := .helperOrField name access tag

/-- What the call at the head of a block becomes. -/
def openingOutcomes (tag : Span) : Outcomes Opening where
  helper compiled := .helper compiled
  value path access := .value access path.text tag
  either name path access := .helperOrValue name access path.text tag

/-- Compiles a call by what it stands for.  How a plain head is compiled depends on the place. -/
def Outcomes.compile {α : Type} (outcomes : Outcomes α) (options : Options) (scopes : Scopes)
    (tag : Span) (call : Call) (plain : Reporting α) : Role → Reporting α
  | .helper name known => do
      return outcomes.helper (← compileHelper options scopes tag name known call)
  | .value path => do return outcomes.value path (← compilePath scopes path tag)
  | .either name path => do
      .report name .helper tag
      return outcomes.either name path (← compilePath scopes path tag)
  | .plain => plain
  | .refused cause => .fail cause tag

section

variable {options : Options} {scopes : Scopes} {tag : Span} {call : Call} {path : Path}

theorem compileMustachePath_eq (plain : Reporting Shown) (hhead : call.head = .path path) :
    compileMustachePath options scopes tag path call =
      (mustacheOutcomes tag).compile options scopes tag call plain
        (pathRole options .pathHelper call path) := by
  unfold compileMustachePath pathRole refuseUnknown
  simp only [hhead]
  cases path.simpleName? with
  | some name =>
      dsimp only
      split
      · rfl
      · split
        · split <;> rfl
        · split <;> rfl
  | none =>
      dsimp only
      split
      · split <;> rfl
      · rfl

/-- The call of a mustache is compiled by what it stands for. -/
theorem compileMustache_eq (options : Options) (scopes : Scopes) (tag : Span) (call : Call) :
    compileMustache options scopes tag call =
      (mustacheOutcomes tag).compile options scopes tag call
        (do return .value (← compileValue options scopes tag call.head))
        (mustacheRole options scopes call) := by
  unfold compileMustache mustacheRole
  split
  · next hshadowed =>
    rw [roleOf_of_shadowed? hshadowed]
    rfl
  · next hshadowed hhead =>
    rw [roleOf_of_path hshadowed hhead]
    exact compileMustachePath_eq _ hhead
  · next hshadowed hhead =>
    rw [roleOf_of_not_path hshadowed hhead]
    split <;> rfl

theorem compileOpening_of_path
    (plain : Reporting Opening) (hfree : shadowed? scopes call = none)
    (hhead : call.head = .path path) :
    compileOpening options scopes tag call =
      (openingOutcomes tag).compile options scopes tag call plain
        (pathRole options .pathBlockHelper call path) := by
  unfold compileOpening pathRole refuseUnknown Call.simpleName?
  simp only [hfree, hhead, Option.isSome_none, Option.isNone_none, Bool.and_true,
    Bool.false_eq_true, if_false]
  cases path.simpleName? with
  | some name =>
      dsimp only
      split
      · rfl
      · split
        · split <;> rfl
        · split <;> rfl
  | none =>
      dsimp only
      split
      · split <;> rfl
      · rfl

/-- The call at the head of a block is compiled by what it stands for. -/
theorem compileOpening_eq (options : Options) (scopes : Scopes) (tag : Span) (call : Call) :
    compileOpening options scopes tag call =
      (openingOutcomes tag).compile options scopes tag call
        (.fail (.malformed .invalidBlockName) tag) (openingRole options scopes call) := by
  unfold openingRole
  obtain ⟨path, hshadowed⟩ | ⟨hfree, ⟨path, hhead⟩ | hhead⟩ := head_cases scopes call
  · have hhead := (exists_of_shadowed? hshadowed).1
    rw [roleOf_of_shadowed? hshadowed]
    simp [compileOpening, hshadowed, hhead, Outcomes.compile, openingOutcomes]
  · rw [roleOf_of_path hfree hhead]
    exact compileOpening_of_path _ hfree hhead
  · rw [roleOf_of_not_path hfree hhead]
    unfold compileOpening refuseUnknown Call.simpleName?
    simp only [hfree, Option.isSome_none, Option.isNone_none, Bool.and_true, Bool.false_eq_true,
      if_false]
    split
    · split
      · rfl
      · rfl
    · rfl

end

end Spec
end TemplateModules
