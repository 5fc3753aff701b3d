import Mathlib.Data.List.Forall2
import TemplateModules.Proofs.Spec.Roles
import TemplateModules.Spec.Text

/-!
# What is written for arguments

The text of an argument is given by a relation that follows the tree of the argument: which literal,
which value or which call with which arguments of its own it is.  The relation speaks of the texts
themselves and not of compiled values; that what is compiled for an argument is written so is shown
here.
-/

namespace TemplateModules
namespace Spec

open Template Text

/-! ## Texts -/

/-- The reading of a value from a start down through fields. -/
def descentText (start : String) : List String → String
  | [] => start
  | fields => "lookupPath(" ++ start ++ ", [" ++ ",".intercalate (fields.map quoted) ++ "])"

/-- What is called for a helper.  One that is not known may be missing when the template runs. -/
def calleeText (options : Options) (name : String) : String :=
  if options.isKnown name then "lookupProperty(helpers," ++ quoted name ++ ")"
  else "(lookupProperty(helpers," ++ quoted name ++ ") || container.hooks.helperMissing)"

/-- The text of a call from its start to the end of its arguments with names. -/
def callText
    (callee name : String) (params : List String) (fields : List (String × String)) : String :=
  callee ++ ".call(alias1" ++ String.join (params.map ("," ++ ·)) ++ ", \x7b\"name\":" ++
    quoted name ++ ",\"hash\":\x7b" ++
    ",".intercalate (fields.map fun field => quoted field.1 ++ ":" ++ field.2) ++ "\x7d"

/-- The text of a call behind its arguments: the data, and the place of its tag. -/
def callEndText (tag : Span) : String :=
  ",\"data\":data,\"loc\":\x7b\"start\":\x7b\"line\":" ++ toString tag.line ++ ",\"column\":" ++
    toString tag.column ++ "\x7d,\"end\":\x7b\"line\":" ++ toString tag.endLine ++ ",\"column\":" ++
    toString tag.endColumn ++ "\x7d\x7d\x7d)"

/-! ## Arguments -/

/-- The text of the value of a path. -/
inductive PathText (scopes : Scopes) (path : Path) : String → Prop
  | blockParam {name : String} {parts : List String} {level index : Nat}
      (hplain : path.data = false ∧ path.anchored = false ∧ path.depth = 0)
      (hparts : path.parts = name :: parts) (hparam : IsParam scopes name level index) :
      PathText scopes path (descentText
        ("blockParams[" ++ toString level ++ "][" ++ toString index ++ "]") parts)
  | data (hdata : path.data = true) : PathText scopes path (descentText "data" path.parts)
  | outer (hdata : path.data = false) (hdepth : 0 < path.depth) :
      PathText scopes path (descentText ("depths[" ++ toString path.depth ++ "]") path.parts)
  | context (hdata : path.data = false) (hdepth : path.depth = 0)
      (hfree : path.isBound scopes = false) :
      PathText scopes path (descentText "depth0" path.parts)

/-- Two fields have the same name and values that are related. -/
inductive Named {α β : Type} (R : α → β → Prop) : String × α → String × β → Prop
  | intro {name : String} {a : α} {b : β} (hvalue : R a b) : Named R (name, a) (name, b)

/-- The text of an argument in a tag.  A call in parentheses whose head is a block parameter is the
value of the parameter; that of a helper is written with all of its arguments. -/
inductive ArgumentText (options : Options) (scopes : Scopes) (tag : Span) : Expr → String → Prop
  | text (value : String) : ArgumentText options scopes tag (.literal (.text value)) (quoted value)
  | number (numeral : Numeral) :
      ArgumentText options scopes tag (.literal (.number numeral)) numeral.text
  | bool (value : Bool) :
      ArgumentText options scopes tag (.literal (.bool value)) (if value then "true" else "false")
  | null : ArgumentText options scopes tag (.literal .null) "null"
  | undefined : ArgumentText options scopes tag (.literal .undefined) "undefined"
  | path {path : Path} {text : String} (htext : PathText scopes path text) :
      ArgumentText options scopes tag (.path path) text
  | blockParam {call : Call} {name : String} {level index : Nat}
      (hname : call.simpleName? = some name) (hparam : IsParam scopes name level index) :
      ArgumentText options scopes tag (.sub call)
        ("blockParams[" ++ toString level ++ "][" ++ toString index ++ "]")
  | helper {call : Call} {name : String} {params : List String} {fields : List (String × String)}
      (hname : call.simpleName? = some name) (hfree : Scopes.binds scopes name = false)
      (hcalled : options.isKnown name = true ∨ options.knownHelpersOnly = false)
      (hparams : List.Forall₂ (ArgumentText options scopes tag) call.params params)
      (hfields : List.Forall₂ (Named (ArgumentText options scopes tag)) call.hash fields) :
      ArgumentText options scopes tag (.sub call)
        (callText (calleeText options name) name params fields ++ callEndText tag)

/-! ## Values -/

theorem writeItems_texts (fields : List String) :
    Json.writeItems (fields.map Json.text) = ",".intercalate (fields.map quoted) := by
  induction fields with
  | nil => rfl
  | cons field fields ih =>
      cases fields with
      | nil => simp [Json.writeItems, Json.write]
      | cons next fields =>
          rw [List.map_cons (f := quoted), String.intercalate_cons_of_ne_nil (by simp), ← ih]
          rfl

theorem Access.code_eq_descentText (root : Root) (parts : List String) :
    Access.code { root, parts } = descentText root.code parts := by
  cases parts with
  | nil => rfl
  | cons part parts =>
      have hopen : ", [" = ", " ++ "[" := rfl
      have hclose : "])" = "]" ++ ")" := rfl
      have hdescent : descentText root.code (part :: parts) = "lookupPath(" ++ root.code ++ ", [" ++
          Json.writeItems ((part :: parts).map Json.text) ++ "])" := by
        rw [writeItems_texts]
        rfl
      rw [hdescent, hopen, hclose]
      simp only [Access.code, Json.texts, Json.write, String.append_assoc]

theorem ReadAs.pathText {scopes : Scopes} {path : Path} {access : Access}
    (h : ReadAs scopes path access) : PathText scopes path access.code := by
  obtain ⟨root, parts⟩ := access
  rw [Access.code_eq_descentText]
  cases h with
  | blockParam hplain hparts hparam => exact .blockParam hplain hparts hparam
  | data hdata => exact .data hdata
  | outer hdata hdepth => exact .outer hdata hdepth
  | context hdata hdepth hfree => exact .context hdata hdepth hfree

theorem paramsText_eq (vs : List Value) :
    paramsText vs = String.join ((vs.map Value.code).map ("," ++ ·)) := by
  induction vs with
  | nil => rfl
  | cons v vs ih => simp [paramsText, ih, String.append_assoc]

theorem hashText_eq (hash : List (String × Value)) :
    hashText hash = ",".intercalate
      ((hash.map fun field => (field.1, field.2.code)).map fun field =>
        quoted field.1 ++ ":" ++ field.2) := by
  induction hash with
  | nil => rfl
  | cons field hash ih =>
      obtain ⟨key, v⟩ := field
      cases hash with
      | nil => simp [hashText]
      | cons next hash =>
          rw [List.map_cons, List.map_cons, String.intercalate_cons_of_ne_nil (by simp), ← ih]
          simp [hashText]

theorem calleeText_eq (options : Options) (name : String) :
    calleeText options name =
      if options.isKnown name then helperText name
      else "(" ++ helperText name ++ " || container.hooks.helperMissing)" := by
  have hopen : "(lookupProperty(helpers," = "(" ++ "lookupProperty(helpers," := by decide +kernel
  have hclose : ") || container.hooks.helperMissing)" =
      ")" ++ " || container.hooks.helperMissing)" := by decide +kernel
  unfold calleeText helperText
  refine if_congr Iff.rfl rfl ?_
  rw [hopen, hclose]
  simp only [String.append_assoc]

/-- What is written for a call starts with the call and its arguments. -/
theorem HelperCall.code_eq_callText
    (options : Options) (name sections : String) (params : List Value)
    (hash : List (String × Value)) (tag : Span) :
    HelperCall.code sections { name, known := options.isKnown name, params, hash, tag } =
      callText (calleeText options name) name (params.map Value.code)
          (hash.map fun field => (field.1, field.2.code)) ++
        (sections ++ callEndText tag) := by
  have hname : ", \x7b\"name\":" = ", " ++ "\x7b\"name\":" := rfl
  have hhash : ",\"hash\":\x7b" = ",\"hash\":" ++ "\x7b" := rfl
  have hplace : ",\"data\":data,\"loc\":\x7b\"start\":\x7b\"line\":" =
      ",\"data\":data,\"loc\":" ++ "\x7b\"start\":\x7b\"line\":" := by decide +kernel
  have hend : "\x7d\x7d\x7d)" = "\x7d\x7d" ++ "\x7d" ++ ")" := rfl
  unfold callText callEndText HelperCall.code optionsText placeText
  rw [calleeText_eq, ← paramsText_eq, ← hashText_eq, hname, hhash, hplace, hend]
  simp only [String.append_assoc]

theorem argumentText_literal
    (options : Options) (scopes : Scopes) (tag : Span) (value : Literal) :
    ArgumentText options scopes tag (.literal value) (literalText value) := by
  cases value with
  | text value => exact .text value
  | number numeral => exact .number numeral
  | bool value =>
      cases value with
      | true => exact .bool true
      | false => exact .bool false
  | null => exact .null
  | undefined => exact .undefined

section

variable {options : Options} {scopes : Scopes} {tag : Span}

theorem refuseUnknown_ne_ok {α : Type} {a : α} {call : Call} :
    (refuseUnknown call tag).result ≠ .ok a := by
  unfold refuseUnknown
  split <;> exact nofun

mutual

/-- What an expression is compiled to is written as an argument should be. -/
theorem argumentText_of_compileValue :
    ∀ (e : Expr) (v : Value), (compileValue options scopes tag e).result = .ok v →
      ArgumentText options scopes tag e v.code
  | .literal value, _, h => by
      cases h
      exact argumentText_literal options scopes tag value
  | .path path, _, h => by
      obtain ⟨access, haccess, h⟩ := Reporting.exists_of_bind h
      cases h
      exact .path (compilePath_reads haccess).1.pathText
  | .sub call, v, h => argumentText_of_compileSub call v h

theorem argumentText_of_compileSub :
    ∀ (call : Call) (v : Value), (compileSub options scopes tag call).result = .ok v →
      ArgumentText options scopes tag (.sub call) v.code
  | { head, params, hash }, v, h => by
      unfold compileSub at h
      split at h
      · next path hshadowed =>
        obtain ⟨rfl, name, level, index, hname, hparam⟩ := exists_of_shadowed? hshadowed
        obtain ⟨access, haccess, h⟩ := Reporting.exists_of_bind h
        cases h
        rw [compilePath_blockParam hname hparam haccess]
        exact .blockParam hname (blockParam?_eq_some_iff.mp hparam)
      · next hshadowed =>
        split at h
        · cases h
        · next name hname =>
          simp only at h
          split at h
          · exact absurd h refuseUnknown_ne_ok
          · next hallowed =>
            have hfree := blockParam?_of_shadowed? hshadowed hname
            obtain ⟨-, -, h⟩ := Reporting.exists_of_bind h
            obtain ⟨vs, hvs, h⟩ := Reporting.exists_of_bind h
            obtain ⟨fields, hfields, h⟩ := Reporting.exists_of_bind h
            cases h
            rw [Value.code, HelperCall.code_eq_callText, String.empty_append]
            refine .helper hname ?_ ?_ (forall₂_of_compileValues params vs hvs)
              (forall₂_of_compileHash hash fields hfields)
            · rw [← isSome_blockParam?, hfree, Option.isSome_none]
            · cases hknown : options.isKnown name with
              | true => exact .inl rfl
              | false => exact .inr (by simpa [hknown] using hallowed)

theorem forall₂_of_compileValues :
    ∀ (es : List Expr) (vs : List Value), (compileValues options scopes tag es).result = .ok vs →
      List.Forall₂ (ArgumentText options scopes tag) es (vs.map Value.code)
  | [], _, h => by
      cases h
      exact .nil
  | e :: es, _, h => by
      obtain ⟨v, hv, h⟩ := Reporting.exists_of_bind h
      obtain ⟨vs, hvs, h⟩ := Reporting.exists_of_bind h
      cases h
      exact .cons (argumentText_of_compileValue e v hv) (forall₂_of_compileValues es vs hvs)

theorem forall₂_of_compileHash :
    ∀ (hash : List (String × Expr)) (fields : List (String × Value)),
      (compileHash options scopes tag hash).result = .ok fields →
        List.Forall₂ (Named (ArgumentText options scopes tag)) hash
          (fields.map fun field => (field.1, field.2.code))
  | [], _, h => by
      cases h
      exact .nil
  | (key, e) :: hash, _, h => by
      obtain ⟨v, hv, h⟩ := Reporting.exists_of_bind h
      obtain ⟨fields, hfields, h⟩ := Reporting.exists_of_bind h
      cases h
      exact .cons (.intro (argumentText_of_compileValue e v hv))
        (forall₂_of_compileHash hash fields hfields)

end

end

end Spec
end TemplateModules
