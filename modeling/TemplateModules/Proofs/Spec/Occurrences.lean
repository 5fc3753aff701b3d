import Mathlib.Data.List.Nodup
import Mathlib.Data.List.Perm.Basic
import TemplateModules.Proofs.Spec.Arguments
import TemplateModules.Proofs.Spec.Emission

/-!
# Calls and their places in the code

The calls of a template are listed with the block parameters in scope, and for each call with
arguments it is said what should be written for it.

`Keeps` says that this is written for all calls of a piece of a template.  It gives each call a
place of its own in the text, so two calls never share what is written for one.
-/

namespace TemplateModules

namespace Template

open Spec

/-- A call of a template, with the block parameters in scope there and with its tag. -/
structure Occurrence where
  scopes : Scopes
  tag : Span
  call : Call

/-- Whether there is an argument to keep. -/
def Occurrence.hasArguments (o : Occurrence) : Bool :=
  o.call.hasArguments

mutual

/-- The calls in an expression. -/
def Expr.occurrences (scopes : Scopes) (tag : Span) : Expr → List Occurrence
  | .path _ => []
  | .literal _ => []
  | .sub call => call.occurrences scopes tag

/-- A call and those inside it.  There are none inside a call whose head is a block parameter, since
only the head of such a call is a part of the program. -/
def Call.occurrences (scopes : Scopes) (tag : Span) : Call → List Occurrence
  | { head, params, hash } =>
      { scopes, tag, call := { head, params, hash } } ::
        if (shadowed? scopes { head, params, hash }).isSome then []
        else
          head.occurrences scopes tag ++ paramsOccurrences scopes tag params ++
            hashOccurrences scopes tag hash

/-- The calls in positional arguments. -/
def paramsOccurrences (scopes : Scopes) (tag : Span) : List Expr → List Occurrence
  | [] => []
  | e :: es => e.occurrences scopes tag ++ paramsOccurrences scopes tag es

/-- The calls in arguments with names. -/
def hashOccurrences (scopes : Scopes) (tag : Span) : List (String × Expr) → List Occurrence
  | [] => []
  | (_, e) :: hash => e.occurrences scopes tag ++ hashOccurrences scopes tag hash

end

/-- The calls in the context of a partial. -/
def contextOccurrences (scopes : Scopes) (tag : Span) : Option Expr → List Occurrence
  | none => []
  | some e => e.occurrences scopes tag

mutual

/-- The calls of a program, in the order of the source. -/
def Program.occurrences (scopes : Scopes) : Program → List Occurrence
  | { body, blockParams } => bodyOccurrences (blockParams :: scopes) body

/-- The calls of statements. -/
def bodyOccurrences (scopes : Scopes) : List Statement → List Occurrence
  | [] => []
  | s :: rest => s.occurrences scopes ++ bodyOccurrences scopes rest

/-- The calls of a statement and of the sections inside it. -/
def Statement.occurrences (scopes : Scopes) : Statement → List Occurrence
  | .content _ => []
  | .comment _ => []
  | .mustache call _ tag => call.occurrences scopes tag
  | .block call main inverse tag =>
      call.occurrences scopes tag ++
        (main.occurrences scopes ++ inverseOccurrences scopes inverse)
  | .inclusion _ context hash tag =>
      contextOccurrences scopes tag context ++ hashOccurrences scopes tag hash

/-- The calls of an inverse section, if there is one. -/
def inverseOccurrences (scopes : Scopes) : Option Program → List Occurrence
  | none => []
  | some p => p.occurrences scopes

end

end Template

namespace Spec

open Script Template Text

/-! ## What is written for a call -/

/-- What is written for a call with arguments: for one of a known helper the call with all of its
arguments in order, and for a block parameter its value. -/
inductive WrittenAs (options : Options) (o : Occurrence) : String → Prop where
  | helper
      {name : String} {params : List String} {fields : List (String × String)}
      (hname : o.call.simpleName? = some name) (hscope : blockParam? name o.scopes = none)
      (hknown : options.isKnown name = true)
      (hparams : List.Forall₂ (ArgumentText options o.scopes o.tag) o.call.params params)
      (hfields : List.Forall₂ (Named (ArgumentText options o.scopes o.tag)) o.call.hash fields) :
      WrittenAs options o
        (callText ("lookupProperty(helpers," ++ quoted name ++ ")") name params fields)
  | blockParam
      {name : String} {level index : Nat}
      (hname : o.call.simpleName? = some name)
      (hscope : blockParam? name o.scopes = some (level, index)) :
      WrittenAs options o ("blockParams[" ++ toString level ++ "][" ++ toString index ++ "]")

theorem WrittenAs.length_pos
    {options : Options} {o : Occurrence} {text : String} (h : WrittenAs options o text) :
    0 < text.length := by
  have hstart : ∃ c cs, text.toList = c :: cs := by
    cases h with
    | helper hname hscope hknown hparams hfields =>
        unfold callText
        simp only [String.toList_append, List.append_assoc]
        exact ⟨_, _, rfl⟩
    | blockParam hname hscope =>
        simp only [String.toList_append, List.append_assoc]
        exact ⟨_, _, rfl⟩
  obtain ⟨c, cs, hcs⟩ := hstart
  rw [← String.length_toList, hcs]
  exact Nat.succ_pos cs.length

/-! ## Places in a text -/

/-- A text in which no literal is left open. -/
def Scans (text : String) : Prop :=
  (scan text.toList).isSome = true

theorem Scans.append {a b : String} (ha : Scans a) (hb : Scans b) : Scans (a ++ b) := by
  obtain ⟨ms, hms⟩ := Option.isSome_iff_exists.mp ha
  obtain ⟨ns, hns⟩ := Option.isSome_iff_exists.mp hb
  rw [Scans, String.toList_append, scan_append hms hns]
  rfl

theorem Emits.scans
    {text : String} {before after : List Char} {found : List Mention}
    (h : Emits text before after found) :
    Scans text := by
  obtain ⟨ms, hms, -⟩ := h.exists_scan
  rw [Scans, hms]
  rfl

/-- A text stands at a place of a longer one, outside of the literals of what is in front of it. -/
def StandsAt (text inner : String) (start : Nat) : Prop :=
  ∃ before after, text = before ++ inner ++ after ∧ before.length = start ∧ Scans before

namespace StandsAt

variable {a b inner : String} {start : Nat}

theorem before (h : StandsAt a inner start) (b : String) : StandsAt (a ++ b) inner start := by
  obtain ⟨lead, rest, rfl, hlength, hlead⟩ := h
  exact ⟨lead, rest ++ b, by simp only [String.append_assoc], hlength, hlead⟩

theorem after (h : StandsAt b inner start) (ha : Scans a) :
    StandsAt (a ++ b) inner (a.length + start) := by
  obtain ⟨lead, rest, rfl, rfl, hlead⟩ := h
  exact ⟨a ++ lead, rest, by simp only [String.append_assoc], String.length_append ..,
    ha.append hlead⟩

theorem start_lt (h : StandsAt a inner start) (hinner : 0 < inner.length) : start < a.length := by
  obtain ⟨lead, rest, rfl, rfl, -⟩ := h
  simp only [String.length_append]
  omega

end StandsAt

/-- What is written for a call stands at a place of a text. -/
def KeptAt (options : Options) (text : String) (o : Occurrence) (start : Nat) : Prop :=
  ∃ inner, WrittenAs options o inner ∧ StandsAt text inner start

theorem KeptAt.start_lt
    {options : Options} {text : String} {o : Occurrence} {start : Nat}
    (h : KeptAt options text o start) :
    start < text.length := by
  obtain ⟨inner, hwritten, hstands⟩ := h
  exact hstands.start_lt hwritten.length_pos

/-- Each of several calls with arguments has a place of its own in a text, where it is written. -/
def Keeps (options : Options) (text : String) (os : List Occurrence) : Prop :=
  ∃ starts : List Nat, starts.Nodup ∧
    List.Forall₂ (KeptAt options text) (os.filter Occurrence.hasArguments) starts

section

variable {options : Options} {a b text : String} {os others : List Occurrence} {starts : List Nat}

theorem forall_start_lt (h : List.Forall₂ (KeptAt options text) os starts) :
    ∀ start ∈ starts, start < text.length := by
  induction h with
  | nil => exact fun _ hstart => absurd hstart List.not_mem_nil
  | cons ho _ ih => exact List.forall_mem_cons.mpr ⟨ho.start_lt, ih⟩

theorem forall₂_keptAt_before (h : List.Forall₂ (KeptAt options a) os starts) (b : String) :
    List.Forall₂ (KeptAt options (a ++ b)) os starts :=
  h.imp fun _ _ ⟨inner, hwritten, hstands⟩ => ⟨inner, hwritten, hstands.before b⟩

theorem forall₂_keptAt_after (h : List.Forall₂ (KeptAt options b) os starts) (ha : Scans a) :
    List.Forall₂ (KeptAt options (a ++ b)) os (starts.map (a.length + ·)) := by
  rw [List.forall₂_map_right_iff]
  exact h.imp fun _ _ ⟨inner, hwritten, hstands⟩ => ⟨inner, hwritten, hstands.after ha⟩

theorem exists_writtenAs_of_mem
    {o : Occurrence} (h : List.Forall₂ (KeptAt options text) os starts) (ho : o ∈ os) :
    ∃ inner, WrittenAs options o inner := by
  induction h with
  | nil => cases ho
  | cons hfirst _ ih =>
      rcases List.mem_cons.mp ho with rfl | ho
      · exact hfirst.imp fun _ hinner => hinner.1
      · exact ih ho

theorem nodup_map_add (h : starts.Nodup) (n : Nat) : (starts.map (n + ·)).Nodup :=
  (List.nodup_map_iff fun _ _ => Nat.add_left_cancel).mpr h

end

namespace Keeps

variable {options : Options} {a b text : String} {os others : List Occurrence}

theorem of_filter_eq_nil (h : os.filter Occurrence.hasArguments = []) :
    Keeps options text os :=
  ⟨[], List.nodup_nil, h ▸ .nil⟩

theorem nil : Keeps options text [] :=
  of_filter_eq_nil rfl

theorem before (h : Keeps options a os) (b : String) : Keeps options (a ++ b) os := by
  obtain ⟨starts, hstarts, hos⟩ := h
  exact ⟨starts, hstarts, forall₂_keptAt_before hos b⟩

theorem after (h : Keeps options b os) (ha : Scans a) : Keeps options (a ++ b) os := by
  obtain ⟨starts, hstarts, hos⟩ := h
  exact ⟨_, nodup_map_add hstarts a.length, forall₂_keptAt_after hos ha⟩

theorem append (ha : Keeps options a os) (hscan : Scans a) (hb : Keeps options b others) :
    Keeps options (a ++ b) (os ++ others) := by
  obtain ⟨starts, hstarts, hos⟩ := ha
  obtain ⟨more, hmore, hothers⟩ := hb
  refine ⟨starts ++ more.map (a.length + ·), ?_, ?_⟩
  · refine List.nodup_append.mpr ⟨hstarts, nodup_map_add hmore a.length, ?_⟩
    rintro start hstart moved hmem rfl
    obtain ⟨n, -, hn⟩ := List.mem_map.mp hmem
    have hlt := forall_start_lt hos start hstart
    omega
  · rw [List.filter_append]
    exact List.rel_append (forall₂_keptAt_before hos b) (forall₂_keptAt_after hothers hscan)

theorem perm (h : Keeps options text os) (hperm : os.Perm others) : Keeps options text others := by
  obtain ⟨starts, hstarts, hos⟩ := h
  obtain ⟨moved, hothers, hmoved⟩ := List.perm_comp_forall₂ (hperm.symm.filter _) hos
  exact ⟨moved, hmoved.nodup_iff.mpr hstarts, hothers⟩

/-- A call at the front of a text is kept besides those behind its first characters. -/
theorem cons
    {o : Occurrence} {inner : String} (hwritten : WrittenAs options o inner)
    (hinner : StandsAt (a ++ b) inner 0) (hpos : 0 < a.length) (hscan : Scans a)
    (h : Keeps options b os) :
    Keeps options (a ++ b) (o :: os) := by
  obtain ⟨starts, hstarts, hos⟩ := h
  have hothers := forall₂_keptAt_after hos hscan
  cases harguments : o.hasArguments with
  | false =>
      refine ⟨_, nodup_map_add hstarts a.length, ?_⟩
      rwa [List.filter_cons_of_neg (by simp [harguments])]
  | true =>
      refine ⟨0 :: starts.map (a.length + ·), ?_, ?_⟩
      · refine List.nodup_cons.mpr ⟨?_, nodup_map_add hstarts a.length⟩
        intro hmem
        obtain ⟨n, -, hn⟩ := List.mem_map.mp hmem
        omega
      · rw [List.filter_cons_of_pos harguments]
        exact .cons ⟨inner, hwritten, hinner⟩ hothers

end Keeps

end Spec
end TemplateModules
