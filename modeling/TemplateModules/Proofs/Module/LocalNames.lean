import Mathlib.Data.Set.Insert
import TemplateModules.Proofs.Module.Binding

/-!
# The search for local names

A call for a local name tries the numbered names of its base in turn, and nothing bounds their
number in advance.  The search and the calls are described here step by step, as relations that hold
only of calls that come to an end.  Each call ends, since the names that are taken are finitely many
and the numbered names of a base are all different.
-/

namespace TemplateModules
namespace Module

open Text

/-! ## One search -/

/-- How the numbered names of a base are tried from the `n`th on.  A name that is taken leads to the
next one, and the first that is not taken is the result. -/
inductive Searches (taken : Set String) (base : String) : Nat → String → Prop where
  | found {n : Nat} (hfree : candidate base n ∉ taken) :
      Searches taken base n (candidate base n)
  | next {n : Nat} {name : String} (htaken : candidate base n ∈ taken)
      (hrest : Searches taken base (n + 1) name) : Searches taken base n name

section

variable {taken : Set String} {used : List String} {base name other : String} {n count : Nat}

theorem Searches.unique
    (h : Searches taken base n name) (hother : Searches taken base n other) : other = name := by
  induction h with
  | found hfree =>
      cases hother with
      | found => rfl
      | next htaken => exact absurd htaken hfree
  | next htaken _ ih =>
      cases hother with
      | found hfree => exact absurd htaken hfree
      | next _ hrest => exact ih hrest

/-- A search in a stretch of numbered names that finds a free one is a search that ends. -/
theorem searches_of_find?
    (h : ((List.range' n count).map (candidate base)).find? (!used.contains ·) = some name) :
    Searches {x | x ∈ used} base n name := by
  induction count generalizing n with
  | zero => cases h
  | succ count ih =>
      rw [List.range'_succ, List.map_cons, List.find?_cons] at h
      by_cases htaken : candidate base n ∈ used
      · refine .next htaken (ih ?_)
        simpa [htaken] using h
      · have hname : candidate base n = name := by
          simpa [htaken] using h
        rw [← hname]
        exact .found htaken

/-- The search from the base on ends at the first free candidate. -/
theorem searches_firstFree (used : List String) (base : String) :
    Searches {x | x ∈ used} base 0 (firstFree used base) := by
  have hfound := find?_candidates used base
  rw [List.range_eq_range'] at hfound
  exact searches_of_find? hfound

end

/-! ## One call -/

/-- An ASCII identifier begins with a letter, an underscore or a dollar sign, and goes on with these
and with digits. -/
def IsAsciiIdentifier (name : String) : Prop :=
  ∃ first rest, name.toList = first :: rest ∧
    (first.isAlpha = true ∨ first = '_' ∨ first = '$') ∧
    ∀ c ∈ rest, c.isAlphanum = true ∨ c = '_' ∨ c = '$'

theorem isLetter_eq_isAlpha (c : Char) : isLetter c = c.isAlpha := by
  have hupper : c.isUpper = ('A' ≤ c && c ≤ 'Z') := Bool.decide_and _ _
  have hlower : isLetter c = (c.isLower || c.isUpper) := by
    rw [hupper]
    rfl
  rw [hlower]
  exact Bool.or_comm _ _

theorem startsIdentifier_iff {c : Char} :
    startsIdentifier c = true ↔ c.isAlpha = true ∨ c = '_' ∨ c = '$' := by
  simp only [startsIdentifier, isLetter_eq_isAlpha, Bool.or_eq_true, beq_iff_eq, or_assoc]

theorem continuesIdentifier_iff {c : Char} :
    continuesIdentifier c = true ↔ c.isAlphanum = true ∨ c = '_' ∨ c = '$' := by
  have hdigit : ('0' ≤ c && c ≤ '9') = c.isDigit := rfl
  rw [continuesIdentifier, Bool.or_eq_true, startsIdentifier_iff, hdigit, Char.isAlphanum,
    Bool.or_eq_true]
  tauto

theorem isIdentifier_iff_isAsciiIdentifier {name : String} :
    isIdentifier name = true ↔ IsAsciiIdentifier name := by
  unfold isIdentifier IsAsciiIdentifier
  cases name.toList with
  | nil => simp
  | cons c cs =>
      simp only [Bool.and_eq_true, List.all_eq_true, startsIdentifier_iff, continuesIdentifier_iff]
      constructor
      · rintro ⟨hc, hcs⟩
        exact ⟨c, cs, rfl, hc, hcs⟩
      · rintro ⟨first, rest, htext, hfirst, hrest⟩
        cases htext
        exact ⟨hfirst, hrest⟩

/-- A name is kept as it is when it can be a local name and is not taken. -/
def Kept (taken : Set String) (name : String) : Prop :=
  IsAsciiIdentifier name ∧ name ∉ reservedWords ∧ name ∉ taken

/-- How a call gets its local name: the name of the call is kept, or the names of a base made from
its kind and its letters are searched. -/
inductive Binds (taken : Set String) (call : BindCall) : String → Prop where
  | kept (h : Kept taken call.name) : Binds taken call call.name
  | searched {name : String} (hother : ¬Kept taken call.name)
      (hsearch : Searches taken (call.kind.name ++ "_" ++ sanitize call.name) 0 name) :
      Binds taken call name

theorem Binds.unique {taken : Set String} {call : BindCall} {name other : String}
    (h : Binds taken call name) (hother : Binds taken call other) : other = name := by
  cases h with
  | kept hkept =>
      cases hother with
      | kept => rfl
      | searched hnot => exact absurd hkept hnot
  | searched hnot hsearch =>
      cases hother with
      | kept hkept => exact absurd hkept hnot
      | searched _ hsearch' => exact hsearch.unique hsearch'

theorem kept_iff {used : List String} {name : String} :
    Kept {x | x ∈ used} name ↔
      (isIdentifier name && !reservedWords.contains name && !used.contains name) = true := by
  simp only [Kept, ← isIdentifier_iff_isAsciiIdentifier, Set.mem_ofPred_eq, Bool.and_eq_true,
    Bool.not_eq_true', List.contains_eq_mem, decide_eq_false_iff_not, and_assoc]

theorem binds_bind (used : List String) (call : BindCall) :
    Binds {x | x ∈ used} call (bind used call.kind.name call.name) := by
  unfold bind
  split
  · next h => exact .kept (kept_iff.mpr h)
  · next h => exact .searched (fun hkept => h (kept_iff.mp hkept)) (searches_firstFree used _)

/-! ## Calls in turn -/

/-- How calls get their local names in turn.  The name that a call gets is taken for the calls
behind it. -/
inductive BindsAll : Set String → List BindCall → List String → Prop where
  | nil {taken : Set String} : BindsAll taken [] []
  | cons {taken : Set String} {call : BindCall} {calls : List BindCall} {name : String}
      {names : List String} (hcall : Binds taken call name)
      (hcalls : BindsAll (insert name taken) calls names) :
      BindsAll taken (call :: calls) (name :: names)

theorem BindsAll.unique {taken : Set String} {calls : List BindCall} {names others : List String}
    (h : BindsAll taken calls names) (hothers : BindsAll taken calls others) : others = names := by
  induction h generalizing others with
  | nil =>
      cases hothers
      rfl
  | cons hcall _ ih =>
      cases hothers with
      | cons hcall' hcalls' =>
          have hname := hcall.unique hcall'
          subst hname
          rw [ih hcalls']

/-- Calls in turn end, whatever names are taken before them. -/
theorem bindsAll_bindAll (used : List String) (calls : List BindCall) :
    BindsAll {x | x ∈ used} calls (bindAll used calls) := by
  induction calls generalizing used with
  | nil => exact .nil
  | cons call calls ih =>
      refine .cons (binds_bind used call) ?_
      have htaken : insert (bind used call.kind.name call.name) {x | x ∈ used} =
          {x | x ∈ bind used call.kind.name call.name :: used} := by
        ext x
        simp only [Set.mem_insert_iff, Set.mem_ofPred_eq, List.mem_cons]
      rw [htaken]
      exact ih _

/-! ## Calls of one module -/

/-- The words that a module of the language cannot declare. -/
def languageWords : List String :=
  ["arguments", "await", "break", "case", "catch", "class", "const", "continue", "debugger",
    "default", "delete", "do", "else", "enum", "eval", "export", "extends", "false", "finally",
    "for", "function", "if", "implements", "import", "in", "instanceof", "interface", "let",
    "new", "null", "package", "private", "protected", "public", "return", "static", "super",
    "switch", "this", "throw", "true", "try", "typeof", "var", "void", "while", "with", "yield"]

theorem languageWords_subset : languageWords ⊆ reservedWords := by
  decide +kernel

theorem getElem?_bindAll_append_cons (used : List String) (before after : List BindCall)
    (call : BindCall) :
    (bindAll used (before ++ call :: after))[before.length]? =
      some (bind ((bindAll used before).reverse ++ used) call.kind.name call.name) := by
  have hlength : (bindAll used before).length = before.length := length_bindAll used before
  rw [bindAll_append, List.getElem?_append_right (Nat.le_of_eq hlength), hlength, Nat.sub_self]
  rfl

/-- Calls in turn, from the state in which just the name of the runtime is taken, all end, and
there is one list of local names they can give.  The names are pairwise different, none is that of
the runtime, and each is an identifier and no reserved word.  A call for a name that can be a local
name, and that is not taken when the call is made, gets this very name. -/
theorem bindAll_spec (calls : List BindCall) :
    (∀ names, BindsAll {runtimeName} calls names ↔ names = bindAll [runtimeName] calls) ∧
      (bindAll [runtimeName] calls).Nodup ∧
      (∀ name ∈ bindAll [runtimeName] calls,
        name ≠ runtimeName ∧ IsAsciiIdentifier name ∧
          name ∉ reservedWords ∧ name ∉ languageWords) ∧
      ∀ before call after, calls = before ++ call :: after →
        IsAsciiIdentifier call.name → call.name ∉ reservedWords → call.name ≠ runtimeName →
          call.name ∉ bindAll [runtimeName] before →
            (bindAll [runtimeName] calls)[before.length]? = some call.name := by
  have hends : BindsAll {runtimeName} calls (bindAll [runtimeName] calls) := by
    simpa only [List.mem_singleton, Set.ofPred_eq_eq_singleton] using
      bindsAll_bindAll [runtimeName] calls
  refine ⟨?_, nodup_bindAll _ calls, ?_, ?_⟩
  · intro names
    constructor
    · intro h
      exact hends.unique h
    · rintro rfl
      exact hends
  · intro name hname
    have hfresh : name ≠ runtimeName := by
      rintro rfl
      exact notMem_of_mem_bindAll hname List.mem_cons_self
    obtain ⟨call, -, taken, -, rfl⟩ := exists_bind_of_mem_bindAll hname
    have hreserved := bind_notMem_reservedWords taken call.kind.name call.name
    have hidentifier := isIdentifier_iff_isAsciiIdentifier.mp
      (isIdentifier_bind taken call.kind call.name)
    exact ⟨hfresh, hidentifier, hreserved, fun hword => hreserved (languageWords_subset hword)⟩
  · rintro before call after rfl hidentifier hreserved hruntime hfree
    rw [getElem?_bindAll_append_cons]
    have hkept : Kept {x | x ∈ (bindAll [runtimeName] before).reverse ++ [runtimeName]}
        call.name := by
      refine ⟨hidentifier, hreserved, ?_⟩
      simp only [Set.mem_ofPred_eq, List.mem_append, List.mem_reverse, List.mem_singleton, not_or]
      exact ⟨hfree, hruntime⟩
    exact congrArg some ((Binds.kept hkept).unique (binds_bind _ call))

/-- Calls whose names are those that other calls get, with a number or without one. -/
def aliasedCalls : List BindCall :=
  [⟨.helper, "a-b"⟩, ⟨.helper, "helper_a_b"⟩, ⟨.helper, "a.b"⟩, ⟨.inclusion, "helper_a_b_2"⟩,
    ⟨.helper, "helper_a_b_3"⟩, ⟨.helper, "a b"⟩]

/-- Where the names of calls are taken or will be, just the name that is not taken in its turn is
kept, and the numbers go past it. -/
theorem aliasedCalls_bind :
    BindsAll {runtimeName} aliasedCalls
        ["helper_a_b", "helper_helper_a_b", "helper_a_b_2", "partial_helper_a_b_2", "helper_a_b_3",
          "helper_a_b_4"] ∧
      (bindAll [runtimeName] aliasedCalls)[4]? = some "helper_a_b_3" := by
  obtain ⟨hends, -, -, hkept⟩ := bindAll_spec aliasedCalls
  constructor
  · exact (hends _).mpr (by decide +kernel)
  · exact hkept (aliasedCalls.take 4) ⟨.helper, "helper_a_b_3"⟩ [⟨.helper, "a b"⟩] rfl
      (isIdentifier_iff_isAsciiIdentifier.mp (by decide +kernel)) (by decide +kernel)
      (by decide +kernel) (by decide +kernel)

end Module
end TemplateModules
