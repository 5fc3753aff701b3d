import Mathlib.Data.List.Nodup
import Mathlib.Data.List.Perm.Subperm
import Mathlib.Tactic.Common
import TemplateModules.Module.Text
import TemplateModules.Proofs.Text.Digits

/-!
# Local names

The local name of an import is an identifier that no other import of the module has.  It is not
reserved, and it is not the name of the runtime.
-/

namespace TemplateModules
namespace Module

open Text

/-! ## Candidates -/

theorem candidate_injective (base : String) : Function.Injective (candidate base) := by
  have hlonger : ∀ n, base ≠ candidate base (n + 1) := by
    intro n h
    have hlength := congrArg String.length h
    simp only [candidate, String.length_append] at hlength
    have hmark : "_".length = 1 := by decide
    omega
  intro m n h
  cases m with
  | zero =>
      cases n with
      | zero => rfl
      | succ n => exact absurd h (hlonger n)
  | succ m =>
      cases n with
      | zero => exact absurd h.symm (hlonger m)
      | succ n =>
          have htext := congrArg String.toList h
          simp only [candidate, String.toList_append, List.append_cancel_left_eq] at htext
          have hnumber := toString_nat_injective htext
          omega

/-- Among one candidate more than there are names that are taken, one is free. -/
theorem find?_candidates (used : List String) (base : String) :
    ((List.range (used.length + 1)).map (candidate base)).find? (!used.contains ·) =
      some (firstFree used base) := by
  let candidates := (List.range (used.length + 1)).map (candidate base)
  have hfree : ∃ name ∈ candidates, name ∉ used := by
    by_contra hall
    push Not at hall
    have hnodup : candidates.Nodup :=
      List.Nodup.map (candidate_injective base) List.nodup_range
    have hlength := (List.subperm_of_subset hnodup hall).length_le
    rw [List.length_map, List.length_range] at hlength
    exact Nat.not_succ_le_self _ hlength
  obtain ⟨name, hname, hnew⟩ := hfree
  have hsome : (candidates.find? (!used.contains ·)).isSome = true :=
    List.find?_isSome.mpr ⟨name, hname, by simpa using hnew⟩
  obtain ⟨found, hfound⟩ := Option.isSome_iff_exists.mp hsome
  have hvalue : firstFree used base = found := by
    unfold firstFree
    rw [hfound, Option.getD_some]
  rw [hvalue]
  exact hfound

theorem firstFree_spec (used : List String) (base : String) :
    firstFree used base ∉ used ∧ ∃ n, firstFree used base = candidate base n := by
  have hfound := find?_candidates used base
  obtain ⟨n, -, hcandidate⟩ := List.mem_map.mp (List.mem_of_find?_eq_some hfound)
  exact ⟨by simpa using List.find?_some hfound, n, hcandidate.symm⟩

/-! ## One local name -/

/-- A local name is the name itself, or a candidate made from the kind and the name. -/
theorem bind_cases (used : List String) (kind name : String) :
    (bind used kind name = name ∧ isIdentifier name = true ∧ name ∉ reservedWords ∧ name ∉ used) ∨
      ∃ n, bind used kind name = candidate (kind ++ "_" ++ sanitize name) n := by
  unfold bind
  split
  · next h =>
      simp only [Bool.and_eq_true, Bool.not_eq_true', List.contains_eq_mem,
        decide_eq_false_iff_not] at h
      exact Or.inl ⟨rfl, h.1.1, h.1.2, h.2⟩
  · exact Or.inr (firstFree_spec used _).2

theorem bind_notMem_used (used : List String) (kind name : String) :
    bind used kind name ∉ used := by
  unfold bind
  split
  · next h =>
      simp only [Bool.and_eq_true, Bool.not_eq_true', List.contains_eq_mem,
        decide_eq_false_iff_not] at h
      exact h.2
  · exact (firstFree_spec used _).1

theorem isIdentifier_iff {name : String} :
    isIdentifier name = true ↔
      (∃ c ∈ name.toList.head?, startsIdentifier c = true) ∧
        ∀ c ∈ name.toList, continuesIdentifier c = true := by
  have hstart : ∀ c, startsIdentifier c = true → continuesIdentifier c = true := by
    intro c hc
    simp [continuesIdentifier, hc]
  unfold isIdentifier
  cases name.toList with
  | nil => simp
  | cons c cs =>
      simp only [Bool.and_eq_true, List.all_eq_true, List.head?_cons, Option.mem_some_iff,
        exists_eq_left', List.forall_mem_cons]
      constructor
      · rintro ⟨hc, hcs⟩
        exact ⟨hc, hstart c hc, hcs⟩
      · rintro ⟨hc, -, hcs⟩
        exact ⟨hc, hcs⟩

/-- Characters that may stand in an identifier, put behind one, make an identifier. -/
theorem isIdentifier_append
    {s t : String} (hs : isIdentifier s = true) (ht : ∀ c ∈ t.toList, continuesIdentifier c = true) :
    isIdentifier (s ++ t) = true := by
  rw [isIdentifier_iff] at hs ⊢
  obtain ⟨⟨c, hc, hstart⟩, hall⟩ := hs
  rw [String.toList_append]
  refine ⟨⟨c, ?_, hstart⟩, ?_⟩
  · exact List.mem_head?_append_of_mem_head? hc
  · intro d hd
    exact (List.mem_append.mp hd).elim (hall d) (ht d)

theorem continuesIdentifier_of_mem_sanitize {name : String} :
    ∀ c ∈ (sanitize name).toList, continuesIdentifier c = true := by
  intro c hc
  rw [sanitize, String.toList_ofList] at hc
  obtain ⟨d, -, rfl⟩ := List.mem_map.mp hc
  split
  · next hd => exact hd
  · rfl

theorem continuesIdentifier_of_isDigit {c : Char} (h : c.isDigit = true) :
    continuesIdentifier c = true := by
  simp only [Char.isDigit, Bool.and_eq_true, decide_eq_true_eq] at h
  have hrange : ('0' ≤ c && c ≤ '9') = true := by
    simpa [Char.le_def] using h
  simp [continuesIdentifier, hrange]

theorem isDigit_eq_false_of_startsIdentifier {c : Char} (h : startsIdentifier c = true) :
    c.isDigit = false := by
  have hbehind : ∀ {first : Char}, '9' < first → first ≤ c → c.isDigit = false := by
    intro first hfirst hle
    have hlt : '9'.val < c.val := UInt32.lt_of_lt_of_le hfirst hle
    simp only [Char.isDigit, Bool.and_eq_false_iff, decide_eq_false_iff_not, UInt32.not_le]
    exact Or.inr hlt
  simp only [startsIdentifier, isLetter, Bool.or_eq_true, Bool.and_eq_true, decide_eq_true_eq,
    beq_iff_eq] at h
  rcases h with ((⟨hsmall, -⟩ | ⟨hcapital, -⟩) | rfl) | rfl
  · exact hbehind (by decide) hsmall
  · exact hbehind (by decide) hcapital
  · rfl
  · rfl

theorem isIdentifier_candidate {base : String} (h : isIdentifier base = true) (n : Nat) :
    isIdentifier (candidate base n) = true := by
  cases n with
  | zero => exact h
  | succ n =>
      have hplain : ∀ c ∈ "_".toList, continuesIdentifier c = true := by
        simp [continuesIdentifier, startsIdentifier]
      have hmark := isIdentifier_append h hplain
      exact isIdentifier_append hmark fun c hc =>
        continuesIdentifier_of_isDigit (isDigit_of_mem_toString hc)

/-- A kind and the letters of a name make an identifier. -/
theorem isIdentifier_base (kind : ExtensionKind) (name : String) :
    isIdentifier (kind.name ++ "_" ++ sanitize name) = true := by
  have hkind : isIdentifier (kind.name ++ "_") = true := by
    cases kind <;> decide
  exact isIdentifier_append hkind continuesIdentifier_of_mem_sanitize

theorem isIdentifier_bind (used : List String) (kind : ExtensionKind) (name : String) :
    isIdentifier (bind used kind.name name) = true := by
  obtain ⟨hbind, hname, -, -⟩ | ⟨n, hbind⟩ := bind_cases used kind.name name
  · rw [hbind]
    exact hname
  · rw [hbind]
    exact isIdentifier_candidate (isIdentifier_base kind name) n

/-- A local name that is not the name itself has an underscore. -/
theorem bind_eq_of_notMem
    {used : List String} {kind name : String} (h : '_' ∉ (bind used kind name).toList) :
    bind used kind name = name ∧ name ∉ reservedWords := by
  obtain ⟨hbind, -, hreserved, -⟩ | ⟨n, hbind⟩ := bind_cases used kind name
  · exact ⟨hbind, hreserved⟩
  · refine absurd ?_ h
    rw [hbind]
    cases n <;> simp [candidate]

theorem bind_notMem_reservedWords (used : List String) (kind name : String) :
    bind used kind name ∉ reservedWords := by
  have hplain : ∀ word ∈ reservedWords, '_' ∉ word.toList := by decide +kernel
  intro hmem
  obtain ⟨hbind, hreserved⟩ := bind_eq_of_notMem (hplain _ hmem)
  exact hreserved (hbind ▸ hmem)

/-! ## Calls in turn -/

/-- A call for the local name of a helper or a partial. -/
structure BindCall where
  kind : ExtensionKind
  name : String
  deriving DecidableEq, Repr

/-- The local names that calls get in turn, when some names are taken before them.  The name that a
call gets is taken for the calls behind it. -/
def bindAll : List String → List BindCall → List String
  | _, [] => []
  | used, call :: calls =>
      let binding := bind used call.kind.name call.name
      binding :: bindAll (binding :: used) calls

section

variable {used : List String} {calls : List BindCall} {name : String}

theorem bindAll_append (used : List String) (before after : List BindCall) :
    bindAll used (before ++ after) =
      bindAll used before ++ bindAll ((bindAll used before).reverse ++ used) after := by
  induction before generalizing used with
  | nil => rfl
  | cons call before ih =>
      simp only [List.cons_append, bindAll, ih, List.reverse_cons, List.append_assoc,
        List.nil_append]

theorem length_bindAll (used : List String) (calls : List BindCall) :
    (bindAll used calls).length = calls.length := by
  induction calls generalizing used with
  | nil => rfl
  | cons call calls ih => rw [bindAll, List.length_cons, List.length_cons, ih]

/-- Every local name is made for one of the calls, when the names before the calls are taken. -/
theorem exists_bind_of_mem_bindAll (h : name ∈ bindAll used calls) :
    ∃ call ∈ calls, ∃ taken, used ⊆ taken ∧ name = bind taken call.kind.name call.name := by
  induction calls generalizing used with
  | nil => cases h
  | cons call calls ih =>
      simp only [bindAll, List.mem_cons] at h
      rcases h with rfl | h
      · exact ⟨call, List.mem_cons_self, used, List.Subset.refl used, rfl⟩
      · obtain ⟨later, hlater, taken, htaken, hname⟩ := ih h
        exact ⟨later, List.mem_cons_of_mem call hlater, taken,
          List.Subset.trans (List.subset_cons_self _ used) htaken, hname⟩

theorem notMem_of_mem_bindAll (h : name ∈ bindAll used calls) : name ∉ used := by
  obtain ⟨call, -, taken, htaken, rfl⟩ := exists_bind_of_mem_bindAll h
  exact fun hmem => bind_notMem_used taken call.kind.name call.name (htaken hmem)

/-- Calls in turn get different local names. -/
theorem nodup_bindAll (used : List String) (calls : List BindCall) :
    (bindAll used calls).Nodup := by
  induction calls generalizing used with
  | nil => exact List.nodup_nil
  | cons call calls ih =>
      rw [bindAll, List.nodup_cons]
      exact ⟨fun hmem => notMem_of_mem_bindAll hmem List.mem_cons_self, ih _⟩

end

/-! ## The local names of a module -/

/-- The calls for the names that a table configures. -/
def callsOf (kind : ExtensionKind) (table : Fields String) (names : List String) : List BindCall :=
  (names.filter fun name => (table.get? name).isSome).map fun name => { kind, name }

section

variable {kind : ExtensionKind} {table : Fields String} {used names : List String} {i : Import}

/-- The local names of imports are those of calls in turn, and they are taken then. -/
theorem bindings_matchNames (kind : ExtensionKind) (table : Fields String)
    (used names : List String) :
    (matchNames kind table used names).1.map Import.binding =
        bindAll used (callsOf kind table names) ∧
      (matchNames kind table used names).2 =
        (bindAll used (callsOf kind table names)).reverse ++ used := by
  induction names generalizing used with
  | nil => exact ⟨rfl, rfl⟩
  | cons name names ih =>
      cases hname : table.get? name with
      | none => simpa [matchNames, callsOf, hname] using ih used
      | some specifier =>
          obtain ⟨hbindings, hused⟩ := ih (bind used kind.name name :: used)
          have hcalls : callsOf kind table (name :: names) =
              { kind, name } :: callsOf kind table names := by
            simp [callsOf, hname]
          rw [hcalls]
          constructor
          · simp only [matchNames, hname, List.map_cons, bindAll, hbindings]
          · simp only [matchNames, hname, hused, bindAll, List.reverse_cons, List.append_assoc,
              List.cons_append, List.nil_append]

/-- An import comes from the module that the table says, and its local name is made when those of
the imports before it are taken. -/
theorem spec_of_mem_matchNames (h : i ∈ (matchNames kind table used names).1) :
    table.get? i.name = some i.specifier ∧
      ∃ taken, used ⊆ taken ∧ i.binding = bind taken kind.name i.name := by
  induction names generalizing used with
  | nil => cases h
  | cons name names ih =>
      cases hname : table.get? name with
      | none =>
          simp only [matchNames, hname] at h
          exact ih h
      | some specifier =>
          simp only [matchNames, hname, List.mem_cons] at h
          rcases h with rfl | h
          · exact ⟨hname, used, List.Subset.refl used, rfl⟩
          · obtain ⟨hspecifier, taken, htaken, hbinding⟩ := ih h
            exact ⟨hspecifier, taken, List.Subset.trans (List.subset_cons_self _ used) htaken,
              hbinding⟩

end

/-- All imports of a module, those of helpers first. -/
def Imports.all (imports : Imports) : List Import :=
  imports.helpers ++ imports.partials

section

variable {refs : References} {table : ExtensionTable} {i : Import}

/-- The local names of a module are those of calls in turn for its helpers and then its partials,
when the name of the runtime is taken. -/
theorem bindings_importsOf (refs : References) (table : ExtensionTable) :
    (importsOf refs table).all.map Import.binding =
      bindAll [runtimeName] (callsOf .helper table.helpers refs.helpers ++
        callsOf .inclusion table.partials refs.partials) := by
  obtain ⟨hhelpers, hused⟩ :=
    bindings_matchNames .helper table.helpers [runtimeName] refs.helpers
  rw [bindAll_append, Imports.all, List.map_append, ← hused, ← hhelpers]
  exact congrArg _ (bindings_matchNames .inclusion table.partials _ refs.partials).1

/-- The local names of a module are different ones. -/
theorem nodup_bindings (refs : References) (table : ExtensionTable) :
    ((importsOf refs table).all.map Import.binding).Nodup := by
  rw [bindings_importsOf]
  exact nodup_bindAll _ _

/-- Every local name is made for some kind and for the name of its import, when the name of the
runtime is taken. -/
theorem exists_bind_of_mem_all (h : i ∈ (importsOf refs table).all) :
    ∃ (kind : ExtensionKind) (taken : List String), runtimeName ∈ taken ∧
      i.binding = bind taken kind.name i.name := by
  rcases List.mem_append.mp h with h | h
  · obtain ⟨-, taken, htaken, hbinding⟩ := spec_of_mem_matchNames h
    exact ⟨.helper, taken, htaken List.mem_cons_self, hbinding⟩
  · obtain ⟨-, taken, htaken, hbinding⟩ := spec_of_mem_matchNames h
    have hruntime : runtimeName ∈
        (matchNames .helper table.helpers [runtimeName] refs.helpers).2 := by
      rw [(bindings_matchNames ..).2]
      exact List.mem_append_right _ List.mem_cons_self
    exact ⟨.inclusion, taken, htaken hruntime, hbinding⟩

/-- The local name of an import is an identifier, it is not reserved, and it is not that of the
runtime. -/
theorem binding_spec (h : i ∈ (importsOf refs table).all) :
    isIdentifier i.binding = true ∧ i.binding ∉ reservedWords ∧ i.binding ≠ runtimeName := by
  obtain ⟨kind, taken, hruntime, hbinding⟩ := exists_bind_of_mem_all h
  rw [hbinding]
  refine ⟨isIdentifier_bind taken kind i.name, bind_notMem_reservedWords taken _ i.name, ?_⟩
  rintro heq
  exact bind_notMem_used taken kind.name i.name (heq ▸ hruntime)

end

end Module
end TemplateModules
