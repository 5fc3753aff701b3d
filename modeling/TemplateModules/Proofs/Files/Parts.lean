import TemplateModules.Proofs.Files.Map

/-!
# Paths from their parts

A path is as good as the parts of its text between slashes.  Its components are read off them, and a
path that is taken from a directory has the parts of both.
-/

namespace TemplateModules
namespace FilePath

/-! ## Parts between slashes -/

section

variable {text part : List Char} {parts : List (List Char)}

theorem splitSlashes_ne_nil (text : List Char) : splitSlashes text ≠ [] := by
  cases text with
  | nil => exact List.cons_ne_nil _ _
  | cons c cs =>
      rw [splitSlashes]
      split
      · exact List.cons_ne_nil _ _
      · split
        · exact List.cons_ne_nil _ _
        · exact List.cons_ne_nil _ _

theorem slash_notMem_of_mem_splitSlashes (h : part ∈ splitSlashes text) : '/' ∉ part := by
  induction text generalizing part with
  | nil =>
      obtain rfl := List.mem_singleton.mp h
      exact List.not_mem_nil
  | cons c cs ih =>
      rw [splitSlashes] at h
      split at h
      · rcases List.mem_cons.mp h with rfl | h
        · exact List.not_mem_nil
        · exact ih h
      · next hc =>
          split at h
          · next hsplit => exact absurd hsplit (splitSlashes_ne_nil cs)
          · next first rest hsplit =>
              rw [hsplit] at ih
              rcases List.mem_cons.mp h with rfl | h
              · intro hmem
                rcases List.mem_cons.mp hmem with rfl | hmem
                · exact hc rfl
                · exact ih List.mem_cons_self hmem
              · exact ih (List.mem_cons_of_mem _ h)

theorem splitSlashes_of_notMem (h : '/' ∉ part) : splitSlashes part = [part] := by
  induction part with
  | nil => rfl
  | cons c cs ih =>
      rw [List.mem_cons, not_or] at h
      obtain ⟨hc, hcs⟩ := h
      rw [splitSlashes, if_neg (Ne.symm hc), ih hcs]

/-- A slash comes between the parts before it and those behind it. -/
theorem splitSlashes_append (front text : List Char) :
    splitSlashes (front ++ '/' :: text) = splitSlashes front ++ splitSlashes text := by
  induction front with
  | nil => rfl
  | cons c cs ih =>
      rw [List.cons_append, splitSlashes, splitSlashes, ih]
      split
      · rfl
      · cases hsplit : splitSlashes cs with
        | nil => exact absurd hsplit (splitSlashes_ne_nil cs)
        | cons first rest => rfl

/-- Parts that are joined with slashes are found again. -/
theorem splitSlashes_intercalate (hsome : parts ≠ []) (h : ∀ part ∈ parts, '/' ∉ part) :
    splitSlashes (['/'].intercalate parts) = parts := by
  induction parts with
  | nil => exact absurd rfl hsome
  | cons part parts ih =>
      obtain ⟨hpart, hparts⟩ := List.forall_mem_cons.mp h
      cases parts with
      | nil => simpa using splitSlashes_of_notMem hpart
      | cons next parts =>
          rw [List.intercalate_cons_cons, List.append_assoc, List.singleton_append,
            splitSlashes_append, splitSlashes_of_notMem hpart, ih (List.cons_ne_nil _ _) hparts,
            List.singleton_append]

end

/-! ## Components from parts -/

/-- Where a path starts that has some parts, and further ones that are steps. -/
def startOf (before : List (List Char)) : List Component :=
  if before.head? = some [] then [.root]
  else if before.head? = some ['.'] then [.current]
  else []

section

variable {path : FilePath} {part : List Char} {before front rest idle : List (List Char)}
  {name : String} {c : Component}

theorem isAbsolute_eq (path : FilePath) :
    path.isAbsolute = decide (path.parts.head? = some [] ∧ 1 < path.parts.length) := by
  unfold isAbsolute parts
  cases path.text.toList with
  | nil => simp [splitSlashes]
  | cons c cs =>
      have hlength : 0 < (splitSlashes cs).length :=
        List.length_pos_of_ne_nil (splitSlashes_ne_nil cs)
      by_cases hc : c = '/'
      · simp [splitSlashes, hc, hlength]
      · cases hrest : splitSlashes cs with
        | nil => exact absurd hrest (splitSlashes_ne_nil cs)
        | cons first rest => simp [splitSlashes, hc, hrest]

theorem step?_eq_none_iff : step? part = none ↔ isIdle part = true := by
  unfold step?
  split
  · next h => simp [h]
  · next h => split <;> simp [h]

theorem step?_eq_normal_iff :
    step? part = some (.normal name) ↔
      isIdle part = false ∧ part ≠ ['.', '.'] ∧ part = name.toList := by
  unfold step?
  split
  · next h => simp [h]
  · next h =>
      split
      · next hup => simp [hup]
      · next hup =>
          rw [Bool.not_eq_true] at h
          simp only [Option.some.injEq, Component.normal.injEq, h, ne_eq, hup, not_false_eq_true,
            true_and]
          constructor
          · rintro rfl
            rw [String.toList_ofList]
          · rintro rfl
            rw [String.ofList_toList]

/-- The first parts of a path say where it starts.  An empty one means the root only if others
follow. -/
theorem components_of_front (hparts : path.parts = front ++ rest) (hfront : front ≠ [])
    (hroot : front.head? = some [] → 1 < path.parts.length) :
    path.components = startOf front ++ path.parts.filterMap step? := by
  obtain ⟨first, others, rfl⟩ := List.exists_cons_of_ne_nil hfront
  have hhead : path.parts.head? = some first := by
    rw [hparts]
    rfl
  have hlength : first = [] → 1 < path.parts.length := by
    rintro rfl
    exact hroot rfl
  unfold components startOf
  rw [isAbsolute_eq, hhead, List.head?_cons]
  by_cases hfirst : first = []
  · simp [hfirst, hlength hfirst]
  · simp [hfirst]

/-- The components of a path whose last step is known. -/
theorem components_of_parts (hparts : path.parts = before ++ part :: idle)
    (hpart : step? part = some c) (hidle : ∀ p ∈ idle, isIdle p = true) :
    path.components = startOf before ++ before.filterMap step? ++ [c] := by
  have hsteps : path.parts.filterMap step? = before.filterMap step? ++ [c] := by
    have hnone : idle.filterMap step? = [] :=
      List.filterMap_eq_nil_iff.mpr fun p hp => step?_eq_none_iff.mpr (hidle p hp)
    rw [hparts, List.filterMap_append, List.filterMap_cons_some hpart, hnone]
  have hbusy : ¬isIdle part = true := by
    rw [← step?_eq_none_iff, hpart]
    exact Option.some_ne_none c
  have hstart : path.components = startOf before ++ path.parts.filterMap step? := by
    cases before with
    | nil =>
        have hempty : part ≠ [] := by
          rintro rfl
          exact hbusy rfl
        have hpoint : part ≠ ['.'] := by
          rintro rfl
          exact hbusy rfl
        unfold components startOf
        rw [isAbsolute_eq, hparts]
        simp [hempty, hpoint]
    | cons first before =>
        apply components_of_front hparts (List.cons_ne_nil _ _)
        intro hfirst
        rw [hparts]
        simp
  rw [hstart, hsteps, List.append_assoc]

/-- The part of a path that is its file name. -/
theorem exists_parts_of_fileName? (h : path.fileName? = some name) :
    ∃ before idle, path.parts = before ++ name.toList :: idle ∧
      step? name.toList = some (.normal name) ∧ ∀ p ∈ idle, isIdle p = true := by
  have hlast : path.components.getLast? = some (.normal name) := by
    unfold fileName? at h
    split at h
    · next last hlast =>
        cases h
        exact hlast
    · cases h
  have hsteps : (path.parts.filterMap step?).getLast? = some (.normal name) := by
    unfold components at hlast
    rw [List.getLast?_append] at hlast
    cases hfound : (path.parts.filterMap step?).getLast? with
    | some last =>
        rw [hfound] at hlast
        exact hlast
    | none =>
        -- A path without steps ends where it starts, and no start is a name.
        rw [hfound, Option.none_or] at hlast
        split at hlast
        · cases hlast
        · split at hlast
          · cases hlast
          · cases hlast
  rw [List.getLast?_eq_head?_reverse, ← List.filterMap_reverse, List.head?_filterMap,
    List.findSome?_eq_some_iff] at hsteps
  obtain ⟨idle, part, before, hreverse, hpart, hidle⟩ := hsteps
  obtain ⟨-, -, rfl⟩ := step?_eq_normal_iff.mp hpart
  refine ⟨before.reverse, idle.reverse, ?_, hpart, ?_⟩
  · have hparts := congrArg List.reverse hreverse
    simpa using hparts
  · intro p hp
    exact step?_eq_none_iff.mp (hidle p (List.mem_reverse.mp hp))

theorem dropIdleEnd_of_idle (hpart : isIdle part = false) (hidle : ∀ p ∈ idle, isIdle p = true) :
    dropIdleEnd (before ++ part :: idle) = before ++ [part] := by
  have hreverse : (before ++ part :: idle).reverse = idle.reverse ++ part :: before.reverse := by
    simp
  have hdropped : ∀ p ∈ idle.reverse, isIdle p = true :=
    fun p hp => hidle p (List.mem_reverse.mp hp)
  rw [dropIdleEnd, hreverse, List.dropWhile_append_of_pos hdropped,
    List.dropWhile_cons_of_neg (by rw [hpart]; exact Bool.false_ne_true)]
  simp

end

/-! ## Names -/

section

variable {path : FilePath} {before : List String} {name last : String}

end

/-! ## Joined paths -/

section

variable {directory path : FilePath}

theorem one_lt_length_parts (hsome : path.text.toList ≠ []) (h : path.parts.head? = some []) :
    1 < path.parts.length := by
  unfold parts at h ⊢
  obtain ⟨c, cs, htext⟩ := List.exists_cons_of_ne_nil hsome
  have hlength : 0 < (splitSlashes cs).length :=
    List.length_pos_of_ne_nil (splitSlashes_ne_nil cs)
  rw [htext, splitSlashes] at h ⊢
  by_cases hc : c = '/'
  · simp [hc, hlength]
  · rw [if_neg hc] at h
    cases hrest : splitSlashes cs with
    | nil => exact absurd hrest (splitSlashes_ne_nil cs)
    | cons first rest => simp [hrest] at h

/-- A path that is taken from a directory has its own parts behind those of the directory. -/
theorem exists_parts_join (directory : FilePath) (h : path.isAbsolute = false) :
    ∃ front, (directory.join path).parts = front ++ path.parts ∧
      directory.components = startOf front ++ front.filterMap step? := by
  by_cases hempty : directory.text.isEmpty = true
  · refine ⟨[], ?_, ?_⟩
    · simp [join, hempty]
    · have htext : directory.text.toList = [] := by
        simpa using hempty
      simp [components, isAbsolute, parts, htext, splitSlashes, startOf, step?, isIdle]
  · have hsome : directory.text.toList ≠ [] := by
      simpa using hempty
    by_cases hslash : directory.text.toList.getLast? = some '/'
    · -- The slash at the end of the directory comes between the parts.
      obtain ⟨front, hfront⟩ := List.getLast?_eq_some_iff.mp hslash
      have hparts : directory.parts = splitSlashes front ++ [[]] := by
        rw [parts, hfront, splitSlashes_append]
        rfl
      refine ⟨splitSlashes front, ?_, ?_⟩
      · have hjoin : directory.join path = { text := directory.text ++ path.text } := by
          simp [join, h, hempty, hslash]
        rw [hjoin, parts, parts, String.toList_append, hfront, List.append_assoc,
          List.singleton_append, splitSlashes_append]
      · rw [components_of_front hparts (splitSlashes_ne_nil front) fun hfirst => ?_, hparts]
        · simp [List.filterMap_append, step?, isIdle]
        · apply one_lt_length_parts hsome
          rw [hparts, List.head?_append, hfirst]
          rfl
    · refine ⟨directory.parts, ?_, ?_⟩
      · have hjoin : directory.join path = { text := directory.text ++ "/" ++ path.text } := by
          simp [join, h, hempty, hslash]
        rw [hjoin, parts, String.toList_append, String.toList_append, List.append_assoc]
        exact splitSlashes_append _ _
      · exact components_of_front (List.append_nil _).symm (splitSlashes_ne_nil _)
          fun hfirst => one_lt_length_parts hsome hfirst

/-- A path of names only starts in no directory, so that its parts say all. -/
theorem components_of_names (h : ∀ c ∈ path.components, ∃ name, c = .normal name) :
    path.isAbsolute = false ∧ path.components = path.parts.filterMap step? := by
  unfold components at h ⊢
  dsimp only at h ⊢
  split at h
  · obtain ⟨name, hroot⟩ := h .root (List.mem_append_left _ List.mem_cons_self)
    cases hroot
  · next hrelative =>
      split at h
      · obtain ⟨name, hcurrent⟩ := h .current (List.mem_append_left _ List.mem_cons_self)
        cases hcurrent
      · next hfirst =>
          rw [if_neg hrelative, if_neg hfirst]
          exact ⟨Bool.eq_false_iff.mpr hrelative, rfl⟩

/-- A path of names that is taken from a directory has the components of both. -/
theorem components_join (directory : FilePath)
    (h : ∀ c ∈ path.components, ∃ name, c = .normal name) :
    (directory.join path).components = directory.components ++ path.components := by
  obtain ⟨hrelative, hpath⟩ := components_of_names h
  obtain ⟨front, hparts, hdirectory⟩ := exists_parts_join directory hrelative
  cases front with
  | nil =>
      have hjoined : (directory.join path).components = path.components := by
        unfold components
        rw [isAbsolute_eq, isAbsolute_eq, hparts]
        rfl
      rw [hjoined, hdirectory]
      rfl
  | cons first front =>
      rw [components_of_front hparts (List.cons_ne_nil _ _), hparts, List.filterMap_append, hpath,
        hdirectory, List.append_assoc]
      intro hfirst
      rw [hparts]
      have hlength : 0 < path.parts.length := List.length_pos_of_ne_nil (splitSlashes_ne_nil _)
      simp only [List.length_append, List.length_cons]
      omega

end

end FilePath
end TemplateModules
