import Mathlib.Data.List.TakeWhile
import TemplateModules.Proofs.Files.Parts

/-!
# Extensions of file names

A file name is a stem, and what stands behind its last point is its extension.  Another extension
changes the last component of a path and no other.
-/

namespace TemplateModules
namespace FilePath

/-! ## The end of a file name -/

section

variable {name stem after : List Char}

/-- What stands before the first point of a text, and the rest. -/
theorem span_of_point (h : '.' ∉ after) (rest : List Char) :
    (after ++ '.' :: rest).span (· ≠ '.') = (after, '.' :: rest) := by
  have hplain : ∀ c ∈ after, decide (c ≠ '.') = true := by
    intro c hc
    rw [decide_eq_true_iff]
    rintro rfl
    exact h hc
  rw [List.span_eq_takeWhile_dropWhile, List.takeWhile_append_of_pos hplain,
    List.dropWhile_append_of_pos hplain]
  simp

theorem span_of_no_point (h : '.' ∉ name) : name.span (· ≠ '.') = (name, []) := by
  have hplain : ∀ c ∈ name, decide (c ≠ '.') = true := by
    intro c hc
    rw [decide_eq_true_iff]
    rintro rfl
    exact h hc
  rw [List.span_eq_takeWhile_dropWhile, List.takeWhile_eq_self_iff.mpr hplain,
    List.dropWhile_eq_nil_iff.mpr hplain]

theorem splitExtension_append (hstem : stem ≠ []) (hafter : '.' ∉ after) :
    splitExtension (stem ++ '.' :: after) = (stem, some after) := by
  have hreverse : (stem ++ '.' :: after).reverse = after.reverse ++ '.' :: stem.reverse := by
    simp
  have hspan := span_of_point (mt List.mem_reverse.mp hafter) stem.reverse
  rw [splitExtension, hreverse, hspan]
  simp [hstem]

/-- A file name has no extension, or it is put together from a stem and an extension. -/
theorem splitExtension_cases (name : List Char) :
    splitExtension name = (name, none) ∨
      ∃ stem after, stem ≠ [] ∧ '.' ∉ after ∧ name = stem ++ '.' :: after ∧
        splitExtension name = (stem, some after) := by
  by_cases hpoint : '.' ∈ name
  · obtain ⟨after, before, hreverse, hafter⟩ :=
      List.eq_append_cons_of_mem (List.mem_reverse.mpr hpoint)
    by_cases hstem : before = []
    · left
      rw [splitExtension, hreverse, span_of_point hafter, hstem]
      rfl
    · have hstem' : before.reverse ≠ [] := by
        simpa using hstem
      have hafter' : '.' ∉ after.reverse := by
        simpa using hafter
      have hname : name = before.reverse ++ '.' :: after.reverse := by
        have hback := congrArg List.reverse hreverse
        simpa using hback
      refine Or.inr ⟨before.reverse, after.reverse, hstem', hafter', hname, ?_⟩
      rw [hname]
      exact splitExtension_append hstem' hafter'
  · left
    rw [splitExtension, span_of_no_point (mt List.mem_reverse.mp hpoint)]

theorem mem_of_mem_stem {c : Char} (h : c ∈ (splitExtension name).1) : c ∈ name := by
  obtain hwhole | ⟨stem, after, -, -, hname, hsplit⟩ := splitExtension_cases name
  · rw [hwhole] at h
    exact h
  · rw [hsplit] at h
    rw [hname]
    exact List.mem_append_left _ h

end

/-! ## Another extension -/

theorem intercalate_append_last (before : List (List Char)) (last more : List Char) :
    ['/'].intercalate (before ++ [last]) ++ more = ['/'].intercalate (before ++ [last ++ more]) := by
  induction before with
  | nil => simp
  | cons part before ih =>
      cases before with
      | nil => simp [List.intercalate_cons_cons]
      | cons next before =>
          simp only [List.cons_append, List.intercalate_cons_cons, List.append_assoc] at ih ⊢
          rw [ih]

/-- A text that can stand behind the last point of a file name. -/
structure IsExtension (extension : String) : Prop where
  nonempty : extension.toList ≠ []
  point : '.' ∉ extension.toList
  slash : '/' ∉ extension.toList

/-- A file name with another extension. -/
def renamed (name extension : String) : String :=
  String.ofList ((splitExtension name.toList).1 ++ '.' :: extension.toList)

section

variable {path other : FilePath} {name extension : String}

theorem fileName?_of_getLast? (h : path.components.getLast? = some (.normal name)) :
    path.fileName? = some name := by
  rw [fileName?, h]

theorem step?_renamed (h : IsExtension extension) (name : String) :
    step? (renamed name extension).toList = some (.normal (renamed name extension)) := by
  have hlast : (renamed name extension).toList.getLast? = extension.toList.getLast? := by
    rw [renamed, String.toList_ofList, List.getLast?_append, List.getLast?_cons,
      List.getLast?_eq_some_getLast h.nonempty]
    rfl
  -- The last character is no point, so the name is none of the steps that consist of points.
  have hpoint : (renamed name extension).toList.getLast? ≠ some '.' := by
    rw [hlast]
    exact fun hend => h.point (List.mem_of_getLast? hend)
  have hsome : (renamed name extension).toList ≠ [] := by
    rw [renamed, String.toList_ofList]
    exact List.append_ne_nil_of_right_ne_nil _ (List.cons_ne_nil _ _)
  rw [step?_eq_normal_iff]
  refine ⟨?_, ?_, rfl⟩
  · rw [isIdle, Bool.or_eq_false_iff, List.isEmpty_eq_false_iff, decide_eq_false_iff_not]
    refine ⟨hsome, fun hname => hpoint ?_⟩
    rw [hname]
    rfl
  · intro hname
    apply hpoint
    rw [hname]
    rfl

/-- Another extension changes the last component and no other. -/
theorem components_withExtension (h : path.fileName? = some name) (hext : IsExtension extension) :
    (path.withExtension extension).components =
      path.components.dropLast ++ [.normal (renamed name extension)] := by
  obtain ⟨before, idle, hparts, hstep, hidle⟩ := exists_parts_of_fileName? h
  have hbusy : isIdle name.toList = false := (step?_eq_normal_iff.mp hstep).1
  have hplain : ∀ part ∈ path.parts, '/' ∉ part :=
    fun part hpart => slash_notMem_of_mem_splitSlashes hpart
  rw [hparts] at hplain
  have hnew : ∀ part ∈ before ++ [(renamed name extension).toList], '/' ∉ part := by
    intro part hpart
    rcases List.mem_append.mp hpart with hpart | hpart
    · exact hplain part (List.mem_append_left _ hpart)
    · obtain rfl := List.mem_singleton.mp hpart
      rw [renamed, String.toList_ofList, List.mem_append, List.mem_cons]
      rintro (hstem | hslash | hafter)
      · exact hplain _ (List.mem_append_right _ List.mem_cons_self) (mem_of_mem_stem hstem)
      · exact absurd hslash (by decide)
      · exact hext.slash hafter
  have hjoined : (path.withExtension extension).parts =
      before ++ [(renamed name extension).toList] := by
    have htext : (path.withExtension extension).text.toList =
        ['/'].intercalate (before ++ [(renamed name extension).toList]) := by
      rw [withExtension, h]
      simp only [hparts, dropIdleEnd_of_idle hbusy hidle, List.dropLast_concat, joinParts,
        String.toList_append, String.toList_ofList, List.append_assoc, renamed]
      exact intercalate_append_last _ _ _
    rw [parts, htext, splitSlashes_intercalate (List.append_ne_nil_of_right_ne_nil _
      (List.cons_ne_nil _ _)) hnew]
  rw [components_of_parts hjoined (step?_renamed hext name) (by simp),
    components_of_parts hparts hstep hidle, List.dropLast_concat]

end

end FilePath
end TemplateModules
