import Mathlib.Order.Basic
import TemplateModules.Proofs.Files.Map

/-!
# The order of paths

Paths are in a linear order, in which all spellings of one path are equal.
-/

namespace TemplateModules
namespace FilePath

namespace Component

/-- The name of a component, which only those below a directory have. -/
def name : Component → String
  | normal name => name
  | _ => ""

theorem compare_eq :
    Component.compare = compareLex (compareOn Component.rank) (compareOn Component.name) := by
  funext a b
  cases a <;> cases b <;> rfl

instance : Std.TransCmp Component.compare := by
  rw [compare_eq]
  infer_instance

instance : Std.LawfulEqCmp Component.compare where
  eq_of_compare {a b} h := by
    match a, b with
    | root, root => rfl
    | current, current => rfl
    | parent, parent => rfl
    | normal x, normal y =>
        have hnames : Ord.compare x y = .eq := h
        rw [Std.compare_eq_iff_eq.mp hnames]

end Component

theorem compareComponents_eq : compareComponents = List.compareLex Component.compare := by
  funext as bs
  induction as generalizing bs with
  | nil => cases bs <;> rfl
  | cons a as ih =>
      cases bs with
      | nil => rfl
      | cons b bs =>
          rw [compareComponents, List.compareLex_cons_cons, ih]

instance : Std.TransCmp compareComponents := by
  rw [compareComponents_eq]
  infer_instance

instance : Std.LawfulEqCmp compareComponents := by
  rw [compareComponents_eq]
  infer_instance

theorem compareComponents_eq_iff {as bs : List Component} :
    compareComponents as bs = .eq ↔ as = bs :=
  Std.LawfulEqCmp.compare_eq_iff_eq

/-- Spellings of one path are equal in the order. -/
theorem compare_eq_iff {p q : FilePath} : p.compare q = .eq ↔ p.same q = true := by
  rw [same_iff, ← compareComponents_eq_iff]
  rfl

instance : Std.TransCmp FilePath.compare where
  eq_swap {p q} := by
    have hswap : compareComponents p.components q.components =
        (compareComponents q.components p.components).swap := Std.OrientedCmp.eq_swap
    exact hswap
  isLE_trans {p q r} hpq hqr := by
    have htrans : (compareComponents p.components r.components).isLE = true :=
      Std.TransCmp.isLE_trans hpq hqr
    exact htrans

end FilePath
end TemplateModules
