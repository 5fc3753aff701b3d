import Mathlib.Tactic.Common
import TemplateModules.Text.Bytes

/-!
# Bytes of texts

What is cut off by bytes is a part of the text of that many bytes.  In the encoding, the byte of an
ASCII character stands for this character only.
-/

namespace TemplateModules
namespace Text

/-- What is left by dropping bytes follows a part of as many bytes. -/
theorem exists_of_dropBytes?
    {cs rest : List Char} {n : Nat} (h : dropBytes? cs n = some rest) :
    ∃ front, cs = front ++ rest ∧ byteSize front = n := by
  fun_induction dropBytes? cs n with
  | case1 cs =>
      cases h
      exact ⟨[], rfl, rfl⟩
  | case2 n => cases h
  | case3 c cs n hle ih =>
      obtain ⟨front, rfl, hsize⟩ := ih h
      refine ⟨c :: front, rfl, ?_⟩
      rw [byteSize_cons]
      omega
  | case4 c cs n hlt => cases h

/-- What is taken by bytes is a part of as many bytes in front of the rest. -/
theorem exists_of_takeBytes?
    {cs part : List Char} {n : Nat} (h : takeBytes? cs n = some part) :
    ∃ rest, cs = part ++ rest ∧ byteSize part = n := by
  fun_induction takeBytes? cs n generalizing part with
  | case1 cs =>
      cases h
      exact ⟨cs, rfl, rfl⟩
  | case2 n => cases h
  | case3 c cs n hle ih =>
      obtain ⟨piece, hpiece, rfl⟩ := Option.map_eq_some_iff.mp h
      obtain ⟨rest, rfl, hsize⟩ := ih hpiece
      refine ⟨rest, rfl, ?_⟩
      rw [byteSize_cons]
      omega
  | case4 c cs n hlt => cases h

/-! ## Encodings -/

theorem length_flatMap_utf8EncodeChar (cs : List Char) :
    (cs.flatMap String.utf8EncodeChar).length = byteSize cs := by
  induction cs with
  | nil => rfl
  | cons c cs ih =>
      rw [List.flatMap_cons, List.length_append, String.length_utf8EncodeChar, ih, byteSize_cons]

/-- The byte of an ASCII character is in the encoding of no other character: longer encodings have
only greater bytes. -/
theorem mem_utf8EncodeChar_iff {c d : Char} (hd : d.toNat < 128) :
    UInt8.ofNat d.toNat ∈ String.utf8EncodeChar c ↔ c = d := by
  have hchar : c = d ↔ c.toNat = d.toNat :=
    ⟨congrArg Char.toNat, fun h => Char.ext (UInt32.toNat_inj.mp h)⟩
  rw [hchar]
  unfold Char.toNat at *
  unfold String.utf8EncodeChar
  dsimp only
  split_ifs
  all_goals
    simp only [List.mem_cons, List.not_mem_nil, or_false, ← UInt8.toNat_inj, UInt8.toNat_ofNat']
    omega

end Text
end TemplateModules
