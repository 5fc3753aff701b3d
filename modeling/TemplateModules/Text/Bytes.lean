/-!
# Byte offsets

Positions in a source are offsets into its UTF-8 encoding.  A text is a list of characters here,
so an offset is reached by adding up the widths of the characters in front of it.
-/

namespace TemplateModules
namespace Text

/-- The number of bytes of the UTF-8 encoding. -/
def byteSize : List Char → Nat
  | [] => 0
  | c :: cs => c.utf8Size + byteSize cs

@[simp]
theorem byteSize_nil : byteSize [] = 0 := rfl

@[simp]
theorem byteSize_cons (c : Char) (cs : List Char) :
    byteSize (c :: cs) = c.utf8Size + byteSize cs := rfl

@[simp]
theorem byteSize_append (xs ys : List Char) :
    byteSize (xs ++ ys) = byteSize xs + byteSize ys := by
  induction xs with
  | nil => simp
  | cons x xs ih => simp [ih, Nat.add_assoc]

/-- The characters from a byte offset on, if the offset is at a character boundary. -/
def dropBytes? : List Char → Nat → Option (List Char)
  | cs, 0 => some cs
  | [], _ + 1 => none
  | c :: cs, n + 1 =>
      if c.utf8Size ≤ n + 1 then dropBytes? cs (n + 1 - c.utf8Size) else none

/-- The characters before a byte offset, if the offset is at a character boundary. -/
def takeBytes? : List Char → Nat → Option (List Char)
  | _, 0 => some []
  | [], _ + 1 => none
  | c :: cs, n + 1 =>
      if c.utf8Size ≤ n + 1 then (takeBytes? cs (n + 1 - c.utf8Size)).map (c :: ·) else none

/-- The characters between two byte offsets, if both are boundaries in this order. -/
def slice? (cs : List Char) (start stop : Nat) : Option (List Char) :=
  if start ≤ stop then (dropBytes? cs start).bind (takeBytes? · (stop - start)) else none

/-- Dropping the bytes of the first part leaves the second. -/
theorem dropBytes?_append (xs ys : List Char) :
    dropBytes? (xs ++ ys) (byteSize xs) = some ys := by
  induction xs with
  | nil => cases ys <;> rfl
  | cons x xs ih =>
    have hx := x.utf8Size_pos
    obtain ⟨n, hn⟩ : ∃ n, x.utf8Size + byteSize xs = n + 1 :=
      ⟨x.utf8Size + byteSize xs - 1, by omega⟩
    simp only [List.cons_append, byteSize_cons, hn, dropBytes?]
    rw [if_pos (by omega), show n + 1 - x.utf8Size = byteSize xs by omega, ih]

/-- Taking the bytes of the first part gives the first part. -/
theorem takeBytes?_append (xs ys : List Char) :
    takeBytes? (xs ++ ys) (byteSize xs) = some xs := by
  induction xs with
  | nil => cases ys <;> rfl
  | cons x xs ih =>
    have hx := x.utf8Size_pos
    obtain ⟨n, hn⟩ : ∃ n, x.utf8Size + byteSize xs = n + 1 :=
      ⟨x.utf8Size + byteSize xs - 1, by omega⟩
    simp only [List.cons_append, byteSize_cons, hn, takeBytes?]
    rw [if_pos (by omega), show n + 1 - x.utf8Size = byteSize xs by omega, ih]
    rfl

/-- The slice between the ends of the first and the second part is the second part. -/
theorem slice?_append (xs ys zs : List Char) :
    slice? (xs ++ ys ++ zs) (byteSize xs) (byteSize xs + byteSize ys) = some ys := by
  simp [slice?, List.append_assoc, dropBytes?_append, takeBytes?_append]

end Text
end TemplateModules
