import UtkKernel.Foundations.CStrings

/-! # Slices of bytes

What is read at a place in a list of bytes, and what a list is after bytes were written over a part of it. -/

namespace UtkKernel.Foundations
set_option autoImplicit false

variable {l bytes s t : List Byte} {pos offset m n i : ℕ}

/-- The bytes at a position. -/
def slice (l : List Byte) (pos n : ℕ) : List Byte := (l.drop pos).take n

theorem length_slice (h : pos + n ≤ l.length) : (slice l pos n).length = n := by
  unfold slice
  rw [List.length_take, List.length_drop]
  omega

theorem getElem?_slice : (slice l pos n)[i]? = if i < n then l[pos + i]? else none := by
  unfold slice
  rw [List.getElem?_take, List.getElem?_drop]

theorem slice_slice (h : offset + m ≤ n) : slice (slice l pos n) offset m = slice l (pos + offset) m := by
  refine List.ext_getElem? fun i => ?_
  rw [getElem?_slice, getElem?_slice, getElem?_slice]
  by_cases hi : i < m
  · rw [if_pos hi, if_pos hi, if_pos (by omega), Nat.add_assoc]
  · rw [if_neg hi, if_neg hi]

/-- Two slices behind one another are one. -/
theorem slice_append_slice (l : List Byte) (pos m n : ℕ) : slice l pos m ++ slice l (pos + m) n = slice l pos (m + n) := by
  unfold slice
  rw [List.take_add, List.drop_drop]

theorem slice_append_left (h : pos + n ≤ s.length) : slice (s ++ t) pos n = slice s pos n := by
  refine List.ext_getElem? fun i => ?_
  rw [getElem?_slice, getElem?_slice]
  by_cases hi : i < n
  · rw [if_pos hi, if_pos hi, List.getElem?_append_left (by omega)]
  · rw [if_neg hi, if_neg hi]

theorem getElem?_overwrite (h : pos + bytes.length ≤ l.length) : (overwrite l pos bytes)[i]? =
    if pos ≤ i ∧ i < pos + bytes.length then bytes[i - pos]? else l[i]? := by
  have hlength : (l.take pos).length = pos := by
    rw [List.length_take]
    omega
  unfold overwrite
  by_cases hlow : i < pos
  · rw [List.append_assoc, List.getElem?_append_left (by omega), if_neg (by omega), List.getElem?_take, if_pos hlow]
  · by_cases hin : i < pos + bytes.length
    · rw [List.append_assoc, List.getElem?_append_right (by omega), hlength, List.getElem?_append_left (by omega),
        if_pos (by omega)]
    · rw [List.getElem?_append_right (by rw [List.length_append, hlength]; omega), if_neg (by omega),
        List.getElem?_drop, List.length_append, hlength]
      exact congrArg _ (by omega)

/-- A part of a slice is changed, and the slice is written back. -/
theorem overwrite_slice (hoff : offset + bytes.length ≤ n) (hn : pos + n ≤ l.length) :
    overwrite l pos (overwrite (slice l pos n) offset bytes) = overwrite l (pos + offset) bytes := by
  have hslice := length_slice hn
  have hlength : (overwrite (slice l pos n) offset bytes).length = n :=
    (length_overwrite (hoff.trans_eq hslice.symm)).trans hslice
  refine List.ext_getElem? fun i => ?_
  rw [getElem?_overwrite (show pos + (overwrite (slice l pos n) offset bytes).length ≤ l.length by omega), hlength,
    getElem?_overwrite (show pos + offset + bytes.length ≤ l.length by omega)]
  by_cases hin : pos ≤ i ∧ i < pos + n
  · rw [if_pos hin, getElem?_overwrite (by omega), getElem?_slice, if_pos (show i - pos < n by omega)]
    refine if_congr (by omega) (congrArg _ (by omega)) (congrArg _ (by omega))
  · rw [if_neg hin, if_neg (by omega)]

/-- Bytes are written behind one another. -/
theorem overwrite_overwrite (h : pos + s.length + t.length ≤ l.length) :
    overwrite (overwrite l pos s) (pos + s.length) t = overwrite l pos (s ++ t) := by
  have hlength : (overwrite l pos s).length = l.length := length_overwrite (by omega)
  refine List.ext_getElem? fun i => ?_
  have hcat : pos + (s ++ t).length ≤ l.length := by
    rw [List.length_append]
    omega
  rw [getElem?_overwrite (show pos + s.length + t.length ≤ (overwrite l pos s).length by omega),
    getElem?_overwrite (show pos + s.length ≤ l.length by omega), getElem?_overwrite hcat, List.length_append]
  by_cases ht : pos + s.length ≤ i ∧ i < pos + s.length + t.length
  · rw [if_pos ht, if_pos (by omega), List.getElem?_append_right (by omega)]
    exact congrArg _ (by omega)
  · rw [if_neg ht]
    by_cases hs : pos ≤ i ∧ i < pos + s.length
    · rw [if_pos hs, if_pos (by omega), List.getElem?_append_left (by omega)]
    · rw [if_neg hs, if_neg (by omega)]

/-- The last byte behind the others. -/
theorem overwrite_concat (h : pos + s.length < l.length) (c : Byte) :
    overwrite l pos (s ++ [c]) = (overwrite l pos s).set (pos + s.length) c := by
  have hlength : (overwrite l pos s).length = l.length := length_overwrite h.le
  rw [← overwrite_overwrite h, overwrite_cons (by omega), overwrite_nil]

/-- The bytes that were written are read. -/
theorem slice_overwrite_self (h : pos + bytes.length ≤ l.length) : slice (overwrite l pos bytes) pos bytes.length = bytes := by
  refine List.ext_getElem? fun i => ?_
  rw [getElem?_slice, getElem?_overwrite h]
  by_cases hi : i < bytes.length
  · rw [if_pos hi, if_pos (by omega), Nat.add_sub_cancel_left]
  · rw [if_neg hi, List.getElem?_eq_none (by omega)]

/-- Bytes elsewhere are read as before. -/
theorem slice_overwrite_of_le (h : offset + bytes.length ≤ l.length) (hpos : pos + n ≤ offset) :
    slice (overwrite l offset bytes) pos n = slice l pos n := by
  refine List.ext_getElem? fun i => ?_
  rw [getElem?_slice, getElem?_slice, getElem?_overwrite h]
  by_cases hi : i < n
  · rw [if_pos hi, if_pos hi, if_neg (by omega)]
  · rw [if_neg hi, if_neg hi]

end UtkKernel.Foundations
