import Mathlib.Data.BitVec
import Mathlib.Data.List.TakeWhile

/-! # Strings in buffers of bytes

A pointer to bytes stands for the string up to the first zero. Behind the end of a list of bytes a comparison reads
zeros. -/

namespace UtkKernel.Foundations
set_option autoImplicit false

abbrev Byte := BitVec 8

variable {bytes buffer l s t : List Byte} {n offset : ℕ}

/-! ## The string at a pointer -/

def cstr (bytes : List Byte) : List Byte := bytes.takeWhile fun c => decide (c ≠ 0)

theorem cstr_nul (l : List Byte) : cstr (0 :: l) = [] := List.takeWhile_cons_of_neg (by simp)

theorem cstr_cons {c : Byte} (hc : c ≠ 0) (l : List Byte) : cstr (c :: l) = c :: cstr l :=
  List.takeWhile_cons_of_pos (decide_eq_true hc)

theorem zero_notMem_cstr (bytes : List Byte) : 0 ∉ cstr bytes := by
  induction bytes with
  | nil => exact List.not_mem_nil
  | cons c bytes ih =>
    by_cases hc : c = 0
    · rw [hc, cstr_nul]
      exact List.not_mem_nil
    · rw [cstr_cons hc]
      exact List.not_mem_cons_of_ne_of_not_mem (Ne.symm hc) ih

/-- What stands behind a terminator does not count. -/
theorem cstr_append_nul (hs : 0 ∉ s) (l : List Byte) : cstr (s ++ 0 :: l) = s := by
  induction s with
  | nil => exact cstr_nul l
  | cons c s ih =>
    obtain ⟨hc, hs⟩ := List.ne_and_not_mem_of_not_mem_cons hs
    rw [List.cons_append, cstr_cons (Ne.symm hc), ih hs]

theorem cstr_of_notMem (hs : 0 ∉ s) : cstr s = s := by
  induction s with
  | nil => rfl
  | cons c s ih =>
    obtain ⟨hc, hs⟩ := List.ne_and_not_mem_of_not_mem_cons hs
    rw [cstr_cons (Ne.symm hc), ih hs]

theorem cstr_take (n : ℕ) (l : List Byte) : cstr (l.take n) = (cstr l).take n := List.take_takeWhile.symm

theorem cstr_drop (hn : n ≤ (cstr l).length) : cstr (l.drop n) = (cstr l).drop n := by
  induction n generalizing l with
  | zero => rfl
  | succ n ih =>
    cases l with
    | nil => exact absurd hn (Nat.not_succ_le_zero n)
    | cons c l =>
      by_cases hc : c = 0
      · rw [hc, cstr_nul] at hn
        exact absurd hn (Nat.not_succ_le_zero n)
      · rw [cstr_cons hc] at hn ⊢
        rw [List.drop_succ_cons, List.drop_succ_cons, ih (Nat.le_of_succ_le_succ hn)]

/-- A string that ends in the first bytes does not depend on the others. -/
theorem cstr_of_mem_take (hl : 0 ∈ l.take n) : cstr l = cstr (l.take n) := by
  induction n generalizing l with
  | zero => exact nomatch hl
  | succ n ih =>
    cases l with
    | nil => rfl
    | cons c l =>
      rw [List.take_succ_cons] at hl ⊢
      by_cases hc : c = 0
      · rw [hc, cstr_nul, cstr_nul]
      · rw [cstr_cons hc, cstr_cons hc, ih ((List.mem_cons.mp hl).resolve_left (Ne.symm hc))]

theorem cstr_append_zero (l : List Byte) : cstr (l ++ [0]) = cstr l := by
  induction l with
  | nil => exact cstr_nul []
  | cons c l ih =>
    rw [List.cons_append]
    by_cases hc : c = 0
    · rw [hc, cstr_nul, cstr_nul]
    · rw [cstr_cons hc, cstr_cons hc, ih]

/-- A string without its terminator. -/
@[ext] structure CString where
  chars : List Byte
  noNul : 0 ∉ chars
  deriving DecidableEq

def CString.ofBuffer (bytes : List Byte) : CString := ⟨cstr bytes, zero_notMem_cstr bytes⟩

/-! ## Comparing -/

/-- `strncmp` -/
def strncmp : ℕ → List Byte → List Byte → ℤ
  | 0, _, _ => 0
  | n + 1, s, t =>
    let d : ℤ := (s.headD 0).toNat - (t.headD 0).toNat
    if d ≠ 0 ∨ s.headD 0 = 0 then d else strncmp n s.tail t.tail

theorem headD_sub_eq_zero (s t : List Byte) : ((s.headD 0).toNat : ℤ) - (t.headD 0).toNat = 0 ↔ s.headD 0 = t.headD 0 := by
  rw [sub_eq_zero, Int.natCast_inj]
  exact BitVec.toNat_inj

theorem cstr_take_succ (n : ℕ) (s : List Byte) : cstr (s.take (n + 1)) =
    if s.headD 0 = 0 then [] else s.headD 0 :: cstr (s.tail.take n) := by
  cases s with
  | nil => rfl
  | cons c s =>
    rw [List.take_succ_cons, List.headD_cons, List.tail_cons]
    split_ifs with hc
    · rw [hc, cstr_nul]
    · rw [cstr_cons hc]

/-- The comparison finds no difference if and only if there is none in the strings of the first bytes. -/
theorem strncmp_eq_zero_iff (n : ℕ) (s t : List Byte) : strncmp n s t = 0 ↔ cstr (s.take n) = cstr (t.take n) := by
  induction n generalizing s t with
  | zero => simp [strncmp]
  | succ n ih =>
    rw [cstr_take_succ, cstr_take_succ]
    unfold strncmp
    by_cases hd : s.headD 0 = t.headD 0
    · have hzero := (headD_sub_eq_zero s t).mpr hd
      by_cases hs : s.headD 0 = 0
      · rw [if_pos (.inr hs), if_pos hs, if_pos (hd ▸ hs)]
        exact iff_of_true hzero rfl
      · have hdiff : ¬(((s.headD 0).toNat : ℤ) - (t.headD 0).toNat ≠ 0 ∨ s.headD 0 = 0) :=
          fun h => h.elim (fun h => h hzero) hs
        rw [if_neg hdiff, if_neg hs, if_neg (hd ▸ hs), ih, hd, List.cons_inj_right]
    · have hne := mt (headD_sub_eq_zero s t).mp hd
      rw [if_pos (.inl hne)]
      refine iff_of_false hne fun h => ?_
      split_ifs at h with hs ht ht
      · exact hd (hs.trans ht.symm)
      · exact hd (List.cons.inj h).1

/-! ## Writing -/

/-- The bytes that `strncpy` writes. -/
def strncpy (n : ℕ) (src : List Byte) : List Byte :=
  (cstr src).take n ++ List.replicate (n - (cstr src).length) 0

@[simp] theorem length_strncpy (n : ℕ) (src : List Byte) : (strncpy n src).length = n := by
  simp only [strncpy, List.length_append, List.length_take, List.length_replicate]
  omega

/-- Bytes are written in a buffer from an offset on. -/
def overwrite (buffer : List Byte) (offset : ℕ) (bytes : List Byte) : List Byte :=
  buffer.take offset ++ bytes ++ buffer.drop (offset + bytes.length)

theorem length_overwrite (h : offset + bytes.length ≤ buffer.length) :
    (overwrite buffer offset bytes).length = buffer.length := by
  simp only [overwrite, List.length_append, List.length_take, List.length_drop]
  omega

theorem overwrite_nil (buffer : List Byte) (offset : ℕ) : overwrite buffer offset [] = buffer := by
  simp [overwrite]

/-- The first byte, and then the others. -/
theorem overwrite_cons (h : offset < buffer.length) (c : Byte) (bytes : List Byte) :
    overwrite buffer offset (c :: bytes) = overwrite (buffer.set offset c) (offset + 1) bytes := by
  unfold overwrite
  have hfront : (buffer.set offset c).take (offset + 1) = buffer.take offset ++ [c] := by
    rw [List.take_add_one, List.take_set_of_le (le_refl offset), List.getElem?_set_self h]
    rfl
  have hback : (buffer.set offset c).drop (offset + 1 + bytes.length) = buffer.drop (offset + (bytes.length + 1)) := by
    rw [List.drop_set_of_lt (by omega), Nat.add_right_comm, Nat.add_assoc]
  rw [hfront, hback, List.length_cons]
  simp

/-- A byte is stored in an array; there is no place for it outside. -/
def storeAt (a : List Byte) (i : ℕ) (c : Byte) : Option (List Byte) := if i < a.length then some (a.set i c) else none

theorem storeAt_eq {a : List Byte} {i : ℕ} (h : i < a.length) (c : Byte) : storeAt a i c = some (a.set i c) := if_pos h

end UtkKernel.Foundations
