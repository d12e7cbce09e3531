import Mathlib.Data.BitVec
import Mathlib.Tactic.IntervalCases
import Mathlib.Tactic.Ring
import Mathlib.Logic.Function.Iterate

/-! # Copying and filling blocks

`memcpy`, `memmove` and `memset` for i386, down to the string instructions. These go upwards or downwards by the direction
flag, which each call sets as it needs it and leaves so. -/

namespace UtkKernel.Libc
set_option autoImplicit false

abbrev Address := BitVec 32
abbrev Bytes := Address → BitVec 8

/-- The registers of the string instructions, the direction flag and the memory. -/
structure StringState where
  ecx : BitVec 32
  esi : Address
  edi : Address
  df : Bool
  mem : Bytes

/-- How far a pointer moves. -/
def stride (width : ℕ) (df : Bool) : BitVec 32 := if df then -BitVec.ofNat 32 width else BitVec.ofNat 32 width

/-- `movsb`, `movsl` -/
def movs (width : ℕ) (s : StringState) : StringState :=
  { s with
    mem := fun a => if (a - s.edi).toNat < width then s.mem (s.esi + (a - s.edi)) else s.mem a
    esi := s.esi + stride width s.df
    edi := s.edi + stride width s.df }

/-- `stosb`, `stosl` -/
def stos (width : ℕ) (eax : BitVec 32) (s : StringState) : StringState :=
  { s with
    mem := fun a => if (a - s.edi).toNat < width then (eax >>> (8 * (a - s.edi).toNat)).setWidth 8 else s.mem a
    edi := s.edi + stride width s.df }

def rep (instruction : StringState → StringState) (s : StringState) : StringState :=
  { instruction^[s.ecx.toNat] s with ecx := 0 }

/-- The direction flag and the memory, which is what a call leaves. -/
structure Direction where
  df : Bool
  mem : Bytes

def StringState.leave (s : StringState) : Direction := ⟨s.df, s.mem⟩

def memcpy (dst src : Address) (n : BitVec 32) (s : Direction) : Direction :=
  let s := rep (movs 4) { ecx := n >>> 2, esi := src, edi := dst, df := false, mem := s.mem }
  (rep (movs 1) { s with ecx := n &&& 3 }).leave

def memmove (dst src : Address) (n : BitVec 32) (s : Direction) : Direction :=
  if dst < src then (rep (movs 1) { ecx := n, esi := src, edi := dst, df := false, mem := s.mem }).leave
  else (rep (movs 1) { ecx := n, esi := src + (n - 1), edi := dst + (n - 1), df := true, mem := s.mem }).leave

def memset (dst : Address) (c : BitVec 32) (n : BitVec 32) (s : Direction) : Direction :=
  let eax := (c.setWidth 8).setWidth 32 * 0x01010101
  let s := rep (stos 4 eax) { ecx := n >>> 2, esi := 0, edi := dst, df := false, mem := s.mem }
  (rep (stos 1 eax) { s with ecx := n &&& 3 }).leave

/-! ## What they are for -/

/-- The block at `dst` holds what was at `src`. -/
def copied (dst src : Address) (n : ℕ) (mem : Bytes) : Bytes := fun a =>
  if (a - dst).toNat < n then mem (src + (a - dst)) else mem a

def filled (dst : Address) (c : BitVec 8) (n : ℕ) (mem : Bytes) : Bytes := fun a =>
  if (a - dst).toNat < n then c else mem a

variable {dst src a : Address} {n c eax : BitVec 32} {k w m : ℕ} {s : StringState} {mem : Bytes} {df : Bool}

/-- The offsets that an instruction writes to. -/
theorem offset_lt (hk : k + w ≤ 2 ^ 32) :
    (a - (dst + BitVec.ofNat 32 k)).toNat < w ↔ k ≤ (a - dst).toNat ∧ (a - dst).toNat < k + w := by
  have hoffset : a - (dst + BitVec.ofNat 32 k) = (a - dst) - BitVec.ofNat 32 k := by bv_omega
  rw [hoffset]
  generalize a - dst = o
  have ho := o.isLt
  rw [BitVec.toNat_sub, BitVec.toNat_ofNat]
  rcases Nat.lt_or_ge k (2 ^ 32) with hlt | hge
  · rw [Nat.mod_eq_of_lt hlt]
    omega
  · omega

theorem copied_zero : copied dst src 0 mem = mem := by
  funext a
  simp [copied]

theorem filled_zero {b : BitVec 8} : filled dst b 0 mem = mem := by
  funext a
  simp [filled]

/-- One more piece of a copy, as long as what it reads has not been written over. -/
theorem copied_step (hk : k + w ≤ 2 ^ 32) (hsafe : ∀ i, k ≤ i → i < k + w → k ≤ (src + BitVec.ofNat 32 i - dst).toNat) :
    (fun a => if (a - (dst + BitVec.ofNat 32 k)).toNat < w then
        copied dst src k mem (src + BitVec.ofNat 32 k + (a - (dst + BitVec.ofNat 32 k))) else copied dst src k mem a) =
      copied dst src (k + w) mem := by
  funext a
  have haddress : src + BitVec.ofNat 32 k + (a - (dst + BitVec.ofNat 32 k)) = src + (a - dst) := by ring
  rw [haddress]
  by_cases hin : k ≤ (a - dst).toNat ∧ (a - dst).toNat < k + w
  · have hread := hsafe _ hin.1 hin.2
    rw [BitVec.ofNat_toNat, BitVec.setWidth_eq] at hread
    rw [if_pos ((offset_lt hk).mpr hin), copied, if_neg (Nat.not_lt.mpr hread), copied, if_pos hin.2]
  · rw [if_neg (fun h => hin ((offset_lt hk).mp h)), copied, copied]
    split
    · next h => rw [if_pos (by omega)]
    · next h => rw [if_neg (by omega)]

/-- As many moves upwards. -/
theorem movs_forward (x : BitVec 32) (hw : w * m ≤ 2 ^ 32)
    (hsafe : ∀ i < w * m, i ≤ (src + BitVec.ofNat 32 i - dst).toNat) (hk : k ≤ m) :
    (movs w)^[k] ⟨x, src, dst, false, mem⟩ =
      ⟨x, src + BitVec.ofNat 32 (w * k), dst + BitVec.ofNat 32 (w * k), false, copied dst src (w * k) mem⟩ := by
  induction k with
  | zero => simp [copied_zero]
  | succ k ih =>
    have hle : w * k + w ≤ w * m := by
      rw [← Nat.mul_succ]
      exact Nat.mul_le_mul_left w hk
    have hnext : ∀ p : BitVec 32, p + BitVec.ofNat 32 (w * k) + stride w false = p + BitVec.ofNat 32 (w * (k + 1)) := by
      intro p
      rw [stride, if_neg Bool.false_ne_true, BitVec.add_assoc, ← BitVec.ofNat_add, Nat.mul_succ]
    rw [Function.iterate_succ_apply', ih (Nat.le_of_succ_le hk), movs, hnext, hnext]
    dsimp only
    rw [copied_step (by omega) fun i hi hi' => hi.trans (hsafe i (by omega)), Nat.mul_succ]

/-- What is copied of a block from an offset on. -/
def copiedFrom (dst src : Address) (k n : ℕ) (mem : Bytes) : Bytes := fun a =>
  if k ≤ (a - dst).toNat ∧ (a - dst).toNat < n then mem (src + (a - dst)) else mem a

theorem copiedFrom_step (hk : k < m) (hm : m ≤ 2 ^ 32)
    (hsafe : (src + BitVec.ofNat 32 k - dst).toNat ≤ k ∨ m ≤ (src + BitVec.ofNat 32 k - dst).toNat) :
    (fun a => if (a - (dst + BitVec.ofNat 32 k)).toNat < 1 then
        copiedFrom dst src (k + 1) m mem (src + BitVec.ofNat 32 k + (a - (dst + BitVec.ofNat 32 k)))
        else copiedFrom dst src (k + 1) m mem a) = copiedFrom dst src k m mem := by
  funext a
  have haddress : src + BitVec.ofNat 32 k + (a - (dst + BitVec.ofNat 32 k)) = src + (a - dst) := by ring
  rw [haddress]
  by_cases hin : k ≤ (a - dst).toNat ∧ (a - dst).toNat < k + 1
  · have hoffset : (a - dst).toNat = k := by omega
    rw [← hoffset, BitVec.ofNat_toNat, BitVec.setWidth_eq, hoffset] at hsafe
    rw [if_pos ((offset_lt (by omega)).mpr hin), copiedFrom, if_neg (by omega), copiedFrom, if_pos (by omega)]
  · rw [if_neg (fun h => hin ((offset_lt (by omega)).mp h)), copiedFrom, copiedFrom]
    split
    · next h => rw [if_pos (by omega)]
    · next h => rw [if_neg (by omega)]

/-- Moves downwards from the end of a block leave its upper part copied. -/
theorem movs_backward (x : BitVec 32) (hm : m ≤ 2 ^ 32)
    (hsafe : ∀ i < m, (src + BitVec.ofNat 32 i - dst).toNat ≤ i ∨ m ≤ (src + BitVec.ofNat 32 i - dst).toNat) (hk : k ≤ m) :
    (movs 1)^[k] ⟨x, src + BitVec.ofNat 32 m - 1, dst + BitVec.ofNat 32 m - 1, true, mem⟩ =
      ⟨x, src + BitVec.ofNat 32 (m - k) - 1, dst + BitVec.ofNat 32 (m - k) - 1, true, copiedFrom dst src (m - k) m mem⟩ := by
  induction k with
  | zero =>
    have hnone : copiedFrom dst src m m mem = mem := by
      funext a
      exact if_neg (by omega)
    rw [Function.iterate_zero, id_eq, Nat.sub_zero, hnone]
  | succ k ih =>
    obtain ⟨p, hp⟩ : ∃ p, m - k = p + 1 := ⟨m - (k + 1), by omega⟩
    have hlast : ∀ q : BitVec 32, q + BitVec.ofNat 32 (p + 1) - 1 = q + BitVec.ofNat 32 p := by
      intro q
      have hsum : BitVec.ofNat 32 (p + 1) = BitVec.ofNat 32 p + 1 := BitVec.ofNat_add p 1
      rw [hsum]
      ring
    have hnext : ∀ q : BitVec 32, q + BitVec.ofNat 32 p + stride 1 true = q + BitVec.ofNat 32 p - 1 := by
      intro q
      rw [stride, if_pos rfl, sub_eq_add_neg]
      rfl
    rw [Function.iterate_succ_apply', ih (Nat.le_of_succ_le hk), hp, hlast, hlast, movs, hnext, hnext]
    dsimp only
    rw [copiedFrom_step (by omega) hm (hsafe p (by omega)), show m - (k + 1) = p by omega]

theorem copiedFrom_zero : copiedFrom dst src 0 m mem = copied dst src m mem := by
  funext a
  simp only [copiedFrom, copied, Nat.zero_le, true_and]

/-! ## Copying -/

/-- Neither block runs over the end of the memory. -/
structure InBounds (dst src : Address) (n : BitVec 32) : Prop where
  dst : dst.toNat + n.toNat ≤ 2 ^ 32
  src : src.toNat + n.toNat ≤ 2 ^ 32

theorem source_offset {i : ℕ} (hi : i < 2 ^ 32) :
    (src + BitVec.ofNat 32 i - dst).toNat = (2 ^ 32 - dst.toNat + (src.toNat + i)) % 2 ^ 32 := by
  rw [BitVec.toNat_sub, BitVec.toNat_add, BitVec.toNat_ofNat, Nat.mod_eq_of_lt hi, Nat.add_mod_mod]

/-- Upwards, nothing is read that was written over. -/
theorem safe_forward (h : InBounds dst src n) (hle : dst.toNat ≤ src.toNat ∨ src.toNat + n.toNat ≤ dst.toNat) :
    ∀ i < n.toNat, i ≤ (src + BitVec.ofNat 32 i - dst).toNat := by
  obtain ⟨hdst, hsrc⟩ := h
  intro i hi
  rw [source_offset (by omega)]
  omega

/-- Downwards neither. -/
theorem safe_backward (h : InBounds dst src n) (hle : src.toNat ≤ dst.toNat) :
    ∀ i < n.toNat, (src + BitVec.ofNat 32 i - dst).toNat ≤ i ∨ n.toNat ≤ (src + BitVec.ofNat 32 i - dst).toNat := by
  obtain ⟨hdst, hsrc⟩ := h
  intro i hi
  rw [source_offset (by omega)]
  omega

theorem memmove_spec (h : InBounds dst src n) (s : Direction) :
    memmove dst src n s = ⟨!decide (dst < src), copied dst src n.toNat s.mem⟩ := by
  have hn : n.toNat ≤ 2 ^ 32 := n.isLt.le
  unfold memmove
  split
  · next hlt =>
    have hsafe := safe_forward h (Or.inl (Nat.le_of_lt hlt))
    rw [← Nat.one_mul n.toNat] at hsafe
    rw [rep, movs_forward n (by omega) hsafe le_rfl, Nat.one_mul]
    simp [StringState.leave, hlt]
  · next hge =>
    have hlast : ∀ p : BitVec 32, p + (n - 1) = p + BitVec.ofNat 32 n.toNat - 1 := by
      intro p
      rw [BitVec.ofNat_toNat, BitVec.setWidth_eq]
      ring
    rw [hlast, hlast, rep, movs_backward n hn (safe_backward h (Nat.le_of_not_lt hge)) le_rfl, Nat.sub_self,
      copiedFrom_zero]
    simp [StringState.leave, hge]

/-- A copy in two parts. -/
theorem copied_copied {k' : ℕ} (hk : k + k' ≤ 2 ^ 32)
    (hsafe : ∀ i < k', k ≤ (src + BitVec.ofNat 32 (k + i) - dst).toNat) :
    copied (dst + BitVec.ofNat 32 k) (src + BitVec.ofNat 32 k) k' (copied dst src k mem) = copied dst src (k + k') mem := by
  refine copied_step hk fun i hi hi' => ?_
  have h := hsafe (i - k) (by omega)
  rwa [Nat.add_sub_cancel' hi] at h

theorem words_and_bytes (n : BitVec 32) : 4 * (n >>> 2).toNat + (n &&& 3).toNat = n.toNat := by
  have hand : (n &&& 3).toNat = n.toNat % 4 := Nat.and_two_pow_sub_one_eq_mod n.toNat 2
  rw [hand, BitVec.toNat_ushiftRight, Nat.shiftRight_eq_div_pow]
  omega

/-- Words first and then the bytes that are left; `memcpy` may be used upwards on blocks that overlap. -/
theorem memcpy_spec (h : InBounds dst src n) (hle : dst.toNat ≤ src.toNat ∨ src.toNat + n.toNat ≤ dst.toNat) (s : Direction) :
    memcpy dst src n s = ⟨false, copied dst src n.toNat s.mem⟩ := by
  have hsafe := safe_forward h hle
  have hsum := words_and_bytes n
  have hn := n.isLt
  generalize hwords : (n >>> 2).toNat = k at hsum
  generalize hbytes : (n &&& 3).toNat = k' at hsum
  have hfirst : ∀ i < 4 * k, i ≤ (src + BitVec.ofNat 32 i - dst).toNat := fun i hi => hsafe i (by omega)
  have hsecond : ∀ i < 1 * k', i ≤ (src + BitVec.ofNat 32 (4 * k) + BitVec.ofNat 32 i - (dst + BitVec.ofNat 32 (4 * k))).toNat := by
    intro i hi
    have hcancel : src + BitVec.ofNat 32 (4 * k) + BitVec.ofNat 32 i - (dst + BitVec.ofNat 32 (4 * k)) =
        src + BitVec.ofNat 32 i - dst := by ring
    rw [hcancel]
    exact hsafe i (by omega)
  simp only [memcpy, rep, hwords]
  rw [movs_forward (n >>> 2) (by omega) hfirst le_rfl]
  simp only [hbytes]
  rw [movs_forward (n &&& 3) (by omega) hsecond le_rfl, Nat.one_mul,
    copied_copied (by omega) fun i hi => Nat.le_trans (Nat.le_add_right _ _) (hsafe (4 * k + i) (by omega)), hsum]
  rfl

/-! ## Filling -/

theorem quotient_high {b high low p : ℕ} (h : b * low < p) : b * (p * high + low) / p = b * high := by
  rw [Nat.mul_add, Nat.mul_left_comm, Nat.mul_add_div (Nat.pos_of_ne_zero (Nat.ne_zero_of_lt h)), Nat.div_eq_of_lt h,
    Nat.add_zero]

/-- The bytes of the word that is stored. -/
theorem fill_byte (c : BitVec 32) {j : ℕ} (hj : j < 4) :
    (((c.setWidth 8).setWidth 32 * 0x01010101) >>> (8 * j)).setWidth 8 = c.setWidth 8 := by
  generalize c.setWidth 8 = b
  have hb := b.isLt
  have hword : (b.setWidth 32 * 0x01010101).toNat = b.toNat * 16843009 := by
    have hwide : (b.setWidth 32).toNat = b.toNat := BitVec.toNat_setWidth_of_le (by decide)
    rw [BitVec.toNat_mul, hwide]
    exact Nat.mod_eq_of_lt (by change b.toNat * 16843009 < 2 ^ 32; omega)
  apply BitVec.eq_of_toNat_eq
  rw [BitVec.toNat_setWidth, BitVec.toNat_ushiftRight, hword, Nat.shiftRight_eq_div_pow]
  interval_cases j
  · omega
  · rw [show 16843009 = 2 ^ (8 * 1) * 65793 + 1 from rfl, quotient_high (by omega)]
    omega
  · rw [show 16843009 = 2 ^ (8 * 2) * 257 + 257 from rfl, quotient_high (by omega)]
    omega
  · rw [show 16843009 = 2 ^ (8 * 3) * 1 + 65793 from rfl, quotient_high (by omega)]
    omega

/-- A fill instruction, whatever its width. -/
theorem stos_eq (c : BitVec 32) {w : ℕ} (hw : w ≤ 4) (s : StringState) :
    stos w ((c.setWidth 8).setWidth 32 * 0x01010101) s =
      { s with mem := filled s.edi (c.setWidth 8) w s.mem, edi := s.edi + stride w s.df } := by
  have hmem : (stos w ((c.setWidth 8).setWidth 32 * 0x01010101) s).mem = filled s.edi (c.setWidth 8) w s.mem := by
    funext a
    unfold stos filled
    dsimp only
    split
    · next h => exact fill_byte c (by omega)
    · rfl
  rw [← hmem]
  rfl

theorem filled_filled {b : BitVec 8} {k' : ℕ} (hk : k + k' ≤ 2 ^ 32) :
    filled (dst + BitVec.ofNat 32 k) b k' (filled dst b k mem) = filled dst b (k + k') mem := by
  funext a
  unfold filled
  by_cases hin : k ≤ (a - dst).toNat ∧ (a - dst).toNat < k + k'
  · rw [if_pos ((offset_lt hk).mpr hin), if_pos hin.2]
  · rw [if_neg (fun h => hin ((offset_lt hk).mp h))]
    split
    · next h => rw [if_pos (by omega)]
    · next h => rw [if_neg (by omega)]

theorem stos_forward (c x y : BitVec 32) (hw : w ≤ 4) (hk : w * k ≤ 2 ^ 32) :
    (stos w ((c.setWidth 8).setWidth 32 * 0x01010101))^[k] ⟨x, y, dst, false, mem⟩ =
      ⟨x, y, dst + BitVec.ofNat 32 (w * k), false, filled dst (c.setWidth 8) (w * k) mem⟩ := by
  induction k with
  | zero => simp [filled_zero]
  | succ k ih =>
    have hnext : dst + BitVec.ofNat 32 (w * k) + stride w false = dst + BitVec.ofNat 32 (w * (k + 1)) := by
      rw [stride, if_neg Bool.false_ne_true, BitVec.add_assoc, ← BitVec.ofNat_add, Nat.mul_succ]
    rw [Nat.mul_succ] at hk
    rw [Function.iterate_succ_apply', ih (by omega), stos_eq c hw]
    dsimp only
    rw [hnext, filled_filled hk, Nat.mul_succ]

theorem memset_spec (dst : Address) (c n : BitVec 32) (s : Direction) :
    memset dst c n s = ⟨false, filled dst (c.setWidth 8) n.toNat s.mem⟩ := by
  have hsum := words_and_bytes n
  have hn := n.isLt
  generalize hwords : (n >>> 2).toNat = k at hsum
  generalize hbytes : (n &&& 3).toNat = k' at hsum
  simp only [memset, rep, hwords]
  rw [stos_forward c (n >>> 2) 0 le_rfl (by omega)]
  simp only [hbytes]
  rw [stos_forward c (n &&& 3) 0 (by omega) (by omega), Nat.one_mul, filled_filled (by omega), hsum]
  rfl

/-! ## Calls one after the other -/

inductive BlockCall where
  | memcpy (dst src : Address) (n : BitVec 32)
  | memmove (dst src : Address) (n : BitVec 32)
  | memset (dst : Address) (c n : BitVec 32)

def BlockCall.run : BlockCall → Direction → Direction
  | .memcpy dst src n, s => Libc.memcpy dst src n s
  | .memmove dst src n, s => Libc.memmove dst src n s
  | .memset dst c n, s => Libc.memset dst c n s

/-- What a caller has to see to; the blocks of `memcpy` may overlap when it copies downwards in the memory. -/
def BlockCall.Allowed : BlockCall → Prop
  | .memcpy dst src n => InBounds dst src n ∧ (dst.toNat ≤ src.toNat ∨ src.toNat + n.toNat ≤ dst.toNat)
  | .memmove dst src n => InBounds dst src n
  | .memset _ _ _ => True

/-- What the call is for. -/
def BlockCall.effect : BlockCall → Bytes → Bytes
  | .memcpy dst src n, mem => copied dst src n.toNat mem
  | .memmove dst src n, mem => copied dst src n.toNat mem
  | .memset dst c n, mem => filled dst (c.setWidth 8) n.toNat mem

/-- Only `memmove` upwards in the memory leaves the flag set. -/
def BlockCall.leftSet : BlockCall → Bool
  | .memmove dst src _ => !decide (dst < src)
  | _ => false

theorem BlockCall.run_eq {call : BlockCall} (h : call.Allowed) (s : Direction) :
    call.run s = ⟨call.leftSet, call.effect s.mem⟩ := by
  cases call with
  | memcpy dst src n => exact memcpy_spec h.1 h.2 s
  | memmove dst src n => exact memmove_spec h s
  | memset dst c n => exact memset_spec dst c n s

/-- Whatever calls came before, and whatever flag they left, each copies and fills just what it is for. -/
theorem blockCalls_trace {calls : List BlockCall} (h : ∀ call ∈ calls, call.Allowed) (s : Direction) :
    calls.foldl (fun s call => call.run s) s =
      ⟨(calls.getLast?.map BlockCall.leftSet).getD s.df, calls.foldl (fun mem call => call.effect mem) s.mem⟩ := by
  induction calls using List.reverseRecOn with
  | nil => rfl
  | append_singleton calls call ih =>
    rw [List.foldl_append, List.foldl_append, ih fun c hc => h c (List.mem_append_left _ hc)]
    exact (BlockCall.run_eq (h call (by simp)) _).trans (by simp)

/-- A block is moved up by two bytes, its start is cleared, and the whole is copied away. -/
theorem blockCalls_trace_overlap :
    [.memmove 0x2 0x0 6, .memset 0x0 0 2, .memcpy 0x100 0x0 8].foldl (fun s (call : BlockCall) => call.run s)
        ⟨false, fun a => a.setWidth 8⟩ =
      ⟨false, copied 0x100 0x0 8 (filled 0x0 0 2 (copied 0x2 0x0 6 fun a => a.setWidth 8))⟩ :=
  blockCalls_trace (by
    intro call hcall
    simp only [List.mem_cons, List.not_mem_nil, or_false] at hcall
    rcases hcall with rfl | rfl | rfl
    · exact ⟨by decide, by decide⟩
    · trivial
    · exact ⟨⟨by decide, by decide⟩, Or.inr (by decide)⟩) _

end UtkKernel.Libc
