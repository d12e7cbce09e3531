import Mathlib.Algebra.Order.BigOperators.Group.List
import Mathlib.Data.Nat.Digits.Lemmas

/-! # Numerals

The numeral of a number in a base, the highest digit first, written with any digits. -/

namespace UtkKernel.Foundations
set_option autoImplicit false

variable {α : Type} {digit : ℕ → α} {base m n : ℕ} {x : α}

/-- The numeral of a number; the one of zero has a digit, too. -/
def numeral (digit : ℕ → α) (base n : ℕ) : List α :=
  if n = 0 then [digit 0] else (Nat.digits base n).reverse.map digit

theorem numeral_of_ne_zero (hn : n ≠ 0) : numeral digit base n = (Nat.digits base n).reverse.map digit := if_neg hn

theorem mem_numeral (hbase : 1 < base) (hx : x ∈ numeral digit base n) : ∃ d < base, digit d = x := by
  unfold numeral at hx
  by_cases hn : n = 0
  · rw [if_pos hn] at hx
    exact ⟨0, by omega, (List.mem_singleton.mp hx).symm⟩
  · rw [if_neg hn] at hx
    obtain ⟨d, hd, rfl⟩ := List.mem_map.mp hx
    exact ⟨d, Nat.digits_lt_base hbase (List.mem_reverse.mp hd), rfl⟩

/-- A numeral begins with its highest digit, which is not zero. -/
theorem numeral_eq_cons (digit : ℕ → α) (hbase : 1 < base) (hn : n ≠ 0) :
    ∃ d rest, 0 < d ∧ d < base ∧ numeral digit base n = digit d :: rest := by
  have hne : Nat.digits base n ≠ [] := Nat.digits_ne_nil_iff_ne_zero.mpr hn
  refine ⟨(Nat.digits base n).getLast hne, (Nat.digits base n).dropLast.reverse.map digit, ?_, ?_, ?_⟩
  · exact Nat.pos_of_ne_zero (Nat.getLast_digit_ne_zero base hn)
  · exact Nat.digits_lt_base hbase (List.getLast_mem hne)
  · rw [numeral_of_ne_zero hn]
    conv_lhs => rw [← List.dropLast_append_getLast hne]
    rw [List.reverse_append, List.map_append]
    rfl

theorem length_numeral_pos (digit : ℕ → α) (hbase : 1 < base) (n : ℕ) : 0 < (numeral digit base n).length := by
  by_cases hn : n = 0
  · rw [numeral, if_pos hn]
    exact Nat.succ_pos 0
  · obtain ⟨d, rest, -, -, heq⟩ := numeral_eq_cons digit hbase hn
    rw [heq]
    exact Nat.succ_pos _

/-- A larger number has no shorter numeral. -/
theorem length_numeral_le (digit : ℕ → α) (hbase : 1 < base) (hle : m ≤ n) :
    (numeral digit base m).length ≤ (numeral digit base n).length := by
  by_cases hm : m = 0
  · have hone : (numeral digit base m).length = 1 := by
      rw [numeral, if_pos hm]
      rfl
    rw [hone]
    exact length_numeral_pos digit hbase n
  · have hn : n ≠ 0 := by omega
    rw [numeral_of_ne_zero hm, numeral_of_ne_zero hn, List.length_map, List.length_map, List.length_reverse,
      List.length_reverse]
    exact Nat.le_length_digits_le base m n hle

theorem digits_inj {k l : List ℕ} (hdigit : ∀ c < base, ∀ d < base, digit c = digit d → c = d) (hk : ∀ d ∈ k, d < base)
    (hl : ∀ d ∈ l, d < base) (heq : k.map digit = l.map digit) : k = l := by
  induction k generalizing l with
  | nil => exact (List.map_eq_nil_iff.mp heq.symm).symm
  | cons c k ih =>
    obtain ⟨d, l, rfl, hd, htail⟩ := List.map_eq_cons_iff.mp heq.symm
    have hhead := hdigit d (hl d (List.mem_cons_self ..)) c (hk c (List.mem_cons_self ..)) hd
    rw [hhead, ih (fun a ha => hk a (List.mem_cons_of_mem _ ha)) (fun a ha => hl a (List.mem_cons_of_mem _ ha)) htail.symm]

theorem numeral_congr {digit' : ℕ → α} (hbase : 1 < base) (h : ∀ d < base, digit d = digit' d) :
    numeral digit base n = numeral digit' base n := by
  unfold numeral
  by_cases hn : n = 0
  · rw [if_pos hn, if_pos hn, h 0 (by omega)]
  · rw [if_neg hn, if_neg hn]
    exact List.map_congr_left fun d hd => h d (Nat.digits_lt_base hbase (List.mem_reverse.mp hd))

theorem map_numeral {β : Type} (f : α → β) : (numeral digit base n).map f = numeral (f ∘ digit) base n := by
  unfold numeral
  by_cases hn : n = 0
  · rw [if_pos hn, if_pos hn]
    rfl
  · rw [if_neg hn, if_neg hn, List.map_map]

/-- Different numbers have different numerals. -/
theorem numeral_inj (hbase : 1 < base) (hdigit : ∀ c < base, ∀ d < base, digit c = digit d → c = d)
    (heq : numeral digit base m = numeral digit base n) : m = n := by
  have hzero : ∀ k, k ≠ 0 → numeral digit base k ≠ [digit 0] := by
    intro k hk h
    obtain ⟨d, rest, hpos, hlt, hcons⟩ := numeral_eq_cons digit hbase hk
    rw [hcons] at h
    exact hpos.ne' (hdigit d hlt 0 (by omega) (List.cons.inj h).1)
  by_cases hm : m = 0
  · by_cases hn : n = 0
    · exact hm.trans hn.symm
    · rw [numeral, if_pos hm] at heq
      exact absurd heq.symm (hzero n hn)
  · by_cases hn : n = 0
    · rw [numeral.eq_def _ _ n, if_pos hn] at heq
      exact absurd heq (hzero m hm)
    · rw [numeral_of_ne_zero hm, numeral_of_ne_zero hn] at heq
      have hlt : ∀ k, ∀ d ∈ (Nat.digits base k).reverse, d < base := fun k d hd =>
        Nat.digits_lt_base hbase (List.mem_reverse.mp hd)
      have hdigits := digits_inj hdigit (hlt m) (hlt n) heq
      exact Nat.digits_inj_iff.mp (List.reverse_injective hdigits)

/-! ## Parsing -/

section
variable [DecidableEq α]

/-- The digit's value. -/
def valueOf (digit : ℕ → α) (base : ℕ) (x : α) : Option ℕ := (List.range base).find? fun d => decide (digit d = x)

/-- The number that a text of digits stands for. -/
def parseNumeral (digit : ℕ → α) (base : ℕ) (l : List α) : Option ℕ :=
  if l = [] then none else l.foldlM (fun n x => (valueOf digit base x).map fun d => d + base * n) 0

/-- The text parses to the number and has no zeros in front. -/
structure IsNumeral (digit : ℕ → α) (base n : ℕ) (l : List α) : Prop where
  parses : parseNumeral digit base l = some n
  canonical : l.head? = some (digit 0) → l = [digit 0]

theorem valueOf_eq_some_iff (hdigit : ∀ c < base, ∀ d < base, digit c = digit d → c = d) {d : ℕ} :
    valueOf digit base x = some d ↔ d < base ∧ digit d = x := by
  constructor
  · intro h
    exact ⟨List.mem_range.mp (List.mem_of_find?_eq_some h), by simpa using List.find?_some h⟩
  · rintro ⟨hd, rfl⟩
    cases hfind : valueOf digit base (digit d) with
    | none => simpa using List.find?_eq_none.mp hfind d (List.mem_range.mpr hd)
    | some c =>
      have hc : c < base := List.mem_range.mp (List.mem_of_find?_eq_some hfind)
      have hsame : digit c = digit d := by simpa using List.find?_some hfind
      rw [hdigit c hc d hd hsame]

/-- The texts that can be parsed are those of digits. -/
theorem foldlM_eq_some_iff (hdigit : ∀ c < base, ∀ d < base, digit c = digit d → c = d) {l : List α} :
    l.foldlM (fun n x => (valueOf digit base x).map fun d => d + base * n) m = some n ↔
      ∃ ds : List ℕ, l = ds.map digit ∧ (∀ d ∈ ds, d < base) ∧ ds.foldl (fun n d => d + base * n) m = n := by
  induction l generalizing m with
  | nil =>
    constructor
    · intro h
      exact ⟨[], rfl, by simp, by simpa using h⟩
    · rintro ⟨ds, hds, -, hn⟩
      obtain rfl := List.map_eq_nil_iff.mp hds.symm
      simpa using hn
  | cons x l ih =>
    rw [List.foldlM_cons]
    constructor
    · intro h
      obtain ⟨k, hk, hrest⟩ := Option.bind_eq_some_iff.mp h
      obtain ⟨d, hd, rfl⟩ := Option.map_eq_some_iff.mp hk
      obtain ⟨hlt, rfl⟩ := (valueOf_eq_some_iff hdigit).mp hd
      obtain ⟨ds, rfl, hall, hn⟩ := ih.mp hrest
      exact ⟨d :: ds, rfl, List.forall_mem_cons.mpr ⟨hlt, hall⟩, hn⟩
    · rintro ⟨ds, hds, hall, hn⟩
      cases ds with
      | nil => exact nomatch hds
      | cons d ds =>
        obtain ⟨rfl, rfl⟩ := List.cons.inj hds
        obtain ⟨hlt, hrest⟩ := List.forall_mem_cons.mp hall
        rw [(valueOf_eq_some_iff hdigit).mpr ⟨hlt, rfl⟩]
        exact ih.mpr ⟨ds, rfl, hrest, hn⟩

theorem foldl_eq_ofDigits (base : ℕ) (ds : List ℕ) :
    ds.foldl (fun n d => d + base * n) 0 = Nat.ofDigits base ds.reverse := by
  rw [Nat.ofDigits_eq_foldr, List.foldr_reverse]
  rfl

/-- The numeral of a number is the only text without zeros in front that parses to it. -/
theorem isNumeral_iff (hbase : 1 < base) (hdigit : ∀ c < base, ∀ d < base, digit c = digit d → c = d) {l : List α} :
    IsNumeral digit base n l ↔ l = numeral digit base n := by
  constructor
  · rintro ⟨hparses, hcanonical⟩
    unfold parseNumeral at hparses
    by_cases hnil : l = []
    · rw [if_pos hnil] at hparses
      exact nomatch hparses
    · rw [if_neg hnil, foldlM_eq_some_iff hdigit] at hparses
      obtain ⟨ds, rfl, hall, hn⟩ := hparses
      rw [foldl_eq_ofDigits] at hn
      obtain ⟨d, ds, rfl⟩ := List.exists_cons_of_ne_nil (mt (congrArg (List.map digit)) hnil)
      by_cases hzero : d = 0
      · subst hzero
        have hone := hcanonical rfl
        obtain rfl := List.map_eq_nil_iff.mp (List.cons.inj hone).2
        obtain rfl : 0 = n := by simpa using hn
        rfl
      · have hdigits : Nat.digits base n = (d :: ds).reverse := by
          rw [← hn]
          refine Nat.digits_ofDigits base hbase _ (fun k hk => hall k (List.mem_reverse.mp hk)) fun _ => ?_
          simpa using hzero
        have hne : n ≠ 0 := by
          rintro rfl
          simp at hdigits
        rw [numeral_of_ne_zero hne, hdigits, List.reverse_reverse]
  · rintro rfl
    by_cases hn : n = 0
    · subst hn
      refine ⟨?_, fun _ => rfl⟩
      rw [numeral, if_pos rfl, parseNumeral, if_neg (List.cons_ne_nil _ _), foldlM_eq_some_iff hdigit]
      exact ⟨[0], rfl, by simpa using Nat.zero_lt_of_lt hbase, by simp⟩
    · obtain ⟨d, rest, hpos, hlt, hcons⟩ := numeral_eq_cons digit hbase hn
      refine ⟨?_, fun hhead => ?_⟩
      · rw [parseNumeral, if_neg (by rw [hcons]; exact List.cons_ne_nil _ _), foldlM_eq_some_iff hdigit]
        refine ⟨(Nat.digits base n).reverse, numeral_of_ne_zero hn, fun k hk => ?_, ?_⟩
        · exact Nat.digits_lt_base hbase (List.mem_reverse.mp hk)
        · rw [foldl_eq_ofDigits, List.reverse_reverse, Nat.ofDigits_digits]
      · rw [hcons] at hhead
        have hsame := hdigit d hlt 0 (by omega) (Option.some.inj hhead)
        omega

end

/-! ## Padding -/

/-- A numeral is filled up to a width from the left. -/
def padLeft (width : ℕ) (pad : α) (l : List α) : List α := List.replicate (width - l.length) pad ++ l

theorem length_padLeft (width : ℕ) (pad : α) (l : List α) : (padLeft width pad l).length = max width l.length := by
  unfold padLeft
  rw [List.length_append, List.length_replicate]
  omega

theorem padLeft_inj {width : ℕ} {pad : α} {k l : List α} (hlength : k.length = l.length)
    (heq : padLeft width pad k = padLeft width pad l) : k = l := by
  unfold padLeft at heq
  rw [hlength] at heq
  exact List.append_cancel_left heq

/-- Filled up to one width, a list that does not begin with the filling is no longer than one that gives the same. -/
theorem padLeft_inj_of_le {width : ℕ} {pad : α} {k l : List α} (hhead : ∀ x, k.head? = some x → x ≠ pad)
    (hle : l.length ≤ k.length) (heq : padLeft width pad k = padLeft width pad l) : k = l := by
  by_cases hlength : k.length = l.length
  · exact padLeft_inj hlength heq
  · have hmax := congrArg List.length heq
    rw [length_padLeft, length_padLeft] at hmax
    cases k with
    | nil => exact absurd (Nat.le_zero.mp hle).symm hlength
    | cons x k =>
      -- the first place of the longer list is a place of the filling in the other one
      have hplace := congrArg (fun r => r[width - (x :: k).length]?) heq
      unfold padLeft at hplace
      rw [List.getElem?_append_right (by rw [List.length_replicate]), List.length_replicate, Nat.sub_self,
        List.getElem?_append_left (by rw [List.length_replicate]; omega), List.getElem?_replicate_of_lt (by omega)] at hplace
      exact absurd (Option.some.inj hplace) (hhead x rfl)

/-! ## Sums -/

/-- Terms that are not larger one by one, and have the same sum, are the same. -/
theorem eq_of_sum_eq {ι : Type} {l : List ι} {f g : ι → ℕ} (hle : ∀ i ∈ l, f i ≤ g i)
    (hsum : (l.map f).sum = (l.map g).sum) : ∀ i ∈ l, f i = g i := by
  induction l with
  | nil => exact nofun
  | cons i l ih =>
    have hrest : (l.map f).sum ≤ (l.map g).sum := List.sum_le_sum fun j hj => hle j (List.mem_cons_of_mem _ hj)
    have hhead := hle i (List.mem_cons_self ..)
    rw [List.map_cons, List.map_cons, List.sum_cons, List.sum_cons] at hsum
    intro j hj
    rcases List.mem_cons.mp hj with rfl | hj
    · omega
    · exact ih (fun j hj => hle j (List.mem_cons_of_mem _ hj)) (by omega) j hj

/-- Lists put together from parts of the same lengths are the same part by part. -/
theorem eq_of_flatMap_eq {ι : Type} {l : List ι} {f g : ι → List α} (hlength : ∀ i ∈ l, (f i).length = (g i).length)
    (heq : l.flatMap f = l.flatMap g) : ∀ i ∈ l, f i = g i := by
  induction l with
  | nil => exact nofun
  | cons i l ih =>
    rw [List.flatMap_cons, List.flatMap_cons] at heq
    obtain ⟨hhead, hrest⟩ := List.append_inj heq (hlength i (List.mem_cons_self ..))
    intro j hj
    rcases List.mem_cons.mp hj with rfl | hj
    · exact hhead
    · exact ih (fun j hj => hlength j (List.mem_cons_of_mem _ hj)) hrest j hj

end UtkKernel.Foundations
