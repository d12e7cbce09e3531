import Mathlib.Data.List.Basic

/-! # Runs of a labelled transition system

A step relation `step : σ → A → σ → Prop` on states `σ` with actions `A`. `Guarded` is the set of
states reached by runs all of whose steps meet a condition on the state before the step; `Trace` is
a run as the list of the actions it takes and the states it visits. The rules here are the two
inductions every development over such a system needs: an invariant of guarded runs
(`Guarded.invariant`), and the exact condition under which every visited state is good
(`Trace.forall_iff_guarded`). -/

namespace UtkKernel.Foundations
set_option autoImplicit false

variable {σ A : Type}

/-- The states reached from `init` by steps that each meet the guard in the state before them. -/
inductive Guarded (init : σ → Prop) (step : σ → A → σ → Prop) (guard : σ → A → Prop) : σ → Prop
  | start {s : σ} (h : init s) : Guarded init step guard s
  | next {s s' : σ} {a : A} (h : Guarded init step guard s) (hg : guard s a) (hs : step s a s') :
      Guarded init step guard s'

/-- The states reached from `init` by any steps at all. -/
abbrev Reachable (init : σ → Prop) (step : σ → A → σ → Prop) : σ → Prop :=
  Guarded init step (fun _ _ => True)

/-- What holds at the start and is kept by every guarded step holds in every state reached. -/
theorem Guarded.invariant {init : σ → Prop} {step : σ → A → σ → Prop} {guard : σ → A → Prop}
    (Inv : σ → Prop) (hinit : ∀ s, init s → Inv s)
    (hstep : ∀ s a s', Inv s → guard s a → step s a s' → Inv s') {s : σ}
    (h : Guarded init step guard s) : Inv s := by
  induction h with
  | start h => exact hinit _ h
  | next _ hg hs ih => exact hstep _ _ _ ih hg hs

theorem Guarded.reachable {init : σ → Prop} {step : σ → A → σ → Prop} {guard : σ → A → Prop} {s : σ}
    (h : Guarded init step guard s) : Reachable init step s :=
  h.invariant (Reachable init step) (fun _ => .start) fun _ _ _ hs _ hstep => .next hs trivial hstep

/-- The state an executable step function leads to through a list of actions. -/
def runActs (exec : σ → A → Option σ) : σ → List A → Option σ
  | s, [] => some s
  | s, a :: as => (exec s a).bind fun s' => runActs exec s' as

theorem Guarded.runActs {init : σ → Prop} {step : σ → A → σ → Prop} {guard : σ → A → Prop}
    {exec : σ → A → Option σ} (hexec : ∀ s a s', exec s a = some s' → guard s a ∧ step s a s')
    {s s' : σ} {as : List A} (hs : Guarded init step guard s) (h : runActs exec s as = some s') :
    Guarded init step guard s' := by
  induction as generalizing s with
  | nil =>
    rw [Foundations.runActs, Option.some.injEq] at h
    exact h ▸ hs
  | cons a as ih =>
    rw [Foundations.runActs, Option.bind_eq_some_iff] at h
    obtain ⟨s1, h1, h2⟩ := h
    exact ih (.next hs (hexec s a s1 h1).1 (hexec s a s1 h1).2) h2

/-- What every step of a loop keeps, the whole loop keeps. -/
theorem foldlM_invariant {f : σ → A → Option σ} (Inv : σ → Prop)
    (hstep : ∀ s a s', Inv s → f s a = some s' → Inv s') {as : List A} {s s' : σ} (hs : Inv s)
    (h : as.foldlM f s = some s') : Inv s' := by
  induction as generalizing s with
  | nil =>
    rw [List.foldlM_nil] at h
    cases h
    exact hs
  | cons a as ih =>
    rw [List.foldlM_cons] at h
    obtain ⟨s1, h1, h2⟩ := Option.bind_eq_some_iff.mp h
    exact ih (hstep s a s1 hs h1) h2

/-- A loop whose steps all succeed and keep an invariant succeeds. -/
theorem foldlM_total {f : σ → A → Option σ} (Inv : σ → Prop) {as : List A}
    (hstep : ∀ a ∈ as, ∀ s, Inv s → ∃ s', f s a = some s' ∧ Inv s') {s : σ} (hs : Inv s) :
    ∃ s', as.foldlM f s = some s' ∧ Inv s' := by
  induction as generalizing s with
  | nil => exact ⟨s, rfl, hs⟩
  | cons a as ih =>
    obtain ⟨s1, h1, hs1⟩ := hstep a (List.mem_cons_self ..) s hs
    obtain ⟨s2, h2, hs2⟩ := ih (fun b hb => hstep b (List.mem_cons_of_mem a hb)) hs1
    refine ⟨s2, ?_, hs2⟩
    rw [List.foldlM_cons, h1]
    exact h2

/-- A counted loop whose turns succeed, each taking the invariant one further. -/
theorem foldlM_range {f : σ → ℕ → Option σ} (Inv : ℕ → σ → Prop) {n : ℕ}
    (hstep : ∀ i < n, ∀ s, Inv i s → ∃ s', f s i = some s' ∧ Inv (i + 1) s') {s : σ} (hs : Inv 0 s) :
    ∃ s', (List.range n).foldlM f s = some s' ∧ Inv n s' := by
  induction n with
  | zero => exact ⟨s, rfl, hs⟩
  | succ n ih =>
    obtain ⟨s1, h1, hs1⟩ := ih fun i hi => hstep i (by omega)
    obtain ⟨s2, h2, hs2⟩ := hstep n (by omega) s1 hs1
    refine ⟨s2, ?_, hs2⟩
    rw [List.range_succ, List.foldlM_append, h1]
    simp [h2]

/-- A run from a state: each action with the state it leads to. -/
inductive Trace (step : σ → A → σ → Prop) : σ → List (A × σ) → Prop
  | nil (s : σ) : Trace step s []
  | cons {s s' : σ} {a : A} {l : List (A × σ)} (hs : step s a s') (hl : Trace step s' l) :
      Trace step s ((a, s') :: l)

/-- The run an executable step function makes through a list of actions. -/
def traceActs (exec : σ → A → Option σ) : σ → List A → Option (List (A × σ))
  | _, [] => some []
  | s, a :: as => (exec s a).bind fun s' => (traceActs exec s' as).map ((a, s') :: ·)

theorem trace_of_traceActs {step : σ → A → σ → Prop} {exec : σ → A → Option σ}
    (hexec : ∀ s a s', exec s a = some s' → step s a s') {s : σ} {as : List A} {l : List (A × σ)}
    (h : traceActs exec s as = some l) : Trace step s l := by
  induction as generalizing s l with
  | nil =>
    cases h
    exact .nil s
  | cons a as ih =>
    obtain ⟨s1, h1, h2⟩ := Option.bind_eq_some_iff.mp h
    obtain ⟨l1, hl, rfl⟩ := Option.map_eq_some_iff.mp h2
    exact .cons (hexec s a s1 h1) (ih hl)

/-- Every step of the run meets the guard in the state it starts from. -/
def GuardedTrace (guard : σ → A → Prop) : σ → List (A × σ) → Prop
  | _, [] => True
  | s, (a, s') :: l => guard s a ∧ GuardedTrace guard s' l

/-- The states visited by a run are good exactly when its steps meet the guard, provided that from
an invariant state a guarded step keeps the invariant and a step to a good state is guarded. -/
theorem Trace.forall_iff_guarded {step : σ → A → σ → Prop} {guard : σ → A → Prop}
    (Inv Good : σ → Prop) (hgood : ∀ s, Inv s → Good s)
    (hkeep : ∀ s a s', Inv s → step s a s' → guard s a → Inv s')
    (hneed : ∀ s a s', Inv s → step s a s' → Good s' → guard s a)
    {s : σ} {l : List (A × σ)} (ht : Trace step s l) (hs : Inv s) :
    (∀ x ∈ l, Good x.2) ↔ GuardedTrace guard s l := by
  induction ht with
  | nil s => simp [GuardedTrace]
  | @cons s s' a l hstep _ ih =>
    rw [List.forall_mem_cons, GuardedTrace]
    constructor
    · rintro ⟨h1, h2⟩
      have hg := hneed s a s' hs hstep h1
      exact ⟨hg, (ih (hkeep s a s' hs hstep hg)).mp h2⟩
    · rintro ⟨hg, h2⟩
      have hs' := hkeep s a s' hs hstep hg
      exact ⟨hgood s' hs', (ih hs').mpr h2⟩

end UtkKernel.Foundations
