import Mathlib.Data.List.Perm.Basic
import Mathlib.Data.List.Nodup
import UtkKernel.Foundations.Runs

/-! # The order in which waiting threads are served

A labelled transition system in some states of which threads `T` wait. `Served` is a state of it with two
logs: the threads in the order in which they began to wait, and in the order in which they ceased to. A
system that keeps the waiting threads in a list, the latest first, serves them in the order in which they
arrived as long as it serves nobody while two wait (`inOrder_of_moves`). -/

namespace UtkKernel.Foundations
set_option autoImplicit false

variable {σ A T : Type}

/-! ## Lists of all elements with a property -/

/-- The list holds what has the property, each once. -/
def Lists (l : List T) (p : T → Prop) : Prop := l.Nodup ∧ ∀ t, t ∈ l ↔ p t

theorem Lists.congr {l : List T} {p q : T → Prop} (h : Lists l p) (hpq : ∀ t, p t ↔ q t) :
    Lists l q :=
  ⟨h.1, fun t => (h.2 t).trans (hpq t)⟩

theorem Lists.perm {l l' : List T} {p : T → Prop} (h : Lists l p) (h' : Lists l' p) : l.Perm l' :=
  (List.perm_ext_iff_of_nodup h.1 h'.1).mpr fun t => (h.2 t).trans (h'.2 t).symm

theorem lists_nil {p : T → Prop} (h : ∀ t, ¬ p t) : Lists [] p :=
  ⟨List.nodup_nil, fun t => iff_of_false List.not_mem_nil (h t)⟩

theorem lists_singleton (t : T) : Lists [t] fun u => u = t :=
  ⟨List.nodup_singleton t, fun _ => List.mem_singleton⟩

/-- What is in a first list and in no second one. -/
theorem Lists.diff [DecidableEq T] {l l' : List T} {p p' : T → Prop} (h : Lists l p)
    (h' : Lists l' p') : Lists (l.filter (· ∉ l')) fun t => p t ∧ ¬ p' t := by
  refine ⟨h.1.filter _, fun t => ?_⟩
  rw [List.mem_filter, h.2, decide_eq_true_eq, h'.2]

/-! ## Logs -/

structure Served (σ T : Type) where
  state : σ
  arrived : List T
  served : List T
  deriving Repr

namespace Served

/-- A step of the system, logged. -/
def Step (step : σ → A → σ → Prop) (waits : σ → T → Prop) (x : Served σ T) (a : A) (x' : Served σ T) :
    Prop :=
  step x.state a x'.state ∧ ∃ ins outs,
    Lists ins (fun t => waits x'.state t ∧ ¬ waits x.state t) ∧
    Lists outs (fun t => waits x.state t ∧ ¬ waits x'.state t) ∧
    x'.arrived = x.arrived ++ ins ∧ x'.served = x.served ++ outs

def Init (init : σ → Prop) (x : Served σ T) : Prop := init x.state ∧ x.arrived = [] ∧ x.served = []

/-- First in, first out: those served so far are the first that arrived, in the order of arrival. -/
def InOrder (x : Served σ T) : Prop := x.served <+: x.arrived

/-! ## A list with the latest first -/

/-- The list stays, a thread arrives at its head, or its only thread leaves. -/
inductive Moves : List T → List T → Prop
  | stay (q : List T) : Moves q q
  | arrive (t : T) (q : List T) : Moves q (t :: q)
  | leave (t : T) : Moves [t] []

theorem arrived_of_moves {step : σ → A → σ → Prop} {waits : σ → T → Prop} {q q' : List T}
    {x x' : Served σ T} {a : A} (hq : Lists q (waits x.state)) (hq' : Lists q' (waits x'.state))
    (hs : x.Step step waits a x') (hmoves : Moves q q')
    (h : x.arrived = x.served ++ q.reverse) : x'.arrived = x'.served ++ q'.reverse := by
  obtain ⟨-, ins, outs, hins, houts, harrived, hserved⟩ := hs
  rw [harrived, hserved, h]
  cases hmoves with
  | stay =>
    have hsame : ∀ t, waits x.state t ↔ waits x'.state t := fun t => (hq.2 t).symm.trans (hq'.2 t)
    have hin : ins = [] := List.perm_nil.mp (hins.perm (lists_nil fun t ht => ht.2 ((hsame t).mpr ht.1)))
    have hout : outs = [] :=
      List.perm_nil.mp (houts.perm (lists_nil fun t ht => ht.2 ((hsame t).mp ht.1)))
    rw [hin, hout, List.append_nil, List.append_nil]
  | arrive t =>
    have hnew : t ∉ q := (List.nodup_cons.mp hq'.1).1
    have hin : ins = [t] := by
      refine List.perm_singleton.mp (hins.perm ((lists_singleton t).congr fun u => ?_))
      rw [← hq.2, ← hq'.2, List.mem_cons]
      constructor
      · rintro rfl
        exact ⟨.inl rfl, hnew⟩
      · rintro ⟨hu, hu'⟩
        exact hu.resolve_right hu'
    have hout : outs = [] := by
      refine List.perm_nil.mp (houts.perm (lists_nil fun u hu => hu.2 ?_))
      exact (hq'.2 u).mp (List.mem_cons_of_mem t ((hq.2 u).mpr hu.1))
    rw [hin, hout, List.append_nil, List.reverse_cons, List.append_assoc]
  | leave t =>
    have hnone : ∀ u, ¬ waits x'.state u := fun u hu => List.not_mem_nil ((hq'.2 u).mpr hu)
    have hin : ins = [] := List.perm_nil.mp (hins.perm (lists_nil fun u hu => hnone u hu.1))
    have hout : outs = [t] := by
      refine List.perm_singleton.mp (houts.perm ((lists_singleton t).congr fun u => ?_))
      rw [← hq.2, List.mem_singleton, and_iff_left (hnone u)]
    rw [hin, hout, List.append_nil, List.reverse_singleton, List.reverse_nil, List.append_nil]

variable {init : σ → Prop} {step : σ → A → σ → Prop} {waits : σ → T → Prop} {queue : σ → List T}

/-- The threads waiting in a list, the latest first, are served in order in every run none of whose
steps serves one of several. -/
theorem inOrder_of_moves (guard : σ → A → Prop) (queue : σ → List T) (hinit : ∀ s, init s → queue s = [])
    (hlists : ∀ s, Reachable init step s → Lists (queue s) (waits s))
    (hmoves : ∀ s a s', guard s a → step s a s' → Lists (queue s) (waits s) →
      Moves (queue s) (queue s')) {x : Served σ T}
    (h : Guarded (Init init) (Step step waits) (fun x a => guard x.state a) x) : x.InOrder := by
  have hlog : Reachable init step x.state ∧ x.arrived = x.served ++ (queue x.state).reverse := by
    induction h with
    | start h =>
      obtain ⟨hstate, harrived, hserved⟩ := h
      refine ⟨.start hstate, ?_⟩
      rw [harrived, hserved, hinit _ hstate]
      rfl
    | @next x x' a h hg hs ih =>
      have hreach := Guarded.next ih.1 trivial hs.1
      exact ⟨hreach, arrived_of_moves (hlists _ ih.1) (hlists _ hreach) hs
        (hmoves _ a _ hg hs.1 (hlists _ ih.1)) ih.2⟩
  exact ⟨_, hlog.2.symm⟩

/-! ## Logs that are computed -/

/-- The logs after a step to `s'`, read off the lists. -/
def next [DecidableEq T] (queue : σ → List T) (x : Served σ T) (s' : σ) : Served σ T :=
  ⟨s', x.arrived ++ (queue s').filter (· ∉ queue x.state),
    x.served ++ (queue x.state).filter (· ∉ queue s')⟩

def exec [DecidableEq T] (exec : σ → A → Option σ) (queue : σ → List T) (x : Served σ T) (a : A) :
    Option (Served σ T) :=
  (exec x.state a).map (next queue x)

/-- A computed run of the system is a run with its logs. -/
theorem runActs [DecidableEq T] {exec : σ → A → Option σ} {guard : σ → A → Prop}
    (hexec : ∀ s a s', exec s a = some s' → guard s a ∧ step s a s')
    (hlists : ∀ s, Reachable init step s → Lists (queue s) (waits s)) {x x' : Served σ T} {as : List A}
    (hx : Guarded (Init init) (Step step waits) (fun x a => guard x.state a) x)
    (hreach : Reachable init step x.state)
    (h : Foundations.runActs (Served.exec exec queue) x as = some x') :
    Guarded (Init init) (Step step waits) (fun x a => guard x.state a) x' := by
  induction as generalizing x with
  | nil =>
    cases h
    exact hx
  | cons a as ih =>
    obtain ⟨x1, hx1, hrest⟩ := Option.bind_eq_some_iff.mp h
    obtain ⟨s1, hs1, rfl⟩ := Option.map_eq_some_iff.mp hx1
    obtain ⟨hg, hs⟩ := hexec _ _ _ hs1
    have hreach1 : Reachable init step s1 := .next hreach trivial hs
    have hlists1 := hlists s1 hreach1
    exact ih (.next hx hg ⟨hs, _, _, hlists1.diff (hlists _ hreach), (hlists _ hreach).diff hlists1,
      rfl, rfl⟩) hreach1 hrest

end Served

end UtkKernel.Foundations
