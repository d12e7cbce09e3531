import Mathlib.Data.List.Basic

/-! # Programs that save a flag and restore it

A program asks its surroundings and goes on with any reply. `enter` clears a flag and hands out what it was;
`leave` sets it again if what was handed out is set. `Calm b` programs leave the flag as they found it and get
no reply that meets `b`; `Ends b` programs leave the flag as wanted, or cleared when some reply met `b`. -/

namespace UtkKernel.Foundations
set_option autoImplicit false

variable {Q : Type} {R : Q → Type} {α β : Type}

inductive Prog (Q : Type) (R : Q → Type) (α : Type) where
  | ret (a : α)
  | stop
  | ask (q : Q) (k : R q → Prog Q R α)
  | enter (k : Bool → Prog Q R α)
  | leave (saved : Bool) (k : Prog Q R α)

namespace Prog

def bind : Prog Q R α → (α → Prog Q R β) → Prog Q R β
  | .ret a, f => f a
  | .stop, _ => .stop
  | .ask q k, f => .ask q fun x => (k x).bind f
  | .enter k, f => .enter fun saved => (k saved).bind f
  | .leave saved k, f => .leave saved (k.bind f)

instance : Monad (Prog Q R) where
  pure := .ret
  bind := bind

def reply (q : Q) : Prog Q R (R q) := .ask q .ret

def enterSection : Prog Q R Bool := .enter .ret

def leaveSection (saved : Bool) : Prog Q R Unit := .leave saved (.ret ())

def assert (c : Bool) : Prog Q R Unit := if c then .ret () else .stop

def when (c : Bool) (p : Prog Q R Unit) : Prog Q R Unit := if c then p else .ret ()

/-- At most `n` turns, until one says that it is the last; was there none? -/
def loop : ℕ → Prog Q R Bool → Prog Q R Bool
  | 0, _ => .ret true
  | n + 1, body => body.bind fun more => if more then loop n body else .ret false

/-- `n` turns. -/
def turns : ℕ → Prog Q R Unit → Prog Q R Unit
  | 0, _ => .ret ()
  | n + 1, body => body.bind fun _ => turns n body

/-- The program, started with the flag `e`, gets these replies, returns `r` and leaves the flag `e'`. -/
def Runs : Prog Q R α → Bool → List (Σ q, R q) → α → Bool → Prop
  | .ret a, e, tr, r, e' => tr = [] ∧ r = a ∧ e' = e
  | .stop, _, _, _, _ => False
  | .ask q k, e, tr, r, e' => ∃ x rest, tr = ⟨q, x⟩ :: rest ∧ (k x).Runs e rest r e'
  | .enter k, e, tr, r, e' => (k e).Runs false tr r e'
  | .leave saved k, e, tr, r, e' => k.Runs (saved || e) tr r e'

/-- The run with the given replies, if it takes them all and no other. -/
def exec [DecidableEq Q] : Prog Q R α → Bool → List (Σ q, R q) → Option (α × Bool)
  | .ret a, e, [] => some (a, e)
  | .ret _, _, _ :: _ => none
  | .stop, _, _ => none
  | .ask _ _, _, [] => none
  | .ask q k, e, ⟨q', x⟩ :: tr => if h : q' = q then (k (h ▸ x)).exec e tr else none
  | .enter k, e, tr => (k e).exec false tr
  | .leave saved k, e, tr => k.exec (saved || e) tr

theorem runs_of_exec [DecidableEq Q] {p : Prog Q R α} {e e' : Bool} {tr : List (Σ q, R q)} {r : α}
    (h : p.exec e tr = some (r, e')) : p.Runs e tr r e' := by
  induction p generalizing e tr with
  | ret a =>
    cases tr with
    | nil =>
      cases h
      exact ⟨rfl, rfl, rfl⟩
    | cons => cases h
  | stop => cases h
  | ask q k ih =>
    cases tr with
    | nil => cases h
    | cons x tr =>
      obtain ⟨q', x⟩ := x
      unfold exec at h
      split_ifs at h with hq
      subst hq
      exact ⟨x, tr, rfl, ih x h⟩
  | enter k ih => exact ih e h
  | leave saved k ih => exact ih h

theorem pure_bind (a : α) (f : α → Prog Q R β) : pure a >>= f = f a := rfl

theorem bind_assoc {γ : Type} (p : Prog Q R α) (f : α → Prog Q R β) (g : β → Prog Q R γ) :
    (p >>= f) >>= g = p >>= fun a => f a >>= g := by
  induction p with
  | ret a => rfl
  | stop => rfl
  | ask q k ih => exact congrArg (Prog.ask q) (funext ih)
  | enter k ih => exact congrArg Prog.enter (funext ih)
  | leave saved k ih => exact congrArg (Prog.leave saved) ih

theorem runs_bind {p : Prog Q R α} {f : α → Prog Q R β} {e e' : Bool} {tr : List (Σ q, R q)} {r : β}
    (h : (p >>= f).Runs e tr r e') : ∃ tr₁ tr₂ a e₁, tr = tr₁ ++ tr₂ ∧ p.Runs e tr₁ a e₁ ∧
      (f a).Runs e₁ tr₂ r e' := by
  induction p generalizing e tr with
  | ret a => exact ⟨[], tr, a, e, rfl, ⟨rfl, rfl, rfl⟩, h⟩
  | stop => exact h.elim
  | ask q k ih =>
    obtain ⟨x, rest, rfl, hk⟩ := h
    obtain ⟨tr₁, tr₂, a, e₁, rfl, hp, hf⟩ := ih x hk
    exact ⟨⟨q, x⟩ :: tr₁, tr₂, a, e₁, rfl, ⟨x, tr₁, rfl, hp⟩, hf⟩
  | enter k ih => exact ih e h
  | leave saved k ih => exact ih h

/-! ## Programs that leave the flag alone -/

/-- However it runs, the flag is left as it was found, and no reply meets `b`. -/
def Calm (b : (Σ q, R q) → Prop) (p : Prog Q R α) : Prop :=
  ∀ e tr r e', p.Runs e tr r e' → e' = e ∧ ∀ x ∈ tr, ¬ b x

/-- The rest, with the flag `e`, of a section that was entered with the flag `saved`. -/
def Closes (b : (Σ q, R q) → Prop) (saved e : Bool) (p : Prog Q R α) : Prop :=
  ∀ tr r e', p.Runs e tr r e' → e' = saved ∧ ∀ x ∈ tr, ¬ b x

variable {b : (Σ q, R q) → Prop} {saved e : Bool} {p : Prog Q R α} {f : α → Prog Q R β}

theorem Calm.mono {b' : (Σ q, R q) → Prop} (h : Calm b p) (hb : ∀ x, b' x → b x) : Calm b' p := by
  intro e tr r e' hrun
  obtain ⟨he, hcalm⟩ := h _ _ _ _ hrun
  exact ⟨he, fun x hx hbx => hcalm x hx (hb x hbx)⟩

theorem Calm.ret (a : α) : Calm b (.ret a : Prog Q R α) := by
  rintro e tr r e' ⟨rfl, rfl, rfl⟩
  exact ⟨rfl, nofun⟩

theorem Calm.pure (a : α) : Calm b (Pure.pure a : Prog Q R α) := .ret a

theorem Calm.stop : Calm b (.stop : Prog Q R α) := fun _ _ _ _ h => h.elim

theorem Calm.reply {q : Q} (hq : ∀ x, ¬ b ⟨q, x⟩) : Calm b (Prog.reply q : Prog Q R (R q)) := by
  rintro e tr r e' ⟨x, rest, rfl, rfl, -, rfl⟩
  exact ⟨rfl, List.forall_mem_singleton.mpr (hq x)⟩

theorem Calm.bind (hp : Calm b p) (hf : ∀ a, Calm b (f a)) : Calm b (p >>= f) := by
  intro e tr r e' h
  obtain ⟨tr₁, tr₂, a, e₁, rfl, h₁, h₂⟩ := runs_bind h
  obtain ⟨rfl, hb₁⟩ := hp _ _ _ _ h₁
  obtain ⟨rfl, hb₂⟩ := hf a _ _ _ _ h₂
  exact ⟨rfl, List.forall_mem_append.mpr ⟨hb₁, hb₂⟩⟩

theorem Calm.ite {c : Prop} [Decidable c] {p' : Prog Q R α} (h : Calm b p) (h' : Calm b p') :
    Calm b (if c then p else p') := by
  split_ifs
  · exact h
  · exact h'

theorem Calm.assert (c : Bool) : Calm b (Prog.assert c : Prog Q R Unit) := .ite (.ret ()) .stop

theorem Calm.when {p : Prog Q R Unit} (h : Calm b p) (c : Bool) : Calm b (Prog.when c p) := .ite h (.ret ())

theorem Calm.loop {body : Prog Q R Bool} (h : Calm b body) (n : ℕ) : Calm b (Prog.loop n body) := by
  induction n with
  | zero => exact .ret true
  | succ n ih => exact h.bind fun _ => .ite ih (.ret false)

theorem Calm.turns {body : Prog Q R Unit} (h : Calm b body) (n : ℕ) : Calm b (Prog.turns n body) := by
  induction n with
  | zero => exact .ret ()
  | succ n ih => exact h.bind fun _ => ih

theorem Calm.inSection {f : Bool → Prog Q R α} (h : ∀ saved, Closes b saved false (f saved)) :
    Calm b (enterSection >>= f) := fun e tr r e' hrun => h e tr r e' hrun

theorem Closes.after (hp : Calm b p) (hf : ∀ a, Closes b saved e (f a)) : Closes b saved e (p >>= f) := by
  intro tr r e' h
  obtain ⟨tr₁, tr₂, a, e₁, rfl, h₁, h₂⟩ := runs_bind h
  obtain ⟨rfl, hb₁⟩ := hp _ _ _ _ h₁
  obtain ⟨rfl, hb₂⟩ := hf a _ _ _ h₂
  exact ⟨rfl, List.forall_mem_append.mpr ⟨hb₁, hb₂⟩⟩

theorem Closes.ite {c : Prop} [Decidable c] {p' : Prog Q R α} (h : Closes b saved e p)
    (h' : Closes b saved e p') : Closes b saved e (if c then p else p') := by
  split_ifs
  · exact h
  · exact h'

/-- Leaving the section restores the flag; leaving it once more does not change it. -/
theorem Closes.leave {f : Unit → Prog Q R α} (h : Closes b saved saved (f ())) (he : (saved || e) = saved) :
    Closes b saved e (leaveSection saved >>= f) := by
  intro tr r e' hrun
  refine h tr r e' ?_
  rw [← he]
  exact hrun

theorem Calm.closes (h : Calm b p) : Closes b saved saved p := fun tr r e' hrun => h saved tr r e' hrun

theorem Closes.leaves : Closes b saved false (leaveSection saved : Prog Q R Unit) := by
  rintro tr r e' ⟨rfl, rfl, rfl⟩
  exact ⟨Bool.or_false saved, nofun⟩

/-! ## Programs that may lose the flag -/

/-- However it runs from the flag `e`, the flag is `saved` at the end if no reply met `b`, and cleared if one
did. -/
def Ends (b : (Σ q, R q) → Prop) (saved e : Bool) (p : Prog Q R α) : Prop :=
  ∀ tr r e', p.Runs e tr r e' → ((∀ x ∈ tr, ¬ b x) → e' = saved) ∧ ((∃ x ∈ tr, b x) → e' = false)

theorem Calm.ends (h : Calm b p) (e : Bool) : Ends b e e p := by
  intro tr r e' hrun
  obtain ⟨rfl, hb⟩ := h _ _ _ _ hrun
  exact ⟨fun _ => rfl, fun ⟨x, hx, hbx⟩ => absurd hbx (hb x hx)⟩

theorem Closes.ends (h : Closes b saved e p) : Ends b saved e p := by
  intro tr r e' hrun
  obtain ⟨rfl, hb⟩ := h _ _ _ hrun
  exact ⟨fun _ => rfl, fun ⟨x, hx, hbx⟩ => absurd hbx (hb x hx)⟩

/-- Where the flag is to be cleared anyway it does not matter which replies there are. -/
theorem Calm.ends_false {b' : (Σ q, R q) → Prop} (h : Calm b' p) : Ends b false false p := by
  intro tr r e' hrun
  have he := (h _ _ _ _ hrun).1
  exact ⟨fun _ => he, fun _ => he⟩

theorem Ends.after (hp : Calm b p) (hf : ∀ a, Ends b saved e (f a)) : Ends b saved e (p >>= f) := by
  intro tr r e' h
  obtain ⟨tr₁, tr₂, a, e₁, rfl, h₁, h₂⟩ := runs_bind h
  obtain ⟨rfl, hb₁⟩ := hp _ _ _ _ h₁
  obtain ⟨hkeep, hlose⟩ := hf a _ _ _ h₂
  refine ⟨fun hb => hkeep (List.forall_mem_append.mp hb).2, fun ⟨x, hx, hbx⟩ => hlose ⟨x, ?_, hbx⟩⟩
  exact (List.mem_append.mp hx).resolve_left fun hx₁ => hb₁ x hx₁ hbx

theorem Ends.bind (hp : ∀ e, Ends b e e p) (hf : ∀ a e, Ends b e e (f a)) (e : Bool) :
    Ends b e e (p >>= f) := by
  intro tr r e' h
  obtain ⟨tr₁, tr₂, a, e₁, rfl, h₁, h₂⟩ := runs_bind h
  obtain ⟨hkeep₁, hlose₁⟩ := hp _ _ _ _ h₁
  obtain ⟨hkeep₂, hlose₂⟩ := hf a _ _ _ _ h₂
  refine ⟨fun hb => ?_, fun ⟨x, hx, hbx⟩ => ?_⟩
  · obtain ⟨hb₁, hb₂⟩ := List.forall_mem_append.mp hb
    rw [hkeep₂ hb₂, hkeep₁ hb₁]
  · by_cases hex : ∃ x ∈ tr₂, b x
    · exact hlose₂ hex
    · have hb₂ : ∀ x ∈ tr₂, ¬ b x := fun x hx hbx => hex ⟨x, hx, hbx⟩
      have hx₁ : x ∈ tr₁ := (List.mem_append.mp hx).resolve_right fun hx₂ => hb₂ x hx₂ hbx
      rw [hkeep₂ hb₂, hlose₁ ⟨x, hx₁, hbx⟩]

theorem Ends.inSection {f : Bool → Prog Q R α} (h : Ends b e false (f e)) : Ends b e e (enterSection >>= f) :=
  h

theorem Ends.reply {q : Q} {f : R q → Prog Q R α} (hkeep : ∀ x, ¬ b ⟨q, x⟩ → Ends b saved e (f x))
    (hlose : ∀ x, b ⟨q, x⟩ → Ends b false e (f x)) : Ends b saved e (Prog.reply q >>= f) := by
  rintro tr r e' ⟨x, rest, rfl, h⟩
  by_cases hx : b ⟨q, x⟩
  · have hfalse : e' = false := by
      by_cases hex : ∃ y ∈ rest, b y
      · exact (hlose x hx _ _ _ h).2 hex
      · exact (hlose x hx _ _ _ h).1 fun y hy hby => hex ⟨y, hy, hby⟩
    exact ⟨fun hb => absurd hx (hb _ (List.mem_cons_self ..)), fun _ => hfalse⟩
  · obtain ⟨hk, hl⟩ := hkeep x hx _ _ _ h
    refine ⟨fun hb => hk fun y hy => hb y (List.mem_cons_of_mem _ hy), fun ⟨y, hy, hby⟩ => hl ⟨y, ?_, hby⟩⟩
    rcases List.mem_cons.mp hy with rfl | hy
    · exact absurd hby hx
    · exact hy

theorem Ends.ite {c : Prop} [Decidable c] {p' : Prog Q R α} (h : Ends b saved e p) (h' : Ends b saved e p') :
    Ends b saved e (if c then p else p') := by
  split_ifs
  · exact h
  · exact h'

/-- The flag is as it was exactly when it was cleared already or no reply met `b`. -/
theorem Ends.restored_iff {tr : List (Σ q, R q)} {r : α} {e' : Bool} (h : Ends b e e p)
    (hrun : p.Runs e tr r e') : e' = e ↔ (e = true → ∀ x ∈ tr, ¬ b x) := by
  obtain ⟨hkeep, hlose⟩ := h _ _ _ hrun
  constructor
  · rintro rfl he x hx hbx
    rw [hlose ⟨x, hx, hbx⟩] at he
    cases he
  · intro hb
    by_cases hex : ∃ x ∈ tr, b x
    · cases e with
      | false => exact hlose hex
      | true => exact absurd hex fun ⟨x, hx, hbx⟩ => hb rfl x hx hbx
    · exact hkeep fun x hx hbx => hex ⟨x, hx, hbx⟩

end Prog

end UtkKernel.Foundations
