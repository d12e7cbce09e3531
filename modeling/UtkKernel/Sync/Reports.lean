import UtkKernel.Sync.MutexDestroy

/-! # What a call that took effect returns

An unlock, a destruction and a post end with a futex wake, and return what it returns. The wake has an
error when the futex table holds no queue for the word, whatever the call has done before. -/

namespace UtkKernel.Sync
open Foundations
set_option autoImplicit false

/-- A system and the threads whose current or last call has taken effect. -/
structure Marked (σ T : Type) where
  state : σ
  effective : T → Bool

/-! ## The mutex -/

namespace DestroySystem
open MutexSystem

/-- The fetch-and-add of an unlock and the store of a destruction. -/
def takesEffect (s : DestroySystem) (t : Tid) : Bool :=
  match s.destroying t with
  | some pc => pc == .store
  | none =>
    match s.base.pc t with
    | .unlockAdd _ => true
    | _ => false

/-- A call has had no effect yet when it starts. -/
def effectiveAfter (s : DestroySystem) (effective : Bool) (t : Tid) : DestroyAct → Bool
  | .run _ => effective || s.takesEffect t
  | _ => false

def mark (s : DestroySystem) (effective : Tid → Bool) (a : Tid × DestroyAct) : Tid → Bool :=
  Function.update effective a.1 (s.effectiveAfter (effective a.1) a.1 a.2)

def MarkedStep (x : Marked DestroySystem Tid) (a : Tid × DestroyAct) (x' : Marked DestroySystem Tid) :
    Prop :=
  x.state.Step a x'.state ∧ x'.effective = x.state.mark x.effective a

def MarkedInit (flags : BitVec 32) (priority : BitVec 16) (x : Marked DestroySystem Tid) : Prop :=
  x.state.Started flags priority ∧ ∀ t, x.effective t = false

/-- Every call that took effect and has returned did so without error. -/
def Reports (x : Marked DestroySystem Tid) : Prop :=
  ∀ t err value, x.effective t = true → x.state.destroying t = none →
    x.state.base.pc t = .ret err value → err = .osNoErr

/-- If the step is the wake of an unlock or of a destruction, the futex table has a queue for the
word. -/
def FindsQueue (s : DestroySystem) (a : Tid × DestroyAct) : Prop :=
  ∀ fault, a.2 = .run fault →
    (s.destroying a.1 = some .wake ∨ (s.destroying a.1 = none ∧ s.base.pc a.1 = .unlockWake none)) →
      s.base.waitQueue ≠ none

/-- Points of an unlock that has taken effect, and a return without error. -/
def settled : MutexPc → Bool
  | .ret err _ => err == .osNoErr
  | .unlockStore _ => true
  | .unlockWake _ => true
  | .exited => true
  | _ => false

/-- Points of an unlock that has taken effect. -/
def waking : MutexPc → Bool
  | .unlockStore _ => true
  | .unlockWake _ => true
  | _ => false

theorem resume_settled (pc : MutexPc) : settled (resume pc) = settled pc := by
  cases pc <;> rfl

theorem resume_waking (pc : MutexPc) : waking (resume pc) = waking pc := by
  cases pc <;> rfl

section
variable {s s' : MutexSystem} {t : Tid} {fault : Option OsReturnE}

theorem settled_finishUnlock (s : MutexSystem) (t : Tid) (inner : Option Bool) (err : OsReturnE)
    (herr : inner = none → err = .osNoErr) : settled ((s.finishUnlock t inner err).pc t) = true := by
  unfold finishUnlock
  cases inner with
  | none =>
    dsimp only
    rw [goto_pc_self, herr rfl]
    rfl
  | some tryOnly =>
    dsimp only
    by_cases he : err ≠ OsReturnE.osNoErr
    · rw [if_pos he, goto_pc_self]
      rfl
    · rw [if_neg he]
      change settled ((s.goto t _).pc t) = true
      rw [goto_pc_self]
      rfl

theorem settled_run (hs : s.exec t (.run fault) = some s')
    (hpc : (∃ inner, s.pc t = .unlockAdd inner) ∨ waking (s.pc t) = true)
    (hqueue : s.pc t = .unlockWake none → s.waitQueue ≠ none) : settled (s'.pc t) = true := by
  rcases hpc with ⟨inner, hpc⟩ | hpc
  · simp only [MutexSystem.exec, hpc, Option.some.injEq] at hs
    rw [← hs]
    unfold runUnlockAdd
    dsimp only
    split_ifs
    · rw [goto_pc_self]
      rfl
    · exact settled_finishUnlock _ t inner _ fun _ => rfl
  · cases hp : s.pc t <;> rw [hp] at hpc hqueue <;> first | cases hpc; done | skip
    case unlockStore inner =>
      simp only [MutexSystem.exec, hp, Option.some.injEq] at hs
      rw [← hs, runUnlockStore, goto_pc_self]
      rfl
    case unlockWake inner =>
      simp only [MutexSystem.exec, hp, Option.some.injEq] at hs
      rw [← hs]
      unfold runUnlockWake
      dsimp only
      refine settled_finishUnlock _ t inner _ fun hinner => ?_
      exact futexWake_some (hqueue (by rw [hinner]))

theorem waking_finishUnlock (s : MutexSystem) (t : Tid) (inner : Option Bool) (err : OsReturnE) :
    waking ((s.finishUnlock t inner err).pc t) = false := by
  unfold finishUnlock
  cases inner with
  | none =>
    dsimp only
    rw [goto_pc_self]
    rfl
  | some tryOnly =>
    dsimp only
    by_cases he : err ≠ OsReturnE.osNoErr
    · rw [if_pos he, goto_pc_self]
      rfl
    · rw [if_neg he]
      change waking ((s.goto t _).pc t) = false
      rw [goto_pc_self]
      rfl

theorem waking_acquired (s : MutexSystem) (t : Tid) (tryOnly : Bool) (params : Option (BitVec 32)) :
    waking ((s.runAcquired t tryOnly params).pc t) = false := by
  unfold runAcquired
  dsimp only
  generalize (if s.mutex.recursive ≠ 0 then { s with mutex := { s.mutex with lockerTid := t } }
    else s) = s1
  generalize (if tryOnly = true then some mutexStateUnlocked else none) = value
  have hret : ∀ s2 : MutexSystem, waking (((s2.goto t (.ret .osNoErr value)).setHolds t true).pc t) =
      false := fun s2 => by
    change waking ((s2.goto t _).pc t) = false
    rw [goto_pc_self]
    rfl
  split_ifs
  · split
    · exact hret _
    · rw [goto_pc_self]
      rfl
  · exact hret _

/-- Only the fetch-and-add leads to the end of an unlock. -/
theorem waking_run (hs : s.exec t (.run fault) = some s') (hwaking : waking (s'.pc t) = true) :
    (∃ inner, s.pc t = .unlockAdd inner) ∨ waking (s.pc t) = true := by
  cases hpc : s.pc t <;> simp only [MutexSystem.exec, hpc, Option.some.injEq, reduceCtorEq] at hs <;>
    rw [← hs] at hwaking
  case unlockAdd inner => exact .inl ⟨inner, rfl⟩
  case unlockStore => exact .inr rfl
  case unlockWake => exact .inr rfl
  all_goals exfalso
  case check =>
    unfold runCheck at hwaking
    split_ifs at hwaking <;> rw [goto_pc_self] at hwaking <;> cases hwaking
  case getParams =>
    unfold runGetParams at hwaking
    split_ifs at hwaking
    · change waking ((s.goto t _).pc t) = true at hwaking
      rw [goto_pc_self] at hwaking
      cases hwaking
    · rw [goto_pc_self] at hwaking
      cases hwaking
  case fast =>
    unfold runFast at hwaking
    dsimp only at hwaking
    split_ifs at hwaking <;> rw [goto_pc_self] at hwaking <;> cases hwaking
  case loop =>
    unfold runLoop at hwaking
    dsimp only at hwaking
    split_ifs at hwaking <;> rw [goto_pc_self] at hwaking <;> cases hwaking
  case wait =>
    unfold runWait at hwaking
    split at hwaking
    · rw [goto_pc_self] at hwaking
      cases hwaking
    · split_ifs at hwaking <;> rw [goto_pc_self] at hwaking <;> cases hwaking
  case retry =>
    unfold runRetry at hwaking
    dsimp only at hwaking
    split_ifs at hwaking <;> rw [goto_pc_self] at hwaking <;> cases hwaking
  case acquired tryOnly params =>
    rw [waking_acquired] at hwaking
    cases hwaking
  case unlockCheck inner =>
    unfold runUnlockCheck at hwaking
    split_ifs at hwaking
    · rw [waking_finishUnlock] at hwaking
      cases hwaking
    · rw [goto_pc_self] at hwaking
      cases hwaking
  case unlockRestore inner =>
    unfold runUnlockRestore at hwaking
    split_ifs at hwaking
    · split at hwaking
      · rw [goto_pc_self] at hwaking
        cases hwaking
      · rw [waking_finishUnlock] at hwaking
        cases hwaking
    · rw [goto_pc_self] at hwaking
      cases hwaking

end

/-- A thread that has returned takes no step of a call. -/
theorem waking_of_settled {s s' : MutexSystem} {t : Tid} {fault : Option OsReturnE}
    (hs : s.exec t (.run fault) = some s') (h : settled (s.pc t) = true) : waking (s.pc t) = true := by
  cases hpc : s.pc t <;> rw [hpc] at h <;>
    simp only [MutexSystem.exec, hpc, Option.some.injEq, reduceCtorEq] at hs <;>
      first | rfl | cases h

/-! ### The calls that took effect -/

variable {s s' : DestroySystem} {t u : Tid}

/-- A step of `t` leaves the other threads where they are, but for those it wakes. -/
theorem Step.frame {a : Tid × DestroyAct} (hs : s.Step a s') : Frame s.base s'.base a.1 ∧
    ∀ u, u ≠ a.1 → s'.destroying u = s.destroying u := by
  obtain ⟨t, act⟩ := a
  have hrefl := Frame.refl s.base t
  have hcall : ∀ mact, s.call t mact = some s' → Frame s.base s'.base t ∧
      ∀ u, u ≠ t → s'.destroying u = s.destroying u := by
    intro mact h
    unfold DestroySystem.call at h
    split_ifs at h
    obtain ⟨b, hb, rfl⟩ := Option.map_eq_some_iff.mp h
    exact ⟨MutexSystem.Step.frame (a := (t, mact)) hb, fun _ _ => rfl⟩
  cases act with
  | lock => exact hcall .lock hs
  | trylock => exact hcall .trylock hs
  | unlock =>
    simp only [Step, exec] at hs
    split at hs
    · cases hs
      exact ⟨hrefl.goto _, fun _ _ => rfl⟩
    · cases hs
  | destroy =>
    simp only [Step, exec] at hs
    split at hs
    · cases hs
      exact ⟨hrefl, fun u hu => Function.update_of_ne hu _ _⟩
    · cases hs
  | run fault =>
    simp only [Step, exec] at hs
    split at hs
    · next pc hpc =>
      cases hs
      cases pc with
      | check =>
        simp only [runDestroy]
        split_ifs
        · exact ⟨hrefl.goto _, fun u hu => Function.update_of_ne hu _ _⟩
        · exact ⟨hrefl, fun u hu => Function.update_of_ne hu _ _⟩
      | store => exact ⟨hrefl.setState _, fun u hu => Function.update_of_ne hu _ _⟩
      | wake => exact ⟨(frame_wake s.base t _ _).goto _, fun u hu => Function.update_of_ne hu _ _⟩
    · obtain ⟨b, hb, rfl⟩ := Option.map_eq_some_iff.mp hs
      exact ⟨MutexSystem.Step.frame (a := (t, .run fault)) hb, fun _ _ => rfl⟩

/-- How the mark of a thread goes with the point at which it is. -/
structure Tracked (effective : Bool) (destroying : Option DestroyPc) (pc : MutexPc) : Prop where
  settled : effective = true → destroying = some .wake ∨ (destroying = none ∧ settled pc = true)
  waking : destroying = some .wake ∨ waking pc = true → effective = true
  idle : destroying ≠ none → ∃ err value, pc = .ret err value

def MarkedInv (x : Marked DestroySystem Tid) : Prop :=
  ∀ t, Tracked (x.effective t) (x.state.destroying t) (x.state.base.pc t)

theorem Tracked.resume {e : Bool} {d : Option DestroyPc} {pc : MutexPc} (h : Tracked e d pc) :
    Tracked e d (resume pc) := by
  refine ⟨?_, ?_, fun hd => ?_⟩
  · rw [resume_settled]
    exact h.settled
  · rw [resume_waking]
    exact h.waking
  · obtain ⟨err, value, rfl⟩ := h.idle hd
    exact ⟨err, value, rfl⟩

theorem MarkedInv.reports {x : Marked DestroySystem Tid} (h : MarkedInv x) : Reports x := by
  intro t err value he hd hpc
  rcases (h t).settled he with hwake | ⟨-, hsettled⟩
  · rw [hd] at hwake
    cases hwake
  · rw [hpc] at hsettled
    exact eq_of_beq hsettled

/-- A thread that starts a call is in none and has had no effect. -/
theorem tracked_start {d : Option DestroyPc} {pc : MutexPc} (hd : d ≠ some .wake)
    (hpc : waking pc = false) (hidle : d ≠ none → ∃ err value, pc = .ret err value) :
    Tracked false d pc := by
  refine ⟨nofun, fun h => ?_, hidle⟩
  rcases h with h | h
  · exact absurd h hd
  · rw [hpc] at h
    cases h

theorem tracked_run {fault : Option OsReturnE} {e : Bool} {b : MutexSystem}
    (h : Tracked e none (s.base.pc t)) (hqueue : s.base.pc t = .unlockWake none → s.base.waitQueue ≠ none)
    (hfree : s.destroying t = none) (hs : s.base.exec t (.run fault) = some b) :
    Tracked (e || s.takesEffect t) none (b.pc t) := by
  have hadd : s.takesEffect t = true ↔ ∃ inner, s.base.pc t = .unlockAdd inner := by
    unfold takesEffect
    rw [hfree]
    cases s.base.pc t <;> simp
  refine ⟨fun he => .inr ⟨rfl, settled_run hs ?_ hqueue⟩, fun hw => ?_, fun hd => absurd rfl hd⟩
  · rw [Bool.or_eq_true] at he
    rcases he with he | he
    · exact .inr (waking_of_settled hs ((h.settled he).resolve_left nofun).2)
    · exact .inl (hadd.mp he)
  · rw [Bool.or_eq_true]
    rcases waking_run hs (hw.resolve_left nofun) with hpc | hpc
    · exact .inr (hadd.mpr hpc)
    · exact .inl (h.waking (.inr hpc))

theorem tracked_runDestroy {pc : DestroyPc} {e : Bool} (h : Tracked e (some pc) (s.base.pc t))
    (hqueue : pc = .wake → s.base.waitQueue ≠ none) (hpc : s.destroying t = some pc) :
    Tracked (e || s.takesEffect t) ((s.runDestroy t pc).destroying t) ((s.runDestroy t pc).base.pc t) := by
  have heffect : s.takesEffect t = (pc == .store) := by
    unfold takesEffect
    rw [hpc]
  obtain ⟨err, value, hret⟩ := h.idle (by simp)
  have hfinish : ∀ (b : MutexSystem) err, ((({ s with base := b } : DestroySystem).finish t err).destroying t =
      none) ∧ (({ s with base := b } : DestroySystem).finish t err).base.pc t = .ret err none :=
    fun b err => ⟨Function.update_self .., goto_pc_self ..⟩
  rw [heffect]
  cases pc with
  | check =>
    have he : e = false := by
      cases e with
      | false => rfl
      | true => exact absurd (h.settled rfl) (by simp)
    rw [he]
    simp only [runDestroy]
    split_ifs
    · obtain ⟨hd, hp⟩ := hfinish s.base .osErrNotInitialized
      rw [hd, hp]
      exact tracked_start (by simp) rfl fun hne => absurd rfl hne
    · have hd : (s.advance t .store).destroying t = some .store := Function.update_self ..
      rw [hd]
      exact tracked_start (by simp) (by rw [advance, hret]; rfl) fun _ => ⟨err, value, hret⟩
  | store =>
    have hd : (s.runDestroy t .store).destroying t = some .wake := Function.update_self ..
    rw [hd]
    exact ⟨fun _ => .inl rfl, fun _ => by simp, fun _ => ⟨err, value, hret⟩⟩
  | wake =>
    have he : e = true := h.waking (.inl rfl)
    have hwake : (futexWake s.base.mutex.state mutexMaxLockedThread s.base.waitQueue).1 = .osNoErr :=
      futexWake_some (hqueue rfl)
    simp only [runDestroy]
    obtain ⟨hd, hp⟩ := hfinish { s.base with
      waitQueue := (futexWake s.base.mutex.state mutexMaxLockedThread s.base.waitQueue).2.2
      pc := fun u => if u ∈ (futexWake s.base.mutex.state mutexMaxLockedThread s.base.waitQueue).2.1
        then resume (s.base.pc u) else s.base.pc u }
      (futexWake s.base.mutex.state mutexMaxLockedThread s.base.waitQueue).1
    rw [hd, hp, hwake, he]
    exact ⟨fun _ => .inr ⟨rfl, rfl⟩, fun _ => rfl, fun hne => absurd rfl hne⟩

theorem tracked_call {act : MutexAct} (hact : act = .lock ∨ act = .trylock)
    (hs : s.call t act = some s') : Tracked false (s'.destroying t) (s'.base.pc t) := by
  unfold DestroySystem.call at hs
  split_ifs at hs with hfree
  obtain ⟨b, hb, rfl⟩ := Option.map_eq_some_iff.mp hs
  have hgoto : ∃ tryOnly, b.pc t = .check tryOnly := by
    rcases hact with rfl | rfl <;> unfold MutexSystem.exec at hb <;> dsimp only at hb <;>
      split at hb <;> cases hb <;> exact ⟨_, goto_pc_self ..⟩
  obtain ⟨tryOnly, hpc⟩ := hgoto
  dsimp only
  rw [hfree, hpc]
  exact tracked_start nofun rfl fun hne => absurd rfl hne

theorem tracked_step {act : DestroyAct} {e : Bool} (h : Tracked e (s.destroying t) (s.base.pc t))
    (hguard : s.FindsQueue (t, act)) (hs : s.Step (t, act) s') :
    Tracked (s.effectiveAfter e t act) (s'.destroying t) (s'.base.pc t) := by
  cases act with
  | lock => exact tracked_call (.inl rfl) hs
  | trylock => exact tracked_call (.inr rfl) hs
  | unlock =>
    simp only [Step, exec] at hs
    split at hs
    · next hfree =>
      cases hs
      dsimp only
      rw [hfree, goto_pc_self]
      exact tracked_start (by simp) rfl fun hne => absurd rfl hne
    · cases hs
  | destroy =>
    simp only [Step, exec] at hs
    split at hs
    · next err value hpc _ =>
      cases hs
      dsimp only [advance]
      rw [Function.update_self]
      exact tracked_start (by simp) (by rw [hpc]; rfl) fun _ => ⟨err, value, hpc⟩
    · cases hs
  | run fault =>
    have hqueue := hguard fault rfl
    simp only [Step, exec] at hs
    split at hs
    · next pc hpc =>
      cases hs
      rw [hpc] at h
      exact tracked_runDestroy h (fun hw => hqueue (.inl (hw ▸ hpc))) hpc
    · next hfree =>
      obtain ⟨b, hb, rfl⟩ := Option.map_eq_some_iff.mp hs
      rw [hfree] at h
      dsimp only
      rw [hfree]
      exact tracked_run h (fun hw => hqueue (.inr ⟨hfree, hw⟩)) hfree hb

theorem MarkedInv.step {x x' : Marked DestroySystem Tid} {a : Tid × DestroyAct} (h : MarkedInv x)
    (hguard : x.state.FindsQueue a) (hs : MarkedStep x a x') : MarkedInv x' := by
  obtain ⟨hstep, hmark⟩ := hs
  obtain ⟨hframe, hdestroying⟩ := hstep.frame
  intro u
  rw [hmark]
  by_cases hu : u = a.1
  · rw [hu]
    unfold mark
    rw [Function.update_self]
    obtain ⟨t, act⟩ := a
    exact tracked_step (h t) hguard hstep
  · unfold mark
    rw [Function.update_of_ne hu, hdestroying u hu]
    rcases hframe.pc u hu with he | he
    · rw [he]
      exact h u
    · rw [he]
      exact (h u).resume

/-- A wake that finds no queue makes its call report an error. -/
theorem findsQueue_of_reports {x x' : Marked DestroySystem Tid} {a : Tid × DestroyAct} (h : MarkedInv x)
    (hs : MarkedStep x a x') (hr : Reports x') : x.state.FindsQueue a := by
  obtain ⟨t, act⟩ := a
  obtain ⟨hstep, hmark⟩ := hs
  rintro fault rfl hwake hnone
  dsimp only at hwake
  have heffective : x.effective t = true := by
    refine (h t).waking (hwake.imp_right fun hw => ?_)
    rw [hw.2]
    rfl
  have heffective' : x'.effective t = true := by
    rw [hmark]
    unfold mark
    rw [Function.update_self, effectiveAfter, heffective, Bool.true_or]
  have herr : x'.state.destroying t = none ∧ x'.state.base.pc t = .ret .osErrNoSuchId none := by
    simp only [Step, exec] at hstep
    rcases hwake with hw | ⟨hfree, hw⟩
    · rw [hw, Option.some.injEq] at hstep
      rw [← hstep, runDestroy, hnone]
      exact ⟨Function.update_self .., goto_pc_self ..⟩
    · rw [hfree] at hstep
      obtain ⟨b, hb, hx'⟩ := Option.map_eq_some_iff.mp hstep
      rw [MutexSystem.exec, hw, Option.some.injEq] at hb
      rw [← hx', ← hb, runUnlockWake, hnone]
      exact ⟨hfree, goto_pc_self ..⟩
  have hok := hr t _ _ heffective' herr.1 herr.2
  cases hok

theorem MarkedInit.inv {flags : BitVec 32} {priority : BitVec 16} {x : Marked DestroySystem Tid}
    (h : MarkedInit flags priority x) : MarkedInv x := by
  intro t
  rw [h.2 t, h.1.destroying t, h.1.base.pc t]
  exact tracked_start nofun rfl fun hne => absurd rfl hne

theorem reports_iff {flags : BitVec 32} {priority : BitVec 16} {x : Marked DestroySystem Tid}
    {l : List ((Tid × DestroyAct) × Marked DestroySystem Tid)} (hx : MarkedInit flags priority x)
    (hl : Trace MarkedStep x l) :
    (∀ y ∈ l, Reports y.2) ↔ GuardedTrace (fun x a => x.state.FindsQueue a) x l :=
  hl.forall_iff_guarded MarkedInv Reports (fun _ h => h.reports) (fun _ _ _ h hs hg => h.step hg hs)
    (fun _ _ _ h hs hr => findsQueue_of_reports h hs hr) hx.inv

end DestroySystem

/-! ## The semaphore -/

namespace SemSystem

variable {T : Type} [DecidableEq T]

/-- The store of the level counted up. -/
def takesEffect (s : SemSystem T) (t : T) : Bool :=
  match s.pc t with
  | .postStore _ => true
  | _ => false

def effectiveAfter (s : SemSystem T) (effective : Bool) (t : T) : SemAct → Bool
  | .call _ => false
  | .run _ => effective || s.takesEffect t

def mark (s : SemSystem T) (effective : T → Bool) (a : T × SemAct) : T → Bool :=
  Function.update effective a.1 (s.effectiveAfter (effective a.1) a.1 a.2)

def MarkedStep (x : Marked (SemSystem T) T) (a : T × SemAct) (x' : Marked (SemSystem T) T) : Prop :=
  x.state.Step a x'.state ∧ x'.effective = x.state.mark x.effective a

def MarkedInit (initLevel : BitVec 32) (x : Marked (SemSystem T) T) : Prop :=
  x.state.Started initLevel ∧ ∀ t, x.effective t = false

/-- The error code with which a thread has returned or is about to. -/
def outcome : SemPc → Option OsReturnE
  | .ret err _ => some err
  | .unlock _ err _ => some err
  | _ => none

/-- Every post that took effect has returned, or is about to, without error. -/
def Reports (x : Marked (SemSystem T) T) : Prop :=
  ∀ t err, x.effective t = true → outcome (x.state.pc t) = some err → err = .osNoErr

/-- If the step is the wake of a post, the futex table has a queue for the level. -/
def FindsQueue (s : SemSystem T) (a : T × SemAct) : Prop :=
  ∀ fault, a.2 = .run fault → s.pc a.1 = .postWake → s.waitQueue ≠ none

/-- Points of a post that has taken effect. -/
def posted : SemPc → Bool
  | .postTestLevel => true
  | .postTestWaiters => true
  | .postWake => true
  | _ => false

/-- Those points, and the end of the call without error. -/
def postSettled (pc : SemPc) : Bool :=
  posted pc || outcome pc == some .osNoErr

structure Tracked (effective : Bool) (pc : SemPc) : Prop where
  settled : effective = true → postSettled pc = true
  posted : posted pc = true → effective = true

def MarkedInv (x : Marked (SemSystem T) T) : Prop := ∀ t, Tracked (x.effective t) (x.state.pc t)

variable {s s' : SemSystem T} {t u : T}

/-- Every step but a wake moves only the thread that takes it. -/
theorem run_moves {fault : Option OsReturnE} (hs : s.run t fault = some s') :
    (s.pc t = .postWake ∧ s' = s.runWake t) ∨ ∃ pc, s'.pc = Function.update s.pc t pc := by
  unfold run at hs
  cases hpc : s.pc t <;> simp only [hpc, Option.some.injEq, reduceCtorEq] at hs
  case postWake => exact .inl ⟨rfl, hs.symm⟩
  all_goals right
  case spin => exact ⟨_, (spinlockLock_goto hs).2⟩
  case respin => exact ⟨_, (spinlockLock_goto hs).2⟩
  case pendWait val =>
    rw [← hs]
    unfold runWait
    split <;> exact ⟨_, rfl⟩
  case unlock op err value =>
    rw [← hs]
    unfold runUnlock
    dsimp only
    split_ifs <;> exact ⟨_, rfl⟩
  case checkInit => split_ifs at hs <;> cases hs <;> exact ⟨_, rfl⟩
  case pendTest => split_ifs at hs <;> cases hs <;> exact ⟨_, rfl⟩
  case pendCheckInit => split_ifs at hs <;> cases hs <;> exact ⟨_, rfl⟩
  case tryTest => split_ifs at hs <;> cases hs <;> exact ⟨_, rfl⟩
  case postTestLevel => split_ifs at hs <;> cases hs <;> exact ⟨_, rfl⟩
  case postTestWaiters => split_ifs at hs <;> cases hs <;> exact ⟨_, rfl⟩
  all_goals exact ⟨_, by rw [← hs]; rfl⟩

theorem step_others {a : T × SemAct} (hs : s.Step a s') (hu : u ≠ a.1) :
    s'.pc u = s.pc u ∨ s'.pc u = resume (s.pc u) := by
  obtain ⟨t, act⟩ := a
  cases act with
  | call op =>
    simp only [Step, exec] at hs
    split at hs
    · cases hs
      exact .inl (Function.update_of_ne hu _ _)
    · cases hs
  | run fault =>
    rcases run_moves hs with ⟨-, rfl⟩ | ⟨pc, hpc⟩
    · obtain ⟨err, he⟩ := runWake_eq s t
      rw [he]
      dsimp only
      rw [Function.update_of_ne hu]
      split_ifs
      · exact .inr rfl
      · exact .inl rfl
    · rw [hpc]
      exact .inl (Function.update_of_ne hu _ _)

theorem Tracked.resume {e : Bool} {pc : SemPc} (h : Tracked e pc) : Tracked e (resume pc) := by
  cases pc <;> first | exact h | skip
  refine ⟨fun he => ?_, nofun⟩
  cases h.settled he

/-- From a point of no settled post, but the store of the level, a thread comes to no point of one. -/
theorem posted_run {fault : Option OsReturnE} (hs : s.run t fault = some s')
    (hfrom : posted (s.pc t) = false) (hstore : s.takesEffect t = false) :
    posted (s'.pc t) = false := by
  unfold run at hs
  cases hpc : s.pc t <;> simp only [hpc, Option.some.injEq, reduceCtorEq] at hs <;>
    rw [hpc] at hfrom <;> first | cases hfrom; done | skip
  case spin op =>
    rw [(spinlockLock_goto hs).2, Function.update_self]
    cases op <;> rfl
  case respin =>
    rw [(spinlockLock_goto hs).2, Function.update_self]
    rfl
  case pendWait val =>
    rw [← hs]
    unfold runWait
    split <;> rw [goto_pc_self] <;> rfl
  case unlock op err value =>
    rw [← hs]
    unfold runUnlock
    dsimp only
    split_ifs
    · change posted ((s.spinlockUnlock t (.ret err value)).pc t) = false
      rw [spinlockUnlock, goto_pc_self]
      rfl
    · rw [spinlockUnlock, goto_pc_self]
      rfl
  case postStore =>
    rw [takesEffect, hpc] at hstore
    cases hstore
  case checkInit => split_ifs at hs <;> cases hs <;> rw [goto_pc_self] <;> rfl
  case pendTest => split_ifs at hs <;> cases hs <;> rw [goto_pc_self] <;> rfl
  case pendCheckInit => split_ifs at hs <;> cases hs <;> rw [goto_pc_self] <;> rfl
  case tryTest value =>
    by_cases hlevel : s.sem.level.toInt ≤ 0
    · rw [if_pos hlevel] at hs
      cases hs
      rw [goto_pc_self]
      cases value <;> rfl
    · rw [if_neg hlevel] at hs
      cases hs
      rw [goto_pc_self]
      rfl
  case unwaitersStore =>
    rw [← hs, goto_pc_self]
    split_ifs <;> rfl
  case takeStore =>
    rw [← hs, goto_pc_self]
    split_ifs <;> rfl
  case pendUnlock =>
    rw [← hs, spinlockUnlock, goto_pc_self]
    rfl
  all_goals
    rw [← hs, goto_pc_self]
    rfl

/-- A post that has taken effect goes on to its return without error if its wake finds a queue. -/
theorem settled_run {fault : Option OsReturnE} (hs : s.run t fault = some s')
    (hfrom : postSettled (s.pc t) = true ∨ s.takesEffect t = true)
    (hqueue : s.pc t = .postWake → s.waitQueue ≠ none) : postSettled (s'.pc t) = true := by
  unfold run at hs
  cases hpc : s.pc t <;> simp only [hpc, Option.some.injEq, reduceCtorEq] at hs <;>
    rw [takesEffect, hpc] at hfrom <;> first | (rcases hfrom with h | h <;> cases h; done) | skip
  case postStore =>
    rw [← hs, goto_pc_self]
    rfl
  case postTestLevel => split_ifs at hs <;> cases hs <;> rw [goto_pc_self] <;> rfl
  case postTestWaiters => split_ifs at hs <;> cases hs <;> rw [goto_pc_self] <;> rfl
  case postWake =>
    have hwake : (futexWake s.sem.level 1 s.waitQueue).1 = .osNoErr :=
      futexWake_some (hqueue hpc)
    rw [← hs, runWake, goto_pc_self, hwake]
    rfl
  case unlock op err value =>
    have hsettled : postSettled (.ret err value) = true := hfrom.resolve_right nofun
    rw [← hs]
    unfold runUnlock
    dsimp only
    split_ifs
    · change postSettled ((s.spinlockUnlock t (.ret err value)).pc t) = true
      rw [spinlockUnlock, goto_pc_self]
      exact hsettled
    · rw [spinlockUnlock, goto_pc_self]
      exact hsettled

theorem MarkedInv.step {x x' : Marked (SemSystem T) T} {a : T × SemAct} (h : MarkedInv x)
    (hguard : x.state.FindsQueue a) (hs : MarkedStep x a x') : MarkedInv x' := by
  obtain ⟨hstep, hmark⟩ := hs
  intro u
  rw [hmark]
  by_cases hu : u = a.1
  · rw [hu]
    unfold mark
    rw [Function.update_self]
    obtain ⟨t, act⟩ := a
    cases act with
    | call op =>
      obtain ⟨-, hgoto, -⟩ := call_goto hstep
      rw [hgoto, Function.update_self]
      exact ⟨nofun, nofun⟩
    | run fault =>
      have hrun : x.state.run t fault = some x'.state := hstep
      dsimp only [effectiveAfter]
      refine ⟨fun he => ?_, fun hp => ?_⟩
      · rw [Bool.or_eq_true] at he
        exact settled_run hrun (he.imp_left (h t).settled) fun hw => hguard fault rfl hw
      · by_contra hne
        rw [Bool.or_eq_true, not_or, Bool.not_eq_true, Bool.not_eq_true] at hne
        obtain ⟨he, hstore⟩ := hne
        have hfrom : posted (x.state.pc t) = false := by
          by_contra hpost
          rw [(h t).posted (by simpa using hpost)] at he
          cases he
        rw [posted_run hrun hfrom hstore] at hp
        cases hp
  · unfold mark
    rw [Function.update_of_ne hu]
    rcases step_others hstep hu with he | he
    · rw [he]
      exact h u
    · rw [he]
      exact (h u).resume

omit [DecidableEq T] in
theorem MarkedInv.reports {x : Marked (SemSystem T) T} (h : MarkedInv x) : Reports x := by
  intro t err he hout
  have hsettled := (h t).settled he
  cases hpc : x.state.pc t <;> rw [hpc] at hout hsettled <;> cases hout
  case ret => simpa [postSettled, posted, outcome] using hsettled
  case unlock => simpa [postSettled, posted, outcome] using hsettled

/-- A wake that finds no queue makes its post report an error. -/
theorem findsQueue_of_reports {x x' : Marked (SemSystem T) T} {a : T × SemAct} (h : MarkedInv x)
    (hs : MarkedStep x a x') (hr : Reports x') : x.state.FindsQueue a := by
  obtain ⟨t, act⟩ := a
  obtain ⟨hstep, hmark⟩ := hs
  rintro fault rfl hpc hnone
  dsimp only at hpc
  have heffective : x.effective t = true := (h t).posted (by rw [hpc]; rfl)
  have heffective' : x'.effective t = true := by
    rw [hmark]
    unfold mark
    rw [Function.update_self, effectiveAfter, heffective, Bool.true_or]
  have hrun : x.state.run t fault = some x'.state := hstep
  rw [run, hpc, Option.some.injEq] at hrun
  have hout : outcome (x'.state.pc t) = some .osErrNoSuchId := by
    rw [← hrun, runWake, hnone]
    dsimp only [futexWake]
    rw [goto_pc_self]
    rfl
  have hok := hr t _ heffective' hout
  cases hok

omit [DecidableEq T] in
theorem MarkedInit.inv {initLevel : BitVec 32} {x : Marked (SemSystem T) T}
    (h : MarkedInit initLevel x) : MarkedInv x := by
  intro t
  rw [h.2 t, h.1.pc t]
  exact ⟨nofun, nofun⟩

theorem reports_iff {initLevel : BitVec 32} {x : Marked (SemSystem T) T}
    {l : List ((T × SemAct) × Marked (SemSystem T) T)} (hx : MarkedInit initLevel x)
    (hl : Trace MarkedStep x l) :
    (∀ y ∈ l, Reports y.2) ↔ GuardedTrace (fun x a => x.state.FindsQueue a) x l :=
  hl.forall_iff_guarded MarkedInv Reports (fun _ h => h.reports) (fun _ _ _ h hs hg => h.step hg hs)
    (fun _ _ _ h hs hr => findsQueue_of_reports h hs hr) hx.inv

end SemSystem

/-! ## Both -/

/-- In a run on a mutex, and in a run on a semaphore, every call that took effect reports success exactly
when every wake finds a queue in the futex table. -/
theorem effects_reported {T : Type} [DecidableEq T] {flags : BitVec 32} {priority : BitVec 16}
    {initLevel : BitVec 32} {x : Marked DestroySystem Tid} {y : Marked (SemSystem T) T}
    {l : List ((Tid × DestroySystem.DestroyAct) × Marked DestroySystem Tid)}
    {m : List ((T × SemSystem.SemAct) × Marked (SemSystem T) T)}
    (hx : DestroySystem.MarkedInit flags priority x) (hl : Trace DestroySystem.MarkedStep x l)
    (hy : SemSystem.MarkedInit initLevel y) (hm : Trace SemSystem.MarkedStep y m) :
    ((∀ z ∈ l, DestroySystem.Reports z.2) ↔ GuardedTrace (fun x a => x.state.FindsQueue a) x l) ∧
      ((∀ z ∈ m, SemSystem.Reports z.2) ↔ GuardedTrace (fun y a => y.state.FindsQueue a) y m) :=
  ⟨DestroySystem.reports_iff hx hl, SemSystem.reports_iff hy hm⟩

/-! ### Runs on fixed threads -/

def freshMarked : Marked DestroySystem Tid := ⟨DestroySystem.fresh, fun _ => false⟩

def emptyMarked : Marked (SemSystem ℕ) ℕ := ⟨emptySem, fun _ => false⟩

def markedMutexExec (x : Marked DestroySystem Tid) (a : Tid × DestroySystem.DestroyAct) :
    Option (Marked DestroySystem Tid) :=
  (x.state.exec a.1 a.2).map fun s' => ⟨s', x.state.mark x.effective a⟩

def markedSemExec (x : Marked (SemSystem ℕ) ℕ) (a : ℕ × SemSystem.SemAct) :
    Option (Marked (SemSystem ℕ) ℕ) :=
  (x.state.exec a.1 a.2).map fun s' => ⟨s', x.state.mark x.effective a⟩

theorem markedMutexExec_step (x : Marked DestroySystem Tid) (a : Tid × DestroySystem.DestroyAct)
    (x' : Marked DestroySystem Tid) (h : markedMutexExec x a = some x') :
    DestroySystem.MarkedStep x a x' := by
  obtain ⟨s', hs, rfl⟩ := Option.map_eq_some_iff.mp h
  exact ⟨hs, rfl⟩

theorem markedSemExec_step (x : Marked (SemSystem ℕ) ℕ) (a : ℕ × SemSystem.SemAct)
    (x' : Marked (SemSystem ℕ) ℕ) (h : markedSemExec x a = some x') : SemSystem.MarkedStep x a x' := by
  obtain ⟨s', hs, rfl⟩ := Option.map_eq_some_iff.mp h
  exact ⟨hs, rfl⟩

theorem freshMarked_init : DestroySystem.MarkedInit mutexFlagNone 0xFFFF#16 freshMarked :=
  ⟨DestroySystem.fresh_started, fun _ => rfl⟩

theorem emptyMarked_init : SemSystem.MarkedInit 0 emptyMarked := ⟨emptySem_started, fun _ => rfl⟩

/-- Thread 1 blocks on the mutex that thread 0 holds and then unlocks. -/
def unlockBlocked : List (Tid × DestroySystem.DestroyAct) :=
  (0, .lock) :: List.replicate 3 (0, .run none) ++ (1, .lock) :: List.replicate 4 (1, .run none) ++
    (0, .unlock) :: List.replicate 5 (0, .run none)

/-- Both wakes find the thread that blocked, and report success. -/
theorem effects_reported_blocked : ∃ l m,
    l.getLast?.map (fun z => (z.2.effective 0, z.2.state.base.pc 0)) =
      some (true, .ret .osNoErr none) ∧
    m.getLast?.map (fun z => (z.2.effective 0, z.2.state.pc 0)) = some (true, .ret .osNoErr none) ∧
    ((∀ z ∈ l, DestroySystem.Reports z.2) ↔
      GuardedTrace (fun x a => x.state.FindsQueue a) freshMarked l) ∧
    ((∀ z ∈ m, SemSystem.Reports z.2) ↔
      GuardedTrace (fun y a => y.state.FindsQueue a) emptyMarked m) := by
  have hmutex : (traceActs markedMutexExec freshMarked unlockBlocked).map
      (fun l => l.getLast?.map fun z => (z.2.effective 0, z.2.state.base.pc 0)) =
        some (some (true, .ret .osNoErr none)) := by decide +kernel
  have hsem : (traceActs markedSemExec emptyMarked (postAmong [1])).map
      (fun m => m.getLast?.map fun z => (z.2.effective 0, z.2.state.pc 0)) =
        some (some (true, .ret .osNoErr none)) := by decide +kernel
  obtain ⟨l, hl, hle⟩ := Option.map_eq_some_iff.mp hmutex
  obtain ⟨m, hm, hme⟩ := Option.map_eq_some_iff.mp hsem
  exact ⟨l, m, hle, hme, effects_reported freshMarked_init (trace_of_traceActs markedMutexExec_step hl)
    emptyMarked_init (trace_of_traceActs markedSemExec_step hm)⟩

/-- Thread 1 has announced itself as a waiter and is not yet in the queue when thread 0 posts. -/
def postBeforeBlock : List (ℕ × SemSystem.SemAct) :=
  (1, .call .pend) :: List.replicate 7 (1, .run none) ++
    (0, .call .post) :: List.replicate 8 (0, .run none)

/-- Destroying a mutex that nobody waits on, and posting to a thread that is about to wait, take effect
and report an error. -/
theorem effect_without_success :
    (¬ ∀ flags priority (x : Marked DestroySystem Tid),
      Reachable (DestroySystem.MarkedInit flags priority) DestroySystem.MarkedStep x →
        DestroySystem.Reports x) ∧
      ¬ ∀ initLevel (y : Marked (SemSystem ℕ) ℕ),
        Reachable (SemSystem.MarkedInit initLevel) SemSystem.MarkedStep y → SemSystem.Reports y := by
  constructor
  · intro hclaim
    have hval : (runActs markedMutexExec freshMarked ((0, .destroy) :: List.replicate 3 (0, .run none))).map
        (fun x => (x.effective 0, x.state.destroying 0, x.state.base.pc 0)) =
          some (true, none, .ret .osErrNoSuchId none) := by decide +kernel
    obtain ⟨x, hx, he⟩ := Option.map_eq_some_iff.mp hval
    simp only [Prod.mk.injEq] at he
    have hreach : Reachable (DestroySystem.MarkedInit mutexFlagNone 0xFFFF#16) DestroySystem.MarkedStep x :=
      Guarded.runActs (fun x a x' h => ⟨trivial, markedMutexExec_step x a x' h⟩) (.start freshMarked_init) hx
    have hok := hclaim _ _ x hreach 0 _ _ he.1 he.2.1 he.2.2
    cases hok
  · intro hclaim
    have hval : (runActs markedSemExec emptyMarked postBeforeBlock).map
        (fun y => (y.effective 0, y.state.pc 0)) = some (true, .ret .osErrNoSuchId none) := by
      decide +kernel
    obtain ⟨y, hy, he⟩ := Option.map_eq_some_iff.mp hval
    simp only [Prod.mk.injEq] at he
    have hreach : Reachable (SemSystem.MarkedInit 0) SemSystem.MarkedStep y :=
      Guarded.runActs (fun y a y' h => ⟨trivial, markedSemExec_step y a y' h⟩) (.start emptyMarked_init) hy
    have hok := hclaim 0 y hreach 0 .osErrNoSuchId he.1 (by rw [he.2]; rfl)
    cases hok

end UtkKernel.Sync
