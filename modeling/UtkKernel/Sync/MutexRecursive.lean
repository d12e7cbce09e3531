import UtkKernel.Sync.Fifo

/-! # The recursive mutex (`lib/libapi/src/mutex.c`)

Threads lock, try and unlock a mutex initialised with the recursive flag, and each unlocks at most as often
as it locked. The code keeps no count: a lock of the thread that is recorded as the owner returns at once,
and one unlock gives the word back. -/

namespace UtkKernel.Sync
open Foundations
set_option autoImplicit false

/-- The mutex with, for each thread, its locks and trylocks that returned without error less its
unlocks. An unlock counts from its call on, unless it returns before it has changed the word. -/
structure RecursiveSystem where
  base : MutexSystem
  depth : Tid → ℕ

namespace RecursiveSystem
open MutexSystem MutexPc

/-- What a step of a thread from one point to the next adds to its depth. -/
def gain : MutexPc → MutexPc → ℕ
  | .unlockCheck none, .ret _ _ => 1
  | .unlockRestore none, .ret _ _ => 1
  | .unlockAdd none, _ => 0
  | .unlockStore none, _ => 0
  | .unlockWake none, _ => 0
  | _, .ret .osNoErr _ => 1
  | _, _ => 0

/-- One atomic step of thread `t`; a thread unlocks whenever it has a lock that it has not undone. -/
def exec (s : RecursiveSystem) (t : Tid) : MutexAct → Option RecursiveSystem
  | .lock => (s.base.exec t .lock).map fun b => { s with base := b }
  | .trylock => (s.base.exec t .trylock).map fun b => { s with base := b }
  | .unlock =>
    match s.base.pc t with
    | .ret _ _ =>
      if 0 < s.depth t then
        some ⟨s.base.goto t (.unlockCheck none), Function.update s.depth t (s.depth t - 1)⟩
      else none
    | _ => none
  | .run fault => (s.base.exec t (.run fault)).map fun b =>
      ⟨b, Function.update s.depth t (s.depth t + gain (s.base.pc t) (b.pc t))⟩

def Step (s : RecursiveSystem) (a : Tid × MutexAct) (s' : RecursiveSystem) : Prop :=
  s.exec a.1 a.2 = some s'

/-- The mutex was just initialised as a recursive one and no thread has called on it. -/
structure Started (priority : BitVec 16) (s : RecursiveSystem) : Prop where
  base : s.base.StartedAs mutexFlagRecursive priority
  depth : ∀ t, s.depth t = 0

/-- At most one thread has locks to undo, and while it has, the word is not free. -/
structure Counted (s : RecursiveSystem) : Prop where
  alone : ∀ t u, 0 < s.depth t → 0 < s.depth u → t = u
  locked : ∀ t, 0 < s.depth t → s.base.mutex.state ≠ mutexStateUnlocked

/-- The step is not an unlock by a thread with further locks to undo, nor the entry of a thread that has
none and whose identifier is the recorded one, as 0 is before the first lock. -/
def Unnested (s : RecursiveSystem) (a : Tid × MutexAct) : Prop :=
  (a.2 = .unlock → s.depth a.1 ≤ 1) ∧
    ∀ tryOnly, s.base.pc a.1 = .getParams tryOnly → a.1 = s.base.mutex.lockerTid → 0 < s.depth a.1

instance (s : RecursiveSystem) (a : Tid × MutexAct) : Decidable (s.Unnested a) :=
  inferInstanceAs (Decidable (_ ∧ ∀ _, _ → _))

/-! ## The invariant of unnested runs -/

/-- A thread with locks to undo owns the word, and in an unlock it has none left. -/
structure Inv (s : RecursiveSystem) : Prop where
  excl : s.base.Excl
  held : ∀ t, 0 < s.depth t → s.base.holds t = true
  spent : ∀ t, ((s.base.pc t).unlocking || (s.base.pc t).releasing) = true → s.depth t = 0

theorem Inv.counted {s : RecursiveSystem} (h : s.Inv) : s.Counted :=
  ⟨fun t u ht hu => h.excl.unique t u (.inl (h.held t ht)) (.inl (h.held u hu)),
    fun t ht => h.excl.owned.mpr ⟨t, .inl (h.held t ht)⟩⟩

theorem Started.inv {priority : BitVec 16} {s : RecursiveSystem} (h : s.Started priority) : s.Inv := by
  refine ⟨excl_of_init (by rfl) h.base.mutex h.base.pc h.base.holds, fun t ht => ?_, fun t _ => h.depth t⟩
  rw [h.depth] at ht
  exact absurd ht (lt_irrefl 0)

section
variable {s : MutexSystem} {t : Tid} {d : ℕ}

/-- What a step of a thread of depth `d` needs of the state it leads to. -/
structure Kept (d : ℕ) (s b : MutexSystem) (t : Tid) : Prop where
  held : 0 < d + gain (s.pc t) (b.pc t) → b.holds t = true
  spent : ((b.pc t).unlocking || (b.pc t).releasing) = true → d + gain (s.pc t) (b.pc t) = 0

/-- A step that neither returns without error nor enters an unlock. -/
theorem kept_goto {b : MutexSystem} {pc : MutexPc} (hd : 0 < d → s.holds t = true)
    (hholds : b.holds t = s.holds t) (hpc : b.pc t = pc) (hgain : gain (s.pc t) pc = 0)
    (hun : (pc.unlocking || pc.releasing) = false) : Kept d s b t := by
  refine ⟨fun h => ?_, fun h => ?_⟩
  · rw [hpc, hgain] at h
    rw [hholds]
    exact hd h
  · rw [hpc, hun] at h
    cases h

/-- A step that returns to a caller that owns the word. -/
theorem kept_ret {b : MutexSystem} {err : OsReturnE} {value : Option (BitVec 32)}
    (hholds : b.holds t = true) (hpc : b.pc t = .ret err value) : Kept d s b t := by
  refine ⟨fun _ => hholds, fun h => ?_⟩
  rw [hpc] at h
  cases h

/-- A step of an unlock that no lock of the thread is left for. -/
theorem kept_spent {b : MutexSystem} {pc : MutexPc} (hd : d = 0) (hpc : b.pc t = pc)
    (hgain : gain (s.pc t) pc = 0) : Kept d s b t := by
  have hzero : d + gain (s.pc t) (b.pc t) = 0 := by rw [hpc, hgain, hd]
  exact ⟨fun h => absurd hzero h.ne', fun _ => hzero⟩

theorem gain_error (pc : MutexPc) {err : OsReturnE} (herr : err ≠ .osNoErr)
    (value : Option (BitVec 32)) (hun : pc.unlocking = false) : gain pc (.ret err value) = 0 := by
  cases err <;> first
    | exact absurd rfl herr
    | cases pc with
      | unlockCheck | unlockRestore | unlockAdd => cases hun
      | unlockStore i => cases i <;> rfl
      | unlockWake i => cases i <;> rfl
      | _ => rfl

/-- A thread that has locks to undo keeps the word through each of its steps, and each return without
error from a lock leaves it with the word. -/
theorem run_kept {b : MutexSystem} {fault : Option OsReturnE} (hi : s.Excl)
    (hd : 0 < d → s.holds t = true)
    (hspent : ((s.pc t).unlocking || (s.pc t).releasing) = true → d = 0)
    (hs : s.exec t (.run fault) = some b) : Kept d s b t := by
  have houter := hi.outer t
  have hunlock := hi.unlocking t
  cases hpc : s.pc t <;> simp only [MutexSystem.exec, hpc, Option.some.injEq, reduceCtorEq] at hs <;>
    rw [← hs]
  case check tryOnly =>
    unfold runCheck
    split_ifs <;> exact kept_goto hd rfl (Function.update_self ..) (by rw [hpc]; rfl) rfl
  case getParams tryOnly =>
    unfold runGetParams
    split_ifs with hrec
    · exact kept_ret (Function.update_self ..) (Function.update_self ..)
    · exact kept_goto hd rfl (Function.update_self ..) (by rw [hpc]; rfl) rfl
  case fast tryOnly params =>
    unfold runFast
    dsimp only
    split_ifs <;> exact kept_goto hd rfl (Function.update_self ..) (by rw [hpc]; rfl) rfl
  case loop w params woken =>
    unfold runLoop
    dsimp only
    split_ifs <;> exact kept_goto hd rfl (Function.update_self ..) (by rw [hpc]; rfl) rfl
  case wait params =>
    unfold runWait
    split
    · exact kept_goto hd rfl (Function.update_self ..) (by rw [hpc]; rfl) rfl
    · split_ifs with herr
      · exact kept_goto hd rfl (Function.update_self ..)
          (gain_error _ herr _ (by rw [hpc]; rfl)) rfl
      · exact kept_goto hd rfl (Function.update_self ..) (by rw [hpc]; rfl) rfl
  case retry params woken =>
    unfold runRetry
    dsimp only
    split_ifs <;> exact kept_goto hd rfl (Function.update_self ..) (by rw [hpc]; rfl) rfl
  case acquired tryOnly params =>
    obtain ⟨prio, p, locker, he⟩ := runAcquired_eq (t := t) hi tryOnly params
    rw [he]
    exact kept_ret (Function.update_self ..) (Function.update_self ..)
  case unlockCheck i =>
    obtain rfl : i = none := by simpa [hpc, nested] using houter
    have hzero := hspent (by rw [hpc]; rfl)
    unfold runUnlockCheck
    split_ifs
    · exact kept_ret (hunlock (by rw [hpc]; rfl)) (Function.update_self ..)
    · exact kept_spent hzero (Function.update_self ..) (by rw [hpc]; rfl)
  case unlockRestore i =>
    obtain rfl : i = none := by simpa [hpc, nested] using houter
    have hzero := hspent (by rw [hpc]; rfl)
    have hholds := hunlock (by rw [hpc]; rfl)
    simp only [runUnlockRestore, schedSetParams]
    split_ifs
    · exact kept_spent hzero (Function.update_self ..) (by rw [hpc]; rfl)
    · exact kept_ret hholds (Function.update_self ..)
    · exact kept_spent hzero (Function.update_self ..) (by rw [hpc]; rfl)
  case unlockAdd i =>
    obtain rfl : i = none := by simpa [hpc, nested] using houter
    have hzero := hspent (by rw [hpc]; rfl)
    unfold runUnlockAdd
    dsimp only
    split_ifs <;> exact kept_spent hzero (Function.update_self ..) (by rw [hpc]; rfl)
  case unlockStore i =>
    obtain rfl : i = none := by simpa [hpc, nested] using houter
    exact kept_spent (hspent (by rw [hpc]; rfl)) (Function.update_self ..) (by rw [hpc]; rfl)
  case unlockWake i =>
    obtain rfl : i = none := by simpa [hpc, nested] using houter
    obtain ⟨err, he⟩ := runUnlockWake_eq (s := s) (t := t)
    have hret : (s.runUnlockWake t none).pc t = .ret err none := by
      rw [he]
      dsimp only
      rw [Function.update_self]
    exact kept_spent (hspent (by rw [hpc]; rfl)) hret (by rw [hpc]; rfl)

end

variable {s s' : RecursiveSystem} {t : Tid}

/-- A step of `t` with such an effect on the word keeps the invariant if it does so for `t`. -/
theorem Inv.of_effect {b : MutexSystem} {depth : Tid → ℕ} (h : s.Inv) (heffect : Effect s.base b t)
    (hother : ∀ u, u ≠ t → depth u = s.depth u) (hheld : 0 < depth t → b.holds t = true)
    (hspent : ((b.pc t).unlocking || (b.pc t).releasing) = true → depth t = 0) :
    Inv ⟨b, depth⟩ := by
  refine ⟨heffect.excl h.excl, fun u hu => ?_, fun u hu => ?_⟩
  · by_cases hut : u = t
    · exact hut ▸ hheld (hut ▸ hu)
    · dsimp only at hu ⊢
      rw [(heffect.others u hut).2]
      rw [hother u hut] at hu
      exact h.held u hu
  · by_cases hut : u = t
    · exact hut ▸ hspent (hut ▸ hu)
    · dsimp only at hu ⊢
      rw [hother u hut]
      apply h.spent u
      rcases (heffect.others u hut).1 with hpc | hpc <;> simpa [hpc] using hu

theorem Inv.unlock {err : OsReturnE} {value : Option (BitVec 32)} (h : s.Inv)
    (hpc : s.base.pc t = .ret err value) (hdepth : s.depth t = 1) :
    Inv ⟨s.base.goto t (.unlockCheck none), Function.update s.depth t (s.depth t - 1)⟩ := by
  have hholds := h.held t (by omega)
  have hzero : Function.update s.depth t (s.depth t - 1) t = 0 := by
    rw [Function.update_self, hdepth]
  refine h.of_effect (t := t) (effect_quiet rfl h.excl.state Iff.rfl rfl rfl rfl (fun _ => hholds) ?_ ?_)
    (fun u hu => Function.update_of_ne hu _ _) ?_ fun _ => hzero
  · simp [releasing]
  · simp [hpc, owning]
  · rw [hzero]
    exact fun hlt => absurd hlt (lt_irrefl 0)

theorem Inv.call {act : MutexAct} {b : MutexSystem} (h : s.Inv) (hact : act = .lock ∨ act = .trylock)
    (hs : s.base.exec t act = some b) : Inv { s with base := b } := by
  obtain ⟨tryOnly, err, value, hpc, rfl⟩ : ∃ tryOnly err value, s.base.pc t = .ret err value ∧
      s.base.goto t (.check tryOnly) = b := by
    rcases hact with rfl | rfl <;> cases hpc : s.base.pc t <;>
      simp only [MutexSystem.exec, hpc, Option.some.injEq, reduceCtorEq] at hs
    · exact ⟨_, _, _, rfl, hs⟩
    · exact ⟨_, _, _, rfl, hs⟩
  refine h.of_effect (t := t) (effect_quiet rfl h.excl.state Iff.rfl rfl rfl rfl ?_ ?_ ?_)
    (fun _ _ => rfl) (h.held t) fun hun => ?_
  · simp [unlocking]
  · simp [releasing]
  · simp [hpc, owning]
  · dsimp only [goto] at hun
    rw [Function.update_self] at hun
    cases hun

theorem Inv.step {a : Tid × MutexAct} (h : s.Inv) (hguard : s.Unnested a) (hs : s.Step a s') :
    s'.Inv := by
  obtain ⟨t, act⟩ := a
  cases act with
  | lock =>
    obtain ⟨b, hb, rfl⟩ := Option.map_eq_some_iff.mp hs
    exact h.call (.inl rfl) hb
  | trylock =>
    obtain ⟨b, hb, rfl⟩ := Option.map_eq_some_iff.mp hs
    exact h.call (.inr rfl) hb
  | unlock =>
    simp only [Step, exec] at hs
    split at hs
    · next err value hpc =>
      split_ifs at hs with hpos
      cases hs
      exact h.unlock hpc (le_antisymm (hguard.1 rfl) hpos)
    · cases hs
  | run fault =>
    obtain ⟨b, hb, rfl⟩ := Option.map_eq_some_iff.mp hs
    have hlocker : (∃ tryOnly, s.base.pc t = .getParams tryOnly) → t = s.base.mutex.lockerTid →
        s.base.holds t = true := by
      rintro ⟨tryOnly, hpc⟩ hl
      exact h.held t (hguard.2 tryOnly hpc hl)
    have hkept := run_kept h.excl (h.held t) (h.spent t) hb
    have heffect : Effect s.base b t :=
      MutexSystem.Step.effect (a := (t, .run fault)) h.excl (fun hpc _ => hlocker hpc) hb
    refine h.of_effect heffect (fun u hu => Function.update_of_ne hu _ _) ?_ ?_
    · rw [Function.update_self]
      exact hkept.held
    · rw [Function.update_self]
      exact hkept.spent

/-! ## Recursive locking is counted -/

/-- As long as no thread unlocks a mutex that it has locked more than once, and no thread that has not
locked it has the recorded identifier, the mutex belongs to one thread from its first lock until its
last unlock. -/
theorem recursive_counted {priority : BitVec 16}
    (h : Guarded (Started priority) Step Unnested s) : s.Counted :=
  (h.invariant Inv (fun _ => Started.inv) fun _ _ _ hi hg hs => hi.step hg hs).counted

/-! ### Runs -/

def freshRecursive : RecursiveSystem :=
  ⟨⟨⟨mutexStateUnlocked, 0xFFFF01#32, 0, 0⟩, none, fun _ => 0, fun _ => .ret .osNoErr none,
    fun _ => false⟩, fun _ => 0⟩

theorem freshRecursive_started : freshRecursive.Started 0xFFFF#16 :=
  ⟨⟨by rfl, rfl, fun _ => rfl, fun _ => rfl⟩, fun _ => rfl⟩

/-- Thread 1 locks and unlocks, then thread 2 locks. -/
def lockTwoThreads : List (Tid × MutexAct) :=
  (1, .lock) :: List.replicate 4 (1, .run none) ++ (1, .unlock) :: List.replicate 3 (1, .run none) ++
    (2, .lock) :: List.replicate 4 (2, .run none)

theorem recursive_counted_two : ∃ s : RecursiveSystem, s.depth 2 = 1 ∧ s.Counted := by
  have hval : (runActs (fun s a => if s.Unnested a then exec s a.1 a.2 else none)
      freshRecursive lockTwoThreads).map (fun s => s.depth 2) = some 1 := by decide +kernel
  obtain ⟨s, hs, he⟩ := Option.map_eq_some_iff.mp hval
  have hexec : ∀ (x : RecursiveSystem) a x',
      (if x.Unnested a then exec x a.1 a.2 else none) = some x' → x.Unnested a ∧ x.Step a x' := by
    intro x a x' h
    split_ifs at h with hg
    exact ⟨hg, h⟩
  exact ⟨s, he, recursive_counted (Guarded.runActs hexec (.start freshRecursive_started) hs)⟩

/-- Thread 1 locks twice and unlocks once; thread 2 then locks. -/
def unlockOnce : List (Tid × MutexAct) :=
  (1, .lock) :: List.replicate 4 (1, .run none) ++ (1, .lock) :: List.replicate 2 (1, .run none) ++
    (1, .unlock) :: List.replicate 3 (1, .run none) ++ (2, .lock) :: List.replicate 4 (2, .run none)

theorem one_unlock_frees : ¬ ∀ priority (s : RecursiveSystem),
    Reachable (Started priority) Step s → s.Counted := by
  intro hclaim
  have hval : (runActs (fun s a => exec s a.1 a.2) freshRecursive unlockOnce).map
      (fun s => (s.depth 1, s.depth 2)) = some (1, 1) := by decide +kernel
  obtain ⟨s, hs, he⟩ := Option.map_eq_some_iff.mp hval
  simp only [Prod.mk.injEq] at he
  have hreach : Reachable (Started 0xFFFF#16) Step s :=
    Guarded.runActs (fun _ _ _ h => ⟨trivial, h⟩) (.start freshRecursive_started) hs
  have hone := (hclaim _ s hreach).alone 1 2 (by omega) (by omega)
  exact absurd hone (by decide)

end RecursiveSystem

end UtkKernel.Sync
