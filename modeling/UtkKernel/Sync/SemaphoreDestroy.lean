import UtkKernel.Sync.Reports
import UtkKernel.Sync.SemaphoreWakes

/-! # The destruction of a semaphore (`lib/libapi/src/semaphore.c`)

Any number of threads pend on a semaphore that one more thread destroys. `sem_destroy` leaves as many
tokens as there are waiters, and wakes as many threads. A thread that found the semaphore initialised and
is about to take the spinlock is no waiter; it takes one of these tokens, or the last one, and waits. -/

namespace UtkKernel.Sync
open Foundations
set_option autoImplicit false

/-- Where the destroyer is, before the access that names the point. -/
inductive SemDestroyPc
  | idle
  | checkInit
  | spin
  | storeInit
  | loadWaiters
  | loadLevel (waiters : BitVec 32)
  | storeLevel (waiters level : BitVec 32)
  | unlock (waiters : Option (BitVec 32))
  | wake (waiters : BitVec 32)
  | ret (err : OsReturnE)
  deriving DecidableEq, Repr

structure SemDestroySystem (T : Type) where
  base : SemSystem T
  destroyer : SemDestroyPc

namespace SemDestroySystem
open SemSystem

variable {T : Type} [DecidableEq T]

def advance (s : SemDestroySystem T) (pc : SemDestroyPc) : SemDestroySystem T :=
  { s with destroyer := pc }

def setSem (s : SemDestroySystem T) (sem : Semaphore) : SemDestroySystem T :=
  { s with base := { s.base with sem := sem } }

/-- `sem_destroy`, called once. -/
def runDestroy (s : SemDestroySystem T) : Option (SemDestroySystem T) :=
  match s.destroyer with
  | .idle => some (s.advance .checkInit)
  | .checkInit =>
    if s.base.sem.init = false then some (s.advance (.ret .osErrNotInitialized))
    else some (s.advance .spin)
  | .spin =>
    if s.base.sem.lock.getLsbD 0 then none
    else some ((s.setSem { s.base.sem with lock := s.base.sem.lock ||| 1 }).advance .storeInit)
  | .storeInit => some ((s.setSem { s.base.sem with init := false }).advance .loadWaiters)
  | .loadWaiters =>
    if 0 < s.base.sem.waiters.toInt then some (s.advance (.loadLevel s.base.sem.waiters))
    else some (s.advance (.unlock none))
  | .loadLevel waiters => some (s.advance (.storeLevel waiters s.base.sem.waiters))
  | .storeLevel waiters level =>
    some ((s.setSem { s.base.sem with level := level }).advance (.unlock (some waiters)))
  | .unlock none => some ((s.setSem { s.base.sem with lock := 0 }).advance (.ret .osNoErr))
  | .unlock (some waiters) => some ((s.setSem { s.base.sem with lock := 0 }).advance (.wake waiters))
  | .wake waiters =>
    match futexWake s.base.sem.level waiters.toNat s.base.waitQueue with
    | (err, woken, queue) =>
      some ({ s with base := { s.base with
        waitQueue := queue
        pc := fun u => if u ∈ woken then resume (s.base.pc u) else s.base.pc u } }.advance (.ret err))
  | .ret _ => none

/-- A thread calls `sem_pend`, a thread in the call goes on, or the destroyer does. -/
inductive SemDestroyAct (T : Type)
  | pend (t : T)
  | run (t : T) (fault : Option OsReturnE)
  | destroy

def exec (s : SemDestroySystem T) : SemDestroyAct T → Option (SemDestroySystem T)
  | .pend t => (s.base.exec t (.call .pend)).map fun b => { s with base := b }
  | .run t fault => (s.base.exec t (.run fault)).map fun b => { s with base := b }
  | .destroy => s.runDestroy

def Step (s : SemDestroySystem T) (a : SemDestroyAct T) (s' : SemDestroySystem T) : Prop :=
  s.exec a = some s'

structure Started (initLevel : BitVec 32) (s : SemDestroySystem T) : Prop where
  base : s.base.Started initLevel
  destroyer : s.destroyer = .idle

/-- The thread is in no call. -/
def returned : SemPc → Bool
  | .ret _ _ => true
  | _ => false

/-- The number of steps to the return, from the points of a pend on a destroyed semaphore. -/
def rank : SemPc → ℕ
  | .ret _ _ => 0
  | .checkInit _ => 1
  | .unlock _ _ _ => 1
  | .pendCheckInit => 2
  | .takeStore _ _ => 2
  | .unwaitersStore _ _ => 3
  | .takeLoad _ => 3
  | .unwaitersLoad _ => 4
  | .pendTest => 4
  | .respin _ => 5
  | .spin _ => 5
  | .pendWait _ => 6
  | _ => 7

/-- Nobody is blocked, every step of a call brings it nearer to its return, and some call can go on as
long as one is in progress. -/
structure Released (s : SemDestroySystem T) : Prop where
  unblocked : ∀ t, s.base.pc t ≠ .blocked
  nearer : ∀ t fault s', s.Step (.run t fault) s' → rank (s'.base.pc t) < rank (s.base.pc t)
  goesOn : (∃ t, returned (s.base.pc t) = false) →
    ∃ t fault s', returned (s.base.pc t) = false ∧ s.Step (.run t fault) s'

/-- The thread has found the semaphore initialised and is about to take the spinlock. -/
def entering : SemPc → Bool
  | .spin op => op == .pend
  | _ => false

/-- Nobody waits, or is about to, for a change from level zero. -/
def NoneAtZero (s : SemSystem T) : Prop :=
  (∀ t, s.pc t ≠ .pendWait 0) ∧ ∀ w ∈ s.waitQueue.getD [], w.wait ≠ 0

/-- When the destroyer stores that the semaphore is not initialised, the tokens it leaves go round for
the threads that are about to take the spinlock, with one to spare if somebody waits for a change from
level zero. -/
def TokensGoRound [Fintype T] (s : SemSystem T) : Prop :=
  let entering := population fun t => entering (s.pc t)
  let tokens := if 0 < s.sem.waiters.toInt then s.sem.waiters.toInt else s.sem.level.toInt
  entering = 0 ∨ (entering ≤ tokens ∧ (entering < tokens ∨ NoneAtZero s))

/-- The guard: it is about the one store of the destroyer. -/
def Harmless [Fintype T] (s : SemDestroySystem T) (a : SemDestroyAct T) : Prop :=
  match a with
  | .destroy => s.destroyer = .storeInit → TokensGoRound s.base
  | _ => True

/-! ## Points of a pend on a destroyed semaphore -/

/-- Only `sem_pend` is called. -/
def pends : SemPc → Bool
  | .checkInit op => op == .pend
  | .spin op => op == .pend
  | .takeLoad op => op == .pend
  | .takeStore op _ => op == .pend
  | .unlock op _ _ => op == .pend
  | .tryTest _ => false
  | .tryValue => false
  | .takeValue _ => false
  | .postLoad => false
  | .postStore _ => false
  | .postTestLevel => false
  | .postTestWaiters => false
  | .postWake => false
  | _ => true

/-- The points between the test that found the level not positive and the futex wait. -/
def settling : SemPc → Bool
  | .waitersLoad => true
  | .waitersStore _ => true
  | .futexVal => true
  | .pendUnlock _ => true
  | _ => false

/-- The points of a thread that is about to take a token. -/
def bidding : SemPc → Bool
  | .spin _ => true
  | .pendTest => true
  | .takeLoad _ => true
  | .takeStore _ _ => true
  | _ => false

section
variable {s b : SemSystem T} {t : T} {fault : Option OsReturnE}

theorem pends_run (hpends : pends (s.pc t) = true) (hs : s.run t fault = some b) :
    pends (b.pc t) = true := by
  unfold run at hs
  cases hpc : s.pc t <;> simp only [hpc, Option.some.injEq, reduceCtorEq] at hs <;>
    rw [hpc] at hpends <;> first | cases hpends; done | skip
  case spin op =>
    cases op <;> first | cases hpends; done | skip
    rw [(spinlockLock_goto hs).2, Function.update_self]
    rfl
  case respin =>
    rw [(spinlockLock_goto hs).2, Function.update_self]
    rfl
  case pendWait val =>
    rw [← hs]
    unfold runWait
    split <;> rw [goto_pc_self] <;> rfl
  case unlock op err value =>
    rw [← hs]
    unfold runUnlock
    dsimp only
    split_ifs
    · change pends ((s.spinlockUnlock t (.ret err value)).pc t) = true
      rw [spinlockUnlock, goto_pc_self]
      rfl
    · rw [spinlockUnlock, goto_pc_self]
      rfl
  case checkInit op => split_ifs at hs <;> cases hs <;> rw [goto_pc_self] <;> first | rfl | exact hpends
  case pendTest => split_ifs at hs <;> cases hs <;> rw [goto_pc_self] <;> rfl
  case pendCheckInit => split_ifs at hs <;> cases hs <;> rw [goto_pc_self] <;> rfl
  case unwaitersStore =>
    rw [← hs, goto_pc_self]
    split_ifs <;> rfl
  case takeLoad =>
    rw [← hs, goto_pc_self]
    exact hpends
  case takeStore op level =>
    have hop : op = .pend := eq_of_beq hpends
    rw [← hs, goto_pc_self, hop]
    rfl
  case pendUnlock =>
    rw [← hs, spinlockUnlock, goto_pc_self]
    rfl
  all_goals
    rw [← hs, goto_pc_self]
    rfl

/-- What a step of a pend does after the destruction: it takes a token or leaves everything to others. -/
structure Drain (s b : SemSystem T) (t : T) : Prop where
  pc : ∃ pc, b.pc = Function.update s.pc t pc
  queue : b.waitQueue = s.waitQueue
  settling : settling (b.pc t) = false
  awake : b.pc t ≠ .blocked ∧ ∀ val, b.pc t ≠ .pendWait val
  counted : (b.pc t).counted = true → (s.pc t).counted = true
  tokens : (b.sem.level = s.sem.level ∧ bidding (b.pc t) = bidding (s.pc t)) ∨
    (b.sem.level.toInt = s.sem.level.toInt - 1 ∧ bidding (s.pc t) = true ∧ bidding (b.pc t) = false)

theorem drain_goto {pc : SemPc} (hpc : b.pc = Function.update s.pc t pc)
    (hqueue : b.waitQueue = s.waitQueue) (hlevel : b.sem.level = s.sem.level)
    (hsettling : settling pc = false) (hawake : pc ≠ .blocked ∧ ∀ val, pc ≠ .pendWait val)
    (hcounted : pc.counted = true → (s.pc t).counted = true) (hbidding : bidding pc = bidding (s.pc t)) :
    Drain s b t := by
  have hself : b.pc t = pc := by rw [hpc, Function.update_self]
  refine ⟨⟨pc, hpc⟩, hqueue, ?_, ?_, ?_, .inl ⟨hlevel, ?_⟩⟩
  · rw [hself]
    exact hsettling
  · rw [hself]
    exact hawake
  · rw [hself]
    exact hcounted
  · rw [hself]
    exact hbidding

theorem drain_run (hpends : pends (s.pc t) = true) (hsettled : settling (s.pc t) = false)
    (hinit : s.sem.init = false) (hknows : (s.pc t).Knows s.sem)
    (htest : s.pc t = .pendTest → 0 < s.sem.level.toInt)
    (hwait : ∀ val, s.pc t = .pendWait val → s.sem.level ≠ val) (hs : s.run t fault = some b) :
    Drain s b t ∧ rank (b.pc t) < rank (s.pc t) := by
  have hnearer : ∀ {b : SemSystem T} {pc : SemPc} {n : ℕ}, b.pc = Function.update s.pc t pc →
      rank pc < n → rank (b.pc t) < n := by
    intro b pc n hpc hrank
    rw [hpc, Function.update_self]
    exact hrank
  unfold run at hs
  cases hpc : s.pc t <;> simp only [hpc, Option.some.injEq, reduceCtorEq] at hs <;>
    rw [hpc] at hpends hsettled <;> first | (cases hpends; done) | (cases hsettled; done) | skip
  case spin op =>
    cases op <;> first | cases hpends; done | skip
    obtain ⟨hlevel, hgoto⟩ := spinlockLock_level hs
    exact ⟨drain_goto hgoto (spinlockLock_goto hs).1 hlevel rfl ⟨nofun, nofun⟩ nofun (by rw [hpc]; rfl),
      hnearer hgoto (by decide)⟩
  case respin =>
    obtain ⟨hlevel, hgoto⟩ := spinlockLock_level hs
    exact ⟨drain_goto hgoto (spinlockLock_goto hs).1 hlevel rfl ⟨nofun, nofun⟩ (fun _ => by rw [hpc]; rfl)
      (by rw [hpc]; rfl), hnearer hgoto (by simp [rank])⟩
  case checkInit op =>
    rw [if_pos hinit] at hs
    cases hs
    exact ⟨drain_goto rfl rfl rfl rfl ⟨nofun, nofun⟩ nofun (by rw [hpc]; rfl),
      hnearer rfl (by simp [rank])⟩
  case pendCheckInit =>
    rw [if_pos hinit] at hs
    cases hs
    exact ⟨drain_goto rfl rfl rfl rfl ⟨nofun, nofun⟩ nofun (by rw [hpc]; rfl),
      hnearer rfl (by simp [rank])⟩
  case pendTest =>
    rw [if_neg (not_le.mpr (htest hpc))] at hs
    cases hs
    exact ⟨drain_goto rfl rfl rfl rfl ⟨nofun, nofun⟩ nofun (by rw [hpc]; rfl),
      hnearer rfl (by simp [rank])⟩
  case pendWait val =>
    have hfutex : futexWait s.sem.level val t fault s.waitQueue = (.returned .osNoErr, s.waitQueue) :=
      if_pos (hwait val hpc)
    rw [← hs, runWait, hfutex]
    exact ⟨drain_goto rfl rfl rfl rfl ⟨nofun, nofun⟩ (fun _ => by rw [hpc]; rfl) (by rw [hpc]; rfl),
      hnearer rfl (by simp [rank])⟩
  case unwaitersLoad =>
    rw [← hs]
    exact ⟨drain_goto rfl rfl rfl rfl ⟨nofun, nofun⟩ (fun _ => by rw [hpc]; rfl) (by rw [hpc]; rfl),
      hnearer rfl (by simp [rank])⟩
  case unwaitersStore =>
    rw [← hs]
    split_ifs <;> exact ⟨drain_goto rfl rfl rfl rfl ⟨nofun, nofun⟩ nofun (by rw [hpc]; rfl),
      hnearer rfl (by simp [rank])⟩
  case takeLoad =>
    rw [← hs]
    exact ⟨drain_goto rfl rfl rfl rfl ⟨nofun, nofun⟩ nofun (by rw [hpc]; rfl),
      hnearer rfl (by simp [rank])⟩
  case unlock op err value =>
    rw [← hs]
    unfold runUnlock
    dsimp only
    split_ifs <;> exact ⟨drain_goto rfl rfl rfl rfl ⟨nofun, nofun⟩ nofun (by rw [hpc]; rfl),
      hnearer rfl (by simp [rank])⟩
  case takeStore op level =>
    have hop : op = .pend := eq_of_beq hpends
    rw [hpc] at hknows
    have hlevel : (level - 1).toInt = s.sem.level.toInt - 1 := by
      rw [hknows.1, toInt_sub_one hknows.2]
    rw [hop] at hs hpc
    rw [← hs]
    refine ⟨⟨⟨_, rfl⟩, rfl, ?_, ?_, ?_, .inr ⟨hlevel, by rw [hpc]; rfl, ?_⟩⟩, ?_⟩
    · rw [goto_pc_self]
      rfl
    · rw [goto_pc_self]
      exact ⟨nofun, nofun⟩
    · rw [goto_pc_self]
      nofun
    · rw [goto_pc_self]
      rfl
    · rw [goto_pc_self, if_neg nofun]
      exact Nat.one_lt_two

/-- Outside the spinlock, and while another thread is inside, a thread that pends returns from its check
or goes through its futex wait. -/
theorem run_outside (hlocked : s.Locked) (hout : ¬ s.Inside t) (hinit : s.sem.init = false)
    (hs : s.run t fault = some b) :
    (∃ op, s.pc t = .checkInit op ∧ b = s.goto t (.ret .osErrNotInitialized none)) ∨
      ∃ val, s.pc t = .pendWait val ∧ b = s.runWait t val fault := by
  have hlock : ∀ pc, s.spinlockLock t pc = none := fun pc => if_pos hlocked
  unfold Inside at hout
  unfold run at hs
  cases hpc : s.pc t <;> simp only [hpc, Option.some.injEq, reduceCtorEq] at hs <;>
    rw [hpc] at hout <;> first | (exact absurd rfl hout) | skip
  case checkInit op =>
    rw [if_pos hinit] at hs
    cases hs
    exact .inl ⟨op, rfl, rfl⟩
  case pendWait val => exact .inr ⟨val, rfl, hs.symm⟩
  case spin op =>
    rw [hlock] at hs
    cases hs
  case respin err =>
    rw [hlock] at hs
    cases hs

end

/-! ## The phases of the destruction -/

section
variable [Fintype T]

/-- Nobody waits. -/
def NobodyWaits (s : SemSystem T) : Prop := ∀ t, s.pc t ≠ .blocked ∧ ∀ val, s.pc t ≠ .pendWait val

/-- There is a token for everybody who is about to take one, and nobody who waits can find the level he
waits with. -/
def Provided (s : SemSystem T) : Prop :=
  let bidders := population fun t => bidding (s.pc t)
  (bidders = 0 ∧ NobodyWaits s) ∨
    (bidders ≤ s.sem.level.toInt ∧ (bidders < s.sem.level.toInt ∨ NoneAtZero s))

/-- The semaphore is not initialised and nobody is on the way to a futex wait. -/
structure Closing (s : SemSystem T) : Prop where
  init : s.sem.init = false
  settling : ∀ t, settling (s.pc t) = false

structure Closed (s : SemSystem T) : Prop extends Closing s where
  provided : Provided s

def Phase (s : SemDestroySystem T) : Prop :=
  let waiting := population fun t => (s.base.pc t).counted
  match s.destroyer with
  | .idle => s.base.sem.init = true
  | .checkInit => s.base.sem.init = true
  | .spin => s.base.sem.init = true
  | .storeInit => s.base.sem.init = true
  | .loadWaiters => Closing s.base ∧ TokensGoRound s.base
  | .loadLevel waiters => Closing s.base ∧ TokensGoRound s.base ∧
      waiters = s.base.sem.waiters ∧ 0 < waiters.toInt
  | .storeLevel waiters level => Closing s.base ∧ TokensGoRound s.base ∧
      waiters = s.base.sem.waiters ∧ 0 < waiters.toInt ∧ level = waiters
  | .unlock none => Closed s.base ∧ waiting = 0
  | .unlock (some waiters) => Closed s.base ∧ waiting ≤ waiters.toNat
  | .wake waiters => Closed s.base ∧ waiting ≤ waiters.toNat
  | .ret _ => Closed s.base ∧ ∀ t, s.base.pc t ≠ .blocked

/-- Points of the destroyer between `SPINLOCK_LOCK` and `SPINLOCK_UNLOCK`. -/
def critical : SemDestroyPc → Bool
  | .storeInit => true
  | .loadWaiters => true
  | .loadLevel _ => true
  | .storeLevel _ _ => true
  | .unlock _ => true
  | _ => false

/-- Who is inside the spinlock; the destroyer is no thread. -/
def Inside (s : SemDestroySystem T) : Option T → Prop
  | none => critical s.destroyer = true
  | some t => s.base.Inside t

structure Inv (s : SemDestroySystem T) : Prop where
  exclusive : Exclusive s.base.Locked s.Inside
  tidy : s.base.Tidy
  listed : Lists (waiting s.base.waitQueue) s.base.Blocked
  pends : ∀ t, pends (s.base.pc t) = true
  phase : s.Phase

/-! ## Steps of the pends -/

variable {s : SemSystem T} {b : SemSystem T} {t : T}

theorem population_of_goto {f : SemPc → Bool} {pc : SemPc} (hpc : b.pc = Function.update s.pc t pc)
    (hf : f pc = f (s.pc t)) : (population fun u => f (b.pc u)) = population fun u => f (s.pc u) := by
  apply population_congr
  intro u
  rw [hpc]
  by_cases hu : u = t
  · rw [hu, Function.update_self, hf]
  · rw [Function.update_of_ne hu]

omit [Fintype T] in
theorem Drain.noneAtZero (h : Drain s b t) (hz : NoneAtZero s) : NoneAtZero b := by
  obtain ⟨pc, hpc⟩ := h.pc
  refine ⟨fun u => ?_, by rw [h.queue]; exact hz.2⟩
  by_cases hu : u = t
  · rw [hu]
    exact h.awake.2 0
  · rw [hpc, Function.update_of_ne hu]
    exact hz.1 u

omit [Fintype T] in
theorem Drain.nobodyWaits (h : Drain s b t) (hn : NobodyWaits s) : NobodyWaits b := by
  obtain ⟨pc, hpc⟩ := h.pc
  intro u
  by_cases hu : u = t
  · rw [hu]
    exact h.awake
  · rw [hpc, Function.update_of_ne hu]
    exact hn u

theorem Drain.provided (h : Drain s b t) (hp : Provided s) : Provided b := by
  obtain ⟨pc, hpc⟩ := h.pc
  have hothers : ∀ u, u ≠ t → bidding (b.pc u) = bidding (s.pc u) := fun u hu => by
    rw [hpc, Function.update_of_ne hu]
  rcases h.tokens with ⟨hlevel, hsame⟩ | ⟨hlevel, hfrom, hto⟩
  · have hpop : (population fun u => bidding (b.pc u)) = population fun u => bidding (s.pc u) := by
      apply population_congr
      intro u
      by_cases hu : u = t
      · rw [hu, hsame]
      · exact hothers u hu
    unfold Provided
    dsimp only
    rw [hpop, hlevel]
    exact hp.imp (fun hz => ⟨hz.1, h.nobodyWaits hz.2⟩) fun hz => ⟨hz.1, hz.2.imp_right h.noneAtZero⟩
  · have hpop := population_leave (p := fun u => bidding (s.pc u)) (q := fun u => bidding (b.pc u)) hfrom
      hto hothers
    rcases hp with ⟨hzero, -⟩ | ⟨hle, hspare⟩
    · omega
    · refine .inr ⟨by omega, hspare.imp (fun hlt => by omega) h.noneAtZero⟩

theorem Drain.counted_le (h : Drain s b t) :
    (population fun u => (b.pc u).counted) ≤ population fun u => (s.pc u).counted := by
  obtain ⟨pc, hpc⟩ := h.pc
  apply population_mono
  intro u hu
  by_cases hut : u = t
  · rw [hut] at hu ⊢
    exact h.counted hu
  · rw [hpc, Function.update_of_ne hut] at hu
    exact hu

omit [Fintype T] in
theorem Drain.closing (h : Drain s b t) (hinit : b.sem.init = s.sem.init) (hc : Closing s) :
    Closing b := by
  obtain ⟨pc, hpc⟩ := h.pc
  refine ⟨by rw [hinit, hc.init], fun u => ?_⟩
  by_cases hu : u = t
  · rw [hu]
    exact h.settling
  · rw [hpc, Function.update_of_ne hu]
    exact hc.settling u

omit [DecidableEq T] in
theorem Provided.level_pos (hp : Provided s) (hbid : bidding (s.pc t) = true) :
    0 < s.sem.level.toInt := by
  have hpos := population_pos (p := fun t => bidding (s.pc t)) hbid
  rcases hp with ⟨hzero, -⟩ | ⟨hle, -⟩ <;> omega

omit [DecidableEq T] in
/-- Nobody who waits, or is about to, does so for the level there is. -/
theorem Provided.level_ne (hp : Provided s) {val : BitVec 32} (hval : val.toInt ≤ 0)
    (hwaits : ¬ NobodyWaits s) (hz : NoneAtZero s → val ≠ 0) : s.sem.level ≠ val := by
  rintro rfl
  rcases hp with ⟨-, hn⟩ | ⟨hle, hlt | hzero⟩
  · exact hwaits hn
  · omega
  · have h0 : s.sem.level.toInt = 0 := by omega
    exact hz hzero (BitVec.eq_of_toInt_eq (by rw [h0]; rfl))

/-- A step of a thread outside the spinlock while the destroyer is inside. -/
structure Hush (s b : SemSystem T) : Prop where
  sem : b.sem = s.sem
  entering : (population fun u => entering (b.pc u)) = population fun u => entering (s.pc u)
  settling : (∀ u, settling (s.pc u) = false) → ∀ u, settling (b.pc u) = false
  noneAtZero : NoneAtZero s → NoneAtZero b

omit [DecidableEq T] in
theorem Hush.closing (h : Hush s b) (hc : Closing s) : Closing b :=
  ⟨by rw [h.sem, hc.init], h.settling hc.settling⟩

omit [DecidableEq T] in
theorem Hush.tokensGoRound (h : Hush s b) (hg : TokensGoRound s) : TokensGoRound b := by
  unfold TokensGoRound at hg ⊢
  dsimp only at hg ⊢
  rw [h.sem, h.entering]
  exact hg.imp_right fun hg => ⟨hg.1, hg.2.imp_right h.noneAtZero⟩

theorem hush_goto {pc : SemPc} (hsem : b.sem = s.sem) (hqueue : b.waitQueue = s.waitQueue)
    (hpc : b.pc = Function.update s.pc t pc) (hentering : entering pc = entering (s.pc t))
    (hsettling : SemDestroySystem.settling pc = false) (hwait : ∀ val, pc ≠ .pendWait val) : Hush s b := by
  refine ⟨hsem, population_of_goto hpc hentering, fun h u => ?_, fun h => ⟨fun u => ?_, ?_⟩⟩
  · rw [hpc]
    by_cases hu : u = t
    · rw [hu, Function.update_self, hsettling]
    · rw [Function.update_of_ne hu]
      exact h u
  · rw [hpc]
    by_cases hu : u = t
    · rw [hu, Function.update_self]
      exact hwait 0
    · rw [Function.update_of_ne hu]
      exact h.1 u
  · rw [hqueue]
    exact h.2

theorem hush_wait {val : BitVec 32} {fault : Option OsReturnE} (hpc : s.pc t = .pendWait val) :
    Hush s (s.runWait t val fault) := by
  have hentering : entering (s.pc t) = false := by rw [hpc]; rfl
  unfold runWait futexWait
  split_ifs with hvalue
  · exact hush_goto rfl rfl rfl hentering.symm rfl nofun
  · cases fault with
    | some err => exact hush_goto rfl rfl rfl hentering.symm rfl nofun
    | none =>
      have hgoto : Hush s (s.goto t .blocked) := hush_goto rfl rfl rfl hentering.symm rfl nofun
      refine ⟨rfl, hgoto.entering, hgoto.settling, fun hz => ⟨(hgoto.noneAtZero hz).1, fun w hw => ?_⟩⟩
      rcases List.mem_cons.mp hw with rfl | hw
      · rintro rfl
        exact hz.1 t hpc
      · exact hz.2 w hw

theorem hush_run {fault : Option OsReturnE} (hlocked : s.Locked) (hout : ¬ s.Inside t)
    (hinit : s.sem.init = false) (hs : s.run t fault = some b) : Hush s b := by
  rcases run_outside hlocked hout hinit hs with ⟨op, hpc, rfl⟩ | ⟨val, hpc, rfl⟩
  · exact hush_goto rfl rfl rfl (by rw [hpc]; rfl) rfl nofun
  · exact hush_wait hpc

omit [Fintype T] in
theorem call_pend (hs : s.Step (t, .call .pend) b) : (∃ err value, s.pc t = .ret err value) ∧
    b.pc = Function.update s.pc t (.checkInit .pend) ∧ b.sem = s.sem ∧ b.waitQueue = s.waitQueue := by
  simp only [SemSystem.Step, SemSystem.exec] at hs
  split at hs
  · next err value hpc =>
    cases hs
    exact ⟨⟨err, value, hpc⟩, rfl, rfl, rfl⟩
  · cases hs

end

/-! ## The steps of the pends keep the phase -/

section
variable [Fintype T] {s : SemDestroySystem T} {b : SemSystem T} {t : T}

/-- The actions of a thread that pends. -/
def IsPend (act : SemAct) : Prop := ∀ op, act = .call op → op = .pend

theorem hush_step {act : SemAct} (hact : IsPend act) (hi : s.Inv) (hcritical : critical s.destroyer = true)
    (hinit : s.base.sem.init = false) (hs : s.base.Step (t, act) b) : Hush s.base b := by
  have hlocked : s.base.Locked := hi.exclusive.locked.mpr ⟨none, hcritical⟩
  have hout : ¬ s.base.Inside t := hi.exclusive.alone (t := none) (u := some t) hcritical nofun
  cases act with
  | run fault => exact hush_run hlocked hout hinit hs
  | call op =>
    obtain rfl := hact op rfl
    obtain ⟨⟨err, value, hpc⟩, hgoto, hsem, hqueue⟩ := call_pend hs
    exact hush_goto hsem hqueue hgoto (by rw [hpc]; rfl) rfl nofun

theorem drain_step {act : SemAct} (hact : IsPend act) (hi : s.Inv) (hclosed : Closed s.base)
    (hs : s.base.Step (t, act) b) : Drain s.base b t := by
  cases act with
  | run fault =>
    refine (drain_run (hi.pends t) (hclosed.settling t) hclosed.init (hi.tidy.knows t) (fun hpc => ?_)
      (fun val hpc => ?_) hs).1
    · exact hclosed.provided.level_pos (t := t) (by rw [hpc]; rfl)
    · have hk := hi.tidy.knows t
      rw [hpc] at hk
      exact hclosed.provided.level_ne hk (fun hn => (hn t).2 val hpc) fun hz hzero =>
        hz.1 t (hzero ▸ hpc)
  | call op =>
    obtain rfl := hact op rfl
    obtain ⟨⟨err, value, hpc⟩, hgoto, hsem, hqueue⟩ := call_pend hs
    exact drain_goto hgoto hqueue (by rw [hsem]) rfl ⟨nofun, nofun⟩ nofun (by rw [hpc]; rfl)

theorem phase_step {act : SemAct} (hact : IsPend act) (hi : s.Inv) (hinit : b.sem.init = s.base.sem.init)
    (hs : s.base.Step (t, act) b) : Phase { s with base := b } := by
  have hphase := hi.phase
  have hclosed : Closed s.base → Closed b ∧ ((∀ u, s.base.pc u ≠ .blocked) → ∀ u, b.pc u ≠ .blocked) ∧
      (population fun u => (b.pc u).counted) ≤ population fun u => (s.base.pc u).counted := by
    intro hc
    have hd := drain_step hact hi hc hs
    refine ⟨⟨hd.closing hinit hc.toClosing, hd.provided hc.provided⟩, fun hn u => ?_, hd.counted_le⟩
    obtain ⟨pc, hpc⟩ := hd.pc
    by_cases hu : u = t
    · rw [hu]
      exact hd.awake.1
    · rw [hpc, Function.update_of_ne hu]
      exact hn u
  unfold Phase at hphase ⊢
  dsimp only at hphase ⊢
  cases hd : s.destroyer with
  | idle =>
    rw [hd] at hphase
    exact hinit.trans hphase
  | checkInit =>
    rw [hd] at hphase
    exact hinit.trans hphase
  | spin =>
    rw [hd] at hphase
    exact hinit.trans hphase
  | storeInit =>
    rw [hd] at hphase
    exact hinit.trans hphase
  | loadWaiters =>
    rw [hd] at hphase
    have hh := hush_step hact hi (by rw [hd]; rfl) hphase.1.init hs
    exact ⟨hh.closing hphase.1, hh.tokensGoRound hphase.2⟩
  | loadLevel waiters =>
    rw [hd] at hphase
    have hh := hush_step hact hi (by rw [hd]; rfl) hphase.1.init hs
    exact ⟨hh.closing hphase.1, hh.tokensGoRound hphase.2.1, by rw [hh.sem]; exact hphase.2.2⟩
  | storeLevel waiters level =>
    rw [hd] at hphase
    have hh := hush_step hact hi (by rw [hd]; rfl) hphase.1.init hs
    exact ⟨hh.closing hphase.1, hh.tokensGoRound hphase.2.1, by rw [hh.sem]; exact hphase.2.2⟩
  | unlock waiters =>
    rw [hd] at hphase
    cases waiters with
    | none =>
      obtain ⟨hc, -, hle⟩ := hclosed hphase.1
      exact ⟨hc, Nat.le_zero.mp (hle.trans hphase.2.le)⟩
    | some waiters =>
      obtain ⟨hc, -, hle⟩ := hclosed hphase.1
      exact ⟨hc, hle.trans hphase.2⟩
  | wake waiters =>
    rw [hd] at hphase
    obtain ⟨hc, -, hle⟩ := hclosed hphase.1
    exact ⟨hc, hle.trans hphase.2⟩
  | ret err =>
    rw [hd] at hphase
    obtain ⟨hc, hn, -⟩ := hclosed hphase.1
    exact ⟨hc, hn hphase.2⟩

theorem Inv.base_step {act : SemAct} (hact : IsPend act) (hi : s.Inv) (hs : s.base.Step (t, act) b) :
    Inv { s with base := b } := by
  have hblocked : ∀ u ∈ (futexWake s.base.sem.level 1 s.base.waitQueue).2.1,
      s.base.pc u = .blocked := fun u hu => by
    change s.base.Blocked u
    rw [← hi.listed.2, ← (futexWake_perm s.base.sem.level 1 s.base.waitQueue).mem_iff]
    exact List.mem_append_left _ hu
  have hturn := hs.turn (hi.tidy.knows t) hblocked
  refine ⟨?_, hturn.tidy (fun ht u hu => ?_) hi.tidy, hs.futexMove.lists hi.listed, fun u => ?_,
    phase_step hact hi hturn.init hs⟩
  · refine LockMove.exclusive (t := some t) hturn.lock (fun v hv => ?_) hi.exclusive
    cases v with
    | none => exact Iff.rfl
    | some u =>
      have hu : u ≠ t := fun he => hv (congrArg some he)
      exact iff_of_eq (congrArg (· = true) (hturn.critical hu))
  · exact hi.exclusive.alone (t := some t) (u := some u) ht fun he => hu (Option.some.inj he)
  · by_cases hu : u = t
    · rw [hu]
      cases act with
      | run fault => exact pends_run (hi.pends t) hs
      | call op =>
        obtain rfl := hact op rfl
        obtain ⟨-, hgoto, -, -⟩ := call_pend hs
        change SemDestroySystem.pends (b.pc t) = true
        rw [hgoto, Function.update_self]
        rfl
    · rcases hturn.others u hu with he | ⟨-, hr⟩
      · exact (congrArg SemDestroySystem.pends he).trans (hi.pends u)
      · exact congrArg SemDestroySystem.pends hr

/-! ## The steps of the destroyer -/

omit [DecidableEq T] in
/-- The number of waiters that the counter shows is the number of threads counted. -/
theorem waiters_toNat (hcard : Fintype.card T < 2 ^ 31) (h : s.base.Tidy) :
    s.base.sem.waiters.toNat = population fun t => (s.base.pc t).counted := by
  have hle := population_le_card fun t => (s.base.pc t).counted
  rw [h.waiters, BitVec.toNat_ofNat, Nat.mod_eq_of_lt]
  omega

omit [DecidableEq T] in
/-- While nobody is inside but the destroyer, who bids is who enters. -/
theorem bidding_eq_entering (hi : s.Inv) (hcritical : critical s.destroyer = true) :
    (population fun t => bidding (s.base.pc t)) = population fun t => entering (s.base.pc t) := by
  apply population_congr
  intro t
  have hout : ¬ s.base.Inside t := hi.exclusive.alone (t := none) (u := some t) hcritical nofun
  have hpends := hi.pends t
  unfold SemSystem.Inside at hout
  cases hpc : s.base.pc t <;> rw [hpc] at hout hpends <;> first | (exact absurd rfl hout) | rfl | skip
  exact hpends.symm

omit [DecidableEq T] in
/-- A step of the destroyer that moves no thread. -/
theorem Inv.of_sem (hi : s.Inv) (sem : Semaphore) {pc : SemDestroyPc}
    (hlock : LockMove s.base.Locked (sem.lock.getLsbD 0 = true) (critical s.destroyer = true)
      (critical pc = true))
    (hlevel : critical s.destroyer = true ∨ sem.level = s.base.sem.level)
    (hwaiters : sem.waiters = s.base.sem.waiters)
    (hphase : Phase ((s.setSem sem).advance pc)) : Inv ((s.setSem sem).advance pc) := by
  refine ⟨?_, ⟨fun t => ?_, ?_, hi.tidy.waits⟩, hi.listed, hi.pends, hphase⟩
  · refine LockMove.exclusive (t := none) hlock (fun v hv => ?_) hi.exclusive
    cases v with
    | none => exact absurd rfl hv
    | some u => exact Iff.rfl
  · refine knows_congr (hi.tidy.knows t) fun hc => ⟨hlevel.resolve_left fun hd => ?_, hwaiters⟩
    exact hi.exclusive.alone (t := none) (u := some t) hd nofun hc
  · exact hwaiters.trans hi.tidy.waiters

omit [DecidableEq T] in
/-- While nobody is inside, nobody is on the way to a futex wait. -/
theorem not_settling (hi : s.Inv) (hcritical : critical s.destroyer = true) (t : T) :
    settling (s.base.pc t) = false := by
  have hout : ¬ s.base.Inside t := hi.exclusive.alone (t := none) (u := some t) hcritical nofun
  unfold SemSystem.Inside at hout
  cases hpc : s.base.pc t <;> rw [hpc] at hout <;> first | rfl | exact absurd rfl hout

omit [DecidableEq T] in
theorem nobodyWaits_of_zero {s : SemSystem T} (h : (population fun t => (s.pc t).counted) = 0) :
    NobodyWaits s := by
  have hnot : ∀ t, (s.pc t).counted = false := by
    intro t
    by_contra hne
    have hpos := population_pos (p := fun t => (s.pc t).counted) (t := t) (by simpa using hne)
    omega
  intro t
  refine ⟨fun hpc => ?_, fun val hpc => ?_⟩ <;>
  · have hno := hnot t
    rw [hpc] at hno
    cases hno

omit [DecidableEq T] in
/-- The destroyer found no waiter: the tokens are those there were. -/
theorem closed_of_none (hcard : Fintype.card T < 2 ^ 31) (hi : s.Inv)
    (hd : s.destroyer = .loadWaiters) (hwaiters : ¬ 0 < s.base.sem.waiters.toInt) :
    Closed s.base ∧ (population fun t => (s.base.pc t).counted) = 0 := by
  have hphase := hi.phase
  rw [Phase, hd] at hphase
  obtain ⟨hclosing, hg⟩ := hphase
  have hzero : (population fun t => (s.base.pc t).counted) = 0 := by
    apply population_eq_zero
    intro t
    by_contra hne
    exact hwaiters (hi.tidy.waiters_pos hcard (t := t) (by simpa using hne))
  have hbid := bidding_eq_entering hi (by rw [hd]; rfl)
  refine ⟨⟨hclosing, ?_⟩, hzero⟩
  unfold TokensGoRound at hg
  dsimp only at hg
  rw [if_neg hwaiters, ← hbid] at hg
  exact hg.imp (fun h => ⟨h, nobodyWaits_of_zero hzero⟩) id

omit [DecidableEq T] in
/-- The destroyer found waiters and leaves a token for each. -/
theorem closed_of_some (hcard : Fintype.card T < 2 ^ 31) (hi : s.Inv) {waiters level : BitVec 32}
    (hd : s.destroyer = .storeLevel waiters level) :
    Closed { s.base with sem := { s.base.sem with level := level } } ∧
      (population fun t => (s.base.pc t).counted) ≤ waiters.toNat := by
  have hphase := hi.phase
  rw [Phase, hd] at hphase
  obtain ⟨hclosing, hg, hwaiters, hpos, rfl⟩ := hphase
  have hbid := bidding_eq_entering hi (by rw [hd]; rfl)
  refine ⟨⟨⟨hclosing.init, hclosing.settling⟩, ?_⟩, by rw [hwaiters, waiters_toNat hcard hi.tidy]⟩
  unfold TokensGoRound at hg
  dsimp only at hg
  rw [← hwaiters, if_pos hpos, ← hbid] at hg
  refine .inr ?_
  rcases hg with h0 | hg
  · exact ⟨by dsimp only; omega, .inl (by dsimp only; omega)⟩
  · exact hg

omit [DecidableEq T] in
/-- Everybody in the queue waits for a change that has happened. -/
theorem all_candidates (hi : s.Inv) (hclosed : Closed s.base) :
    ∀ w ∈ s.base.waitQueue.getD [], w.wait ≠ s.base.sem.level := by
  intro w hw
  refine (hclosed.provided.level_ne (hi.tidy.waits w hw) (fun hn => ?_) fun hz => hz.2 w hw).symm
  have hb : s.base.Blocked w.waitingThread := (hi.listed.2 _).mp (List.mem_map_of_mem hw)
  exact (hn w.waitingThread).1 hb

theorem length_waiting_le (hi : s.Inv) :
    (waiting s.base.waitQueue).length ≤ population fun t => (s.base.pc t).counted := by
  rw [← List.toFinset_card_of_nodup hi.listed.1]
  refine Finset.card_le_card fun t ht => ?_
  rw [List.mem_toFinset, hi.listed.2] at ht
  rw [Finset.mem_filter]
  have hpc : s.base.pc t = .blocked := ht
  refine ⟨Finset.mem_univ t, ?_⟩
  dsimp only
  rw [hpc]
  rfl

end

theorem wakeLoop_of_candidates {T : Type} {value : BitVec 32} {n : ℕ} {ws : List (FutexData T)}
    (h : ∀ w ∈ ws, w.wait ≠ value) (hn : ws.length ≤ n) :
    wakeLoop value n ws = (ws.map FutexData.waitingThread, []) := by
  induction ws generalizing n with
  | nil => cases n <;> rfl
  | cons w ws ih =>
    obtain ⟨hw, hws⟩ := List.forall_mem_cons.mp h
    cases n with
    | zero => cases hn
    | succ n =>
      rw [wakeLoop, if_pos hw, ih hws (Nat.le_of_succ_le_succ hn)]
      rfl

/-- A wake for which everybody is a candidate, and that may take so many, empties the queue. -/
theorem futexWake_of_candidates {T : Type} {value : BitVec 32} {n : ℕ} {queue : WaitQueue T}
    (h : ∀ w ∈ queue.getD [], w.wait ≠ value) (hn : (waiting queue).length ≤ n) :
    (futexWake value n queue).2.1 = waiting queue ∧ (futexWake value n queue).2.2.getD [] = [] := by
  cases queue with
  | none => exact ⟨rfl, rfl⟩
  | some ws =>
    have hlen : ws.length ≤ n := by simpa using hn
    have hloop : wakeLoop value n ws = (ws.map FutexData.waitingThread, []) :=
      wakeLoop_of_candidates h hlen
    rw [futexWake, hloop]
    exact ⟨rfl, rfl⟩

section
variable [Fintype T] {s s' : SemDestroySystem T}

omit [DecidableEq T] [Fintype T] in
theorem knows_resume {sem : Semaphore} {pc : SemPc} (h : pc.Knows sem) : (resume pc).Knows sem := by
  cases pc <;> exact h

omit [DecidableEq T] [Fintype T] in
theorem resume_eq {f : SemPc → Bool} (h : f (.respin .osNoErr) = f .blocked) (pc : SemPc) :
    f (resume pc) = f pc := by
  cases pc <;> first | rfl | exact h

/-- The threads after a wake of all that wait. -/
def woken (s : SemSystem T) (woken : List T) : T → SemPc :=
  fun u => if u ∈ woken then resume (s.pc u) else s.pc u

omit [Fintype T] in
theorem woken_eq {f : SemPc → Bool} (h : f (.respin .osNoErr) = f .blocked) (s : SemSystem T)
    (l : List T) (u : T) : f (woken s l u) = f (s.pc u) := by
  unfold woken
  split_ifs
  · exact resume_eq h _
  · rfl

omit [Fintype T] in
theorem woken_pendWait {s : SemSystem T} {l : List T} {u : T} {val : BitVec 32}
    (h : woken s l u = .pendWait val) : s.pc u = .pendWait val := by
  unfold woken at h
  split_ifs at h
  · cases hpc : s.pc u <;> rw [hpc] at h <;> cases h
    rfl
  · exact h

theorem Inv.wake (hi : s.Inv) {waiters : BitVec 32} {err : OsReturnE} {l : List T} {queue : WaitQueue T}
    (hd : s.destroyer = .wake waiters)
    (hr : futexWake s.base.sem.level waiters.toNat s.base.waitQueue = (err, l, queue)) :
    Inv ({ s with base := { s.base with waitQueue := queue, pc := woken s.base l } }.advance (.ret err)) := by
  have hphase := hi.phase
  rw [Phase, hd] at hphase
  obtain ⟨hclosed, hle⟩ := hphase
  obtain ⟨hl, hq⟩ := futexWake_of_candidates (all_candidates hi hclosed) ((length_waiting_le hi).trans hle)
  rw [hr] at hl hq
  dsimp only at hl hq
  have hnone : ∀ u, woken s.base l u ≠ .blocked := by
    intro u hu
    unfold woken at hu
    split_ifs at hu with hmem
    · exact resume_ne_blocked _ hu
    · rw [hl, hi.listed.2] at hmem
      exact hmem hu
  have hwaits : waiting queue = [] := by
    rw [waiting, hq]
    rfl
  refine ⟨?_, ⟨fun u => ?_, ?_, ?_⟩, ?_, fun u => ?_, ⟨⟨⟨hclosed.init, fun u => ?_⟩, ?_⟩, hnone⟩⟩
  · refine LockMove.exclusive (t := none) (.keep Iff.rfl ?_) (fun v hv => ?_) hi.exclusive
    · exact iff_of_false Bool.false_ne_true (by rw [Inside, hd]; exact Bool.false_ne_true)
    · cases v with
      | none => exact absurd rfl hv
      | some u => exact iff_of_eq (congrArg (· = true) (woken_eq (f := SemPc.critical) rfl s.base l u))
  · change (woken s.base l u).Knows _
    unfold woken
    split_ifs
    · exact knows_resume (hi.tidy.knows u)
    · exact hi.tidy.knows u
  · refine hi.tidy.waiters.trans (congrArg (BitVec.ofNat 32) (population_congr fun u => ?_))
    exact (woken_eq (f := SemPc.counted) rfl s.base l u).symm
  · change ∀ w ∈ queue.getD [], _
    rw [hq]
    exact fun w hw => absurd hw List.not_mem_nil
  · change Lists (waiting queue) _
    rw [hwaits]
    exact lists_nil hnone
  · exact (woken_eq (f := SemDestroySystem.pends) rfl s.base l u).trans (hi.pends u)
  · exact (woken_eq (f := SemDestroySystem.settling) rfl s.base l u).trans (hclosed.settling u)
  · have hpop : (population fun u => bidding (woken s.base l u)) =
        population fun u => bidding (s.base.pc u) :=
      population_congr fun u => woken_eq rfl s.base l u
    rcases hclosed.provided with ⟨hzero, hn⟩ | ⟨hle, hspare⟩
    · exact .inl ⟨hpop.trans hzero, fun u => ⟨hnone u, fun val hu => (hn u).2 val (woken_pendWait hu)⟩⟩
    · refine .inr ⟨?_, hspare.imp (fun hlt => ?_) fun hz => ⟨fun u hu => hz.1 u (woken_pendWait hu), ?_⟩⟩
      · dsimp only [advance]
        rw [hpop]
        exact hle
      · dsimp only [advance]
        rw [hpop]
        exact hlt
      · change ∀ w ∈ queue.getD [], _
        rw [hq]
        exact fun w hw => absurd hw List.not_mem_nil

theorem Inv.destroy_step (hcard : Fintype.card T < 2 ^ 31) (hi : s.Inv)
    (hguard : s.destroyer = .storeInit → TokensGoRound s.base) (hs : s.runDestroy = some s') :
    s'.Inv := by
  have hphase := hi.phase
  have hsame : LockMove s.base.Locked s.base.Locked (critical s.destroyer = true)
      (critical s.destroyer = true) := .keep Iff.rfl Iff.rfl
  unfold runDestroy at hs
  unfold Phase at hphase
  cases hd : s.destroyer <;> simp only [hd, Option.some.injEq, reduceCtorEq] at hs <;>
    rw [hd] at hphase hsame
  case idle =>
    rw [← hs]
    exact hi.of_sem s.base.sem (by rw [hd]; exact hsame) (.inr rfl) rfl hphase
  case checkInit =>
    rw [if_neg (by simp [hphase])] at hs
    cases hs
    exact hi.of_sem s.base.sem (by rw [hd]; exact hsame) (.inr rfl) rfl hphase
  case spin =>
    split_ifs at hs with hlock
    cases hs
    exact hi.of_sem _ (.take hlock (by simp) rfl) (.inr rfl) rfl hphase
  case storeInit =>
    rw [← hs]
    refine hi.of_sem _ (by rw [hd]; exact hsame) (.inr rfl) rfl ⟨⟨rfl, fun t => ?_⟩, hguard hd⟩
    exact not_settling hi (by rw [hd]; rfl) t
  case loadWaiters =>
    split_ifs at hs with hwaiters <;> cases hs
    · exact hi.of_sem s.base.sem (by rw [hd]; exact hsame) (.inr rfl) rfl
        ⟨hphase.1, hphase.2, rfl, hwaiters⟩
    · have hclosed := closed_of_none hcard hi hd hwaiters
      exact hi.of_sem s.base.sem (by rw [hd]; exact hsame) (.inr rfl) rfl hclosed
  case loadLevel waiters =>
    rw [← hs]
    exact hi.of_sem s.base.sem (by rw [hd]; exact hsame) (.inr rfl) rfl
      ⟨hphase.1, hphase.2.1, hphase.2.2.1, hphase.2.2.2, hphase.2.2.1.symm⟩
  case storeLevel waiters level =>
    rw [← hs]
    exact hi.of_sem _ (by rw [hd]; exact hsame) (.inl (by rw [hd]; rfl)) rfl (closed_of_some hcard hi hd)
  case unlock waiters =>
    have hrelease : ∀ pc, critical pc = false → LockMove s.base.Locked
        ((0 : BitVec 32).getLsbD 0 = true) (critical s.destroyer = true) (critical pc = true) :=
      fun pc hpc => .release (by rw [hd]; rfl) (by simp) (by rw [hpc]; exact Bool.false_ne_true)
    cases waiters with
    | none =>
      cases hs
      exact hi.of_sem _ (hrelease _ rfl) (.inr rfl) rfl ⟨⟨⟨hphase.1.init, hphase.1.settling⟩,
        hphase.1.provided⟩, fun t => (nobodyWaits_of_zero hphase.2 t).1⟩
    | some waiters =>
      cases hs
      exact hi.of_sem _ (hrelease _ rfl) (.inr rfl) rfl ⟨⟨⟨hphase.1.init, hphase.1.settling⟩,
        hphase.1.provided⟩, hphase.2⟩
  case wake waiters =>
    rw [← hs]
    exact hi.wake hd rfl

theorem Inv.step (hcard : Fintype.card T < 2 ^ 31) {a : SemDestroyAct T} (hi : s.Inv)
    (hguard : s.Harmless a) (hs : s.Step a s') : s'.Inv := by
  cases a with
  | pend t =>
    obtain ⟨b, hb, rfl⟩ := Option.map_eq_some_iff.mp hs
    have hact : IsPend (.call .pend) := fun op hop => (SemAct.call.inj hop).symm
    exact hi.base_step hact hb
  | run t fault =>
    obtain ⟨b, hb, rfl⟩ := Option.map_eq_some_iff.mp hs
    have hact : IsPend (.run fault) := fun op hop => nomatch hop
    exact hi.base_step hact hb
  | destroy => exact hi.destroy_step hcard hguard hs

omit [DecidableEq T] in
theorem Started.inv {initLevel : BitVec 32} (h : s.Started initLevel) : s.Inv := by
  have hstart : Watched.Init initLevel ⟨s.base, fun _ => false⟩ := ⟨h.base, rfl⟩
  have hbase := hstart.inv
  refine ⟨?_, hbase.tidy, hbase.listed, fun t => by rw [h.base.pc]; rfl, ?_⟩
  · have hout : ∀ v, ¬ s.Inside v := by
      intro v hv
      cases v with
      | none =>
        rw [Inside, h.destroyer] at hv
        cases hv
      | some t =>
        rw [Inside, SemSystem.Inside, h.base.pc] at hv
        cases hv
    refine ⟨iff_of_false (fun hl => ?_) fun hv => hv.elim hout, fun v _ hv _ => absurd hv (hout v)⟩
    obtain ⟨t, ht⟩ := hbase.exclusive.locked.mp hl
    exact hout (some t) ht
  · rw [Phase, h.destroyer]
    exact hbase.init

/-! ## After the return -/

omit [Fintype T] in
theorem run_enabled {s : SemSystem T} {t : T} (hblocked : s.pc t ≠ .blocked)
    (hcall : returned (s.pc t) = false) (hlock : ¬ s.Locked ∨ s.Inside t) :
    ∃ b, s.run t none = some b := by
  have hspin : ∀ pc, ¬ s.Locked → ∃ b, s.spinlockLock t pc = some b := by
    intro pc hfree
    exact ⟨_, if_neg hfree⟩
  unfold SemSystem.Inside at hlock
  unfold run
  cases hpc : s.pc t <;> rw [hpc] at hcall hlock <;> dsimp only <;> first | exact ⟨_, rfl⟩ | skip
  case ret => cases hcall
  case blocked => exact absurd hpc hblocked
  case spin op => exact hspin _ (hlock.resolve_right Bool.false_ne_true)
  case respin err => exact hspin _ (hlock.resolve_right Bool.false_ne_true)
  all_goals split_ifs <;> exact ⟨_, rfl⟩

theorem Inv.released (hi : s.Inv) {err : OsReturnE} (hd : s.destroyer = .ret err) : s.Released := by
  have hphase := hi.phase
  rw [Phase, hd] at hphase
  obtain ⟨hclosed, hnone⟩ := hphase
  refine ⟨hnone, fun t fault s' hs => ?_, ?_⟩
  · obtain ⟨b, hb, rfl⟩ := Option.map_eq_some_iff.mp hs
    refine (drain_run (hi.pends t) (hclosed.settling t) hclosed.init (hi.tidy.knows t) (fun hpc => ?_)
      (fun val hpc => ?_) hb).2
    · exact hclosed.provided.level_pos (t := t) (by rw [hpc]; rfl)
    · have hk := hi.tidy.knows t
      rw [hpc] at hk
      exact hclosed.provided.level_ne hk (fun hn => (hn t).2 val hpc) fun hz hzero =>
        hz.1 t (hzero ▸ hpc)
  · rintro ⟨t, ht⟩
    have hgo : ∀ u, returned (s.base.pc u) = false → (¬ s.base.Locked ∨ s.base.Inside u) →
        ∃ t fault s', returned (s.base.pc t) = false ∧ s.Step (.run t fault) s' := by
      intro u hu hlock
      obtain ⟨b, hb⟩ := run_enabled (hnone u) hu hlock
      exact ⟨u, none, { s with base := b }, hu, Option.map_eq_some_iff.mpr ⟨b, hb, rfl⟩⟩
    by_cases hlock : s.base.Locked
    · obtain ⟨v, hv⟩ := hi.exclusive.locked.mp hlock
      cases v with
      | none =>
        rw [Inside, hd] at hv
        cases hv
      | some u =>
        refine hgo u ?_ (.inr hv)
        rw [Inside, SemSystem.Inside] at hv
        cases hpc : s.base.pc u <;> rw [hpc] at hv <;> first | rfl | cases hv
    · exact hgo t ht (.inl hlock)

/-- In every run in which the tokens that the destroyer leaves go round, `sem_destroy` has released
everybody once it has returned: nobody is blocked, and every pend in progress comes to its return. -/
theorem destroy_releases (record : T → BitVec 32) (hrecord : Function.Injective record)
    (haligned : ∀ t, 4 ∣ (record t).toNat) {initLevel : BitVec 32}
    (h : Guarded (Started initLevel) Step Harmless s) {err : OsReturnE}
    (hd : s.destroyer = .ret err) : s.Released := by
  have hcard := card_lt_of_records record hrecord haligned
  have hi : s.Inv := h.invariant Inv (fun _ hs => hs.inv) fun _ _ _ hi hg hs => hi.step hcard hg hs
  exact hi.released hd

end

/-! ### Runs on three threads -/

instance [Fintype T] (s : SemSystem T) : Decidable (NoneAtZero s) :=
  inferInstanceAs (Decidable (_ ∧ _))

instance [Fintype T] (s : SemSystem T) : Decidable (TokensGoRound s) :=
  inferInstanceAs (Decidable (_ ∨ _))

def fresh : SemDestroySystem (Fin 3) := ⟨Watched.fresh.system, .idle⟩

theorem fresh_started : fresh.Started 0 := ⟨⟨rfl, rfl, fun _ => rfl, rfl, rfl, rfl, rfl⟩, rfl⟩

/-- A step after which the tokens go round. -/
def harmlessExec (s : SemDestroySystem (Fin 3)) (a : SemDestroyAct (Fin 3)) :
    Option (SemDestroySystem (Fin 3)) :=
  if s.destroyer = .storeInit ∧ ¬ TokensGoRound s.base then none else s.exec a

theorem harmlessExec_spec (s : SemDestroySystem (Fin 3)) (a : SemDestroyAct (Fin 3))
    (s' : SemDestroySystem (Fin 3)) (h : harmlessExec s a = some s') : s.Harmless a ∧ s.Step a s' := by
  unfold harmlessExec at h
  split_ifs at h with hbad
  refine ⟨?_, h⟩
  cases a with
  | destroy => exact fun hd => by_contra fun hg => hbad ⟨hd, hg⟩
  | pend t => trivial
  | run t fault => trivial

/-- A thread blocks, the semaphore is destroyed, and the thread returns. -/
def destroyUnderPend {T : Type} (t : T) : List (SemDestroyAct T) :=
  .pend t :: List.replicate 8 (.run t none) ++ List.replicate 9 .destroy ++ List.replicate 5 (.run t none)

theorem destroy_releases_pend : ∃ s : SemDestroySystem (Fin 3), s.destroyer = .ret .osNoErr ∧
    s.base.pc 1 = .ret .osErrNotInitialized none ∧ s.Released := by
  have hval : (runActs harmlessExec fresh (destroyUnderPend 1)).map
      (fun s => (s.destroyer, s.base.pc 1)) =
        some (.ret .osNoErr, .ret .osErrNotInitialized none) := by decide +kernel
  obtain ⟨s, hs, he⟩ := Option.map_eq_some_iff.mp hval
  simp only [Prod.mk.injEq] at he
  have hstart : Guarded (Started 0) Step Harmless fresh := .start fresh_started
  exact ⟨s, he.1, he.2, destroy_releases (fun t : Fin 3 => BitVec.ofNat 32 (4 * t.val)) (by decide)
    (by decide) (hstart.runActs harmlessExec_spec hs) he.1⟩

/-- A thread has found the semaphore initialised when it is destroyed; it takes the spinlock afterwards,
finds the level at zero and blocks. -/
def destroyBeforePend {T : Type} (t : T) : List (SemDestroyAct T) :=
  [.pend t, .run t none] ++ List.replicate 6 .destroy ++ List.replicate 7 (.run t none)

theorem pend_outlives_semaphore : ¬ ∀ initLevel (s : SemDestroySystem (Fin 3)),
    Reachable (Started initLevel) Step s → ∀ err, s.destroyer = .ret err → s.Released := by
  intro hclaim
  have hval : (runActs exec fresh (destroyBeforePend 1)).map (fun s => (s.destroyer, s.base.pc 1)) =
      some (.ret .osNoErr, .blocked) := by decide +kernel
  obtain ⟨s, hs, he⟩ := Option.map_eq_some_iff.mp hval
  simp only [Prod.mk.injEq] at he
  have hstart : Reachable (Started 0) Step fresh := .start fresh_started
  have hreach : Reachable (Started 0) Step s := hstart.runActs (fun _ _ _ h => ⟨trivial, h⟩) hs
  exact (hclaim 0 s hreach .osNoErr he.1).unblocked 1 he.2

end SemDestroySystem

end UtkKernel.Sync
