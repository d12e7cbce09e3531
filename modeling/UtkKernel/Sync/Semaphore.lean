import UtkKernel.Foundations.Runs
import UtkKernel.Sync.Futex

/-! # The semaphore (`lib/libapi/src/semaphore.c`)

Any number of threads call `sem_pend`, `sem_trypend` and `sem_post` on one semaphore. One step is one
access to a field of the semaphore, an attempt on its spinlock, or a futex call: `++sem->level` is a
load and a store, and only the spinlock keeps other threads from coming between. Three counters have
no counterpart in the code: they record the calls of `sem_post`, the stores of a level counted up or
down, and the successful returns of `sem_pend` and `sem_trypend`. -/

namespace UtkKernel.Sync
set_option autoImplicit false

/-! ## Data -/

/-- `semaphore_t` -/
structure Semaphore where
  level : BitVec 32
  waiters : BitVec 32
  lock : BitVec 32
  init : Bool
  deriving DecidableEq, Repr

/-- `sem_init` -/
def semInit (initLevel : BitVec 32) : Semaphore := ⟨initLevel, 0, 0, true⟩

/-- The functions a thread calls; `sem_trypend` may be given a pointer for the level. -/
inductive SemOp
  | pend
  | trypend (value : Bool)
  | post
  deriving DecidableEq, Repr

/-- Where a thread is: before the access that names the point. -/
inductive SemPc
  | ret (err : OsReturnE) (value : Option (BitVec 32))
  | checkInit (op : SemOp)
  | spin (op : SemOp)
  | pendTest
  | waitersLoad
  | waitersStore (waiters : BitVec 32)
  | futexVal
  | pendUnlock (val : BitVec 32)
  | pendWait (val : BitVec 32)
  | blocked
  | respin (err : OsReturnE)
  | unwaitersLoad (err : OsReturnE)
  | unwaitersStore (err : OsReturnE) (waiters : BitVec 32)
  | pendCheckInit
  | tryTest (value : Bool)
  | tryValue
  | takeLoad (op : SemOp)
  | takeStore (op : SemOp) (level : BitVec 32)
  | takeValue (op : SemOp)
  | postLoad
  | postStore (level : BitVec 32)
  | postTestLevel
  | postTestWaiters
  | postWake
  | unlock (op : SemOp) (err : OsReturnE) (value : Option (BitVec 32))
  deriving DecidableEq, Repr

/-- The semaphore, its futex queue and the threads. -/
structure SemSystem (T : Type) where
  sem : Semaphore
  waitQueue : WaitQueue T
  pc : T → SemPc
  posts : ℕ
  increments : ℕ
  decrements : ℕ
  successes : ℕ

namespace SemSystem

variable {T : Type} [DecidableEq T]

def goto (s : SemSystem T) (t : T) (pc : SemPc) : SemSystem T :=
  { s with pc := Function.update s.pc t pc }

/-- The first point of a function after `SPINLOCK_LOCK`. -/
def entry : SemOp → SemPc
  | .pend => .pendTest
  | .trypend value => .tryTest value
  | .post => .postLoad

/-- `SPINLOCK_LOCK`: `lock bts` on bit 0, tried again while the bit was set. -/
def spinlockLock (s : SemSystem T) (t : T) (pc : SemPc) : Option (SemSystem T) :=
  if s.sem.lock.getLsbD 0 then none
  else some ({ s with sem := { s.sem with lock := s.sem.lock ||| 1 } }.goto t pc)

/-- `SPINLOCK_UNLOCK` -/
def spinlockUnlock (s : SemSystem T) (t : T) (pc : SemPc) : SemSystem T :=
  { s with sem := { s.sem with lock := 0 } }.goto t pc

/-- A blocked thread leaves its futex wait. -/
def resume : SemPc → SemPc
  | .blocked => .respin .osNoErr
  | pc => pc

/-- The store of `--sem->level`, for the value loaded before. -/
def storeDown (s : SemSystem T) (level : BitVec 32) : SemSystem T :=
  { s with sem := { s.sem with level := level - 1 }, decrements := s.decrements + 1 }

/-- The store of `++sem->level`, for the value loaded before. -/
def storeUp (s : SemSystem T) (level : BitVec 32) : SemSystem T :=
  { s with sem := { s.sem with level := level + 1 }, increments := s.increments + 1 }

def runWait (s : SemSystem T) (t : T) (val : BitVec 32) (fault : Option OsReturnE) : SemSystem T :=
  match futexWait s.sem.level val t fault s.waitQueue with
  | (.blocked, queue) => { s with waitQueue := queue }.goto t .blocked
  | (.returned err, queue) => { s with waitQueue := queue }.goto t (.respin err)

def runWake (s : SemSystem T) (t : T) : SemSystem T :=
  match futexWake s.sem.level 1 s.waitQueue with
  | (err, woken, queue) =>
    { s with waitQueue := queue,
             pc := fun u => if u ∈ woken then resume (s.pc u) else s.pc u }.goto t
      (.unlock .post err none)

/-- The last step of a call: the spinlock is released and the call returns. -/
def runUnlock (s : SemSystem T) (t : T) (op : SemOp) (err : OsReturnE)
    (value : Option (BitVec 32)) : SemSystem T :=
  let s' := s.spinlockUnlock t (.ret err value)
  if err = .osNoErr ∧ op ≠ .post then { s' with successes := s.successes + 1 } else s'

/-- The step of a thread in a call. -/
def run (s : SemSystem T) (t : T) (fault : Option OsReturnE) : Option (SemSystem T) :=
  match s.pc t with
  | .ret _ _ => none
  | .checkInit op =>
    if s.sem.init = false then some (s.goto t (.ret .osErrNotInitialized none))
    else some (s.goto t (.spin op))
  | .spin op => s.spinlockLock t (entry op)
  | .pendTest =>
    if s.sem.level.toInt ≤ 0 then some (s.goto t .waitersLoad)
    else some (s.goto t (.takeLoad .pend))
  | .waitersLoad => some (s.goto t (.waitersStore s.sem.waiters))
  | .waitersStore waiters =>
    some ({ s with sem := { s.sem with waiters := waiters + 1 } }.goto t .futexVal)
  | .futexVal => some (s.goto t (.pendUnlock s.sem.level))
  | .pendUnlock val => some (s.spinlockUnlock t (.pendWait val))
  | .pendWait val => some (s.runWait t val fault)
  | .blocked => none
  | .respin err => s.spinlockLock t (.unwaitersLoad err)
  | .unwaitersLoad err => some (s.goto t (.unwaitersStore err s.sem.waiters))
  | .unwaitersStore err waiters =>
    some ({ s with sem := { s.sem with waiters := waiters - 1 } }.goto t
      (if err ≠ OsReturnE.osNoErr then .unlock .pend err none else .pendCheckInit))
  | .pendCheckInit =>
    if s.sem.init = false then some (s.goto t (.unlock .pend .osErrNotInitialized none))
    else some (s.goto t .pendTest)
  | .tryTest value =>
    if s.sem.level.toInt ≤ 0 then
      some (s.goto t (if value then .tryValue
        else .unlock (.trypend value) .osErrUnauthorizedAction none))
    else some (s.goto t (.takeLoad (.trypend value)))
  | .tryValue => some (s.goto t (.unlock (.trypend true) .osErrUnauthorizedAction (some s.sem.level)))
  | .takeLoad op => some (s.goto t (.takeStore op s.sem.level))
  | .takeStore op level =>
    some ((s.storeDown level).goto t
      (if op = SemOp.trypend true then .takeValue op else .unlock op .osNoErr none))
  | .takeValue op => some (s.goto t (.unlock op .osNoErr (some s.sem.level)))
  | .postLoad => some (s.goto t (.postStore s.sem.level))
  | .postStore level => some ((s.storeUp level).goto t .postTestLevel)
  | .postTestLevel =>
    if 0 < s.sem.level.toInt then some (s.goto t .postTestWaiters)
    else some (s.goto t (.unlock .post .osNoErr none))
  | .postTestWaiters =>
    if 0 < s.sem.waiters.toInt then some (s.goto t .postWake)
    else some (s.goto t (.unlock .post .osNoErr none))
  | .postWake => some (s.runWake t)
  | .unlock op err value => some (s.runUnlock t op err value)

/-- A thread between two calls starts one, or a thread in a call goes on; a futex wait may meet a
fault. -/
inductive SemAct
  | call (op : SemOp)
  | run (fault : Option OsReturnE)
  deriving DecidableEq, Repr

def exec (s : SemSystem T) (t : T) : SemAct → Option (SemSystem T)
  | .call op =>
    match s.pc t with
    | .ret _ _ =>
      some ({ s with posts := if op = SemOp.post then s.posts + 1 else s.posts }.goto t (.checkInit op))
    | _ => none
  | .run fault => s.run t fault

/-- Some thread takes an atomic step. -/
def Step (s : SemSystem T) (a : T × SemAct) (s' : SemSystem T) : Prop :=
  s.exec a.1 a.2 = some s'

/-- The step does not count the level up past the largest 32-bit integer. -/
def NoOverflow (s : SemSystem T) (a : T × SemAct) : Prop :=
  ∀ level, s.pc a.1 = .postStore level → level.toInt < 2 ^ 31 - 1

/-- The semaphore was just initialised and no thread has called on it. -/
structure Started (initLevel : BitVec 32) (s : SemSystem T) : Prop where
  sem : s.sem = semInit initLevel
  waitQueue : s.waitQueue = none
  pc : ∀ t, s.pc t = .ret .osNoErr none
  counts : s.posts = 0 ∧ s.increments = 0 ∧ s.decrements = 0 ∧ s.successes = 0

end SemSystem

end UtkKernel.Sync
