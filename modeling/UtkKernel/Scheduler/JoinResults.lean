import UtkKernel.Scheduler.ProcessTable

/-! # What a join stores

The threads with their return values and termination causes, and the variables that joins are given. A join
of a thread that has ended stores the return value and not the cause; a join that has to wait stores both. -/

namespace UtkKernel.Scheduler
open Structures Sync Foundations
set_option autoImplicit false

/-- `THREAD_TERMINATE_CAUSE_E` -/
inductive ThreadTerminateCause
  | correctly
  | causeDivByZero
  | causePanic
  deriving DecidableEq, Repr

/-- What a thread ends with. -/
structure Ending where
  retVal : BitVec 32
  cause : ThreadTerminateCause
  deriving DecidableEq, Repr

/-- The variables that `ret_val` and `term_cause` of a join point to; there is none behind `NULL`. -/
structure JoinVars where
  retVal : Option (BitVec 32)
  termCause : Option ThreadTerminateCause
  deriving DecidableEq, Repr

/-- A join that has returned with success: the thread joined, what it has ended with, whether it was a zombie
when the join looked, whether its exit was through, and the variables before and after. -/
structure Joined where
  target : ℕ
  ending : Ending
  wasZombie : Bool
  exitDone : Bool
  before : JoinVars
  after : JoinVars
  deriving DecidableEq, Repr

/-- The scheduler, the fields `ret_val` and `return_cause` of its threads, the arguments of the calls of
`thread_exit` and of the joins that are under way, and the joins that have returned. -/
structure Results where
  sched : Sched
  retVal : ℕ → BitVec 32
  returnCause : ℕ → ThreadTerminateCause
  exitArgs : ℕ → Option Ending
  joinArgs : ℕ → JoinVars
  joined : List Joined

namespace Results
open Sched

/-- `sched_join_thread` when it finds a zombie. -/
def storeZombie (r : Results) (target : ℕ) (vars : JoinVars) : JoinVars :=
  { vars with retVal := vars.retVal.map fun _ => r.retVal target }

/-- `sched_join_thread` when it runs again. -/
def storeWoken (r : Results) (target : ℕ) (vars : JoinVars) : JoinVars :=
  ⟨vars.retVal.map fun _ => r.retVal target, vars.termCause.map fun _ => r.returnCause target⟩

/-- What a thread has ended with: the arguments of its call of `thread_exit`, or what it had when its process
exited. -/
def ending (r : Results) (target : ℕ) : Ending :=
  (r.exitArgs target).getD ⟨r.retVal target, r.returnCause target⟩

/-- The exit of a thread is through unless the thread still has its critical section to run. -/
def exitDone (r : Results) (target : ℕ) : Bool :=
  decide (r.exitArgs target = none ∨ r.sched.pc target ≠ .exitJoiner)

/-- The thread whose join returns with success in an action, and whether it was found a zombie. -/
def returning (s : Sched) : SchedAct → Option (ℕ × Bool)
  | .waitpid child =>
    if s.hasChild child ∧ s.mainJoined child = false ∧ s.mainEnded child then
      (s.processes child).map fun c => (c.mainThread, true)
    else none
  | .go _ =>
    match s.pc s.activeThread with
    | .joinCheck target =>
      (s.threads target).bind fun t => if t.state = .zombie then some (target, true) else none
    | .joinClean target | .waitJoined _ target => some (target, false)
    | _ => none
  | _ => none

/-- The join returns to its caller. -/
def recordJoin (r : Results) (vars : JoinVars) : Option (ℕ × Bool) → List Joined
  | none => r.joined
  | some (target, wasZombie) =>
    ⟨target, r.ending target, wasZombie, r.exitDone target, vars,
      if wasZombie then r.storeZombie target vars else r.storeWoken target vars⟩ :: r.joined

/-- A call of the active thread with the values it is given, or an action without any. -/
inductive ResultAct
  | exit (retVal : BitVec 32) (cause : ThreadTerminateCause)
  | join (target : ℕ) (vars : JoinVars)
  | waitpid (child : ℕ) (status : BitVec 32)
  | setCause (cause : ThreadTerminateCause)
  | other (act : SchedAct)
  deriving DecidableEq, Repr

/-- Is the action one without values? -/
def plain : SchedAct → Bool
  | .exit | .join _ | .waitpid _ => false
  | _ => true

/-- A thread that is created or copied gets the fields of a cleared structure, or those of the thread that
forks. -/
def birth (r : Results) (act : SchedAct) : Results :=
  let tid := r.sched.lastGivenTid
  let a := r.sched.activeThread
  if creates act then { r with
    retVal := Function.update r.retVal tid 0
    returnCause := Function.update r.returnCause tid .correctly
    exitArgs := Function.update r.exitArgs tid none }
  else if r.sched.forks act then { r with
    retVal := Function.update r.retVal tid (r.retVal a)
    returnCause := Function.update r.returnCause tid (r.returnCause a)
    exitArgs := Function.update r.exitArgs tid none }
  else r

/-- The critical section of `thread_exit` sets the fields of the thread. -/
def finish (r : Results) (act : SchedAct) : Results :=
  let a := r.sched.activeThread
  match act, r.sched.pc a, r.exitArgs a with
  | .go _, .exitJoiner, some e => { r with
    retVal := Function.update r.retVal a e.retVal
    returnCause := Function.update r.returnCause a e.cause }
  | _, _, _ => r

/-- One action. A thread that has exited and is elected again panics. -/
def exec (r : Results) (act : ResultAct) : Option Results :=
  let a := r.sched.activeThread
  if r.sched.pc a = .user ∧ r.exitArgs a ≠ none then none
  else
    match act with
    | .exit retVal cause => (r.sched.exec .exit).map fun s =>
      { r with sched := s, exitArgs := Function.update r.exitArgs a (some ⟨retVal, cause⟩) }
    | .join target vars => (r.sched.exec (.join target)).map fun s =>
      { r with sched := s, joinArgs := Function.update r.joinArgs a vars }
    | .waitpid child status => (r.sched.exec (.waitpid child)).map fun s =>
      { r with
        sched := s
        joinArgs := Function.update r.joinArgs a ⟨some status, some .correctly⟩
        joined := r.recordJoin ⟨some status, some .correctly⟩ (returning r.sched (.waitpid child)) }
    | .setCause cause =>
      if r.sched.pc a = .user then some { r with returnCause := Function.update r.returnCause a cause }
      else none
    | .other act =>
      if plain act then (r.sched.exec act).map fun s =>
        { (r.birth act).finish act with
          sched := s
          joined := r.recordJoin (r.joinArgs a) (returning r.sched act) }
      else none

def Step (r : Results) (act : ResultAct) (r' : Results) : Prop := r.exec act = some r'

def init : Results := ⟨schedInit, fun _ => 0, fun _ => .correctly, fun _ => none, fun _ => ⟨none, none⟩, []⟩

def Started (r : Results) : Prop := r = init

end Results

/-! ## What is stored -/

/-- What a join has stored, by the thread it has joined. -/
def Joined.Stored (j : Joined) : Prop :=
  (j.wasZombie = true → j.after =
    ⟨j.before.retVal.map fun _ => if j.exitDone then j.ending.retVal else 0, j.before.termCause⟩) ∧
  (j.wasZombie = false → j.exitDone = true → j.after =
    ⟨j.before.retVal.map fun _ => j.ending.retVal, j.before.termCause.map fun _ => j.ending.cause⟩)

/-- The fields of a thread, by the arguments of its call of `thread_exit` and whether the critical section of
the exit is still to run: they are set there, and the return value is that of a cleared structure before. -/
structure Fields (args : Option Ending) (retVal : BitVec 32) (cause : ThreadTerminateCause) (exiting : Prop) :
    Prop where
  fresh : args = none → retVal = 0
  pending : exiting → args ≠ none ∧ retVal = 0
  exited : ∀ e, args = some e → ¬ exiting → retVal = e.retVal ∧ cause = e.cause

namespace Fields

variable {args : Option Ending} {retVal : BitVec 32} {cause : ThreadTerminateCause} {exiting exiting' : Prop}

theorem congr (h : Fields args retVal cause exiting) (hiff : exiting' ↔ exiting) :
    Fields args retVal cause exiting' := by
  rw [propext hiff]
  exact h

/-- A thread that has not called `thread_exit`. -/
theorem running (hexiting : ¬ exiting) : Fields none 0 cause exiting :=
  ⟨fun _ => rfl, fun hp => absurd hp hexiting, nofun⟩

theorem done (e : Ending) (hexiting : ¬ exiting) : Fields (some e) e.retVal e.cause exiting := by
  refine ⟨nofun, fun hp => absurd hp hexiting, fun e' he' _ => ?_⟩
  cases he'
  exact ⟨rfl, rfl⟩

theorem called (e : Ending) (hexiting : exiting) : Fields (some e) 0 cause exiting :=
  ⟨nofun, fun _ => ⟨Option.some_ne_none e, rfl⟩, fun _ _ hp => absurd hexiting hp⟩

end Fields

structure ResultInv (r : Results) : Prop where
  fields : ∀ u, Fields (r.exitArgs u) (r.retVal u) (r.returnCause u) (r.sched.pc u = .exitJoiner)
  joined : ∀ j ∈ r.joined, j.Stored

namespace ResultInv
open Sched Results

variable {r : Results}

theorem init : ResultInv Results.init := ⟨fun _ => .running nofun, nofun⟩

/-- A thread whose exit is through has the fields it has ended with. -/
theorem ending_eq (h : ResultInv r) {u : ℕ} (hdone : r.exitDone u = true) :
    r.ending u = ⟨r.retVal u, r.returnCause u⟩ := by
  unfold exitDone at hdone
  rw [decide_eq_true_eq] at hdone
  unfold ending
  cases he : r.exitArgs u with
  | none => rfl
  | some e =>
    rw [he] at hdone
    obtain ⟨hret, hcause⟩ := (h.fields u).exited e he (hdone.resolve_left (Option.some_ne_none e))
    rw [hret, hcause]
    rfl

theorem retVal_eq (h : ResultInv r) (u : ℕ) :
    r.retVal u = if r.exitDone u then (r.ending u).retVal else 0 := by
  split_ifs with hdone
  · rw [h.ending_eq hdone]
  · unfold exitDone at hdone
    rw [decide_eq_true_eq, not_or, not_not] at hdone
    exact ((h.fields u).pending hdone.2).2

/-- A join that returns stores what it has to. -/
theorem recordJoin (h : ResultInv r) (vars : JoinVars) (x : Option (ℕ × Bool)) :
    ∀ j ∈ r.recordJoin vars x, j.Stored := by
  intro j hj
  cases x with
  | none => exact h.joined j hj
  | some x =>
    obtain ⟨target, wasZombie⟩ := x
    rcases List.mem_cons.mp hj with rfl | hj
    · refine ⟨fun hz => ?_, fun hz hdone => ?_⟩
      · change wasZombie = true at hz
        subst hz
        change storeZombie r target vars = ⟨vars.retVal.map fun _ =>
          if r.exitDone target then (r.ending target).retVal else 0, vars.termCause⟩
        rw [← h.retVal_eq target]
        rfl
      · change wasZombie = false at hz
        subst hz
        change storeWoken r target vars = ⟨vars.retVal.map fun _ => (r.ending target).retVal,
          vars.termCause.map fun _ => (r.ending target).cause⟩
        rw [h.ending_eq hdone]
        rfl
    · exact h.joined j hj

/-- A thread that runs its own code, and whose run goes on from there, has not called `thread_exit`. -/
theorem running (h : ResultInv r) (huser : ¬ (r.sched.pc r.sched.activeThread = .user ∧
      r.exitArgs r.sched.activeThread ≠ none)) (hpc : r.sched.pc r.sched.activeThread = .user) :
    r.exitArgs r.sched.activeThread = none ∧ r.retVal r.sched.activeThread = 0 := by
  have hnone : r.exitArgs r.sched.activeThread = none := not_not.mp fun hne => huser ⟨hpc, hne⟩
  exact ⟨hnone, (h.fields _).fresh hnone⟩

theorem step_exit (h : ResultInv r) {e : Ending} {s' : Sched} (hexec : r.sched.exec .exit = some s')
    (huser : ¬ (r.sched.pc r.sched.activeThread = .user ∧ r.exitArgs r.sched.activeThread ≠ none)) :
    ResultInv { r with
      sched := s', exitArgs := Function.update r.exitArgs r.sched.activeThread (some e) } := by
  refine ⟨fun u => ?_, h.joined⟩
  change Fields (Function.update r.exitArgs r.sched.activeThread (some e) u) (r.retVal u) (r.returnCause u)
    (s'.pc u = .exitJoiner)
  by_cases hu : u = r.sched.activeThread
  · subst hu
    have hpc : s'.pc r.sched.activeThread = .exitJoiner := by
      obtain ⟨t, ht, hact⟩ := Option.bind_eq_some_iff.mp hexec
      simp only [Sched.call, threadExit] at hact
      split_ifs at hact
      cases hact
      exact Function.update_self ..
    rw [Function.update_self, (h.running huser (pc_of_call hexec (by simp) (by simp))).2]
    exact .called e hpc
  · rw [Function.update_of_ne hu]
    refine (h.fields u).congr ?_
    have hsame : s'.pc u = r.sched.pc u :=
      ((exec_move hexec).pc_of_ne hu).resolve_right fun hand => Bool.false_ne_true hand.2.2
    rw [hsame]

/-- The critical section of an exit sets the fields, and nothing else sets those of an existing thread. -/
theorem finish_fields (h : ResultInv r) {act : SchedAct} {s' : Sched} (hexec : r.sched.exec act = some s')
    (hexit : act ≠ .exit) {u : ℕ}
    (hnew : ¬ (u = r.sched.lastGivenTid ∧ (creates act || r.sched.forks act) = true)) :
    Fields ((r.finish act).exitArgs u) ((r.finish act).retVal u) ((r.finish act).returnCause u)
      (s'.pc u = .exitJoiner) := by
  have hiff := pc_exitJoiner_iff hexec hexit hnew
  unfold finish
  dsimp only
  split
  next time e hpc he =>
    change Fields (r.exitArgs u) (Function.update r.retVal _ e.retVal u)
      (Function.update r.returnCause _ e.cause u) (s'.pc u = .exitJoiner)
    by_cases hu : u = r.sched.activeThread
    · subst hu
      rw [he, Function.update_self, Function.update_self]
      exact .done e fun hpc' => (hiff.mp hpc').2 ⟨rfl, time, rfl⟩
    · rw [Function.update_of_ne hu, Function.update_of_ne hu]
      exact (h.fields u).congr (hiff.trans (and_iff_left fun hand => hu hand.1))
  next hother =>
    refine (h.fields u).congr (hiff.trans ⟨And.left, fun hpc => ⟨hpc, ?_⟩⟩)
    rintro ⟨rfl, time, rfl⟩
    obtain ⟨e, he⟩ := Option.ne_none_iff_exists'.mp ((h.fields _).pending hpc).1
    exact hother time e rfl hpc he

theorem birth_fields (h : ResultInv r) (act : SchedAct)
    (huser : ¬ (r.sched.pc r.sched.activeThread = .user ∧ r.exitArgs r.sched.activeThread ≠ none))
    (hpc : r.sched.pc r.sched.activeThread = .user) (hnew : (creates act || r.sched.forks act) = true) :
    (r.birth act).exitArgs = Function.update r.exitArgs r.sched.lastGivenTid none ∧
      (r.birth act).retVal = Function.update r.retVal r.sched.lastGivenTid 0 ∧
      ∀ u, u ≠ r.sched.lastGivenTid → (r.birth act).returnCause u = r.returnCause u := by
  unfold birth
  dsimp only
  split_ifs with hcreates hforks
  · exact ⟨rfl, rfl, fun u hu => Function.update_of_ne hu ..⟩
  · rw [(h.running huser hpc).2]
    exact ⟨rfl, rfl, fun u hu => Function.update_of_ne hu ..⟩
  · rw [Bool.eq_false_iff.mpr hcreates, Bool.eq_false_iff.mpr hforks] at hnew
    cases hnew

/-- A thread that is created or forked has not called `thread_exit`; the others keep their fields. -/
theorem step_other (h : ResultInv r) {act : SchedAct} {s' : Sched} (hexec : r.sched.exec act = some s')
    (hexit : act ≠ .exit)
    (huser : ¬ (r.sched.pc r.sched.activeThread = .user ∧ r.exitArgs r.sched.activeThread ≠ none)) (u : ℕ) :
    let r' := (r.birth act).finish act
    Fields (r'.exitArgs u) (r'.retVal u) (r'.returnCause u) (s'.pc u = .exitJoiner) := by
  dsimp only
  by_cases hbirth : (creates act || r.sched.forks act) = true
  · have hgo : ∀ time, act ≠ .go time := by
      rintro time rfl
      cases hbirth
    have htick : ∀ time, act ≠ .tick time := by
      rintro time rfl
      cases hbirth
    have hfinish : (r.birth act).finish act = r.birth act := by
      unfold finish
      dsimp only
      split
      next time _ _ _ => exact absurd rfl (hgo time)
      next => rfl
    obtain ⟨hargs, hret, hcause⟩ := h.birth_fields act huser (pc_of_call hexec htick hgo) hbirth
    rw [hfinish, hargs, hret]
    by_cases hu : u = r.sched.lastGivenTid
    · subst hu
      rw [Function.update_self, Function.update_self]
      have hnew : s'.pc r.sched.lastGivenTid = .user := (exec_move hexec).pc_new hbirth
      exact .running (by rw [hnew]; nofun)
    · rw [Function.update_of_ne hu, Function.update_of_ne hu, hcause u hu]
      refine (h.fields u).congr ((pc_exitJoiner_iff hexec hexit fun hand => hu hand.1).trans ?_)
      exact and_iff_left fun hand => hgo _ hand.2.choose_spec
  · have hkeep : r.birth act = r := by
      rw [Bool.or_eq_true, not_or] at hbirth
      unfold birth
      rw [if_neg hbirth.1, if_neg hbirth.2]
    rw [hkeep]
    exact h.finish_fields hexec hexit fun hand => hbirth hand.2

theorem step {act : ResultAct} {r' : Results} (h : ResultInv r) (hexec : r.exec act = some r') :
    ResultInv r' := by
  unfold Results.exec at hexec
  dsimp only at hexec
  have huser : ¬ (r.sched.pc r.sched.activeThread = .user ∧ r.exitArgs r.sched.activeThread ≠ none) := by
    intro hpanic
    rw [if_pos hpanic] at hexec
    cases hexec
  rw [if_neg huser] at hexec
  cases act with
  | exit retVal cause =>
    obtain ⟨s', hs, rfl⟩ := Option.map_eq_some_iff.mp hexec
    exact h.step_exit hs huser
  | join target vars =>
    obtain ⟨s', hs, rfl⟩ := Option.map_eq_some_iff.mp hexec
    exact ⟨fun u => h.finish_fields hs nofun fun hand => Bool.false_ne_true hand.2, h.joined⟩
  | waitpid child status =>
    obtain ⟨s', hs, rfl⟩ := Option.map_eq_some_iff.mp hexec
    exact ⟨fun u => h.finish_fields hs nofun fun hand => Bool.false_ne_true hand.2, h.recordJoin _ _⟩
  | setCause cause =>
    dsimp only at hexec
    split_ifs at hexec with hpc
    cases hexec
    refine ⟨fun u => ?_, h.joined⟩
    change Fields (r.exitArgs u) (r.retVal u) (Function.update r.returnCause r.sched.activeThread cause u)
      (r.sched.pc u = .exitJoiner)
    by_cases hu : u = r.sched.activeThread
    · subst hu
      obtain ⟨hargs, hret⟩ := h.running huser hpc
      rw [hargs, hret]
      exact .running (by rw [hpc]; nofun)
    · rw [Function.update_of_ne hu]
      exact h.fields u
  | other act =>
    dsimp only at hexec
    split_ifs at hexec with hplain
    obtain ⟨s', hs, rfl⟩ := Option.map_eq_some_iff.mp hexec
    refine ⟨h.step_other hs (fun he => ?_) huser, h.recordJoin _ _⟩
    rw [he] at hplain
    cases hplain

end ResultInv

namespace Results

variable {r₁ r₂ : Results}

theorem resultInv_of_reachable {r : Results} (h : Reachable Started Step r) : ResultInv r := by
  refine h.invariant ResultInv (fun r0 hr0 => ?_) fun r0 act r1 hr0 _ hstep => hr0.step hstep
  obtain rfl : r0 = init := hr0
  exact ResultInv.init

/-- Two joins of threads with the same ending, one that found a zombie and one that was blocked while the
thread exited, store the same exactly when the zombie had run the critical section of its exit (or there is no
other return value to store) and the variable for the cause held it already. -/
theorem join_stores_same_iff (h₁ : Reachable Started Step r₁) (h₂ : Reachable Started Step r₂) {j₁ j₂ : Joined}
    (hj₁ : j₁ ∈ r₁.joined) (hj₂ : j₂ ∈ r₂.joined) (hzombie : j₁.wasZombie = true)
    (hblocked : j₂.wasZombie = false) (hexited : j₂.exitDone = true) (hending : j₁.ending = j₂.ending)
    (hbefore : j₁.before = j₂.before) :
    j₁.after = j₂.after ↔
      (j₁.before.retVal ≠ none → j₁.exitDone = true ∨ j₁.ending.retVal = 0) ∧
        ∀ v, j₁.before.termCause = some v → v = j₁.ending.cause := by
  rw [((resultInv_of_reachable h₁).joined j₁ hj₁).1 hzombie,
    ((resultInv_of_reachable h₂).joined j₂ hj₂).2 hblocked hexited, ← hending, ← hbefore, JoinVars.mk.injEq]
  refine and_congr ?_ ?_
  · cases j₁.before.retVal with
    | none => exact iff_of_true rfl fun hne => absurd rfl hne
    | some v =>
      rw [Option.map_some, Option.map_some, Option.some.injEq]
      split_ifs with hdone
      · exact iff_of_true rfl fun _ => .inl hdone
      · exact ⟨fun heq _ => .inr heq.symm,
          fun hor => ((hor (Option.some_ne_none v)).resolve_left hdone).symm⟩
  · cases j₁.before.termCause with
    | none => exact iff_of_true rfl nofun
    | some v =>
      rw [Option.map_some, Option.some.injEq]
      refine ⟨fun heq w hw => ?_, fun hall => hall v rfl⟩
      cases hw
      exact heq

/-- Init creates thread 2, which exits, and joins it then. -/
def joinLateActs (e : Ending) (vars : JoinVars) : List ResultAct :=
  [.other (.tick 0), .other (.create 0), .other (.tick 0), .exit e.retVal e.cause, .other (.go 0), .other (.go 0),
    .join 2 vars, .other (.go 0)]

/-- Init creates thread 2 and joins it, and the thread exits. -/
def joinEarlyActs (e : Ending) (vars : JoinVars) : List ResultAct :=
  [.other (.tick 0), .other (.create 0), .join 2 vars, .other (.go 0), .other (.go 0), .other (.go 0),
    .other (.go 0), .exit e.retVal e.cause, .other (.go 0), .other (.go 0), .other (.go 0)]

/-- The joins that have returned in a run. -/
def joinedBy (acts : List ResultAct) : Option (List Joined) := (runActs exec init acts).map joined

theorem exists_of_joinedBy {acts : List ResultAct} {l : List Joined} (h : joinedBy acts = some l) :
    ∃ r, Reachable Started Step r ∧ r.joined = l := by
  obtain ⟨r, hr, hl⟩ := Option.map_eq_some_iff.mp h
  have hstart : Reachable Started Step init := .start rfl
  exact ⟨r, hstart.runActs (fun _ _ _ h => ⟨trivial, h⟩) hr, hl⟩

/-- A thread ends with 7 and correctly, and the caller of the join expects a panic. -/
def endsWell : Ending := ⟨7, .correctly⟩
def expectsPanic : JoinVars := ⟨some 0, some .causePanic⟩

def joinedLate : Joined := ⟨2, endsWell, true, true, expectsPanic, ⟨some 7, some .causePanic⟩⟩
def joinedEarly : Joined := ⟨2, endsWell, false, true, expectsPanic, ⟨some 7, some .correctly⟩⟩

theorem exists_joinedLate : ∃ r, Reachable Started Step r ∧ joinedLate ∈ r.joined := by
  have hval : joinedBy (joinLateActs endsWell expectsPanic) = some [joinedLate] := by decide +kernel
  obtain ⟨r, h, he⟩ := exists_of_joinedBy hval
  exact ⟨r, h, he ▸ List.mem_singleton_self _⟩

theorem exists_joinedEarly : ∃ r, Reachable Started Step r ∧ joinedEarly ∈ r.joined := by
  have hval : joinedBy (joinEarlyActs endsWell expectsPanic) = some [joinedEarly] := by decide +kernel
  obtain ⟨r, h, he⟩ := exists_of_joinedBy hval
  exact ⟨r, h, he ▸ List.mem_singleton_self _⟩

theorem join_stores_same_late_early : joinedLate.after = joinedEarly.after ↔
    (joinedLate.before.retVal ≠ none → joinedLate.exitDone = true ∨ joinedLate.ending.retVal = 0) ∧
      ∀ v, joinedLate.before.termCause = some v → v = joinedLate.ending.cause := by
  obtain ⟨r₁, h₁, hj₁⟩ := exists_joinedLate
  obtain ⟨r₂, h₂, hj₂⟩ := exists_joinedEarly
  exact join_stores_same_iff h₁ h₂ hj₁ hj₂ rfl rfl rfl rfl rfl

/-- The join that found the zombie leaves the panic, and the one that was blocked stores the cause. -/
theorem join_order_seen : ¬ ∀ r₁ r₂ : Results, Reachable Started Step r₁ → Reachable Started Step r₂ →
    ∀ j₁ ∈ r₁.joined, ∀ j₂ ∈ r₂.joined, j₁.wasZombie = true → j₂.wasZombie = false → j₂.exitDone = true →
      j₁.ending = j₂.ending → j₁.before = j₂.before → j₁.after = j₂.after := by
  intro hclaim
  obtain ⟨r₁, h₁, hj₁⟩ := exists_joinedLate
  obtain ⟨r₂, h₂, hj₂⟩ := exists_joinedEarly
  have hsame := hclaim r₁ r₂ h₁ h₂ _ hj₁ _ hj₂ rfl rfl rfl rfl rfl
  cases hsame

end Results

end UtkKernel.Scheduler
