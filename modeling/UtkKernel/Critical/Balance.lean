import UtkKernel.Critical.Calls

/-! # Balanced critical sections

One lemma for each function, in the order of the model: it leaves the interrupt flag as it finds it. Three do
not, on one path each: `memory_invocate_cow`, `memory_alloc_stack` and `futex_wait` return from within their
section; and `sched_create_kernel_thread` hands on what `memory_alloc_stack` does. -/

namespace UtkKernel.Critical
open Foundations Foundations.Prog
set_option autoImplicit false

abbrev Event := Σ q, Query.Reply q

/-- Only replies to the queries that the paths out of a section depend on meet `b`. -/
structure Plain (b : Event → Prop) : Prop where
  test : ∀ x, ¬ b ⟨.test, x⟩
  turns : ∀ x, ¬ b ⟨.turns, x⟩
  report : ∀ x, ¬ b ⟨.report, x⟩

/-- No reply at all meets it. -/
abbrev Nothing : Event → Prop := fun _ => False

theorem plain_nothing : Plain Nothing := ⟨fun _ => id, fun _ => id, fun _ => id⟩

variable {b : Event → Prop}

theorem test_calm (hb : Plain b) : Calm b test := .reply hb.test

theorem repeated_calm (hb : Plain b) {body : Code Unit} (h : Calm b body) : Calm b (repeated body) :=
  (Calm.reply hb.turns).bind h.turns

theorem looped_calm (hb : Plain b) {body : Code Bool} (h : Calm b body) : Calm b (looped body) :=
  (Calm.reply hb.turns).bind h.loop

/-- A call under a condition that is tested. -/
theorem when_calm (hb : Plain b) {p : Code Unit} (h : Calm b p) : Calm b (test >>= fun c => .when c p) :=
  (test_calm hb).bind h.when

theorem assert_calm (hb : Plain b) : Calm b (test >>= fun c => .assert c) := (test_calm hb).bind .assert

/-- The section is left and nothing that enters one follows. -/
theorem closes_exit {saved : Bool} {α : Type} {f : Unit → Code α} (h : Calm b (f ())) :
    Closes b saved false (exitCritical saved >>= f) := .leave h.closes (Bool.or_false saved)

/-! ## Heap, queues and tables -/

theorem kmalloc_calm (hb : Plain b) : Calm b kmalloc :=
  (test_calm hb).bind fun _ => .ite (.pure _) <| .inSection fun _ =>
    .after (test_calm hb) fun _ => .ite (closes_exit (.pure _)) <|
      .after (test_calm hb) fun _ => .ite (closes_exit (.pure _)) (closes_exit (.pure _))

theorem kfree_calm (hb : Plain b) : Calm b kfree :=
  (test_calm hb).bind fun _ => .ite (.pure _) <| .inSection fun _ => .leaves

theorem kqueueCreateNode_calm (hb : Plain b) : Calm b kqueueCreateNode := (kmalloc_calm hb).bind .assert

theorem kqueueDeleteNode_calm (hb : Plain b) : Calm b kqueueDeleteNode :=
  (test_calm hb).bind fun _ => (Calm.assert _).bind fun _ => kfree_calm hb

theorem kqueueCreateQueue_calm (hb : Plain b) : Calm b kqueueCreateQueue := (kmalloc_calm hb).bind .assert

theorem kqueueDeleteQueue_calm (hb : Plain b) : Calm b kqueueDeleteQueue := kqueueDeleteNode_calm hb

theorem kqueueRemove_calm (hb : Plain b) : Calm b kqueueRemove := assert_calm hb

theorem uhashtableRehash_calm (hb : Plain b) : Calm b uhashtableRehash :=
  (test_calm hb).bind fun _ => .ite (.pure _) <| (kmalloc_calm hb).bind fun _ => .ite
    ((repeated_calm hb (when_calm hb (kfree_calm hb))).bind fun _ => (kfree_calm hb).bind fun _ => .pure _)
    (.pure _)

theorem uhashtableSetEntry_calm (hb : Plain b) : Calm b uhashtableSetEntry :=
  (test_calm hb).bind fun _ => .ite (.pure _) <| (test_calm hb).bind fun _ => .ite
    ((kmalloc_calm hb).bind fun _ => .ite (.pure _) (.pure _)) (.pure _)

theorem uhashtableSet_calm (hb : Plain b) : Calm b uhashtableSet :=
  (test_calm hb).bind fun _ => .ite (.pure _) <| (test_calm hb).bind fun _ => .ite
    ((uhashtableRehash_calm hb).bind fun _ => .ite (.pure _) (uhashtableSetEntry_calm hb))
    (uhashtableSetEntry_calm hb)

theorem uhashtableUnset_calm (hb : Plain b) : Calm b uhashtableUnset :=
  (test_calm hb).bind fun _ => .ite (.pure _) (.pure _)

theorem uhashtableRemove_calm (hb : Plain b) : Calm b uhashtableRemove :=
  (test_calm hb).bind fun _ => .ite (.pure _) <| (test_calm hb).bind fun _ => .ite
    ((uhashtableRehash_calm hb).bind fun _ => .ite (.pure _) (uhashtableUnset_calm hb))
    (uhashtableUnset_calm hb)

/-! ## Frames and pages -/

/-- A range that is used up, or merged with another, leaves its list. -/
theorem dropRange_calm (hb : Plain b) : Calm b (do
    kfree
    kqueueRemove
    kqueueDeleteNode) :=
  (kfree_calm hb).bind fun _ => (kqueueRemove_calm hb).bind fun _ => kqueueDeleteNode_calm hb

theorem getBlock_calm (hb : Plain b) : Calm b getBlock :=
  (test_calm hb).bind fun _ => .ite
    ((test_calm hb).bind fun c => ((dropRange_calm hb).when c).bind fun _ => .pure _) (.pure _)

theorem addBlock_calm (hb : Plain b) : Calm b addBlock :=
  (test_calm hb).bind fun _ => .ite (when_calm hb (dropRange_calm hb)) <|
    (test_calm hb).bind fun _ => (Calm.assert _).bind fun _ => (kmalloc_calm hb).bind fun _ =>
      (Calm.assert _).bind fun _ => kqueueCreateNode_calm hb

theorem memoryAllocFrames_calm (hb : Plain b) : Calm b memoryAllocFrames := (getBlock_calm hb).bind .assert

theorem memoryFreeFrames_calm (hb : Plain b) : Calm b memoryFreeFrames :=
  (addBlock_calm hb).bind fun _ => repeated_calm hb (assert_calm hb)

theorem memoryAllocPagesFrom_calm (hb : Plain b) : Calm b memoryAllocPagesFrom :=
  (getBlock_calm hb).bind .assert

theorem memoryFreePagesTo_calm (hb : Plain b) : Calm b memoryFreePagesTo := addBlock_calm hb

theorem memoryAcquireRef_calm (hb : Plain b) : Calm b memoryAcquireRef :=
  (test_calm hb).bind fun _ => (Calm.assert _).bind fun _ => assert_calm hb

theorem memoryReleaseRef_calm (hb : Plain b) : Calm b memoryReleaseRef :=
  (test_calm hb).bind fun _ => (Calm.assert _).bind fun _ => (test_calm hb).bind fun _ =>
    (Calm.assert _).bind fun _ => when_calm hb (memoryFreeFrames_calm hb)

/-! ## Mappings -/

/-- `kernel_mmap_internal` is calm where what it asks for does not meet `b` either. -/
theorem kernelMmapInternal_calm (hb : Plain b) (hmapped : ∀ x, ¬ b ⟨.isMapped, x⟩) (err : Bool) :
    Calm b (kernelMmapInternal err) :=
  (Calm.reply hmapped).bind fun _ => .ite ((Calm.assert _).bind fun _ => .pure _) <|
    (repeated_calm hb ((test_calm hb).bind fun c => ((memoryAllocFrames_calm hb).when c).bind fun _ =>
      memoryAcquireRef_calm hb)).bind fun _ => .pure _

theorem memoryMmapDirect_calm (hb : Plain b) (hmapped : ∀ x, ¬ b ⟨.isMapped, x⟩) (err : Bool) :
    Calm b (memoryMmapDirect err) :=
  .inSection fun _ => .after (kernelMmapInternal_calm hb hmapped err) fun _ => closes_exit (.pure _)

theorem memoryMmap_calm (err : Bool) : Calm Nothing (memoryMmap err) :=
  .inSection fun _ => .after (memoryAllocFrames_calm plain_nothing) fun _ =>
    .after (kernelMmapInternal_calm plain_nothing (fun _ => id) err) fun _ =>
      .after ((memoryFreeFrames_calm plain_nothing).when _) fun _ => closes_exit (.pure _)

theorem memoryMunmap_calm (hb : Plain b) : Calm b memoryMunmap :=
  .inSection fun _ => .after (repeated_calm hb ((test_calm hb).bind fun _ => .ite
    ((test_calm hb).bind fun c => ((memoryReleaseRef_calm hb).when c).bind fun _ =>
      when_calm hb (memoryFreeFrames_calm hb)) (.pure _))) fun _ => .leaves

theorem memoryFreeStack_calm (hb : Plain b) : Calm b memoryFreeStack :=
  .inSection fun _ => .after (memoryMunmap_calm hb) fun _ => .after (memoryFreePagesTo_calm hb) fun _ =>
    closes_exit (.pure _)

theorem memoryAllocPage_calm : Calm Nothing memoryAllocPage :=
  have hb := plain_nothing
  (test_calm hb).bind fun _ => (Calm.assert _).bind fun _ => (test_calm hb).bind fun _ =>
    (Calm.assert _).bind fun _ => (test_calm hb).bind fun _ => .ite (.pure _) <| .inSection fun _ =>
      .after (memoryAllocFrames_calm hb) fun _ => .after (memoryAllocPagesFrom_calm hb) fun _ =>
        .after (kernelMmapInternal_calm hb (fun _ => id) true) fun _ => .ite
          (.after (memoryFreeFrames_calm hb) fun _ => .after (memoryFreePagesTo_calm hb) fun _ => .leaves)
          .leaves

theorem memoryDeclareHw_calm : Calm Nothing memoryDeclareHw :=
  have hb := plain_nothing
  have hturn : Calm Nothing (do
      if ← test then
        let _ ← kmalloc
        return true
      else test) :=
    (test_calm hb).bind fun _ => .ite ((kmalloc_calm hb).bind fun _ => .pure _) (test_calm hb)
  .inSection fun _ => .after (looped_calm hb hturn) fun _ => .ite (closes_exit (.pure _)) <|
    .after (repeated_calm hb (when_calm hb (kfree_calm hb))) fun _ => closes_exit (.pure _)

/-! ## Futexes -/

theorem schedSchedule_calm (hb : Plain b) : Calm b schedSchedule :=
  (Calm.reply hb.report).bind fun _ => .assert _

theorem schedUnlockThread_calm (hb : Plain b) (doSchedule : Bool) : Calm b (schedUnlockThread doSchedule) :=
  (test_calm hb).bind fun _ => .ite (.pure _) <| (test_calm hb).bind fun _ => .ite (.pure _) <|
    .inSection fun _ => .after ((schedSchedule_calm hb).when _) fun _ => closes_exit (.pure _)

theorem schedThreadAddResource_calm (hb : Plain b) : Calm b schedThreadAddResource :=
  (test_calm hb).bind fun _ => .ite (.pure _) <| (kmalloc_calm hb).bind fun _ => .ite
    ((kqueueCreateNode_calm hb).bind fun _ => .pure _) (.pure _)

theorem schedThreadRemoveResource_calm (hb : Plain b) : Calm b schedThreadRemoveResource :=
  (test_calm hb).bind fun _ => .ite (.pure _) <| (kqueueRemove_calm hb).bind fun _ =>
    (kfree_calm hb).bind fun _ => (kqueueDeleteNode_calm hb).bind fun _ => .pure _

/-- A call that must not fail. -/
theorem succeed_calm {p : Code OsReturnE} (h : Calm b p) :
    Calm b (p >>= fun err => .assert (err = OsReturnE.osNoErr)) := h.bind fun _ => .assert _

theorem futexRecover_calm (hb : Plain b) (data : RecoverData) : Calm b (futexRecover data) :=
  ((succeed_calm (schedThreadRemoveResource_calm hb)).when _).bind fun _ =>
    ((kqueueRemove_calm hb).when _).bind fun _ =>
      ((kqueueDeleteNode_calm hb).when _).bind fun _ =>
        ((succeed_calm (schedUnlockThread_calm hb false)).when _).bind fun _ =>
          ((succeed_calm (uhashtableRemove_calm hb)).when _).bind fun _ =>
            (kqueueDeleteQueue_calm hb).when _

theorem futexDelete_calm (hb : Plain b) : Calm b futexDelete :=
  (uhashtableRemove_calm hb).bind fun _ => (Calm.assert _).bind fun _ => kqueueDeleteQueue_calm hb

theorem futexCleanup_calm : Calm Nothing futexCleanup :=
  have hb := plain_nothing
  (test_calm hb).bind fun _ => .ite (.pure _) <| .inSection fun _ =>
    .after (.reply fun _ => id) fun _ => .after (.assert _) fun _ =>
      .after (test_calm hb) fun _ => .after (.assert _) fun _ =>
        .after (kqueueRemove_calm hb) fun _ => .after (kqueueDeleteNode_calm hb) fun _ =>
          .after (test_calm hb) fun _ => .after ((futexDelete_calm hb).when _) fun _ => .leaves

theorem futexWaitLock_closes (hb : Plain b) (saved : Bool) (data : RecoverData) :
    Closes b saved false (futexWaitLock saved data) :=
  .after (test_calm hb) fun _ => .ite (.after (futexRecover_calm hb _) fun _ => .leaves) <|
    .after (kqueueCreateNode_calm hb) fun _ => .after (schedThreadAddResource_calm hb) fun _ => .ite
      (.after (futexRecover_calm hb _) fun _ => .leaves) (closes_exit (schedSchedule_calm hb))

theorem futexWake_calm : Calm Nothing futexWake :=
  have hb := plain_nothing
  have hturn : Calm Nothing (do
      if ← test then
        let err ← schedThreadRemoveResource
        .assert (err = .osNoErr)
        let err ← schedUnlockThread false
        .assert (err = .osNoErr)
        kqueueRemove
        kqueueDeleteNode
        if ← test then
          futexDelete
          return false
        else return true
      else return false) :=
    (test_calm hb).bind fun _ => .ite
      ((schedThreadRemoveResource_calm hb).bind fun _ => (Calm.assert _).bind fun _ =>
        (schedUnlockThread_calm hb false).bind fun _ => (Calm.assert _).bind fun _ =>
          (kqueueRemove_calm hb).bind fun _ => (kqueueDeleteNode_calm hb).bind fun _ =>
            (test_calm hb).bind fun _ => .ite ((futexDelete_calm hb).bind fun _ => .pure _) (.pure _))
      (.pure _)
  (test_calm hb).bind fun _ => (Calm.assert _).bind fun _ => (test_calm hb).bind fun _ =>
    (Calm.assert _).bind fun _ => (test_calm hb).bind fun _ => (Calm.assert _).bind fun _ =>
      .inSection fun _ => .after (.reply fun _ => id) fun _ => .ite
        (.after (futexRecover_calm hb _) fun _ => .leaves)
        (.after (looped_calm hb hturn) fun _ => .leaves)

/-! ## The memory of a process -/

theorem mmapDirect_calm (err : Bool) : Calm Nothing (memoryMmapDirect err) :=
  memoryMmapDirect_calm plain_nothing (fun _ => id) err

theorem memoryDeleteFreePageTable_calm : Calm Nothing memoryDeleteFreePageTable :=
  have hb := plain_nothing
  (test_calm hb).bind fun _ => .ite (.pure _) <| (repeated_calm hb
    ((kfree_calm hb).bind fun _ => kqueueDeleteNode_calm hb)).bind fun _ => kqueueDeleteQueue_calm hb

/-- The two temporary pages of a walk over the tables of another process. -/
theorem freePages_calm : Calm Nothing (do
    memoryFreePagesTo
    memoryFreePagesTo) :=
  (memoryFreePagesTo_calm plain_nothing).bind fun _ => memoryFreePagesTo_calm plain_nothing

theorem memoryCleanProcessMemory_calm : Calm Nothing memoryCleanProcessMemory :=
  have hb := plain_nothing
  have htable : Calm Nothing (do
      let _ ← memoryMmapDirect false
      repeated do .when (← test) memoryReleaseRef
      memoryMunmap
      memoryReleaseRef) :=
    (mmapDirect_calm false).bind fun _ =>
      (repeated_calm hb (when_calm hb (memoryReleaseRef_calm hb))).bind fun _ =>
        (memoryMunmap_calm hb).bind fun _ => memoryReleaseRef_calm hb
  (memoryAllocPagesFrom_calm hb).bind fun _ => (memoryAllocPagesFrom_calm hb).bind fun _ =>
    (mmapDirect_calm false).bind fun _ => (repeated_calm hb (when_calm hb htable)).bind fun _ =>
      (memoryMunmap_calm hb).bind fun _ => (memoryReleaseRef_calm hb).bind fun _ => freePages_calm

theorem memoryFreeProcessData_calm : Calm Nothing memoryFreeProcessData :=
  have hb := plain_nothing
  have hpage : Calm Nothing (do
      .assert (← test)
      let _ ← memoryMmapDirect false
      .assert (← test)
      memoryReleaseRef
      memoryFreePagesTo
      memoryMunmap) :=
    (test_calm hb).bind fun _ => (Calm.assert _).bind fun _ => (mmapDirect_calm false).bind fun _ =>
      (test_calm hb).bind fun _ => (Calm.assert _).bind fun _ => (memoryReleaseRef_calm hb).bind fun _ =>
        (memoryFreePagesTo_calm hb).bind fun _ => memoryMunmap_calm hb
  (test_calm hb).bind fun _ => (Calm.assert _).bind fun _ => (test_calm hb).bind fun _ =>
    (Calm.assert _).bind fun _ => (memoryAllocPagesFrom_calm hb).bind fun _ =>
      (memoryAllocPagesFrom_calm hb).bind fun _ => (mmapDirect_calm true).bind fun _ =>
        (Calm.assert _).bind fun _ => (repeated_calm hb hpage).bind fun _ =>
          (memoryMunmap_calm hb).bind fun _ => freePages_calm

theorem memoryCopySelfClean_calm (data : MemCopySelfData) (err : OsReturnE) :
    Calm Nothing (memoryCopySelfClean data err) :=
  have hb := plain_nothing
  ((memoryFreePagesTo_calm hb).when _).bind fun _ => ((memoryFreePagesTo_calm hb).when _).bind fun _ =>
    ((memoryMunmap_calm hb).when _).bind fun _ => ((memoryFreePagesTo_calm hb).when _).bind fun _ =>
      ((memoryFreeFrames_calm hb).when _).bind fun _ => ((memoryReleaseRef_calm hb).when _).bind fun _ =>
        .pure _

theorem memoryCreateNewPagedir_calm : Calm Nothing memoryCreateNewPagedir :=
  have hb := plain_nothing
  (memoryAllocFrames_calm hb).bind fun _ => (memoryAcquireRef_calm hb).bind fun _ =>
    (memoryAllocPagesFrom_calm hb).bind fun _ => (mmapDirect_calm true).bind fun _ =>
      .ite (memoryCopySelfClean_calm _ _) (.pure _)

theorem memoryCopySelfPgtable_calm : Calm Nothing memoryCopySelfPgtable :=
  have hb := plain_nothing
  have hcopy : Calm Nothing (do
      if ← test then
        memoryAllocFrames
        let err ← memoryMmapDirect true
        if err ≠ .osNoErr then
          memoryFreeFrames
          return false
        else
          memoryAcquireRef
          repeated do .when (← test) memoryAcquireRef
          memoryMunmap
          return true
      else return true) :=
    (test_calm hb).bind fun _ => .ite ((memoryAllocFrames_calm hb).bind fun _ =>
      (mmapDirect_calm true).bind fun _ => .ite ((memoryFreeFrames_calm hb).bind fun _ => .pure _)
        ((memoryAcquireRef_calm hb).bind fun _ =>
          (repeated_calm hb (when_calm hb (memoryAcquireRef_calm hb))).bind fun _ =>
            (memoryMunmap_calm hb).bind fun _ => .pure _)) (.pure _)
  have hundo : Calm Nothing (do
      let err ← memoryMmapDirect true
      .assert (err = .osNoErr)
      repeated do .when (← test) memoryReleaseRef
      memoryMunmap
      memoryFreeFrames) :=
    (mmapDirect_calm true).bind fun _ => (Calm.assert _).bind fun _ =>
      (repeated_calm hb (when_calm hb (memoryReleaseRef_calm hb))).bind fun _ =>
        (memoryMunmap_calm hb).bind fun _ => memoryFreeFrames_calm hb
  (looped_calm hb hcopy).bind fun _ => (Calm.reply fun _ => id).bind fun _ =>
    ((repeated_calm hb (when_calm hb hundo)).when _).bind fun _ => .pure _

theorem memoryCopySelfStack_calm : Calm Nothing memoryCopySelfStack :=
  have hb := plain_nothing
  have htable : Calm Nothing (do
      memoryAllocFrames
      memoryAcquireRef) :=
    (memoryAllocFrames_calm hb).bind fun _ => memoryAcquireRef_calm hb
  have hcopy : Calm Nothing (do
      .when (← test) do
        memoryAllocFrames
        memoryAcquireRef
      let err ← memoryMmapDirect true
      if err ≠ .osNoErr then
        memoryFreeFrames
        return false
      else
        memoryAllocFrames
        memoryAcquireRef
        let err ← memoryMmapDirect true
        if err ≠ .osNoErr then
          memoryMunmap
          memoryFreeFrames
          memoryFreeFrames
          return false
        else
          memoryMunmap
          memoryMunmap
          return true) :=
    (test_calm hb).bind fun _ => (htable.when _).bind fun _ => (mmapDirect_calm true).bind fun _ => .ite
      ((memoryFreeFrames_calm hb).bind fun _ => .pure _)
      ((memoryAllocFrames_calm hb).bind fun _ => (memoryAcquireRef_calm hb).bind fun _ =>
        (mmapDirect_calm true).bind fun _ => .ite
          ((memoryMunmap_calm hb).bind fun _ => (memoryFreeFrames_calm hb).bind fun _ =>
            (memoryFreeFrames_calm hb).bind fun _ => .pure _)
          ((memoryMunmap_calm hb).bind fun _ => (memoryMunmap_calm hb).bind fun _ => .pure _))
  have hundo : Calm Nothing (do
      let err ← memoryMmapDirect true
      .assert (err = .osNoErr)
      memoryFreeFrames
      memoryMunmap) :=
    (mmapDirect_calm true).bind fun _ => (Calm.assert _).bind fun _ =>
      (memoryFreeFrames_calm hb).bind fun _ => memoryMunmap_calm hb
  (looped_calm hb hcopy).bind fun _ => .ite (.pure _) <| (repeated_calm hb hundo).bind fun _ =>
    (memoryFreeFrames_calm hb).bind fun _ => .pure _

theorem pagingCopyFreePageTable_calm : Calm Nothing pagingCopyFreePageTable :=
  have hb := plain_nothing
  (kqueueCreateQueue_calm hb).bind fun _ => repeated_calm hb ((kmalloc_calm hb).bind fun _ =>
    (Calm.assert _).bind fun _ => kqueueCreateNode_calm hb)

theorem memoryCopySelfMapping_calm : Calm Nothing memoryCopySelfMapping :=
  have hb := plain_nothing
  (test_calm hb).bind fun _ => .ite (.pure _) <| memoryCreateNewPagedir_calm.bind fun _ => .ite
    (memoryCopySelfClean_calm _ _) <| (memoryAllocPagesFrom_calm hb).bind fun _ =>
      (memoryAllocPagesFrom_calm hb).bind fun _ => memoryCopySelfPgtable_calm.bind fun _ => .ite
        (memoryCopySelfClean_calm _ _) <| memoryCopySelfStack_calm.bind fun _ => .ite
          (memoryCopySelfClean_calm _ _) <| (memoryMunmap_calm hb).bind fun _ =>
            (memoryFreePagesTo_calm hb).bind fun _ => (memoryFreePagesTo_calm hb).bind fun _ =>
              (memoryFreePagesTo_calm hb).bind fun _ => pagingCopyFreePageTable_calm.bind fun _ => .pure _

/-! ## Threads and processes -/

theorem schedCleanThreadResources_calm : Calm Nothing schedCleanThreadResources :=
  have hb := plain_nothing
  (repeated_calm hb (futexCleanup_calm.bind fun _ => kqueueDeleteNode_calm hb)).bind fun _ =>
    kqueueDeleteQueue_calm hb

theorem dropNode_calm : Calm Nothing dropNode :=
  when_calm plain_nothing ((kqueueRemove_calm plain_nothing).bind fun _ =>
    kqueueDeleteNode_calm plain_nothing)

theorem cleanStacks_calm : Calm Nothing cleanStacks :=
  have hb := plain_nothing
  (test_calm hb).bind fun _ => .ite (memoryFreeProcessData_calm.bind fun _ => memoryFreeProcessData_calm) <|
    (memoryFreeStack_calm hb).bind fun _ => (Calm.assert _).bind fun _ => succeed_calm (memoryFreeStack_calm hb)

theorem schedCleanThread_calm : Calm Nothing schedCleanThread :=
  have hb := plain_nothing
  .inSection fun _ => .after schedCleanThreadResources_calm fun _ => .after cleanStacks_calm fun _ =>
    .after dropNode_calm fun _ => .after dropNode_calm fun _ => .after (test_calm hb) fun _ =>
      .after (.assert _) fun _ => .after (kqueueRemove_calm hb) fun _ =>
        .after (kqueueDeleteNode_calm hb) fun _ => .after (kfree_calm hb) fun _ => .leaves

theorem schedCopyKernelThread_calm : Calm Nothing schedCopyKernelThread :=
  have hb := plain_nothing
  (test_calm hb).bind fun _ => (Calm.assert _).bind fun _ => (kqueueCreateQueue_calm hb).bind fun _ =>
    .inSection fun _ => closes_exit (.pure _)

theorem threadExit_calm : Calm Nothing threadExit :=
  have hb := plain_nothing
  (test_calm hb).bind fun _ => (Calm.assert _).bind fun _ => .inSection fun _ =>
    .after (kqueueDeleteNode_calm hb) fun _ => closes_exit <|
      (schedSchedule_calm hb).bind fun _ => .assert _

theorem schedJoinThread_calm : Calm Nothing schedJoinThread :=
  have hb := plain_nothing
  (test_calm hb).bind fun _ => .ite (.pure _) <| (test_calm hb).bind fun _ => .ite (.pure _) <|
    (test_calm hb).bind fun _ => .ite (schedCleanThread_calm.bind fun _ => .pure _) <|
      (schedSchedule_calm hb).bind fun _ => schedCleanThread_calm.bind fun _ => .pure _

theorem schedCleanProcess_calm : Calm Nothing schedCleanProcess :=
  have hb := plain_nothing
  .inSection fun _ => .after (repeated_calm hb schedCleanThread_calm) fun _ =>
    .after memoryDeleteFreePageTable_calm fun _ => .after memoryCleanProcessMemory_calm fun _ =>
      .after (kqueueDeleteQueue_calm hb) fun _ => .after (kqueueDeleteQueue_calm hb) fun _ =>
        .after (kfree_calm hb) fun _ => .leaves

theorem forkFree_calm (mainThread : Bool) : Calm Nothing (forkFree mainThread) :=
  have hb := plain_nothing
  (kqueueDeleteQueue_calm hb).bind fun _ => (kqueueDeleteQueue_calm hb).bind fun _ =>
    (kqueueDeleteNode_calm hb).bind fun _ => ((kfree_calm hb).when _).bind fun _ => kfree_calm hb

theorem schedForkProcess_calm : Calm Nothing schedForkProcess :=
  have hb := plain_nothing
  (test_calm hb).bind fun _ => (Calm.assert _).bind fun _ => (test_calm hb).bind fun _ =>
    (Calm.assert _).bind fun _ => (test_calm hb).bind fun _ => .ite (.pure _) <|
      (kmalloc_calm hb).bind fun _ => .ite ((kqueueCreateNode_calm hb).bind fun _ => .inSection fun _ =>
        .after (kqueueCreateQueue_calm hb) fun _ => .after (kqueueCreateQueue_calm hb) fun _ =>
          .after (kqueueCreateQueue_calm hb) fun _ => .after (kmalloc_calm hb) fun _ => .ite
            (.after schedCopyKernelThread_calm fun _ => .ite
              (.after (kqueueRemove_calm hb) fun _ => closes_exit (forkFree_calm true)) <|
              .after (kqueueCreateNode_calm hb) fun _ => .after (kqueueCreateNode_calm hb) fun _ =>
                .after memoryCopySelfMapping_calm fun _ => .ite
                  (.after (kqueueRemove_calm hb) fun _ => .after (kqueueRemove_calm hb) fun _ =>
                    .after schedCleanThreadResources_calm fun _ => .after (kqueueRemove_calm hb) fun _ =>
                      closes_exit ((kqueueDeleteNode_calm hb).bind fun _ =>
                        (kqueueDeleteNode_calm hb).bind fun _ => forkFree_calm true)) .leaves)
            (.after (kqueueRemove_calm hb) fun _ => closes_exit (forkFree_calm false))) (.pure _)

/-- The second exit from the section of `sched_wait_process_pid` finds the flag restored. -/
theorem schedWaitProcessPid_calm : Calm Nothing schedWaitProcessPid :=
  have hb := plain_nothing
  (test_calm hb).bind fun _ => (Calm.assert _).bind fun _ => (test_calm hb).bind fun _ =>
    (Calm.assert _).bind fun _ => .inSection fun saved => .after (test_calm hb) fun _ => .ite .leaves <|
      .after schedJoinThread_calm fun _ => .leave (.after schedCleanProcess_calm fun _ =>
        .after (kqueueRemove_calm hb) fun _ => .leave (kqueueDeleteNode_calm hb).closes (Bool.or_self saved))
          (Bool.or_false saved)

theorem schedExitProcess_calm : Calm Nothing schedExitProcess :=
  have hb := plain_nothing
  (test_calm hb).bind fun _ => (Calm.assert _).bind fun _ => .inSection fun _ =>
    .after (repeated_calm hb (dropNode_calm.bind fun _ => dropNode_calm)) fun _ =>
      .after (test_calm hb) fun _ => .after (.assert _) fun _ => .after (kqueueRemove_calm hb) fun _ =>
        .after (kqueueDeleteNode_calm hb) fun _ => .after (schedSchedule_calm hb) fun _ =>
          .after (.assert _) fun _ => .leaves

/-! ## Sections that a path does not leave -/

/-- The replies that lead a function out of its section without leaving it: a frame that is shared, a page of
the stack that is mapped already, a table that cannot be searched. -/
def Function.Strays : Function → Event → Prop
  | .memoryInvocateCow, ⟨.refCount, refCount⟩ => 1 < refCount
  | .memoryAllocStack _, ⟨.isMapped, mapped⟩ => mapped = true
  | .schedCreateKernelThread, ⟨.isMapped, mapped⟩ => mapped = true
  | .futexWait, ⟨.uhashtableGet, err⟩ => err ≠ .osNoErr ∧ err ≠ .osErrNoSuchId
  | _, _ => False

theorem memoryInvocateCow_ends (e : Bool) : Ends Function.memoryInvocateCow.Strays e e memoryInvocateCow := by
  have hb : Plain Function.memoryInvocateCow.Strays := ⟨fun _ => id, fun _ => id, fun _ => id⟩
  refine .after (test_calm hb) fun _ => .after (.assert _) fun _ => .inSection ?_
  refine .after (test_calm hb) fun _ => .ite (.after (test_calm hb) fun _ => .ite ?_ ?_) ?_
  · unfold memoryGetRefCount
    rw [bind_assoc]
    refine .after (test_calm hb) fun _ => ?_
    rw [bind_assoc]
    refine .after (.assert _) fun _ => .reply (fun refCount hone => ?_) fun refCount hshared => ?_
    · refine .after (.assert _) fun _ => ?_
      rw [if_neg (show ¬ refCount > 1 from hone)]
      exact Closes.ends (closes_exit (.pure _))
    · -- the comparison with the error that nothing has set fails, and the function returns
      refine .after (.assert _) fun _ => ?_
      rw [if_pos (show refCount > 1 from hshared), if_pos (by decide)]
      exact Calm.ends_false ((memoryAllocFrames_calm hb).bind fun _ => (memoryAcquireRef_calm hb).bind fun _ =>
        (memoryAllocPagesFrom_calm hb).bind fun _ => (memoryFreeFrames_calm hb).bind fun _ => .pure _)
  · exact Closes.ends (closes_exit (.pure _))
  · exact Closes.ends (closes_exit (.pure _))

theorem memoryAllocStack_ends {b : Event → Prop} (hb : Plain b) (hmapped : ∀ x, b ⟨.isMapped, x⟩ ↔ x = true)
    (err e : Bool) : Ends b e e (memoryAllocStack err) := by
  refine .after (test_calm hb) fun _ => .ite ?_ (.inSection ?_)
  · exact Calm.ends ((Calm.assert _).bind fun _ => .pure _) e
  · refine .after (memoryAllocFrames_calm hb) fun _ => .after (memoryAllocPagesFrom_calm hb) fun _ => ?_
    unfold kernelMmapInternal
    rw [bind_assoc]
    refine .reply (fun mapped hnew => ?_) fun mapped hold => ?_
    · rw [if_neg ((hmapped mapped).not.mp hnew), bind_assoc]
      refine .after (repeated_calm hb ((test_calm hb).bind fun c => ((memoryAllocFrames_calm hb).when c).bind
        fun _ => memoryAcquireRef_calm hb)) fun _ => ?_
      rw [pure_bind, if_neg fun hfail => hfail.2 rfl]
      exact Closes.ends (closes_exit ((test_calm hb).bind fun _ => .pure _))
    · rw [if_pos ((hmapped mapped).mp hold), bind_assoc]
      cases err with
      | false => exact Calm.ends_false (Calm.stop (b := b))
      | true =>
        refine .after (.assert _) fun _ => ?_
        rw [pure_bind, if_pos ⟨rfl, by decide⟩]
        exact Calm.ends_false ((memoryFreeFrames_calm hb).bind fun _ =>
          (memoryFreePagesTo_calm hb).bind fun _ => .pure _)

theorem schedCreateKernelThread_ends (e : Bool) :
    Ends Function.schedCreateKernelThread.Strays e e schedCreateKernelThread := by
  have hb : Plain Function.schedCreateKernelThread.Strays := ⟨fun _ => id, fun _ => id, fun _ => id⟩
  have hstack := fun e => memoryAllocStack_ends hb (fun _ => Iff.rfl) true e
  have hfree : Calm Function.schedCreateKernelThread.Strays (do
      kqueueDeleteNode
      kqueueDeleteNode) := (kqueueDeleteNode_calm hb).bind fun _ => kqueueDeleteNode_calm hb
  refine .after (test_calm hb) fun _ => .ite (Calm.ends (.pure _) e) ?_
  refine .after (test_calm hb) fun _ => .ite (Calm.ends (.pure _) e) ?_
  refine .after (test_calm hb) fun _ => .ite (Calm.ends (.pure _) e) ?_
  refine .after (kmalloc_calm hb) fun _ => .ite ?_ (Calm.ends (.pure _) e)
  refine .after (kqueueCreateNode_calm hb) fun _ => .after (kqueueCreateNode_calm hb) fun _ => ?_
  refine .bind hstack (fun kstack e => .ite (Calm.ends ?_ e) ?_) e
  · exact (kqueueDeleteNode_calm hb).bind fun _ => (kqueueDeleteNode_calm hb).bind fun _ =>
      (kfree_calm hb).bind fun _ => .pure _
  refine .bind hstack (fun stack e => .ite (Calm.ends ?_ e) (Calm.ends ?_ e)) e
  · exact (kqueueDeleteNode_calm hb).bind fun _ => (kqueueDeleteNode_calm hb).bind fun _ =>
      (memoryFreeStack_calm hb).bind fun _ => (Calm.assert _).bind fun _ =>
        (kfree_calm hb).bind fun _ => .pure _
  · exact (kqueueCreateQueue_calm hb).bind fun _ => .inSection fun _ => closes_exit (.pure _)

theorem futexWait_ends (e : Bool) : Ends Function.futexWait.Strays e e futexWait := by
  have hb : Plain Function.futexWait.Strays := ⟨fun _ => id, fun _ => id, fun _ => id⟩
  refine .after (test_calm hb) fun _ => .after (.assert _) fun _ => .after (test_calm hb) fun _ => ?_
  refine .after (.assert _) fun _ => .after (test_calm hb) fun _ => .after (.assert _) fun _ => .inSection ?_
  refine .after (test_calm hb) fun _ => .ite (Closes.ends .leaves) ?_
  refine .reply (fun err hfound => ?_) fun err hlost => ?_
  · by_cases hok : err = .osNoErr
    · rw [if_pos hok]
      exact (futexWaitLock_closes hb e _).ends
    · rw [if_neg hok, if_pos (not_not.mp fun hne => hfound ⟨hok, hne⟩)]
      refine Closes.ends (.after (kqueueCreateQueue_calm hb) fun _ => .after (uhashtableSet_calm hb) fun _ => ?_)
      exact .ite (.after (futexRecover_calm hb _) fun _ => .leaves) (futexWaitLock_closes hb e _)
  · -- the table reports another error: the recovery is run and the function returns
    rw [if_neg hlost.1, if_neg hlost.2]
    exact Calm.ends_false (futexRecover_calm hb _)

/-- What a call of a function returns does not matter. -/
theorem ends_call {α : Type} {p : Code α} {f : Function} (h : ∀ e, Ends f.Strays e e p) (e : Bool) :
    Ends f.Strays e e (p >>= fun _ => pure ()) := .bind h (fun _ e => Calm.ends (.pure ()) e) e

/-- A function that cannot stray. -/
theorem ends_calm {α : Type} {p : Code α} {f : Function} (h : Calm Nothing p) (hf : ∀ q x, ¬ f.Strays ⟨q, x⟩)
    (e : Bool) : Ends f.Strays e e p := (h.mono fun x => hf x.1 x.2).ends e

theorem Function.ends (f : Function) (e : Bool) : Ends f.Strays e e f.call := by
  have hb := plain_nothing
  cases f with
  | memoryInvocateCow => exact ends_call memoryInvocateCow_ends e
  | memoryAllocStack err =>
    refine ends_call (memoryAllocStack_ends ⟨fun _ => id, fun _ => id, fun _ => id⟩ (fun _ => Iff.rfl) err) e
  | schedCreateKernelThread => exact ends_call schedCreateKernelThread_ends e
  | futexWait => exact futexWait_ends e
  | memoryFreeStack => exact ends_call (ends_calm (memoryFreeStack_calm hb) fun q _ => by cases q <;> exact id) e
  | memoryMmap err => exact ends_call (ends_calm (memoryMmap_calm err) fun q _ => by cases q <;> exact id) e
  | memoryMmapDirect err => exact ends_call (ends_calm (mmapDirect_calm err) fun q _ => by cases q <;> exact id) e
  | memoryMunmap => exact ends_calm (memoryMunmap_calm hb) (fun q _ => by cases q <;> exact id) e
  | memoryDeclareHw => exact ends_call (ends_calm memoryDeclareHw_calm fun q _ => by cases q <;> exact id) e
  | memoryAllocPage => exact ends_calm memoryAllocPage_calm (fun q _ => by cases q <;> exact id) e
  | futexCleanup => exact ends_calm futexCleanup_calm (fun q _ => by cases q <;> exact id) e
  | futexWake => exact ends_calm futexWake_calm (fun q _ => by cases q <;> exact id) e
  | schedCleanProcess => exact ends_calm schedCleanProcess_calm (fun q _ => by cases q <;> exact id) e
  | schedForkProcess => exact ends_calm schedForkProcess_calm (fun q _ => by cases q <;> exact id) e
  | schedWaitProcessPid => exact ends_calm schedWaitProcessPid_calm (fun q _ => by cases q <;> exact id) e
  | schedExitProcess => exact ends_calm schedExitProcess_calm (fun q _ => by cases q <;> exact id) e
  | threadExit => exact ends_calm threadExit_calm (fun q _ => by cases q <;> exact id) e
  | schedCopyKernelThread =>
    exact ends_call (ends_calm schedCopyKernelThread_calm fun q _ => by cases q <;> exact id) e
  | schedCleanThread => exact ends_calm schedCleanThread_calm (fun q _ => by cases q <;> exact id) e
  | schedUnlockThread doSchedule =>
    exact ends_call (ends_calm (schedUnlockThread_calm hb doSchedule) fun q _ => by cases q <;> exact id) e

/-! ## Main result -/

/-- A function that returns has left the interrupt flag as it was exactly when the flag was cleared already or
no call led it out of its section. -/
theorem critical_balanced_iff (f : Function) {e e' : Bool} {tr : List Event} {r : Unit}
    (h : f.call.Runs e tr r e') : e' = e ↔ (e = true → ∀ x ∈ tr, ¬ f.Strays x) := (f.ends e).restored_iff h

/-- A fault on a page whose frame another process shares, and every allocation succeeds. -/
def sharedFault : List Event :=
  [⟨.test, true⟩, ⟨.test, true⟩, ⟨.test, true⟩, ⟨.test, true⟩, ⟨.refCount, 2⟩, ⟨.test, true⟩, ⟨.test, false⟩,
    ⟨.test, true⟩, ⟨.test, true⟩, ⟨.test, true⟩, ⟨.test, false⟩, ⟨.test, true⟩, ⟨.test, false⟩, ⟨.turns, 0⟩]

theorem sharedFault_runs : Function.memoryInvocateCow.call.Runs true sharedFault () false :=
  runs_of_exec (by decide +kernel)

theorem critical_balanced_shared : false = true ↔
    (true = true → ∀ x ∈ sharedFault, ¬ Function.memoryInvocateCow.Strays x) :=
  critical_balanced_iff .memoryInvocateCow sharedFault_runs

/-- `memory_invocate_cow` then returns with the interrupts off. -/
theorem shared_fault_unbalanced : ¬ ∀ (f : Function) (e e' : Bool) (tr : List Event) (r : Unit),
    f.call.Runs e tr r e' → e' = e :=
  fun hclaim => Bool.false_ne_true (hclaim _ _ _ _ _ sharedFault_runs)

end UtkKernel.Critical
