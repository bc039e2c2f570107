import KernelLabs.DeferredProcesses
import KernelLabs.ModuleCycles

/-! Loading and unloading the deferred driver again and again, among processes that come
and go all the while. What `deferred_exit` leaves is what `deferred_init` needs: nothing. -/
namespace KernelLabs.DeferredCycles
open LinuxList Errno ModuleCycles DeferredDriver

/-- The driver, and what the kernel holds for it besides. -/
structure Installation where
  dev : Deferred
  /-- `MKDEV(MY_MAJOR, MY_MINOR)` is registered. -/
  region : Bool
  loaded : Bool

/-- The memory, with this in the `process_list` of the driver's data. -/
def withProcessList (heap : Heap Task) (list : ListHead) : Heap Task :=
  { heap with links := Function.update heap.links processList (some list) }

/-- The driver's data as it is loaded: zeros, and `TIMER_TYPE_SET` is zero. -/
def freshData (dev : Deferred) : Deferred :=
  { dev with
    timer := none
    flag := .set
    ioWork := false
    monitorWork := false
    heap := withProcessList dev.heap ⟨.null, .null⟩ }

/-- `register_chrdev_region`: a region that is still registered cannot be registered again. -/
def registerChrdevRegion (state : Installation) (answer : ErrorCode) : Installation × Int :=
  if state.region then (state, -ebusy)
  else if answer.1 = 0 then ({ state with region := true }, 0)
  else (state, answer.1)

/-- `deferred_init`, which does not look at what `cdev_add` returns. -/
def deferredInit (state : Installation) (answer cdevAdd : ErrorCode) : Except Fault (Installation × Int) := do
  let (state, err) := registerChrdevRegion state answer
  if err ≠ 0 then return (state, err)
  let dev := { state.dev with flag := .none, ioWork := false, monitorWork := false }
  let heap ← initListHead dev.heap processList
  let dev := { dev.withHeap heap with cdev := decide (cdevAdd.1 = 0) }
  return ({ state with dev := dev.delTimer }, 0)

/-- `deferred_exit`, with `unregister_chrdev_region`. -/
def deferredUnload (state : Installation) : Except Fault Installation := do
  let dev ← deferredExit state.dev
  return { dev := dev, region := false, loaded := false }

inductive CycleEvent
  | load (registerChrdevRegion cdevAdd : ErrorCode)
  /-- Anything else that happens to the driver or to processes. -/
  | driver (action : Action)

/-- Processes come and go also while the module is not loaded. -/
def cycleStep (hz : UInt64) (state : Installation) : CycleEvent → Except Fault Installation
  | .load answer cdevAdd =>
    if state.loaded then .ok state
    else do
      let (state, ret) ← deferredInit { state with dev := freshData state.dev } answer cdevAdd
      return { state with loaded := decide (0 ≤ ret) }
  | .driver .unload => if state.loaded then deferredUnload state else .ok state
  | .driver action => do
    let dev ← deferredStep hz state.dev action
    return { state with dev := dev }

/-- Before the first load. -/
def uninstalled (jiffies : UInt64) (pids : Int32 → Option Task) (dead : Task → Bool) : Installation where
  dev := { loaded jiffies pids dead with cdev := false }
  region := false
  loaded := false

/-- A monitor request names an existing process, and its entry can be allocated. -/
def CycleAdmitted (state : Installation) : CycleEvent → Prop
  | .load _ _ => True
  | .driver action => Admitted state.dev action

/-- None of the driver's code can run. -/
structure Stopped (dev : Deferred) : Prop where
  cdev : dev.cdev = false
  timer : dev.timer = none
  ioWork : dev.ioWork = false
  monitorWork : dev.monitorWork = false

/-- Nothing is held for the module; its data is gone. -/
structure Unloaded (state : Installation) : Prop where
  region : state.region = false
  stopped : Stopped state.dev
  empty : Monitored { state.dev with heap := withProcessList state.dev.heap ⟨processList, processList⟩ } []

structure Loaded (state : Installation) : Prop where
  region : state.region = true
  settled : Settled state.dev

/-- The books of the kernel. -/
def InOrder (state : Installation) : Prop :=
  (state.loaded = false → Unloaded state) ∧ (state.loaded = true → Loaded state)

variable {hz : UInt64} {state next : Installation} {dev after : Deferred} {entries : List (Ptr × Task)}

/-! ## One event -/

theorem initListHead_freshData (dev : Deferred) :
    initListHead (freshData dev).heap processList =
      .ok (withProcessList dev.heap ⟨processList, processList⟩) := by
  simp [initListHead, freshData, withProcessList, Heap.setNext, Heap.setPrev, Heap.Live, Heap.withNext,
    Heap.withPrev]

/-- `INIT_LIST_HEAD` on an empty list changes nothing. -/
theorem withProcessList_empty (empty : Listed dev.heap []) :
    withProcessList dev.heap ⟨processList, processList⟩ = dev.heap := by
  obtain ⟨next, prev⟩ : dev.heap.Linked processList processList := List.isChain_pair.mp empty.ring.chain
  obtain ⟨links, found, first⟩ := Option.map_eq_some_iff.mp next
  obtain ⟨links', found', last⟩ := Option.map_eq_some_iff.mp prev
  cases found.symm.trans found'
  have same : dev.heap.links processList = some ⟨processList, processList⟩ := by
    obtain ⟨after, before⟩ := links
    rw [found, show after = processList from first, show before = processList from last]
  rw [withProcessList, ← same, Function.update_eq_self]

/-- A process that dies makes no report wrong. -/
theorem dies_monitored (held : Monitored dev entries) (task : Task) :
    Monitored { dev with dead := Function.update dev.dead task true } entries := by
  refine ⟨held.listed, held.counted, held.once, fun report member => ?_⟩
  obtain ⟨gone, dead⟩ := held.retired report member
  refine ⟨gone, ?_⟩
  by_cases same : report.2 = task
  · simp [same]
  · simp [Function.update_of_ne same, dead]

theorem runMonitorWork_ioWork (held : Monitored dev entries) (ran : runMonitorWork dev = .ok after) :
    after.ioWork = dev.ioWork := by
  unfold runMonitorWork at ran
  split at ran
  · have taken : Monitored { dev with monitorWork := false } entries := held.of_same rfl
    obtain ⟨after', ran', only, -⟩ := monitorWorkHandler_spec taken
    cases ran.symm.trans ran'
    rw [only]
  · cases ran
    rfl

/-- `deferred_exit` leaves nothing that could run. -/
theorem deferredExit_stops (held : Monitored dev entries) :
    ∃ after, deferredExit dev = .ok after ∧ Monitored after [] ∧ Stopped after := by
  have closed : Monitored { { dev with cdev := false }.delTimer with ioWork := false } entries :=
    held.of_same rfl
  obtain ⟨middle, entries', flushed, held', idle, cdev, timer, -⟩ := runMonitorWork_spec closed
  have ioWork := runMonitorWork_ioWork closed flushed
  obtain ⟨after, emptied, only, empty⟩ := exitLoop_spec held'
  refine ⟨after, by simp [deferredExit, flushed, emptied], empty, ?_⟩
  rw [only]
  exact ⟨cdev, timer, ioWork, idle⟩

/-- A load succeeds exactly when its region is granted: whatever was loaded before does
not stand in its way. -/
theorem load_spec (hz : UInt64) (unloaded : Unloaded state) (free : state.loaded = false)
    (answer cdevAdd : ErrorCode) :
    ∃ next, cycleStep hz state (.load answer cdevAdd) = .ok next ∧ InOrder next ∧
      (next.loaded = true ↔ answer.1 = 0) := by
  obtain ⟨region, stopped, empty⟩ := unloaded
  have kept : Stopped (freshData state.dev) := ⟨stopped.cdev, rfl, rfl, rfl⟩
  by_cases granted : answer.1 = 0
  · let dev := { (freshData state.dev).withHeap (withProcessList state.dev.heap ⟨processList, processList⟩) with
      flag := .none, cdev := decide (cdevAdd.1 = 0) }
    refine ⟨⟨dev, true, true⟩, ?_, ⟨(fun busy => by cases busy), fun _ => ⟨rfl, [], empty.of_same rfl, ?_⟩⟩,
      iff_of_true rfl granted⟩
    · simp only [cycleStep, free, deferredInit, registerChrdevRegion, region, granted, Bool.false_eq_true,
        if_false, if_true, ne_eq, not_true, initListHead_freshData, ok_bind, pure_eq_ok]
      rfl
    · exact fun _ => ⟨rfl, rfl, rfl⟩
  · have negative : answer.1 < 0 := Int.lt_iff_le_and_ne.mpr ⟨answer.2, granted⟩
    refine ⟨⟨freshData state.dev, false, false⟩, ?_, ⟨fun _ => ⟨rfl, kept, ?_⟩, fun busy => by cases busy⟩,
      iff_of_false Bool.false_ne_true granted⟩
    · simp [cycleStep, free, deferredInit, registerChrdevRegion, region, granted, negative]
    · refine empty.of_same ?_
      simp [accounts, freshData, withProcessList]

/-- Of a module that is not loaded, nothing but the processes changes. -/
theorem unloaded_spec {action : Action} (unloaded : Unloaded state) (free : state.loaded = false) :
    ∃ next, cycleStep hz state (.driver action) = .ok next ∧ InOrder next := by
  have idle (next : Installation) (still : next.loaded = false) (kept : Unloaded next) : InOrder next := by
    refine ⟨fun _ => kept, fun busy => ?_⟩
    rw [still] at busy
    cases busy
  obtain ⟨region, ⟨cdev, timer, ioWork, monitorWork⟩, empty⟩ := unloaded
  have same : Unloaded state := ⟨region, ⟨cdev, timer, ioWork, monitorWork⟩, empty⟩
  cases action with
  | unload => exact ⟨state, by simp [cycleStep, free], idle state free same⟩
  | ioctl | expire | runMonitorWork =>
    exact ⟨state, by simp [cycleStep, deferredStep, runMonitorWork, cdev, timer, monitorWork],
      idle state free same⟩
  | runIoWork =>
    exact ⟨{ state with dev := { state.dev with ioWork := false } }, rfl,
      idle _ free ⟨region, ⟨cdev, timer, rfl, monitorWork⟩, empty.of_same rfl⟩⟩
  | exit task =>
    exact ⟨{ state with dev := { state.dev with dead := Function.update state.dev.dead task true } }, rfl,
      idle _ free ⟨region, ⟨cdev, timer, ioWork, monitorWork⟩, dies_monitored empty task⟩⟩
  | assign pid task =>
    exact ⟨{ state with dev := { state.dev with pids := Function.update state.dev.pids pid task } }, rfl,
      idle _ free ⟨region, ⟨cdev, timer, ioWork, monitorWork⟩, empty.of_same rfl⟩⟩
  | tick =>
    exact ⟨{ state with dev := { state.dev with jiffies := state.dev.jiffies + 1 } }, rfl,
      idle _ free ⟨region, ⟨cdev, timer, ioWork, monitorWork⟩, empty.of_same rfl⟩⟩

theorem loaded_spec {action : Action} (loaded : Loaded state) (busy : state.loaded = true)
    (admitted : Admitted state.dev action) :
    ∃ next, cycleStep hz state (.driver action) = .ok next ∧ InOrder next := by
  have settles (other : action ≠ .unload) :
      ∃ next, cycleStep hz state (.driver action) = .ok next ∧ InOrder next := by
    obtain ⟨dev, taken, settled, -⟩ : ∃ dev, deferredStep hz state.dev action = .ok dev ∧ Settled dev ∧ _ :=
      deferredStep_settled loaded.settled admitted
    refine ⟨{ state with dev := dev }, ?_, fun free => ?_, fun _ => ⟨loaded.region, settled⟩⟩
    · cases action with
      | unload => exact absurd rfl other
      | ioctl | expire | runIoWork | runMonitorWork | exit | assign | tick =>
        simp only [cycleStep, taken, ok_bind, pure_eq_ok]
    · rw [busy] at free
      cases free
  cases action with
  | unload =>
    obtain ⟨entries, held, -⟩ := loaded.settled
    obtain ⟨after, ran, empty, stopped⟩ := deferredExit_stops held
    refine ⟨⟨after, false, false⟩, by simp [cycleStep, busy, deferredUnload, ran], fun _ => ⟨rfl, stopped, ?_⟩,
      (fun loaded => by cases loaded)⟩
    rwa [withProcessList_empty empty.listed]
  | ioctl | expire | runIoWork | runMonitorWork | exit | assign | tick => exact settles (by simp)

/-! ## Every run -/

theorem cycleStep_spec {event : CycleEvent} (inOrder : InOrder state) (admitted : CycleAdmitted state event) :
    ∃ next, cycleStep hz state event = .ok next ∧ InOrder next := by
  cases busy : state.loaded with
  | false =>
    cases event with
    | load answer cdevAdd =>
      obtain ⟨next, taken, kept, -⟩ := load_spec hz (inOrder.1 busy) busy answer cdevAdd
      exact ⟨next, taken, kept⟩
    | driver action => exact unloaded_spec (inOrder.1 busy) busy
  | true =>
    cases event with
    | load answer cdevAdd => exact ⟨state, by simp [cycleStep, busy], inOrder⟩
    | driver action => exact loaded_spec (inOrder.2 busy) busy admitted

theorem uninstalled_inOrder (jiffies : UInt64) (pids : Int32 → Option Task) (dead : Task → Bool) :
    InOrder (uninstalled jiffies pids dead) := by
  have empty : Monitored (uninstalled jiffies pids dead).dev [] :=
    (loaded_monitored jiffies pids dead).of_same rfl
  refine ⟨fun _ => ⟨rfl, ⟨rfl, rfl, rfl, rfl⟩, ?_⟩, fun busy => by cases busy⟩
  rwa [withProcessList_empty empty.listed]

/-- **Balance.** However loads, unloads, calls, expiries and work follow each other while
processes come and go: a module that is not loaded holds no region, device, timer, work,
entry or reference, and has freed each entry once; so its next load succeeds if it is
granted its region. While it is loaded, each reference stands for one entry. Whatever the
loads of the module have reported was dead, and was reported once. -/
theorem deferred_module_balanced (hz jiffies : UInt64) (pids : Int32 → Option Task) (dead : Task → Bool)
    (events : List CycleEvent)
    (admitted : Along CycleAdmitted (cycleStep hz) (uninstalled jiffies pids dead) events) :
    ∃ final, run (cycleStep hz) (uninstalled jiffies pids dead) events = .ok final ∧
      (final.loaded = false → final.region = false ∧ Stopped final.dev ∧
        (∀ p, final.dev.heap.entry p = none) ∧ (∀ task, final.dev.refs task = 0) ∧
        (∀ number < final.dev.heap.handedOut, final.dev.heap.freed.count (.slab number) = 1) ∧
        ∀ answer cdevAdd, ∃ next, cycleStep hz final (.load answer cdevAdd) = .ok next ∧
          (next.loaded = true ↔ answer.1 = 0)) ∧
      (final.loaded = true → final.region = true ∧ ∃ entries, Listed final.dev.heap entries ∧
        (∀ task, final.dev.refs task = (entries.map Prod.snd).count task) ∧
        ∀ number < final.dev.heap.handedOut, final.dev.heap.freed.count (.slab number) =
          if .slab number ∈ entries.map Prod.fst then 0 else 1) ∧
      (final.dev.reported.map Prod.fst).Nodup ∧
      ∀ report ∈ final.dev.reported, final.dev.dead report.2 = true := by
  obtain ⟨final, ran, inOrder⟩ := run_keeps (fun _ _ held admitted => cycleStep_spec held admitted)
    (uninstalled_inOrder jiffies pids dead) admitted
  refine ⟨final, ran, fun free => ?_, fun busy => ?_, ?_⟩
  · obtain ⟨region, stopped, empty⟩ := inOrder.1 free
    refine ⟨region, stopped, fun p => ?_, empty.counted, fun number issued => ?_, fun answer cdevAdd => ?_⟩
    · simpa [withProcessList] using empty.listed.ring.allocated p
    · exact (freed_count empty issued).trans (if_neg (by simp))
    · obtain ⟨next, taken, -, succeeds⟩ := load_spec hz (inOrder.1 free) free answer cdevAdd
      exact ⟨next, taken, succeeds⟩
  · obtain ⟨region, entries, held, -⟩ := inOrder.2 busy
    exact ⟨region, entries, held.listed, held.counted, fun number issued => freed_count held issued⟩
  · cases busy : final.loaded with
    | false =>
      have empty := (inOrder.1 busy).empty
      exact ⟨empty.once, fun report member => (empty.retired report member).2⟩
    | true =>
      obtain ⟨-, entries, held, -⟩ := inOrder.2 busy
      exact ⟨held.once, fun report member => (held.retired report member).2⟩

/-- A monitored process outlives the module, which is loaded again without its device. -/
def loadedTwice (memory : Option (Block Task)) (refused : ErrorCode) : List CycleEvent :=
  [.load .success .success, .driver (.ioctl myIoctlTimerMon 7 memory), .driver .expire, .driver .unload,
    .driver (.exit 5), .load .success refused, .driver .expire]

theorem deferred_module_balanced_loadedTwice : ∃ final,
    run (cycleStep 250) (uninstalled 0 (fun _ => some 5) fun _ => false)
      (loadedTwice (some ⟨0, .null, .null⟩) ⟨-enomem, Int.le_of_lt neg_enomem⟩) = .ok final ∧
    final.loaded = true ∧ final.dev.cdev = false ∧
    final.region = true ∧ ∃ entries, Listed final.dev.heap entries ∧
      (∀ task, final.dev.refs task = (entries.map Prod.snd).count task) ∧
      ∀ number < final.dev.heap.handedOut, final.dev.heap.freed.count (.slab number) =
        if .slab number ∈ entries.map Prod.fst then 0 else 1 := by
  obtain ⟨reached, ran, busy, cdev⟩ : ∃ reached,
      run (cycleStep 250) (uninstalled 0 (fun _ => some 5) fun _ => false)
        (loadedTwice (some ⟨0, .null, .null⟩) ⟨-enomem, Int.le_of_lt neg_enomem⟩) = .ok reached ∧
      reached.loaded = true ∧ reached.dev.cdev = false := ⟨_, rfl, rfl, rfl⟩
  have admitted : Along CycleAdmitted (cycleStep 250) (uninstalled 0 (fun _ => some 5) fun _ => false)
      (loadedTwice (some ⟨0, .null, .null⟩) ⟨-enomem, Int.le_of_lt neg_enomem⟩) := by
    refine ⟨trivial, fun _ _ => ⟨fun _ _ => ⟨?_, rfl⟩, fun _ _ => ⟨trivial, fun _ _ => ⟨trivial, fun _ _ =>
      ⟨trivial, fun _ _ => ⟨trivial, fun _ _ => ⟨trivial, fun _ _ => trivial⟩⟩⟩⟩⟩⟩⟩
    rename_i next taken _ _
    cases taken
    rfl
  obtain ⟨final, ran', -, loaded, -⟩ := deferred_module_balanced 250 0 _ _ _ admitted
  cases ran.symm.trans ran'
  exact ⟨reached, ran, busy, cdev, loaded busy⟩

end KernelLabs.DeferredCycles
