import KernelLabs.DeferredQuiescence
import Mathlib.Logic.Relation

/-! The two models of the deferred driver agree: each whole step of `DeferredDriver`
is a run of the single statements of `DeferredUnload` that nothing interrupts. -/
namespace KernelLabs.DeferredUnload
open LinuxList DeferredDriver Relation

variable {hz : UInt64} {state middle next : Unloading} {dev after : Deferred} {onlyDead : Bool}

/-! ## Loops -/

/-- One statement of a loop over `process_list`, with the lock held. -/
def Advances (onlyDead : Bool) (now later : Deferred × LoopPc) : Prop :=
  now.2 ≠ .return ∧ loopStatement onlyDead now.1 true now.2 = .ok (later.1, true, later.2)

/-- The statements of the loop body, from the test of the cursor on. -/
def bodyStart (onlyDead : Bool) (pos n : Ptr) : LoopPc :=
  if onlyDead then .testDead pos n else .putTaskStruct pos n

/-- The statements that give up the entry at the cursor. -/
theorem release_path {pos n : Ptr} {task : Task} {unlinked heap : Heap Task}
    (load : dev.heap.load pos = .ok task) (deleted : listDel dev.heap pos = .ok unlinked)
    (released : kfree unlinked pos = .ok heap) :
    ReflTransGen (Advances onlyDead) (dev, .putTaskStruct pos n)
      ((dev.putTaskStruct task).withHeap heap, .advance n) := by
  apply ReflTransGen.head (b := (dev.putTaskStruct task, .listDel pos n))
  · exact ⟨nofun, by simp [loopStatement, load]⟩
  apply ReflTransGen.head (b := ((dev.putTaskStruct task).withHeap unlinked, .kfree pos n))
  · exact ⟨nofun, by simp [loopStatement, Deferred.putTaskStruct, deleted]⟩
  apply ReflTransGen.single
  exact ⟨nofun, by simp [loopStatement, Deferred.withHeap, released]⟩

theorem monitorBody_path {pos n : Ptr} {flow : Flow Deferred Unit}
    (ran : monitorBody dev pos = .ok flow) :
    ∃ after, flow = .next after ∧
      ReflTransGen (Advances true) (dev, bodyStart true pos n) (after, .advance n) := by
  obtain ⟨task, load, rest⟩ := bind_eq_ok.mp ran
  by_cases dead : dev.dead task = true
  · rw [if_pos dead] at rest
    obtain ⟨unlinked, deleted, rest⟩ := bind_eq_ok.mp rest
    obtain ⟨heap, released, same⟩ := bind_eq_ok.mp rest
    cases same
    refine ⟨_, rfl, ?_⟩
    apply ReflTransGen.head (b := (dev, .prInfo pos n))
    · exact ⟨nofun, by simp [bodyStart, loopStatement, load, dead]⟩
    apply ReflTransGen.head (b := ({ dev with reported := dev.reported ++ [(pos, task)] },
      .putTaskStruct pos n))
    · exact ⟨nofun, by simp [loopStatement, load]⟩
    exact release_path load deleted released
  · rw [if_neg dead] at rest
    cases rest
    refine ⟨dev, rfl, ?_⟩
    apply ReflTransGen.single
    exact ⟨nofun, by simp [bodyStart, loopStatement, load, dead]⟩

theorem exitBody_path {pos n : Ptr} {flow : Flow Deferred Unit} (ran : exitBody dev pos = .ok flow) :
    ∃ after, flow = .next after ∧
      ReflTransGen (Advances false) (dev, bodyStart false pos n) (after, .advance n) := by
  obtain ⟨task, load, rest⟩ := bind_eq_ok.mp ran
  obtain ⟨unlinked, deleted, rest⟩ := bind_eq_ok.mp rest
  obtain ⟨heap, released, same⟩ := bind_eq_ok.mp rest
  cases same
  exact ⟨_, rfl, release_path load deleted released⟩

section Loop
variable {body : Deferred → Ptr → Except Fault (Flow Deferred Unit)}
  (follows : ∀ {dev pos n flow}, body dev pos = .ok flow → ∃ after, flow = .next after ∧
    ReflTransGen (Advances onlyDead) (dev, bodyStart onlyDead pos n) (after, .advance n))
include follows

theorem forEachEntrySafe_path {fuel : Nat} {pos n : Ptr} {flow : Flow Deferred Unit}
    (ran : forEachEntrySafe (·.heap) processList body fuel dev pos n = .ok flow) :
    ∃ after, flow = .next after ∧
      ReflTransGen (Advances onlyDead) (dev, .test pos n) (after, .spinUnlock) := by
  induction fuel generalizing dev pos n with
  | zero => simp [forEachEntrySafe] at ran
  | succ fuel ih =>
    unfold forEachEntrySafe at ran
    by_cases ends : pos = processList
    · rw [if_pos ends] at ran
      cases ran
      exact ⟨dev, rfl, .single ⟨nofun, by simp [loopStatement, ends]⟩⟩
    · rw [if_neg ends] at ran
      obtain ⟨flow, visited, rest⟩ := bind_eq_ok.mp ran
      obtain ⟨middle, rfl, path⟩ := follows (n := n) visited
      obtain ⟨second, found, rest⟩ := bind_eq_ok.mp rest
      obtain ⟨after, same, later⟩ := ih rest
      refine ⟨after, same, ?_⟩
      apply ReflTransGen.head (b := (dev, bodyStart onlyDead pos n))
      · exact ⟨nofun, by simp [loopStatement, ends, bodyStart]⟩
      apply path.trans
      apply ReflTransGen.head (b := (middle, .test n second))
      · exact ⟨nofun, by simp [loopStatement, found]⟩
      exact later

theorem listForEachEntrySafe_path {flow : Flow Deferred Unit}
    (ran : listForEachEntrySafe (·.heap) processList body dev = .ok flow) :
    ∃ after, flow = .next after ∧
      ReflTransGen (Advances onlyDead) (dev, .first) (after, .spinUnlock) := by
  obtain ⟨pos, first, rest⟩ := bind_eq_ok.mp ran
  obtain ⟨n, second, rest⟩ := bind_eq_ok.mp rest
  obtain ⟨after, same, path⟩ := forEachEntrySafe_path follows rest
  refine ⟨after, same, ?_⟩
  apply ReflTransGen.head (b := (dev, .test pos n))
  · exact ⟨nofun, by simp [loopStatement, first, second]⟩
  exact path

end Loop

theorem path_only {now later : Deferred × LoopPc} (path : ReflTransGen (Advances onlyDead) now later) :
    OnlyEntries now.1 later.1 := by
  induction path with
  | refl => rfl
  | tail _ advance ih =>
    have step := loopStatement_only advance.2
    unfold OnlyEntries at ih step ⊢
    rw [step, ih]

/-! ## Uninterrupted runs -/

/-- Some turns lead from one state to the other. -/
def Leads (hz : UInt64) (state next : Unloading) : Prop :=
  ∃ turns, run (turn hz) state turns = .ok next

theorem Leads.refl (state : Unloading) : Leads hz state state := ⟨[], rfl⟩

theorem Leads.trans (first : Leads hz state middle) (second : Leads hz middle next) :
    Leads hz state next := by
  obtain ⟨turns, ran⟩ := first
  obtain ⟨more, later⟩ := second
  exact ⟨turns ++ more, by rw [run_append, ran, ok_bind, later]⟩

theorem Leads.head (action : Turn) (taken : turn hz state action = .ok middle)
    (rest : Leads hz middle next) : Leads hz state next := by
  obtain ⟨turns, ran⟩ := rest
  exact ⟨action :: turns, by rw [run_cons, taken, ok_bind, ran]⟩

/-- `monitor_work_handler` is at this statement, and holds the lock. -/
def Unloading.monitoring (state : Unloading) (now : Deferred × LoopPc) : Unloading :=
  { state with dev := now.1, locked := true, monitor := { state.monitor with running := some now.2 } }

/-- `deferred_exit` is at this statement of its loop, and holds the lock. -/
def Unloading.cleaning (state : Unloading) (now : Deferred × LoopPc) : Unloading :=
  { state with dev := now.1, locked := true, exit := .cleanup now.2 }

theorem monitoring_leads {now later : Deferred × LoopPc}
    (path : ReflTransGen (Advances true) now later) :
    Leads hz (state.monitoring now) (state.monitoring later) := by
  induction path using ReflTransGen.head_induction_on with
  | refl => exact .refl _
  | @head now next advance path ih =>
    obtain ⟨dev, pc⟩ := now
    obtain ⟨running, ran⟩ := advance
    refine .head .inMonitor ?_ ih
    simp only [turn, Unloading.monitoring]
    exact monitorStatement_loop running ran

theorem cleaning_leads {now later : Deferred × LoopPc}
    (path : ReflTransGen (Advances false) now later) :
    Leads hz (state.cleaning now) (state.cleaning later) := by
  induction path using ReflTransGen.head_induction_on with
  | refl => exact .refl _
  | @head now next advance path ih =>
    obtain ⟨dev, pc⟩ := now
    obtain ⟨running, ran⟩ := advance
    refine .head .inExit ?_ ih
    simp only [turn, Unloading.cleaning]
    exact cleanup_loop running ran

/-- A worker runs `io_work` from start to end, if it is queued. -/
theorem ioWork_leads (idle : state.io.running = none) :
    Leads hz state { state with
      dev := { state.dev with ioWork := false }
      io := { state.io with finished := state.io.finished + state.dev.ioWork.toNat } } := by
  obtain ⟨dev, timerHandler, io, monitor, locked, calls, exit⟩ := state
  obtain ⟨running, enqueued, finished⟩ := io
  obtain rfl : running = none := idle
  by_cases queued : dev.ioWork = true
  · refine ⟨.startIo :: List.replicate 4 .inIo, ?_⟩
    simp [List.replicate, turn, ioStatement, queued]
  · have none : false = dev.ioWork := by simpa using queued
    have same : { dev with ioWork := false } = dev := by rw [none]
    simp only [← none, same]
    exact .refl _

/-- A worker runs `monitor_work` from start to end, if it is queued. -/
theorem monitorWork_leads (hz : UInt64) (idle : state.monitor.running = none) (free : state.locked = false)
    (ran : runMonitorWork state.dev = .ok after) :
    OnlyEntries { state.dev with monitorWork := false } after ∧ Leads hz state { state with
      dev := after
      monitor := { state.monitor with
        finished := state.monitor.finished + state.dev.monitorWork.toNat } } := by
  obtain ⟨dev, timerHandler, io, monitor, locked, calls, exit⟩ := state
  obtain ⟨running, enqueued, finished⟩ := monitor
  obtain rfl : running = none := idle
  obtain rfl : locked = false := free
  unfold runMonitorWork at ran
  by_cases queued : dev.monitorWork = true
  · rw [if_pos queued] at ran
    obtain ⟨flow, looped, rest⟩ := bind_eq_ok.mp ran
    obtain ⟨after', rfl, path⟩ := listForEachEntrySafe_path monitorBody_path looped
    obtain rfl : after' = after := by simpa using rest
    refine ⟨path_only path, ?_⟩
    let start : Unloading :=
      ⟨{ dev with monitorWork := false }, timerHandler, io, ⟨some .spinLock, enqueued, finished⟩, false, calls, exit⟩
    have started : Leads hz ⟨dev, timerHandler, io, ⟨none, enqueued, finished⟩, false, calls, exit⟩
        (start.monitoring ({ dev with monitorWork := false }, .first)) :=
      ⟨[.startMonitor, .inMonitor], by
        simp [turn, monitorStatement, loopStatement, Unloading.monitoring, start, queued]⟩
    refine started.trans ((monitoring_leads path).trans ⟨[.inMonitor, .inMonitor], ?_⟩)
    simp [turn, monitorStatement, loopStatement, Unloading.monitoring, start, queued]
  · rw [if_neg queued] at ran
    obtain rfl : dev = after := by simpa using ran
    have none : false = dev.monitorWork := by simpa using queued
    have same : { dev with monitorWork := false } = dev := by rw [none]
    simp only [← none, same]
    exact ⟨rfl, .refl _⟩

/-- No code of the driver is running. -/
structure Resting (state : Unloading) : Prop where
  timerHandler : state.timerHandler = none
  io : state.io.running = none
  monitor : state.monitor.running = none
  locked : state.locked = false
  calls : state.calls = []
  exit : state.exit = if state.dev.cdev then .notStarted else .returned

theorem scheduleIo_resting (resting : Resting state) : Resting state.scheduleIo := by
  obtain ⟨handler, io, monitor, locked, calls, exit⟩ := resting
  unfold Unloading.scheduleIo
  split <;> exact ⟨handler, io, monitor, locked, calls, exit⟩

theorem scheduleMonitor_resting (resting : Resting state) : Resting state.scheduleMonitor := by
  obtain ⟨handler, io, monitor, locked, calls, exit⟩ := resting
  unfold Unloading.scheduleMonitor
  split <;> exact ⟨handler, io, monitor, locked, calls, exit⟩

theorem dev_resting (resting : Resting state) (cdev : dev.cdev = state.dev.cdev) :
    Resting { state with dev := dev } where
  __ := resting
  exit := by rw [resting.exit, cdev]

theorem scheduleIo_dev : state.scheduleIo.dev = { state.dev with ioWork := true } := by
  unfold Unloading.scheduleIo
  split
  · next queued => rw [← queued]
  · rfl

theorem scheduleMonitor_dev : state.scheduleMonitor.dev = { state.dev with monitorWork := true } := by
  unfold Unloading.scheduleMonitor
  split
  · next queued => rw [← queued]
  · rfl

theorem scheduleIo_timerHandler (pc : Option TimerPc) :
    Unloading.scheduleIo { state with timerHandler := pc } =
      { state.scheduleIo with timerHandler := pc } := by
  unfold Unloading.scheduleIo
  split <;> rfl

theorem scheduleMonitor_timerHandler (pc : Option TimerPc) :
    Unloading.scheduleMonitor { state with timerHandler := pc } =
      { state.scheduleMonitor with timerHandler := pc } := by
  unfold Unloading.scheduleMonitor
  split <;> rfl

/-- The timer expires, and its handler runs from start to end. -/
theorem expire_leads (hz : UInt64) (resting : Resting state) (pending : state.dev.timer.isSome = true) :
    ∃ next, Leads hz state next ∧ next.dev = timerHandler hz state.dev.delTimer ∧ Resting next := by
  let fired : Unloading := { state with dev := state.dev.delTimer }
  let rearmed (state : Unloading) : Unloading :=
    { state with dev := state.dev.modTimer (state.dev.jiffies + 1 * hz) }
  have expired : turn hz state .expire = .ok { fired with timerHandler := some .printk } := by
    simp [turn, pending, resting.timerHandler, fired]
  have idle : Resting fired := dev_resting resting rfl
  have stopped : ∀ state : Unloading, Resting state → { state with timerHandler := none } = state := by
    intro state resting
    rw [← resting.timerHandler]
  cases flag : fired.dev.flag with
  | none =>
    refine ⟨fired, .head .expire expired ⟨List.replicate 5 .inTimer, ?_⟩, ?_, idle⟩
    · simp [List.replicate, turn, timerStatement, flag, stopped fired idle]
    · simp only [timerHandler, show state.dev.delTimer.flag = .none from flag, fired]
  | set =>
    refine ⟨rearmed fired, .head .expire expired ⟨List.replicate 4 .inTimer, ?_⟩, ?_,
      dev_resting idle rfl⟩
    · simp [List.replicate, turn, timerStatement, flag, rearmed, idle.timerHandler]
    · simp only [timerHandler, show state.dev.delTimer.flag = .set from flag, fired, rearmed]
  | alloc =>
    refine ⟨fired.scheduleIo, .head .expire expired ⟨List.replicate 5 .inTimer, ?_⟩, ?_,
      scheduleIo_resting idle⟩
    · simp [List.replicate, turn, timerStatement, flag, scheduleIo_timerHandler,
        stopped _ (scheduleIo_resting idle)]
    · simp only [timerHandler, show state.dev.delTimer.flag = .alloc from flag, scheduleIo_dev, fired]
  | mon =>
    refine ⟨rearmed fired.scheduleMonitor, .head .expire expired ⟨List.replicate 7 .inTimer, ?_⟩, ?_,
      dev_resting (scheduleMonitor_resting idle) rfl⟩
    · have still : fired.scheduleMonitor.timerHandler = none :=
        (scheduleMonitor_resting idle).timerHandler
      simp [List.replicate, turn, timerStatement, flag, scheduleMonitor_timerHandler, rearmed, still]
    · simp only [timerHandler, show state.dev.delTimer.flag = .mon from flag, scheduleMonitor_dev,
        fired, rearmed]

/-- One call runs, and is at this statement, or has returned. -/
def Unloading.calling (state : Unloading) (dev : Deferred) (locked : Bool) (pc : Option CallPc) :
    Unloading :=
  { state with dev, locked, calls := pc.toList }

theorem turn_calling {locked locked' : Bool} {pc : CallPc} {later : Option CallPc}
    (ran : callStatement hz dev locked pc = .ok (after, locked', later)) :
    turn hz (state.calling dev locked (some pc)) (.inCall 0) = .ok (state.calling after locked' later) := by
  cases later <;> simp [turn, Unloading.calling, ran]

/-- A call runs from start to end. -/
theorem ioctl_leads (resting : Resting state) (cdev : state.dev.cdev = true) {cmd : UInt32} {arg : UInt64}
    {memory : Option (Block Task)} {ret : Int}
    (ran : deferredIoctl hz state.dev cmd arg memory = .ok (after, ret)) :
    Leads hz state { state with dev := after } := by
  have fresh : state.exit = .notStarted := by rw [resting.exit, if_pos cdev]
  have called : turn hz state (.call cmd arg memory) =
      .ok (state.calling state.dev false (callStart cmd arg memory)) := by
    simp [turn, fresh, resting.calls, Unloading.calling, ← resting.locked]
  have returned : state.calling after false none = { state with dev := after } := by
    simp [Unloading.calling, ← resting.locked, ← resting.calls]
  rw [← returned]
  refine .head _ called ?_
  rcases deferredIoctl_cases ran with ⟨rfl, -, rfl⟩ | ⟨rfl, -, rfl⟩ | ⟨rfl, -, rfl⟩ |
    ⟨rfl, middle, procPtr, got, outcome⟩ | ⟨unknown, -, rfl⟩
  · exact .head (.inCall 0) (turn_calling rfl) (.head (.inCall 0) (turn_calling rfl) (.refl _))
  · exact .head (.inCall 0) (turn_calling rfl) (.refl _)
  · exact .head (.inCall 0) (turn_calling rfl) (.head (.inCall 0) (turn_calling rfl) (.refl _))
  · have gotten : callStatement hz state.dev false (.getProc arg.toUInt32.toInt32 memory) =
        .ok (middle, false, if procPtr = .null then none else some (.spinLock procPtr)) := by
      simp [callStatement, got]
    refine .head (.inCall 0) (turn_calling gotten) ?_
    rcases outcome with ⟨rfl, -, rfl⟩ | ⟨nonnull, -, heap, linked, rfl⟩
    · exact .refl _
    · have added : callStatement hz middle true (.listAdd procPtr) =
          .ok (middle.withHeap heap, true, some .spinUnlock) := by
        simp [callStatement, linked]
      rw [if_neg nonnull]
      refine .head (.inCall 0) (turn_calling rfl) ?_
      refine .head (.inCall 0) (turn_calling added) ?_
      refine .head (.inCall 0) (turn_calling rfl) ?_
      refine .head (.inCall 0) (turn_calling rfl) ?_
      exact .head (.inCall 0) (turn_calling rfl) (.refl _)
  · simp only [List.mem_cons, List.not_mem_nil, or_false, not_or] at unknown
    simp only [callStart, unknown, if_false]
    exact .refl _

theorem deferredIoctl_cdev {cmd : UInt32} {arg : UInt64} {memory : Option (Block Task)} {ret : Int}
    (ran : deferredIoctl hz dev cmd arg memory = .ok (after, ret)) : after.cdev = dev.cdev := by
  rcases deferredIoctl_cases ran with ⟨-, -, rfl⟩ | ⟨-, -, rfl⟩ | ⟨-, -, rfl⟩ |
    ⟨-, middle, procPtr, got, outcome⟩ | ⟨-, -, rfl⟩
  · rfl
  · rfl
  · rfl
  · have same : middle.cdev = dev.cdev := by rw [getProc_only got]
    rcases outcome with ⟨-, -, rfl⟩ | ⟨-, -, heap, -, rfl⟩
    · exact same
    · exact same
  · rfl

/-- `deferred_exit` runs from start to end, and waits for the work items only. -/
theorem exit_leads (resting : Resting state) (orderly : Orderly state) (cdev : state.dev.cdev = true)
    (ran : deferredExit state.dev = .ok after) :
    ∃ next, Leads hz state next ∧ next.dev = after ∧ Resting next := by
  obtain ⟨middle, flushed, rest⟩ := bind_eq_ok.mp ran
  obtain ⟨flow, looped, rest⟩ := bind_eq_ok.mp rest
  obtain ⟨last, rfl, path⟩ := listForEachEntrySafe_path exitBody_path looped
  obtain rfl : last = after := by simpa using rest
  have fresh : state.exit = .notStarted := by rw [resting.exit, if_pos cdev]
  let closed : Unloading :=
    { state with dev := { state.dev with cdev := false }.delTimer, exit := .waitIo state.io.enqueued }
  have closes : Leads hz state closed := by
    refine ⟨.unload :: List.replicate 5 .inExit, ?_⟩
    simp [List.replicate, turn, exitStatement, fresh, resting.calls, resting.timerHandler, closed]
  -- Each flush finds as many instances finished as were queued.
  have ioDone : state.io.finished + state.dev.ioWork.toNat = state.io.enqueued := by
    have account := orderly.io
    simp only [Accounted, resting.io, Option.toList_none, List.length_nil] at account
    omega
  have monitorDone : state.monitor.finished + state.dev.monitorWork.toNat = state.monitor.enqueued := by
    have account := orderly.monitor
    simp only [Accounted, resting.monitor, Option.toList_none, List.length_nil] at account
    omega
  let drained : Unloading :=
    { closed with
      dev := { closed.dev with ioWork := false }
      io := { state.io with finished := state.io.finished + state.dev.ioWork.toNat }
      exit := .waitMonitor state.monitor.enqueued }
  have idleIo : closed.io.running = none := resting.io
  have drains : Leads hz closed drained := by
    refine (ioWork_leads idleIo).trans ⟨List.replicate 2 .inExit, ?_⟩
    simp [List.replicate, turn, exitStatement, closed, drained, Deferred.delTimer, ioDone]
  have monitored : OnlyEntries { drained.dev with monitorWork := false } middle ∧ Leads hz drained _ :=
    monitorWork_leads hz resting.monitor resting.locked flushed
  let swept : Unloading :=
    { drained with
      monitor := { state.monitor with finished := state.monitor.finished + state.dev.monitorWork.toNat } }
  have sweeps : Leads hz drained (swept.cleaning (middle, .first)) := by
    refine monitored.2.trans ⟨List.replicate 2 .inExit, ?_⟩
    simp [List.replicate, turn, exitStatement, loopStatement, closed, drained, swept, Deferred.delTimer,
      monitorDone, resting.locked, Unloading.cleaning]
  let final : Unloading := { swept with dev := last, locked := false, exit := .returned }
  have ends : Leads hz (swept.cleaning (last, .spinUnlock)) final := by
    refine ⟨List.replicate 2 .inExit, ?_⟩
    simp [List.replicate, turn, exitStatement, loopStatement, Unloading.cleaning, final]
  have gone : last.cdev = false := by
    have same : last = { middle with heap := last.heap, refs := last.refs, reported := last.reported } :=
      path_only path
    rw [same, monitored.1]
    rfl
  refine ⟨final, closes.trans (drains.trans (sweeps.trans ((cleaning_leads path).trans ends))), rfl, ?_⟩
  exact ⟨resting.timerHandler, resting.io, resting.monitor, rfl, resting.calls, by simp [final, gone]⟩

/-- Whatever a whole step does, single statements do as well, with nothing else
running before and after. -/
theorem whole_step_leads {action : Action} (resting : Resting state) (orderly : Orderly state)
    (taken : deferredStep hz state.dev action = .ok after) :
    ∃ next, Leads hz state next ∧ next.dev = after ∧ Resting next := by
  cases action with
  | ioctl cmd arg memory =>
    by_cases cdev : state.dev.cdev = true
    · simp only [deferredStep, cdev, if_true] at taken
      obtain ⟨⟨dev, ret⟩, ran, same⟩ := bind_eq_ok.mp taken
      cases same
      exact ⟨_, ioctl_leads resting cdev ran, rfl, dev_resting resting (deferredIoctl_cdev ran)⟩
    · simp only [deferredStep, cdev] at taken
      cases taken
      exact ⟨state, .refl state, rfl, resting⟩
  | expire =>
    by_cases pending : state.dev.timer.isSome = true
    · obtain ⟨next, leads, same, idle⟩ := expire_leads hz resting pending
      simp only [deferredStep, pending, if_true] at taken
      cases taken
      exact ⟨next, leads, same, idle⟩
    · simp only [deferredStep, pending] at taken
      cases taken
      exact ⟨state, .refl state, rfl, resting⟩
  | runIoWork =>
    cases taken
    refine ⟨_, ioWork_leads resting.io, rfl, ?_⟩
    exact ⟨resting.timerHandler, resting.io, resting.monitor, resting.locked, resting.calls, resting.exit⟩
  | runMonitorWork =>
    obtain ⟨only, leads⟩ := monitorWork_leads hz resting.monitor resting.locked taken
    have cdev : after.cdev = state.dev.cdev := by rw [only]
    refine ⟨_, leads, rfl, resting.timerHandler, resting.io, resting.monitor, resting.locked,
      resting.calls, ?_⟩
    rw [resting.exit, cdev]
  | exit task =>
    cases taken
    exact ⟨_, .head (.exit task) rfl (.refl _), rfl, dev_resting resting rfl⟩
  | assign pid task =>
    cases taken
    exact ⟨_, .head (.assign pid task) rfl (.refl _), rfl, dev_resting resting rfl⟩
  | tick =>
    cases taken
    exact ⟨_, .head .tick rfl (.refl _), rfl, dev_resting resting rfl⟩
  | unload =>
    by_cases cdev : state.dev.cdev = true
    · simp only [deferredStep, cdev, if_true] at taken
      exact exit_leads resting orderly cdev taken
    · simp only [deferredStep, cdev] at taken
      cases taken
      exact ⟨state, .refl state, rfl, resting⟩

theorem Leads.orderly (leads : Leads hz state next) (orderly : Orderly state) : Orderly next := by
  obtain ⟨turns, ran⟩ := leads
  exact run_invariant Orderly (fun _ _ _ => turn_orderly) orderly ran

theorem whole_steps_lead {actions : List Action} (resting : Resting state) (orderly : Orderly state)
    (ran : run (deferredStep hz) state.dev actions = .ok after) :
    ∃ next, Leads hz state next ∧ next.dev = after ∧ Resting next := by
  induction actions generalizing state with
  | nil => exact ⟨state, .refl state, Except.ok.inj ran, resting⟩
  | cons action actions ih =>
    obtain ⟨dev, taken, rest⟩ := bind_eq_ok.mp (run_cons.symm.trans ran)
    obtain ⟨middle, leads, rfl, idle⟩ := whole_step_leads resting orderly taken
    obtain ⟨next, later, same, idle'⟩ := ih idle (leads.orderly orderly) rest
    exact ⟨next, leads.trans later, same, idle'⟩

/-- **The models agree.** Every state the driver reaches in whole steps is one that
it reaches statement by statement, with no statement left to run. -/
theorem whole_runs_are_statement_runs (hz jiffies : UInt64) (pids : Int32 → Option Task)
    (dead : Task → Bool) (actions : List Action) (final : Deferred)
    (ran : run (deferredStep hz) (loaded jiffies pids dead) actions = .ok final) :
    ∃ turns state, run (turn hz) (atRest jiffies pids dead) turns = .ok state ∧ state.dev = final ∧
      Resting state := by
  have resting : Resting (atRest jiffies pids dead) := ⟨rfl, rfl, rfl, rfl, rfl, rfl⟩
  obtain ⟨state, ⟨turns, reached⟩, same, idle⟩ :=
    whole_steps_lead resting (atRest_orderly jiffies pids dead) ran
  exact ⟨turns, state, reached, same, idle⟩

/-- A process is monitored, dies and is reported, and the module is unloaded. -/
def reportedAndUnloaded (memory : Option (Block Task)) : List Action :=
  [.ioctl myIoctlTimerMon 7 memory, .exit 5, .expire, .runMonitorWork, .unload]

theorem whole_runs_are_statement_runs_reportedAndUnloaded : ∃ final,
    run (deferredStep 250) (loaded 0 (fun _ => some 5) fun _ => false) (reportedAndUnloaded (some ⟨0, .null, .null⟩)) = .ok final ∧
    final.reported = [(.slab 0, 5)] ∧
    ∃ turns state, run (turn 250) (atRest 0 (fun _ => some 5) fun _ => false) turns = .ok state ∧
      state.dev = final ∧ Resting state := by
  obtain ⟨final, ran, reported⟩ : ∃ final,
      run (deferredStep 250) (loaded 0 (fun _ => some 5) fun _ => false) (reportedAndUnloaded (some ⟨0, .null, .null⟩)) =
        .ok final ∧
      final.reported = [(.slab 0, 5)] := ⟨_, rfl, rfl⟩
  exact ⟨final, ran, reported, whole_runs_are_statement_runs 250 0 _ _ _ final ran⟩

end KernelLabs.DeferredUnload
