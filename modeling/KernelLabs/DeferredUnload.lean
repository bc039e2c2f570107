import KernelLabs.DeferredDriver

/-! Unloading the deferred driver. `deferred_exit`, `deferred_ioctl`, `timer_handler`
and the two work handlers run one statement at a time, on as many processors as
there are. A step that has to wait leaves the state as it is. When `deferred_exit`
returns, neither the timer nor the work items are left, and none comes back. -/
namespace KernelLabs.DeferredUnload
open LinuxList Errno DeferredDriver

/-! ## Statements -/

/-- The next statement of `timer_handler`. -/
inductive TimerPc
  | printk
  | testSet
  | testAlloc
  | testMon
  | scheduleIo
  | scheduleMonitor
  | modTimer
  | return
  deriving DecidableEq, Repr

/-- The next statement of `io_work_handler`, that is of `alloc_io`. -/
inductive IoPc
  | setCurrentState
  | scheduleTimeout
  | prInfo
  | return
  deriving DecidableEq, Repr

/-- The next statement of a loop over `process_list`, with its two cursors. -/
inductive LoopPc
  | spinLock
  | first
  | test (pos n : Ptr)
  | testDead (pos n : Ptr)
  | prInfo (pos n : Ptr)
  | putTaskStruct (pos n : Ptr)
  | listDel (pos n : Ptr)
  | kfree (pos n : Ptr)
  | advance (n : Ptr)
  | spinUnlock
  | return
  deriving DecidableEq, Repr

/-- The next statement of a call of `deferred_ioctl`. -/
inductive CallPc
  | setFlag (flag : TimerType) (seconds : UInt64)
  | modTimer (seconds : UInt64)
  | delTimer
  | getProc (pid : Int32) (memory : Option (Block Task))
  | spinLock (p : Ptr)
  | listAdd (p : Ptr)
  | spinUnlock

/-- The next call of `deferred_exit`. `flush_work` notes how many instances were
queued when it started, and waits for that many. -/
inductive ExitPc
  | notStarted
  | prInfo
  | cdevDel
  | unregisterChrdevRegion
  | delTimerSync
  | flushIo
  | waitIo (target : Nat)
  | flushMonitor
  | waitMonitor (target : Nat)
  | cleanup (pc : LoopPc)
  | returned
  deriving DecidableEq, Repr

/-- What the work queue knows of a work item, besides whether it is queued. -/
structure Work (Pc : Type) where
  running : Option Pc
  /-- How many instances were queued, and how many have finished. -/
  enqueued : Nat
  finished : Nat

/-- The driver, and every piece of its code that is running. -/
structure Unloading where
  dev : Deferred
  timerHandler : Option TimerPc
  io : Work IoPc
  monitor : Work LoopPc
  /-- `dev.lock` is taken. -/
  locked : Bool
  calls : List CallPc
  exit : ExitPc

namespace Unloading

/-- `schedule_work(&dev.io_work)` queues the work unless it is queued already. -/
def scheduleIo (state : Unloading) : Unloading :=
  if state.dev.ioWork then state
  else { state with
    dev := { state.dev with ioWork := true }
    io := { state.io with enqueued := state.io.enqueued + 1 } }

/-- `schedule_work(&dev.monitor_work)`. -/
def scheduleMonitor (state : Unloading) : Unloading :=
  if state.dev.monitorWork then state
  else { state with
    dev := { state.dev with monitorWork := true }
    monitor := { state.monitor with enqueued := state.monitor.enqueued + 1 } }

end Unloading

section Steps
variable (hz : UInt64)

def timerStatement (state : Unloading) : TimerPc → Unloading
  | .printk => { state with timerHandler := some .testSet }
  | .testSet =>
    { state with timerHandler := some (if state.dev.flag = .set then .modTimer else .testAlloc) }
  | .testAlloc =>
    { state with timerHandler := some (if state.dev.flag = .alloc then .scheduleIo else .testMon) }
  | .testMon =>
    { state with timerHandler := some (if state.dev.flag = .mon then .scheduleMonitor else .return) }
  | .scheduleIo => { state.scheduleIo with timerHandler := some .return }
  | .scheduleMonitor => { state.scheduleMonitor with timerHandler := some .modTimer }
  | .modTimer =>
    { state with
      dev := state.dev.modTimer (state.dev.jiffies + 1 * hz)
      timerHandler := some .return }
  | .return => { state with timerHandler := none }

/-- One statement of a loop that gives up the entries of `process_list`: all of
them, or only those whose task is dead. -/
def loopStatement (onlyDead : Bool) (dev : Deferred) (locked : Bool) :
    LoopPc → Except Fault (Deferred × Bool × LoopPc)
  | .spinLock => .ok (dev, true, if locked then .spinLock else .first)
  | .first => do
    let pos ← dev.heap.next processList
    let n ← dev.heap.next pos
    return (dev, locked, .test pos n)
  | .test pos n =>
    .ok (dev, locked, if pos = processList then .spinUnlock
      else if onlyDead then .testDead pos n else .putTaskStruct pos n)
  | .testDead pos n => do
    let task ← dev.heap.load pos
    return (dev, locked, if dev.dead task then .prInfo pos n else .advance n)
  | .prInfo pos n => do
    let task ← dev.heap.load pos
    return ({ dev with reported := dev.reported ++ [(pos, task)] }, locked, .putTaskStruct pos n)
  | .putTaskStruct pos n => do
    let task ← dev.heap.load pos
    return (dev.putTaskStruct task, locked, .listDel pos n)
  | .listDel pos n => do
    let heap ← listDel dev.heap pos
    return (dev.withHeap heap, locked, .kfree pos n)
  | .kfree pos n => do
    let heap ← kfree dev.heap pos
    return (dev.withHeap heap, locked, .advance n)
  | .advance n => do
    let after ← dev.heap.next n
    return (dev, locked, .test n after)
  | .spinUnlock => .ok (dev, false, .return)
  | .return => .ok (dev, locked, .return)

def monitorStatement (state : Unloading) : LoopPc → Except Fault Unloading
  | .return => .ok { state with
      monitor := { state.monitor with running := none, finished := state.monitor.finished + 1 } }
  | pc => do
    let (dev, locked, next) ← loopStatement true state.dev state.locked pc
    return { state with dev, locked, monitor := { state.monitor with running := some next } }

def ioStatement (state : Unloading) : IoPc → Unloading
  | .setCurrentState => { state with io := { state.io with running := some .scheduleTimeout } }
  | .scheduleTimeout => { state with io := { state.io with running := some .prInfo } }
  | .prInfo => { state with io := { state.io with running := some .return } }
  | .return =>
    { state with io := { state.io with running := none, finished := state.io.finished + 1 } }

/-- Where a call of `deferred_ioctl` starts, unless it returns at once. -/
def callStart (cmd : UInt32) (arg : UInt64) (memory : Option (Block Task)) : Option CallPc :=
  if cmd = myIoctlTimerSet then some (.setFlag .set arg)
  else if cmd = myIoctlTimerCancel then some .delTimer
  else if cmd = myIoctlTimerAlloc then some (.setFlag .alloc arg)
  else if cmd = myIoctlTimerMon then some (.getProc arg.toUInt32.toInt32 memory)
  else none

/-- One statement of a call, and the one after it, if there is one. -/
def callStatement (dev : Deferred) (locked : Bool) :
    CallPc → Except Fault (Deferred × Bool × Option CallPc)
  | .setFlag flag seconds => .ok ({ dev with flag := flag }, locked, some (.modTimer seconds))
  | .modTimer seconds => .ok (dev.modTimer (dev.jiffies + seconds * hz), locked, none)
  | .delTimer => .ok (dev.delTimer, locked, none)
  | .getProc pid memory => do
    let (dev, procPtr) ← getProc dev pid memory
    return (dev, locked, if procPtr = .null then none else some (.spinLock procPtr))
  | .spinLock p => .ok (dev, true, some (if locked then .spinLock p else .listAdd p))
  | .listAdd p => do
    let heap ← listAdd dev.heap p processList
    return (dev.withHeap heap, locked, some .spinUnlock)
  | .spinUnlock => .ok (dev, false, some (.setFlag .mon 1))

def exitStatement (state : Unloading) : ExitPc → Except Fault Unloading
  | .notStarted => .ok state
  | .prInfo => .ok { state with exit := .cdevDel }
  | .cdevDel => .ok { state with
      dev := { state.dev with cdev := false }
      exit := .unregisterChrdevRegion }
  | .unregisterChrdevRegion => .ok { state with exit := .delTimerSync }
  | .delTimerSync => .ok (if state.timerHandler.isSome then state
      else { state with dev := state.dev.delTimer, exit := .flushIo })
  | .flushIo => .ok { state with exit := .waitIo state.io.enqueued }
  | .waitIo target => .ok (if state.io.finished < target then state
      else { state with exit := .flushMonitor })
  | .flushMonitor => .ok { state with exit := .waitMonitor state.monitor.enqueued }
  | .waitMonitor target => .ok (if state.monitor.finished < target then state
      else { state with exit := .cleanup .spinLock })
  | .cleanup .return => .ok { state with exit := .returned }
  | .cleanup pc => do
    let (dev, locked, next) ← loopStatement false state.dev state.locked pc
    return { state with dev, locked, exit := .cleanup next }
  | .returned => .ok state

inductive Turn
  /-- A process with the device open calls `ioctl`. -/
  | call (cmd : UInt32) (arg : UInt64) (memory : Option (Block Task))
  /-- A running call executes a statement. -/
  | inCall (index : Nat)
  /-- The timer expires: `timer_handler` starts. -/
  | expire
  | inTimer
  /-- A worker takes `io_work` from the queue. -/
  | startIo
  | inIo
  /-- A worker takes `monitor_work` from the queue. -/
  | startMonitor
  | inMonitor
  /-- `deferred_exit` is called. No file is open then, or ever after. -/
  | unload
  | inExit
  /-- A process dies. -/
  | exit (task : Task)
  /-- A process gets this number, or gives it up. -/
  | assign (pid : Int32) (task : Option Task)
  | tick

def turn (state : Unloading) : Turn → Except Fault Unloading
  | .call cmd arg memory =>
    if state.exit = .notStarted then
      .ok { state with calls := state.calls ++ (callStart cmd arg memory).toList }
    else .ok state
  | .inCall index =>
    match state.calls[index]? with
    | none => .ok state
    | some pc => do
      let (dev, locked, next) ← callStatement hz state.dev state.locked pc
      let calls := match next with
        | some pc => state.calls.set index pc
        | none => state.calls.eraseIdx index
      return { state with dev, locked, calls }
  | .expire =>
    if state.dev.timer.isSome && state.timerHandler.isNone then
      .ok { state with dev := state.dev.delTimer, timerHandler := some .printk }
    else .ok state
  | .inTimer =>
    match state.timerHandler with
    | none => .ok state
    | some pc => .ok (timerStatement hz state pc)
  | .startIo =>
    if state.dev.ioWork && state.io.running.isNone then
      .ok { state with
        dev := { state.dev with ioWork := false }
        io := { state.io with running := some .setCurrentState } }
    else .ok state
  | .inIo =>
    match state.io.running with
    | none => .ok state
    | some pc => .ok (ioStatement state pc)
  | .startMonitor =>
    if state.dev.monitorWork && state.monitor.running.isNone then
      .ok { state with
        dev := { state.dev with monitorWork := false }
        monitor := { state.monitor with running := some .spinLock } }
    else .ok state
  | .inMonitor =>
    match state.monitor.running with
    | none => .ok state
    | some pc => monitorStatement state pc
  | .unload =>
    if state.exit = .notStarted ∧ state.calls = [] then .ok { state with exit := .prInfo }
    else .ok state
  | .inExit => exitStatement state state.exit
  | .exit task =>
    .ok { state with dev := { state.dev with dead := Function.update state.dev.dead task true } }
  | .assign pid task =>
    .ok { state with dev := { state.dev with pids := Function.update state.dev.pids pid task } }
  | .tick => .ok { state with dev := { state.dev with jiffies := state.dev.jiffies + 1 } }

end Steps

/-- The state `deferred_init` leaves, with none of the module's code running. -/
def atRest (jiffies : UInt64) (pids : Int32 → Option Task) (dead : Task → Bool) : Unloading where
  dev := loaded jiffies pids dead
  timerHandler := none
  io := ⟨none, 0, 0⟩
  monitor := ⟨none, 0, 0⟩
  locked := false
  calls := []
  exit := .notStarted

/-- A statement of `timer_handler` arms the timer, queues work, or only moves on. -/
theorem timerStatement_touches (hz : UInt64) (state : Unloading) (pc : TimerPc) :
    ∃ timer ioWork monitorWork timerHandler io monitor, timerStatement hz state pc = { state with
      dev := { state.dev with timer, ioWork, monitorWork }
      timerHandler
      io := { state.io with enqueued := io }
      monitor := { state.monitor with enqueued := monitor } } := by
  cases pc with
  | scheduleIo =>
    simp only [timerStatement, Unloading.scheduleIo]
    split <;> exact ⟨_, _, _, _, _, _, rfl⟩
  | scheduleMonitor =>
    simp only [timerStatement, Unloading.scheduleMonitor]
    split <;> exact ⟨_, _, _, _, _, _, rfl⟩
  | printk | testSet | testAlloc | testMon | modTimer | «return» => exact ⟨_, _, _, _, _, _, rfl⟩

/-! ## The two loops over the list -/

section Loops
variable {state next : Unloading} {dev : Deferred} {locked : Bool} {pc later : LoopPc}

theorem monitorStatement_loop (going : pc ≠ .return)
    (ran : loopStatement true state.dev state.locked pc = .ok (dev, locked, later)) :
    monitorStatement state pc =
      .ok { state with dev, locked, monitor := { state.monitor with running := some later } } := by
  cases pc <;> first
    | exact absurd rfl going
    | simp only [monitorStatement, ran, ok_bind, pure_eq_ok]

theorem cleanup_loop (going : pc ≠ .return)
    (ran : loopStatement false state.dev state.locked pc = .ok (dev, locked, later)) :
    exitStatement state (.cleanup pc) = .ok { state with dev, locked, exit := .cleanup later } := by
  cases pc <;> first
    | exact absurd rfl going
    | simp only [exitStatement, ran, ok_bind, pure_eq_ok]

/-- `monitor_work_handler` returns, or executes a statement of its loop. -/
theorem monitorStatement_cases (ran : monitorStatement state pc = .ok next) :
    pc = .return ∧ next = { state with
      monitor := { state.monitor with running := none, finished := state.monitor.finished + 1 } } ∨
    pc ≠ .return ∧ ∃ dev locked later,
      loopStatement true state.dev state.locked pc = .ok (dev, locked, later) ∧
      next = { state with dev, locked, monitor := { state.monitor with running := some later } } := by
  by_cases ends : pc = .return
  · subst ends
    cases ran
    exact .inl ⟨rfl, rfl⟩
  · rw [monitorStatement] at ran
    · obtain ⟨⟨dev, locked, later⟩, taken, same⟩ := bind_eq_ok.mp ran
      cases same
      exact .inr ⟨ends, dev, locked, later, taken, rfl⟩
    · exact ends

/-- `deferred_exit` returns, or executes a statement of its loop. -/
theorem cleanup_cases (ran : exitStatement state (.cleanup pc) = .ok next) :
    pc = .return ∧ next = { state with exit := .returned } ∨
    pc ≠ .return ∧ ∃ dev locked later,
      loopStatement false state.dev state.locked pc = .ok (dev, locked, later) ∧
      next = { state with dev, locked, exit := .cleanup later } := by
  by_cases ends : pc = .return
  · subst ends
    cases ran
    exact .inl ⟨rfl, rfl⟩
  · rw [exitStatement] at ran
    · obtain ⟨⟨dev, locked, later⟩, taken, same⟩ := bind_eq_ok.mp ran
      cases same
      exact .inr ⟨ends, dev, locked, later, taken, rfl⟩
    · exact ends

end Loops

end KernelLabs.DeferredUnload
