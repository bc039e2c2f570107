import KernelLabs.LinuxList

/-! `labs/lab13/deferred/kernel/deferred.c`: a timer that defers work to two work
items, one of which watches a list of processes. Each function here is one whole
step of the driver; `spin_lock` then always finds its lock free. The list and its
entries live in the checked heap of `LinuxList`. -/
namespace KernelLabs.DeferredDriver
open LinuxList Errno

/-- A `struct task_struct`, by the process it belongs to. -/
abbrev Task := Nat

/-- The values of `flag`. -/
inductive TimerType
  | none
  | set
  | alloc
  | mon
  deriving DecidableEq, Repr

/-- `INIT_LIST_HEAD(&dev.process_list)`. -/
def processList : Ptr := .static 0

/-- The driver's data and what it uses of the kernel's. -/
structure Deferred where
  /-- The value of `expires` while the timer is pending. -/
  timer : Option UInt64
  flag : TimerType
  /-- `io_work` is queued. -/
  ioWork : Bool
  /-- `monitor_work` is queued. -/
  monitorWork : Bool
  /-- `process_list` and the `mon_proc`s; an entry is its `task`. -/
  heap : Heap Task
  jiffies : UInt64
  /-- `pid_task(find_vpid(pid), PIDTYPE_PID)`. -/
  pids : Int32 → Option Task
  /-- `__state == TASK_DEAD || exit_state`. -/
  dead : Task → Bool
  /-- `get_task_struct` calls minus `put_task_struct` calls of this module. -/
  refs : Task → Int
  /-- The entries `monitor_work_handler` has reported as dead, in order. -/
  reported : List (Ptr × Task)
  /-- The character device exists. -/
  cdev : Bool

def myIoctlTimerSet : UInt32 := ioc 1 0x6b 1 8
def myIoctlTimerCancel : UInt32 := ioc 0 0x6b 2 0
def myIoctlTimerAlloc : UInt32 := ioc 1 0x6b 3 8
def myIoctlTimerMon : UInt32 := ioc 0 0x6b 4 0

namespace Deferred

def getTaskStruct (state : Deferred) (task : Task) : Deferred :=
  { state with refs := Function.update state.refs task (state.refs task + 1) }

def putTaskStruct (state : Deferred) (task : Task) : Deferred :=
  { state with refs := Function.update state.refs task (state.refs task - 1) }

def modTimer (state : Deferred) (expires : UInt64) : Deferred := { state with timer := some expires }

def delTimer (state : Deferred) : Deferred := { state with timer := none }

def withHeap (state : Deferred) (heap : Heap Task) : Deferred := { state with heap := heap }

end Deferred

/-- Only the entries, the references and the reports differ. -/
def OnlyEntries (before after : Deferred) : Prop :=
  after = { before with heap := after.heap, refs := after.refs, reported := after.reported }

/-- `get_proc`, with the block `kmalloc` will return, if any. -/
def getProc (state : Deferred) (pid : Int32) (memory : Option (Block Task)) :
    Except Fault (Deferred × Ptr) := do
  match state.pids pid with
  | none => return (state, .err esrch.toNat)
  | some task =>
    let (heap, p) := kmalloc state.heap memory
    if p = .null then return (state.withHeap heap, .err enomem.toNat)
    let state := (state.withHeap heap).getTaskStruct task
    let heap ← state.heap.store p task
    return (state.withHeap heap, p)

/-- The loop body of `monitor_work_handler`. -/
def monitorBody (state : Deferred) (procPtr : Ptr) : Except Fault (Flow Deferred Unit) := do
  let task ← state.heap.load procPtr
  if state.dead task then
    let state := { state with reported := state.reported ++ [(procPtr, task)] }
    let state := state.putTaskStruct task
    let heap ← listDel state.heap procPtr
    let heap ← kfree heap procPtr
    return .next (state.withHeap heap)
  else return .next state

def monitorWorkHandler (state : Deferred) : Except Fault Deferred := do
  match ← listForEachEntrySafe (·.heap) processList monitorBody state with
  | .next state => return state
  | .done state () => return state

/-- The loop body of `deferred_exit`. -/
def exitBody (state : Deferred) (p : Ptr) : Except Fault (Flow Deferred Unit) := do
  let task ← state.heap.load p
  let state := state.putTaskStruct task
  let heap ← listDel state.heap p
  let heap ← kfree heap p
  return .next (state.withHeap heap)

section Steps
variable (hz : UInt64)

def timerHandler (state : Deferred) : Deferred :=
  match state.flag with
  | .set => state.modTimer (state.jiffies + 1 * hz)
  | .alloc => { state with ioWork := true }
  | .mon => { state with monitorWork := true }.modTimer (state.jiffies + 1 * hz)
  | .none => state

/-- `deferred_ioctl`. A `pid_t` is 32 bits wide. -/
def deferredIoctl (state : Deferred) (cmd : UInt32) (arg : UInt64) (memory : Option (Block Task)) :
    Except Fault (Deferred × Int) := do
  if cmd = myIoctlTimerSet then
    let state := { state with flag := .set }
    return (state.modTimer (state.jiffies + arg * hz), 0)
  else if cmd = myIoctlTimerCancel then return (state.delTimer, 0)
  else if cmd = myIoctlTimerAlloc then
    let state := { state with flag := .alloc }
    return (state.modTimer (state.jiffies + arg * hz), 0)
  else if cmd = myIoctlTimerMon then
    let (state, procPtr) ← getProc state arg.toUInt32.toInt32 memory
    if procPtr = .null then return (state, -enotty)
    let heap ← listAdd state.heap procPtr processList
    let state := { state.withHeap heap with flag := .mon }
    return (state.modTimer (state.jiffies + 1 * hz), 0)
  else return (state, -enotty)

/-- The work queue runs `monitor_work`, if it is queued; `flush_work` waits for that. -/
def runMonitorWork (state : Deferred) : Except Fault Deferred :=
  if state.monitorWork then monitorWorkHandler { state with monitorWork := false } else .ok state

def deferredExit (state : Deferred) : Except Fault Deferred := do
  let state := { state with cdev := false }
  let state := state.delTimer
  let state := { state with ioWork := false }
  let state ← runMonitorWork state
  match ← listForEachEntrySafe (·.heap) processList exitBody state with
  | .next state => return state
  | .done state () => return state

inductive Action
  /-- A process with the device open calls `ioctl`. -/
  | ioctl (cmd : UInt32) (arg : UInt64) (memory : Option (Block Task))
  /-- The timer expires. -/
  | expire
  | runIoWork
  | runMonitorWork
  /-- A process dies. -/
  | exit (task : Task)
  /-- A process gets this number, or gives it up. -/
  | assign (pid : Int32) (task : Option Task)
  | tick
  /-- `deferred_exit`. -/
  | unload

def deferredStep (state : Deferred) : Action → Except Fault Deferred
  | .ioctl cmd arg memory =>
    if state.cdev then do
      let (state, _) ← deferredIoctl hz state cmd arg memory
      return state
    else .ok state
  | .expire => .ok (if state.timer.isSome then timerHandler hz state.delTimer else state)
  | .runIoWork => .ok { state with ioWork := false }
  | .runMonitorWork => runMonitorWork state
  | .exit task => .ok { state with dead := Function.update state.dead task true }
  | .assign pid task => .ok { state with pids := Function.update state.pids pid task }
  | .tick => .ok { state with jiffies := state.jiffies + 1 }
  | .unload => if state.cdev then deferredExit state else .ok state

end Steps

/-- The state `deferred_init` leaves, among these processes. -/
def loaded (jiffies : UInt64) (pids : Int32 → Option Task) (dead : Task → Bool) : Deferred where
  timer := none
  flag := .none
  ioWork := false
  monitorWork := false
  heap := Heap.init processList
  jiffies := jiffies
  pids := pids
  dead := dead
  refs _ := 0
  reported := []
  cdev := true

/-- What a call of `deferred_ioctl` can do. -/
theorem deferredIoctl_cases {hz : UInt64} {state after : Deferred} {cmd : UInt32} {arg : UInt64}
    {memory : Option (Block Task)} {ret : Int}
    (ran : deferredIoctl hz state cmd arg memory = .ok (after, ret)) :
    (cmd = myIoctlTimerSet ∧ ret = 0 ∧
      after = { state with flag := .set }.modTimer (state.jiffies + arg * hz)) ∨
    (cmd = myIoctlTimerCancel ∧ ret = 0 ∧ after = state.delTimer) ∨
    (cmd = myIoctlTimerAlloc ∧ ret = 0 ∧
      after = { state with flag := .alloc }.modTimer (state.jiffies + arg * hz)) ∨
    (cmd = myIoctlTimerMon ∧ ∃ middle procPtr,
      getProc state arg.toUInt32.toInt32 memory = .ok (middle, procPtr) ∧
      (procPtr = .null ∧ ret = -enotty ∧ after = middle ∨
        procPtr ≠ .null ∧ ret = 0 ∧ ∃ heap, listAdd middle.heap procPtr processList = .ok heap ∧
          after = { middle.withHeap heap with flag := .mon }.modTimer (middle.jiffies + 1 * hz))) ∨
    (cmd ∉ [myIoctlTimerSet, myIoctlTimerCancel, myIoctlTimerAlloc, myIoctlTimerMon] ∧
      ret = -enotty ∧ after = state) := by
  unfold deferredIoctl at ran
  by_cases isSet : cmd = myIoctlTimerSet
  · rw [if_pos isSet] at ran
    cases ran
    exact .inl ⟨isSet, rfl, rfl⟩
  rw [if_neg isSet] at ran
  by_cases isCancel : cmd = myIoctlTimerCancel
  · rw [if_pos isCancel] at ran
    cases ran
    exact .inr (.inl ⟨isCancel, rfl, rfl⟩)
  rw [if_neg isCancel] at ran
  by_cases isAlloc : cmd = myIoctlTimerAlloc
  · rw [if_pos isAlloc] at ran
    cases ran
    exact .inr (.inr (.inl ⟨isAlloc, rfl, rfl⟩))
  rw [if_neg isAlloc] at ran
  by_cases isMon : cmd = myIoctlTimerMon
  · rw [if_pos isMon] at ran
    obtain ⟨⟨middle, procPtr⟩, got, rest⟩ := bind_eq_ok.mp ran
    refine .inr (.inr (.inr (.inl ⟨isMon, middle, procPtr, got, ?_⟩)))
    by_cases isNull : procPtr = .null
    · simp only [isNull, if_true] at rest
      cases rest
      exact .inl ⟨isNull, rfl, rfl⟩
    · simp only [isNull, if_false] at rest
      obtain ⟨heap, linked, rest⟩ := bind_eq_ok.mp rest
      cases rest
      exact .inr ⟨isNull, rfl, heap, linked, rfl⟩
  · rw [if_neg isMon] at ran
    cases ran
    exact .inr (.inr (.inr (.inr ⟨by simp [isSet, isCancel, isAlloc, isMon], rfl, rfl⟩)))

end KernelLabs.DeferredDriver
