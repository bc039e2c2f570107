import KernelLabs.DeferredProcesses

/-! What `MY_IOCTL_TIMER_MON` leaves of the list, the references, the flag and the timer.
`get_proc` reports its failures in the pointer it returns, which the ioctl only compares
with `NULL`; and it looks up the low 32 bits of the argument. -/
namespace KernelLabs.DeferredDriver
open LinuxList Errno

variable {state next after : Deferred} {entries : List (Ptr × Task)} {task : Task} {hz arg : UInt64}
  {memory : Option (Block Task)} {action : Action} {actions : List Action}

/-- The existing process whose pid equals the argument. -/
def Names (state : Deferred) (arg : UInt64) (task : Task) : Prop :=
  ∃ pid : Int32, pid.toInt = arg.toNat ∧ state.pids pid = some task

/-- One entry more, for the named process, and the timer armed in monitor mode. -/
structure Monitors (hz : UInt64) (state : Deferred) (arg : UInt64) (after : Deferred) : Prop where
  entry : ∃ number task entries, Names state arg task ∧ Listed state.heap entries ∧
    Listed after.heap ((.slab number, task) :: entries) ∧
    after.refs = Function.update state.refs task (state.refs task + 1)
  flag : after.flag = .mon
  timer : after.timer = some (state.jiffies + 1 * hz)

/-- Nothing that the driver goes by has changed. -/
structure Untouched (state after : Deferred) : Prop where
  list : ∀ entries, Listed state.heap entries → Listed after.heap entries
  refs : after.refs = state.refs
  flag : after.flag = state.flag
  timer : after.timer = state.timer

def AllOrNothing (hz : UInt64) (state : Deferred) (arg : UInt64) (memory : Option (Block Task)) : Prop :=
  ∃ after ret, deferredIoctl hz state myIoctlTimerMon arg memory = .ok (after, ret) ∧
    (ret = 0 ∧ Monitors hz state arg after ∨ ret < 0 ∧ Untouched state after)

/-- The branch of `deferred_ioctl` for this command. -/
theorem deferredIoctl_mon : deferredIoctl hz state myIoctlTimerMon arg memory = do
    let (state, procPtr) ← getProc state arg.toUInt32.toInt32 memory
    if procPtr = .null then return (state, -enotty)
    let heap ← listAdd state.heap procPtr processList
    let state := { state.withHeap heap with flag := .mon }
    return (state.modTimer (state.jiffies + 1 * hz), 0) := by
  have others : myIoctlTimerMon ≠ myIoctlTimerSet ∧ myIoctlTimerMon ≠ myIoctlTimerCancel ∧
      myIoctlTimerMon ≠ myIoctlTimerAlloc := by decide
  rw [deferredIoctl, if_neg others.1, if_neg others.2.1, if_neg others.2.2, if_pos rfl]

/-- Without the process or the memory, an error pointer goes to `list_add`. -/
theorem monitor_refused (held : Monitored state entries)
    (refused : ¬((state.pids arg.toUInt32.toInt32).isSome ∧ memory.isSome)) :
    deferredIoctl hz state myIoctlTimerMon arg memory = .error .badAccess := by
  have failed : ∃ errno, getProc state arg.toUInt32.toInt32 memory = .ok (state, .err errno) := by
    cases found : state.pids arg.toUInt32.toInt32 with
    | none => exact ⟨esrch.toNat, by simp [getProc, found]⟩
    | some task =>
      have none : memory = none := by
        simpa [found] using refused
      exact ⟨enomem.toNat, by simp [getProc, found, none, kmalloc, Deferred.withHeap]⟩
  obtain ⟨errno, got⟩ := failed
  rw [deferredIoctl_mon, got, ok_bind]
  simp [listAdd_of_dead (ring_err held.listed.ring errno)]

/-- With both, there is one entry more, and one reference to its process. -/
theorem monitor_served (held : Monitored state entries) (block : Block Task)
    (found : state.pids arg.toUInt32.toInt32 = some task) :
    ∃ after, deferredIoctl hz state myIoctlTimerMon arg (some block) = .ok (after, 0) ∧
      Listed after.heap ((.slab state.heap.handedOut, task) :: entries) ∧ after.flag = .mon ∧
      after.timer = some (state.jiffies + 1 * hz) ∧
      after.refs = Function.update state.refs task (state.refs task + 1) := by
  obtain ⟨middle, heap, got, added, only, held'⟩ := monitor_request _ held block found
  have refs : middle.refs = Function.update state.refs task (state.refs task + 1) := by
    funext other
    have count : middle.refs other = _ := held'.counted other
    rw [count, Function.update_apply, held.counted, held.counted, List.map_cons, List.count_cons]
    by_cases same : other = task
    · simp [same]
    · simp [same, Ne.symm same]
  have clock : (middle.withHeap heap).jiffies = state.jiffies := by rw [only]
  refine ⟨{ middle.withHeap heap with flag := .mon }.modTimer (middle.jiffies + 1 * hz), ?_,
    held'.listed, rfl, by rw [← clock]; rfl, refs⟩
  rw [deferredIoctl_mon, got, ok_bind]
  simp only [reduceCtorEq, if_false, added, ok_bind, pure_eq_ok]
  rfl

/-- So a step that does not fault is an admitted one. -/
theorem admitted_of_ok (settled : Settled state) (ran : deferredStep hz state action = .ok next) :
    Admitted state action := by
  obtain ⟨entries, held, -⟩ := settled
  cases action with
  | ioctl cmd arg memory =>
    rintro opened rfl
    by_contra refused
    simp [deferredStep, opened, monitor_refused held refused] at ran
  | expire | runIoWork | runMonitorWork | exit | assign | tick | unload => trivial

theorem settled_of_run {jiffies : UInt64} {pids : Int32 → Option Task} {dead : Task → Bool}
    (reached : run (deferredStep hz) (loaded jiffies pids dead) actions = .ok state) : Settled state := by
  have start : Settled (loaded jiffies pids dead) := ⟨[], loaded_monitored jiffies pids dead, by simp [loaded]⟩
  refine run_invariant Settled (fun state action next settled ran => ?_) start reached
  obtain ⟨next', ran', settled', -⟩ := deferredStep_settled settled (admitted_of_ok settled ran)
  rw [ran] at ran'
  cases ran'
  exact settled'

/-- A pid that equals the argument is what the argument is narrowed to. -/
theorem narrowed {pid : Int32} (same : pid.toInt = arg.toNat) : arg.toUInt32.toInt32 = pid := by
  have limit := pid.toInt_lt
  have low : arg.toUInt32.toNat = arg.toNat := by
    rw [UInt64.toNat_toUInt32, Nat.mod_eq_of_lt (by omega)]
  apply Int32.toInt_inj.mp
  rw [same, ← low]
  exact BitVec.toInt_eq_toNat_of_lt (by show 2 * arg.toUInt32.toNat < 2 ^ 32; omega)

/-- **All or nothing.** In every reachable state, a `MY_IOCTL_TIMER_MON` is monitored or
leaves everything as it was exactly if a process has the argument for its pid and
there is memory for its entry. -/
theorem all_or_nothing_iff {jiffies : UInt64} {pids : Int32 → Option Task} {dead : Task → Bool}
    (reached : run (deferredStep hz) (loaded jiffies pids dead) actions = .ok state)
    (arg : UInt64) (memory : Option (Block Task)) :
    AllOrNothing hz state arg memory ↔ (∃ task, Names state arg task) ∧ memory.isSome := by
  obtain ⟨entries, held, -⟩ := settled_of_run reached
  constructor
  · rintro ⟨after, ret, ran, outcome⟩
    have admitted : (state.pids arg.toUInt32.toInt32).isSome ∧ memory.isSome := by
      by_contra refused
      rw [monitor_refused held refused] at ran
      cases ran
    refine ⟨?_, admitted.2⟩
    rcases outcome with ⟨-, ⟨⟨number, task, entries, names, -⟩, -, -⟩⟩ | ⟨failed, -⟩
    · exact ⟨task, names⟩
    · obtain ⟨task, found⟩ := Option.isSome_iff_exists.mp admitted.1
      obtain ⟨block, rfl⟩ := Option.isSome_iff_exists.mp admitted.2
      obtain ⟨after', ran', -⟩ := monitor_served held block found
      rw [ran] at ran'
      cases ran'
      exact absurd failed (Int.lt_irrefl 0)
  · rintro ⟨⟨task, pid, same, found⟩, allocated⟩
    obtain ⟨block, rfl⟩ := Option.isSome_iff_exists.mp allocated
    have known : state.pids arg.toUInt32.toInt32 = some task := by rw [narrowed same, found]
    obtain ⟨after, ran, listed, flag, timer, refs⟩ := monitor_served held block known
    refine ⟨after, 0, ran, .inl ⟨rfl, ?_, flag, timer⟩⟩
    exact ⟨state.heap.handedOut, task, entries, ⟨pid, same, found⟩, held.listed, listed, refs⟩

theorem all_or_nothing_existing :
    AllOrNothing 250 (loaded 0 (fun pid => if pid = 7 then some 5 else none) fun _ => false) 7
      (some ⟨0, .null, .null⟩) :=
  (all_or_nothing_iff (show run (deferredStep 250)
    (loaded 0 (fun pid => if pid = 7 then some 5 else none) fun _ => false) [] = .ok _ from rfl) 7
    (some ⟨0, .null, .null⟩)).mpr ⟨⟨5, 7, by decide, rfl⟩, rfl⟩

/-- A pid that no process has goes to `list_add` as an error pointer; a number above
`2 ^ 32` monitors a process with another pid. -/
theorem error_pointer_is_added :
    deferredIoctl 250 (loaded 0 (fun pid => if pid = 7 then some 5 else none) fun _ => false)
        myIoctlTimerMon 8 (some ⟨0, .null, .null⟩) = .error .badAccess ∧
      ¬AllOrNothing 250 (loaded 0 (fun pid => if pid = 7 then some 5 else none) fun _ => false) 8
        (some ⟨0, .null, .null⟩) ∧
      (∃ after, deferredIoctl 250 (loaded 0 (fun pid => if pid = 7 then some 5 else none) fun _ => false)
        myIoctlTimerMon 0x100000007 (some ⟨0, .null, .null⟩) = .ok (after, 0)) := by
  have refused : deferredIoctl 250 (loaded 0 (fun pid => if pid = 7 then some 5 else none) fun _ => false)
      myIoctlTimerMon 8 (some ⟨0, .null, .null⟩) = .error .badAccess :=
    monitor_refused (loaded_monitored _ _ _) (by decide)
  refine ⟨refused, ?_, _, rfl⟩
  rintro ⟨after, ret, ran, -⟩
  rw [refused] at ran
  cases ran

end KernelLabs.DeferredDriver
