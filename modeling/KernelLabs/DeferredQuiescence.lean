import KernelLabs.DeferredUnload

/-! When `deferred_exit` returns, nothing of the module is left to run. Every call
of it closes one source of work: after `cdev_del` no ioctl arms the timer, after
`del_timer_sync` nothing queues the work items, and each flush then waits for the
last instance there will ever be. -/
namespace KernelLabs.DeferredUnload
open LinuxList DeferredDriver

/-- Every instance that was queued has finished, is running, or still is queued. -/
def Accounted {Pc : Type} (queued : Bool) (work : Work Pc) : Prop :=
  work.enqueued = work.finished + work.running.toList.length + queued.toNat

/-- Nothing is left that could queue a work item. -/
structure Stopped (state : Unloading) : Prop where
  calls : state.calls = []
  timer : state.dev.timer = none
  timerHandler : state.timerHandler = none

structure IoDone (state : Unloading) : Prop extends Stopped state where
  ioWork : state.dev.ioWork = false
  io : state.io.running = none

/-- None of the module's deferred code is running, pending or queued. -/
structure Quiet (state : Unloading) : Prop extends IoDone state where
  monitorWork : state.dev.monitorWork = false
  monitor : state.monitor.running = none

/-- What `deferred_exit` has achieved before its next call. -/
def Reached (state : Unloading) : ExitPc → Prop
  | .notStarted => True
  | .prInfo | .cdevDel | .unregisterChrdevRegion | .delTimerSync => state.calls = []
  | .flushIo => Stopped state
  | .waitIo target => Stopped state ∧ target = state.io.enqueued
  | .flushMonitor => IoDone state
  | .waitMonitor target => IoDone state ∧ target = state.monitor.enqueued
  | .cleanup _ | .returned => Quiet state

structure Orderly (state : Unloading) : Prop where
  io : Accounted state.dev.ioWork state.io
  monitor : Accounted state.dev.monitorWork state.monitor
  reached : Reached state state.exit

variable {hz : UInt64} {state next : Unloading} {dev dev' : Deferred} {locked locked' : Bool}

theorem atRest_orderly (jiffies : UInt64) (pids : Int32 → Option Task) (dead : Task → Bool) :
    Orderly (atRest jiffies pids dead) :=
  ⟨rfl, rfl, trivial⟩

/-- A flush that has waited for every instance leaves the work item idle. -/
theorem flushed_idle {Pc : Type} {queued : Bool} {work : Work Pc} (accounted : Accounted queued work)
    (flushed : ¬ work.finished < work.enqueued) : queued = false ∧ work.running = none := by
  unfold Accounted at accounted
  have none : work.running.toList.length = 0 := by omega
  have idle : queued.toNat = 0 := by omega
  exact ⟨by simpa using idle, by simpa using none⟩

/-! ## Statements -/

/-- A loop over the list touches nothing but the entries. -/
theorem loopStatement_only {onlyDead : Bool} {pc pc' : LoopPc}
    (ran : loopStatement onlyDead dev locked pc = .ok (dev', locked', pc')) : OnlyEntries dev dev' := by
  cases pc with
  | spinLock | test | spinUnlock | «return» =>
    cases ran
    rfl
  | first =>
    obtain ⟨pos, -, rest⟩ := bind_eq_ok.mp ran
    obtain ⟨n, -, rest⟩ := bind_eq_ok.mp rest
    cases rest
    rfl
  | testDead | prInfo | putTaskStruct | listDel | kfree | advance =>
    obtain ⟨value, -, rest⟩ := bind_eq_ok.mp ran
    cases rest
    rfl

theorem getProc_only {pid : Int32} {memory : Option (Block Task)} {p : Ptr}
    (ran : getProc dev pid memory = .ok (dev', p)) : OnlyEntries dev dev' := by
  unfold getProc at ran
  split at ran
  · cases ran
    rfl
  · simp only at ran
    split at ran
    · cases ran
      rfl
    · obtain ⟨heap, -, rest⟩ := bind_eq_ok.mp ran
      cases rest
      rfl

/-- A call of `deferred_ioctl` queues no work itself. -/
theorem callStatement_works {pc : CallPc} {pc' : Option CallPc}
    (ran : callStatement hz dev locked pc = .ok (dev', locked', pc')) :
    dev'.ioWork = dev.ioWork ∧ dev'.monitorWork = dev.monitorWork := by
  cases pc with
  | setFlag | modTimer | delTimer | spinLock | spinUnlock =>
    cases ran
    exact ⟨rfl, rfl⟩
  | getProc =>
    obtain ⟨⟨dev, p⟩, got, rest⟩ := bind_eq_ok.mp ran
    cases rest
    have only := getProc_only got
    constructor <;> rw [only]
  | listAdd =>
    obtain ⟨heap, -, rest⟩ := bind_eq_ok.mp ran
    cases rest
    exact ⟨rfl, rfl⟩

/-- `schedule_work` counts one instance more where it queues one. -/
theorem scheduleIo_accounted (accounted : Accounted state.dev.ioWork state.io) :
    Accounted state.scheduleIo.dev.ioWork state.scheduleIo.io := by
  unfold Unloading.scheduleIo
  split
  · exact accounted
  · next free =>
    simp only [free, Accounted, Bool.toNat_false, Bool.toNat_true] at accounted ⊢
    omega

theorem scheduleMonitor_accounted (accounted : Accounted state.dev.monitorWork state.monitor) :
    Accounted state.scheduleMonitor.dev.monitorWork state.scheduleMonitor.monitor := by
  unfold Unloading.scheduleMonitor
  split
  · exact accounted
  · next free =>
    simp only [free, Accounted, Bool.toNat_false, Bool.toNat_true] at accounted ⊢
    omega

/-- What a statement of `timer_handler` leaves alone. -/
theorem timerStatement_frame (hz : UInt64) (state : Unloading) (pc : TimerPc) :
    (timerStatement hz state pc).exit = state.exit ∧ (timerStatement hz state pc).calls = state.calls := by
  obtain ⟨_, _, _, _, _, _, same⟩ := timerStatement_touches hz state pc
  exact ⟨by rw [same], by rw [same]⟩

theorem timerStatement_accounted (pc : TimerPc) (io : Accounted state.dev.ioWork state.io)
    (monitor : Accounted state.dev.monitorWork state.monitor) :
    Accounted (timerStatement hz state pc).dev.ioWork (timerStatement hz state pc).io ∧
      Accounted (timerStatement hz state pc).dev.monitorWork (timerStatement hz state pc).monitor := by
  cases pc with
  | scheduleIo =>
    refine ⟨scheduleIo_accounted io, ?_⟩
    simp only [timerStatement, Unloading.scheduleIo]
    split <;> exact monitor
  | scheduleMonitor =>
    refine ⟨?_, scheduleMonitor_accounted monitor⟩
    simp only [timerStatement, Unloading.scheduleMonitor]
    split <;> exact io
  | printk | testSet | testAlloc | testMon | modTimer | «return» => exact ⟨io, monitor⟩

/-- A statement of `monitor_work_handler` moves the handler on, or ends it. -/
theorem monitorStatement_frame {pc : LoopPc} (ran : monitorStatement state pc = .ok next) :
    ∃ dev locked monitor, next = { state with dev, locked, monitor } ∧ OnlyEntries state.dev dev ∧
      monitor.enqueued = state.monitor.enqueued ∧
      monitor.finished + monitor.running.toList.length = state.monitor.finished + 1 := by
  rcases monitorStatement_cases ran with ⟨-, rfl⟩ | ⟨-, dev, locked, later, taken, rfl⟩
  · exact ⟨state.dev, state.locked, _, rfl, rfl, rfl, rfl⟩
  · exact ⟨dev, locked, _, rfl, loopStatement_only taken, rfl, rfl⟩

/-- The last loop of `deferred_exit` is over the entries only. -/
theorem cleanup_frame {pc : LoopPc} (ran : exitStatement state (.cleanup pc) = .ok next) :
    ∃ dev locked exit, next = { state with dev, locked, exit } ∧ OnlyEntries state.dev dev ∧
      (exit = .returned ∨ ∃ pc, exit = .cleanup pc) := by
  rcases cleanup_cases ran with ⟨-, rfl⟩ | ⟨-, dev, locked, later, taken, rfl⟩
  · exact ⟨state.dev, state.locked, .returned, rfl, rfl, .inl rfl⟩
  · exact ⟨dev, locked, .cleanup later, rfl, loopStatement_only taken, .inr ⟨later, rfl⟩⟩

/-- `deferred_exit` itself neither runs the work items nor touches their accounts. -/
theorem exitStatement_frame {pc : ExitPc} (ran : exitStatement state pc = .ok next) :
    next.io = state.io ∧ next.monitor = state.monitor ∧
      next.dev.ioWork = state.dev.ioWork ∧ next.dev.monitorWork = state.dev.monitorWork := by
  cases pc with
  | delTimerSync | waitIo | waitMonitor =>
    simp only [exitStatement] at ran
    split at ran <;> cases ran <;> exact ⟨rfl, rfl, rfl, rfl⟩
  | notStarted | prInfo | cdevDel | unregisterChrdevRegion | flushIo | flushMonitor | returned =>
    cases ran
    exact ⟨rfl, rfl, rfl, rfl⟩
  | cleanup pc =>
    obtain ⟨dev, locked, exit, rfl, only, -⟩ := cleanup_frame ran
    have ioWork : dev.ioWork = state.dev.ioWork := by rw [only]
    have monitorWork : dev.monitorWork = state.dev.monitorWork := by rw [only]
    exact ⟨rfl, rfl, ioWork, monitorWork⟩

/-! ## Turns -/

/-- A turn of anything but `deferred_exit` undoes nothing that has achieved. -/
structure Harmless (state next : Unloading) : Prop where
  exit : next.exit = state.exit
  closed : state.exit ≠ .notStarted → state.calls = [] → next.calls = []
  stopped : state.exit ≠ .notStarted → Stopped state → Stopped next ∧
    next.io.enqueued = state.io.enqueued ∧ next.monitor.enqueued = state.monitor.enqueued
  io : state.exit ≠ .notStarted → IoDone state → IoDone next
  quiet : state.exit ≠ .notStarted → Quiet state → Quiet next

theorem Harmless.refl (state : Unloading) : Harmless state state :=
  ⟨rfl, fun _ => id, fun _ stopped => ⟨stopped, rfl, rfl⟩, fun _ => id, fun _ => id⟩

theorem Harmless.reached (harmless : Harmless state next) (reached : Reached state state.exit) :
    Reached next next.exit := by
  obtain ⟨exit, closed, stopped, io, quiet⟩ := harmless
  rw [exit]
  cases phase : state.exit with
  | notStarted => trivial
  | prInfo | cdevDel | unregisterChrdevRegion | delTimerSync =>
    rw [phase] at reached
    exact closed (by simp [phase]) reached
  | flushIo =>
    rw [phase] at reached
    exact (stopped (by simp [phase]) reached).1
  | waitIo target =>
    rw [phase] at reached
    obtain ⟨kept, same, -⟩ := stopped (by simp [phase]) reached.1
    exact ⟨kept, reached.2.trans same.symm⟩
  | flushMonitor =>
    rw [phase] at reached
    exact io (by simp [phase]) reached
  | waitMonitor target =>
    rw [phase] at reached
    obtain ⟨-, -, same⟩ := stopped (by simp [phase]) reached.1.toStopped
    exact ⟨io (by simp [phase]) reached.1, reached.2.trans same.symm⟩
  | cleanup | returned =>
    rw [phase] at reached
    exact quiet (by simp [phase]) reached

/-- Where no timer is pending, no handler runs and no call runs, the turns of the
other processors are no-ops or leave the timer, the calls and the exit alone. -/
theorem turn_harmless {action : Turn} (other : action ≠ .unload ∧ action ≠ .inExit)
    (taken : turn hz state action = .ok next) : Harmless state next := by
  cases action with
  | unload => exact absurd rfl other.1
  | inExit => exact absurd rfl other.2
  | call cmd arg memory =>
    simp only [turn] at taken
    split at taken
    · next fresh =>
      cases taken
      exact ⟨rfl, fun started => absurd fresh started, fun started => absurd fresh started,
        fun started => absurd fresh started, fun started => absurd fresh started⟩
    · cases taken
      exact .refl state
  | inCall index =>
    simp only [turn] at taken
    split at taken
    · cases taken
      exact .refl state
    · next pc running =>
      have busy : state.calls ≠ [] := by
        rintro none
        simp [none] at running
      obtain ⟨⟨dev, locked, rest⟩, -, done⟩ := bind_eq_ok.mp taken
      cases done
      exact ⟨rfl, fun _ none => absurd none busy, fun _ stopped => absurd stopped.calls busy,
        fun _ done => absurd done.calls busy, fun _ quiet => absurd quiet.calls busy⟩
  | expire =>
    simp only [turn] at taken
    split at taken
    · next due =>
      have armed : state.dev.timer ≠ none := by
        intro none
        simp [none] at due
      cases taken
      exact ⟨rfl, fun _ => id, fun _ stopped => absurd stopped.timer armed,
        fun _ done => absurd done.timer armed, fun _ quiet => absurd quiet.timer armed⟩
    · cases taken
      exact .refl state
  | inTimer =>
    simp only [turn] at taken
    split at taken
    · cases taken
      exact .refl state
    · next pc running =>
      have busy : state.timerHandler ≠ none := by simp [running]
      obtain ⟨exit, calls⟩ := timerStatement_frame hz state pc
      cases taken
      exact ⟨exit, fun _ none => calls.trans none, fun _ stopped => absurd stopped.timerHandler busy,
        fun _ done => absurd done.timerHandler busy, fun _ quiet => absurd quiet.timerHandler busy⟩
  | startIo =>
    simp only [turn] at taken
    split at taken
    · next due =>
      have queued : state.dev.ioWork ≠ false := by
        intro none
        simp [none] at due
      cases taken
      exact ⟨rfl, fun _ => id, fun _ ⟨calls, timer, handler⟩ => ⟨⟨calls, timer, handler⟩, rfl, rfl⟩,
        fun _ done => absurd done.ioWork queued, fun _ quiet => absurd quiet.ioWork queued⟩
    · cases taken
      exact .refl state
  | inIo =>
    simp only [turn] at taken
    split at taken
    · cases taken
      exact .refl state
    · next pc running =>
      have busy : state.io.running ≠ none := by simp [running]
      cases taken
      cases pc <;> exact ⟨rfl, fun _ => id,
        fun _ ⟨calls, timer, handler⟩ => ⟨⟨calls, timer, handler⟩, rfl, rfl⟩,
        fun _ done => absurd done.io busy, fun _ quiet => absurd quiet.io busy⟩
  | startMonitor =>
    simp only [turn] at taken
    split at taken
    · next due =>
      have queued : state.dev.monitorWork ≠ false := by
        intro none
        simp [none] at due
      cases taken
      exact ⟨rfl, fun _ => id, fun _ ⟨calls, timer, handler⟩ => ⟨⟨calls, timer, handler⟩, rfl, rfl⟩,
        fun _ ⟨⟨calls, timer, handler⟩, work, io⟩ => ⟨⟨calls, timer, handler⟩, work, io⟩,
        fun _ quiet => absurd quiet.monitorWork queued⟩
    · cases taken
      exact .refl state
  | inMonitor =>
    simp only [turn] at taken
    split at taken
    · cases taken
      exact .refl state
    · next pc running =>
      have busy : state.monitor.running ≠ none := by simp [running]
      obtain ⟨dev, locked, monitor, rfl, only, same, -⟩ := monitorStatement_frame taken
      have timer : dev.timer = state.dev.timer := by rw [only]
      have ioWork : dev.ioWork = state.dev.ioWork := by rw [only]
      exact ⟨rfl, fun _ => id,
        fun _ stopped => ⟨⟨stopped.calls, timer.trans stopped.timer, stopped.timerHandler⟩, rfl, same⟩,
        fun _ done => ⟨⟨done.calls, timer.trans done.timer, done.timerHandler⟩,
          ioWork.trans done.ioWork, done.io⟩,
        fun _ quiet => absurd quiet.monitor busy⟩
  | exit | assign | tick =>
    cases taken
    exact ⟨rfl, fun _ => id, fun _ ⟨calls, timer, handler⟩ => ⟨⟨calls, timer, handler⟩, rfl, rfl⟩,
      fun _ ⟨⟨calls, timer, handler⟩, work, io⟩ => ⟨⟨calls, timer, handler⟩, work, io⟩,
      fun _ ⟨⟨⟨calls, timer, handler⟩, work, io⟩, monitorWork, monitor⟩ =>
        ⟨⟨⟨calls, timer, handler⟩, work, io⟩, monitorWork, monitor⟩⟩

theorem turn_accounted {action : Turn} (io : Accounted state.dev.ioWork state.io)
    (monitor : Accounted state.dev.monitorWork state.monitor)
    (taken : turn hz state action = .ok next) :
    Accounted next.dev.ioWork next.io ∧ Accounted next.dev.monitorWork next.monitor := by
  cases action with
  | call | expire | unload =>
    simp only [turn] at taken
    split at taken <;> cases taken <;> exact ⟨io, monitor⟩
  | exit | assign | tick =>
    cases taken
    exact ⟨io, monitor⟩
  | inCall index =>
    simp only [turn] at taken
    split at taken
    · cases taken
      exact ⟨io, monitor⟩
    · obtain ⟨⟨dev, locked, rest⟩, ran, done⟩ := bind_eq_ok.mp taken
      obtain ⟨ioWork, monitorWork⟩ := callStatement_works ran
      cases done
      exact ⟨show Accounted dev.ioWork state.io from ioWork ▸ io,
        show Accounted dev.monitorWork state.monitor from monitorWork ▸ monitor⟩
  | inTimer =>
    simp only [turn] at taken
    split at taken <;> cases taken
    · exact ⟨io, monitor⟩
    · exact timerStatement_accounted _ io monitor
  | startIo =>
    simp only [turn] at taken
    split at taken <;> cases taken
    · next due =>
      simp only [Bool.and_eq_true, Option.isNone_iff_eq_none] at due
      refine ⟨?_, monitor⟩
      simpa [Accounted, due] using io
    · exact ⟨io, monitor⟩
  | startMonitor =>
    simp only [turn] at taken
    split at taken <;> cases taken
    · next due =>
      simp only [Bool.and_eq_true, Option.isNone_iff_eq_none] at due
      refine ⟨io, ?_⟩
      simpa [Accounted, due] using monitor
    · exact ⟨io, monitor⟩
  | inIo =>
    simp only [turn] at taken
    split at taken <;> cases taken
    · exact ⟨io, monitor⟩
    · next pc running =>
      refine ⟨?_, ?_⟩
      · cases pc <;> simpa [Accounted, ioStatement, running] using io
      · cases pc <;> exact monitor
  | inMonitor =>
    simp only [turn] at taken
    split at taken
    · cases taken
      exact ⟨io, monitor⟩
    · next pc running =>
      obtain ⟨dev, locked, work, rfl, only, same, progress⟩ := monitorStatement_frame taken
      have ioWork : dev.ioWork = state.dev.ioWork := by rw [only]
      have monitorWork : dev.monitorWork = state.dev.monitorWork := by rw [only]
      refine ⟨show Accounted dev.ioWork state.io from ioWork ▸ io, ?_⟩
      simp only [Accounted, running, Option.toList_some, List.length_singleton, same, monitorWork,
        progress] at monitor ⊢
      exact monitor
  | inExit =>
    obtain ⟨sameIo, sameMonitor, ioWork, monitorWork⟩ := exitStatement_frame taken
    rw [sameIo, sameMonitor, ioWork, monitorWork]
    exact ⟨io, monitor⟩

theorem exitStatement_reached (orderly : Orderly state)
    (ran : exitStatement state state.exit = .ok next) : Reached next next.exit := by
  obtain ⟨io, monitor, reached⟩ := orderly
  cases phase : state.exit with
  | notStarted =>
    rw [phase] at ran
    cases ran
    rw [phase]
    trivial
  | prInfo | cdevDel | unregisterChrdevRegion =>
    rw [phase] at ran reached
    cases ran
    exact reached
  | delTimerSync =>
    rw [phase] at ran reached
    by_cases running : state.timerHandler.isSome = true
    · simp only [exitStatement, running, if_true] at ran
      cases ran
      rw [phase]
      exact reached
    · simp only [exitStatement, running, Bool.false_eq_true, if_false] at ran
      cases ran
      exact ⟨reached, rfl, by simpa using running⟩
  | flushIo =>
    rw [phase] at ran reached
    cases ran
    exact ⟨⟨reached.calls, reached.timer, reached.timerHandler⟩, rfl⟩
  | waitIo target =>
    rw [phase] at ran reached
    obtain ⟨stopped, rfl⟩ := reached
    by_cases left : state.io.finished < state.io.enqueued
    · simp only [exitStatement, left, if_true] at ran
      cases ran
      rw [phase]
      exact ⟨stopped, rfl⟩
    · simp only [exitStatement, left, if_false] at ran
      cases ran
      obtain ⟨ioWork, idle⟩ := flushed_idle io left
      exact ⟨⟨stopped.calls, stopped.timer, stopped.timerHandler⟩, ioWork, idle⟩
  | flushMonitor =>
    rw [phase] at ran reached
    cases ran
    exact ⟨⟨⟨reached.calls, reached.timer, reached.timerHandler⟩, reached.ioWork, reached.io⟩, rfl⟩
  | waitMonitor target =>
    rw [phase] at ran reached
    obtain ⟨done, rfl⟩ := reached
    by_cases left : state.monitor.finished < state.monitor.enqueued
    · simp only [exitStatement, left, if_true] at ran
      cases ran
      rw [phase]
      exact ⟨done, rfl⟩
    · simp only [exitStatement, left, if_false] at ran
      cases ran
      obtain ⟨monitorWork, idle⟩ := flushed_idle monitor left
      exact ⟨⟨⟨done.calls, done.timer, done.timerHandler⟩, done.ioWork, done.io⟩, monitorWork, idle⟩
  | cleanup pc =>
    rw [phase] at ran reached
    obtain ⟨dev, locked, exit, rfl, only, more⟩ := cleanup_frame ran
    have timer : dev.timer = state.dev.timer := by rw [only]
    have ioWork : dev.ioWork = state.dev.ioWork := by rw [only]
    have monitorWork : dev.monitorWork = state.dev.monitorWork := by rw [only]
    have quiet : Quiet { state with dev, locked, exit } :=
      ⟨⟨⟨reached.calls, timer.trans reached.timer, reached.timerHandler⟩, ioWork.trans reached.ioWork,
        reached.io⟩, monitorWork.trans reached.monitorWork, reached.monitor⟩
    rcases more with rfl | ⟨pc, rfl⟩
    · exact quiet
    · exact quiet
  | returned =>
    rw [phase] at ran reached
    cases ran
    rw [phase]
    exact reached

theorem turn_orderly {action : Turn} (orderly : Orderly state)
    (taken : turn hz state action = .ok next) : Orderly next := by
  obtain ⟨io, monitor⟩ := turn_accounted orderly.io orderly.monitor taken
  refine ⟨io, monitor, ?_⟩
  by_cases inExit : action = .inExit
  · subst inExit
    exact exitStatement_reached orderly taken
  by_cases unload : action = .unload
  · subst unload
    simp only [turn] at taken
    split at taken <;> cases taken
    · next free => exact free.2
    · exact orderly.reached
  · exact (turn_harmless ⟨unload, inExit⟩ taken).reached orderly.reached

/-- Where the module is quiet, no event starts its code. -/
theorem quiet_starts_nothing (quiet : Quiet state) :
    turn hz state .expire = .ok state ∧ turn hz state .startIo = .ok state ∧
      turn hz state .startMonitor = .ok state := by
  simp [turn, quiet.timer, quiet.ioWork, quiet.monitorWork]

/-- Once `deferred_exit` has returned, it stays returned. -/
theorem returned_stays {action : Turn} (returned : state.exit = .returned)
    (taken : turn hz state action = .ok next) : next.exit = .returned := by
  by_cases inExit : action = .inExit
  · subst inExit
    simp only [turn, returned, exitStatement] at taken
    exact Except.ok.inj taken ▸ returned
  by_cases unload : action = .unload
  · subst unload
    simp only [turn, returned, reduceCtorEq, false_and, if_false] at taken
    exact Except.ok.inj taken ▸ returned
  · exact (turn_harmless ⟨unload, inExit⟩ taken).exit.trans returned

/-- **Unloading is quiet.** Whatever was called, expired and queued before, and however
the processors take turns: once `deferred_exit` has returned, the timer is neither
pending nor running, no work item is queued or running, and that stays so: no event
starts code of the module again. -/
theorem deferred_exit_leaves_nothing (hz jiffies : UInt64) (pids : Int32 → Option Task) (dead : Task → Bool)
    (turns more : List Turn) (state final : Unloading)
    (ran : run (turn hz) (atRest jiffies pids dead) turns = .ok state) (returned : state.exit = .returned)
    (later : run (turn hz) state more = .ok final) :
    Quiet final ∧ turn hz final .expire = .ok final ∧ turn hz final .startIo = .ok final ∧
      turn hz final .startMonitor = .ok final := by
  have kept : ∀ state action next, Orderly state → turn hz state action = .ok next → Orderly next :=
    fun _ _ _ => turn_orderly
  have orderly : Orderly state := run_invariant Orderly kept (atRest_orderly jiffies pids dead) ran
  have orderly' : Orderly final := run_invariant Orderly kept orderly later
  have returned' : final.exit = .returned :=
    run_invariant (·.exit = .returned) (fun _ _ _ => returned_stays) returned later
  have quiet : Quiet final := by
    have reached := orderly'.reached
    rw [returned'] at reached
    exact reached
  exact ⟨quiet, quiet_starts_nothing quiet⟩

/-- A process is monitored and dies; `deferred_exit` meets a running handler that has
queued the work and armed the timer again. -/
def rearmed : List Turn :=
  [.call myIoctlTimerMon 7 (some ⟨0, .null, .null⟩)] ++ List.replicate 6 (.inCall 0) ++
    [.exit 5, .expire] ++ List.replicate 6 .inTimer ++ [.unload] ++ List.replicate 4 .inExit ++
    [.inTimer] ++ List.replicate 5 .inExit ++ [.startMonitor] ++ List.replicate 12 .inMonitor ++
    List.replicate 6 .inExit

theorem deferred_exit_leaves_nothing_rearmed :
    ∃ final, run (turn 250) (atRest 0 (fun _ => some 5) fun _ => false) rearmed = .ok final ∧
      final.exit = .returned ∧ Quiet final ∧ final.dev.reported = [(.slab 0, 5)] := by
  have ran : ∃ final, run (turn 250) (atRest 0 (fun _ => some 5) fun _ => false) rearmed = .ok final ∧
      final.exit = .returned ∧ final.dev.reported = [(.slab 0, 5)] := ⟨_, rfl, rfl, rfl⟩
  obtain ⟨final, ran, returned, reported⟩ := ran
  obtain ⟨quiet, -⟩ := deferred_exit_leaves_nothing 250 0 (fun _ => some 5) (fun _ => false) rearmed []
    final final ran returned rfl
  exact ⟨final, ran, returned, quiet, reported⟩

end KernelLabs.DeferredUnload
