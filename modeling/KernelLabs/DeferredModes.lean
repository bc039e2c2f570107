import KernelLabs.DeferredProcesses
import KernelLabs.DeferredStatements

/-! The modes of the timer. One flag and one timer serve three features: the last
call that set the flag decides what a run of `timer_handler` does, and the last
call that touched the timer whether there is one. -/
namespace KernelLabs.DeferredDriver
open LinuxList Errno DeferredUnload

/-- The mode a call asks for. -/
def modeOf : Action → Option TimerType
  | .ioctl cmd _ _ =>
    if cmd = myIoctlTimerSet then some .set
    else if cmd = myIoctlTimerAlloc then some .alloc
    else if cmd = myIoctlTimerMon then some .mon
    else none
  | _ => none

/-- The action is a `MY_IOCTL_TIMER_CANCEL`. -/
def isCancel : Action → Bool
  | .ioctl cmd _ _ => cmd = myIoctlTimerCancel
  | _ => false

/-- The most recent of the `SET`, `ALLOC` and `MON` calls. -/
def lastMode (actions : List Action) : TimerType :=
  actions.foldl (fun mode action => (modeOf action).getD mode) .none

/-- The most recent of the `SET`, `ALLOC`, `MON` and `CANCEL` calls; the last asks for
no mode. -/
def lastRequest (actions : List Action) : TimerType :=
  actions.foldl (fun mode action => if isCancel action then .none else (modeOf action).getD mode) .none

section Steps
variable (hz : UInt64)

/-- A run of `timer_handler` calls `schedule_work(&dev.io_work)`. -/
def schedulesIoWork (state : Deferred) : Bool :=
  (timerHandler hz { state.delTimer with ioWork := false }).ioWork

/-- A run of `timer_handler` calls `schedule_work(&dev.monitor_work)`. -/
def schedulesMonitorWork (state : Deferred) : Bool :=
  (timerHandler hz { state.delTimer with monitorWork := false }).monitorWork

/-- The next handler run, if there is one, schedules `io_work`. -/
def ioAhead (state : Deferred) : Nat := (state.timer.isSome && schedulesIoWork hz state).toNat

/-- The number of times an action schedules `io_work`. -/
def ioScheduled (state : Deferred) : Action → Nat
  | .expire => ioAhead hz state
  | _ => 0

/-- How many handler runs of this run schedule `io_work`. -/
def ioSchedules (state : Deferred) : List Action → Nat
  | [] => 0
  | action :: actions => ioScheduled hz state action +
    match deferredStep hz state action with
    | .ok next => ioSchedules next actions
    | .error _ => 0

end Steps

/-- How many `ALLOC` calls there are. -/
def allocCalls (actions : List Action) : Nat := actions.countP fun action => modeOf action = some .alloc

variable {hz : UInt64} {state next final : Deferred} {action : Action} {actions done : List Action}

@[simp] theorem lastMode_concat :
    lastMode (done ++ [action]) = (modeOf action).getD (lastMode done) := by
  simp [lastMode]

@[simp] theorem lastRequest_concat :
    lastRequest (done ++ [action]) =
      if isCancel action then .none else (modeOf action).getD (lastRequest done) := by
  simp [lastRequest]

/-! ## One step -/

@[simp] theorem timerHandler_flag : (timerHandler hz state).flag = state.flag := by
  unfold timerHandler
  split <;> rfl

@[simp] theorem timerHandler_cdev : (timerHandler hz state).cdev = state.cdev := by
  unfold timerHandler
  split <;> rfl

theorem schedulesIoWork_iff (hz : UInt64) (state : Deferred) :
    schedulesIoWork hz state = true ↔ state.flag = .alloc := by
  cases flag : state.flag <;> simp [schedulesIoWork, timerHandler, Deferred.delTimer, Deferred.modTimer, flag]

theorem schedulesMonitorWork_iff : schedulesMonitorWork hz state = true ↔ state.flag = .mon := by
  cases flag : state.flag <;>
    simp [schedulesMonitorWork, timerHandler, Deferred.delTimer, Deferred.modTimer, flag]

theorem timerHandler_rearms (hz : UInt64) (state : Deferred) :
    (timerHandler hz state.delTimer).timer.isSome = true ↔ state.flag = .set ∨ state.flag = .mon := by
  cases flag : state.flag <;> simp [timerHandler, Deferred.delTimer, Deferred.modTimer, flag]

theorem runMonitorWork_only (ran : runMonitorWork state = .ok next) :
    next.flag = state.flag ∧ next.timer = state.timer ∧ next.cdev = state.cdev := by
  unfold runMonitorWork monitorWorkHandler at ran
  by_cases queued : state.monitorWork = true
  · rw [if_pos queued] at ran
    obtain ⟨flow, looped, rest⟩ := bind_eq_ok.mp ran
    obtain ⟨after, rfl, path⟩ := listForEachEntrySafe_path monitorBody_path looped
    cases rest
    have only : OnlyEntries { state with monitorWork := false } next := path_only path
    rw [only]
    exact ⟨rfl, rfl, rfl⟩
  · rw [if_neg queued] at ran
    cases ran
    exact ⟨rfl, rfl, rfl⟩

theorem deferredExit_stops (ran : deferredExit state = .ok next) :
    next.timer = none ∧ next.cdev = false := by
  obtain ⟨middle, flushed, rest⟩ := bind_eq_ok.mp ran
  obtain ⟨flow, looped, rest⟩ := bind_eq_ok.mp rest
  obtain ⟨after, rfl, path⟩ := listForEachEntrySafe_path exitBody_path looped
  cases rest
  obtain ⟨-, timer, cdev⟩ := runMonitorWork_only flushed
  have only : OnlyEntries middle next := path_only path
  rw [only]
  exact ⟨timer, cdev⟩

theorem getProc_not_null {pid : Int32} {memory : Option (Block Task)} {p : Ptr}
    (ran : getProc state pid memory = .ok (next, p)) : p ≠ .null := by
  unfold getProc at ran
  split at ran
  · cases ran
    nofun
  · simp only at ran
    split at ran
    · cases ran
      nofun
    · rename_i allocated
      obtain ⟨heap, -, rest⟩ := bind_eq_ok.mp ran
      cases rest
      exact allocated

/-- What a step does to the flag and the timer. -/
inductive TimerMove (hz : UInt64) (state next : Deferred) : Action → Prop
  /-- A call sets the mode and arms the timer. -/
  | request {action : Action} (mode : TimerType) : modeOf action = some mode → isCancel action = false →
    state.cdev = true → next.cdev = true → next.flag = mode → next.timer.isSome = true →
    TimerMove hz state next action
  | cancel {action : Action} : modeOf action = none → isCancel action = true → state.cdev = true →
    next.cdev = true → next.flag = state.flag → next.timer = none → TimerMove hz state next action
  | handler : state.timer.isSome = true → next = timerHandler hz state.delTimer →
    TimerMove hz state next .expire
  | unload : next.cdev = false → next.timer = none → TimerMove hz state next .unload
  | other {action : Action} : next.flag = state.flag → next.timer = state.timer →
    next.cdev = state.cdev → (state.cdev = true → modeOf action = none ∧ isCancel action = false) →
    (action = .expire → state.timer = none) → TimerMove hz state next action

theorem deferredStep_moves (ran : deferredStep hz state action = .ok next) :
    TimerMove hz state next action := by
  cases action with
  | ioctl cmd arg memory =>
    by_cases cdev : state.cdev = true
    · simp only [deferredStep, cdev, if_true] at ran
      obtain ⟨⟨after, ret⟩, called, rest⟩ := bind_eq_ok.mp ran
      cases rest
      rcases deferredIoctl_cases called with ⟨rfl, -, rfl⟩ | ⟨rfl, -, rfl⟩ | ⟨rfl, -, rfl⟩ |
        ⟨rfl, middle, procPtr, got, outcome⟩ | ⟨unknown, -, rfl⟩
      · exact .request .set rfl rfl cdev cdev rfl rfl
      · exact .cancel rfl rfl cdev cdev rfl rfl
      · exact .request .alloc rfl rfl cdev cdev rfl rfl
      · have same : middle.cdev = state.cdev := by rw [getProc_only got]
        rcases outcome with ⟨null, -, -⟩ | ⟨-, -, heap, -, rfl⟩
        · exact absurd null (getProc_not_null got)
        · exact .request .mon rfl rfl cdev (same.trans cdev) rfl rfl
      · simp only [List.mem_cons, List.not_mem_nil, or_false, not_or] at unknown
        refine .other rfl rfl rfl (fun _ => ⟨?_, ?_⟩) fun same => by cases same
        · simp [modeOf, unknown]
        · simp [isCancel, unknown]
    · simp only [deferredStep, cdev] at ran
      cases ran
      exact .other rfl rfl rfl (fun open' => absurd open' cdev) fun same => by cases same
  | expire =>
    by_cases pending : state.timer.isSome = true
    · simp only [deferredStep, pending, if_true] at ran
      exact .handler pending (Except.ok.inj ran).symm
    · simp only [deferredStep, pending] at ran
      cases ran
      exact .other rfl rfl rfl (fun _ => ⟨rfl, rfl⟩) fun _ => by simpa using pending
  | runMonitorWork =>
    obtain ⟨flag, timer, cdev⟩ := runMonitorWork_only ran
    exact .other flag timer cdev (fun _ => ⟨rfl, rfl⟩) fun same => by cases same
  | unload =>
    by_cases cdev : state.cdev = true
    · simp only [deferredStep, cdev, if_true] at ran
      obtain ⟨timer, closed⟩ := deferredExit_stops ran
      exact .unload closed timer
    · simp only [deferredStep, cdev] at ran
      cases ran
      exact .other rfl rfl rfl (fun open' => absurd open' cdev) fun same => by cases same
  | runIoWork | exit task | assign pid task | tick =>
    cases ran
    exact .other rfl rfl rfl (fun _ => ⟨rfl, rfl⟩) fun same => by cases same

/-! ## Runs -/

/-- What the flag and the timer tell of the calls so far. -/
structure Tracked (done : List Action) (state : Deferred) : Prop where
  mode : state.cdev = true → state.flag = lastMode done
  monitoring : state.cdev = true →
    (state.timer.isSome = true ∧ state.flag = .mon ↔ lastRequest done = .mon)
  unloaded : state.cdev = false → state.timer = none

theorem loaded_tracked (jiffies : UInt64) (pids : Int32 → Option Task) (dead : Task → Bool) :
    Tracked [] (loaded jiffies pids dead) where
  mode _ := rfl
  monitoring _ := by simp [loaded, lastRequest]
  unloaded closed := by simp [loaded] at closed

theorem Tracked.open_of_pending (tracked : Tracked done state) (pending : state.timer.isSome = true) :
    state.cdev = true := by
  by_contra closed
  rw [tracked.unloaded (by simpa using closed)] at pending
  cases pending

theorem deferredStep_tracked (done : List Action) (state : Deferred) (action : Action)
    (next : Deferred) (tracked : Tracked done state) (ran : deferredStep hz state action = .ok next) :
    Tracked (done ++ [action]) next := by
  cases deferredStep_moves ran with
  | request mode asks keeps cdev cdev' flag timer =>
    constructor
    · simp [flag, asks]
    · simp [flag, asks, keeps, timer]
    · simp [cdev']
  | cancel asks cancels cdev cdev' flag timer =>
    constructor
    · simp [flag, asks, tracked.mode cdev]
    · simp [timer, cancels]
    · simp [cdev']
  | handler pending same =>
    have cdev := tracked.open_of_pending pending
    have before : state.flag = .mon ↔ lastRequest done = .mon := by
      simpa [pending] using tracked.monitoring cdev
    have silent : lastRequest (done ++ [.expire]) = lastRequest done := by
      simp [modeOf, isCancel]
    subst same
    constructor
    · simpa [modeOf, Deferred.delTimer] using tracked.mode
    · intro _
      rw [timerHandler_rearms, timerHandler_flag, silent, ← before]
      exact ⟨fun both => both.2, fun mon => ⟨.inr mon, mon⟩⟩
    · simp [Deferred.delTimer, cdev]
  | unload closed timer =>
    constructor
    · simp [closed]
    · simp [closed]
    · simp [timer]
  | other flag timer cdev asks =>
    constructor
    · intro cdev'
      obtain ⟨none, -⟩ := asks (cdev ▸ cdev')
      simpa [flag, none] using tracked.mode (cdev ▸ cdev')
    · intro cdev'
      obtain ⟨none, keeps⟩ := asks (cdev ▸ cdev')
      simpa [flag, timer, none, keeps] using tracked.monitoring (cdev ▸ cdev')
    · intro closed
      rw [timer]
      exact tracked.unloaded (cdev ▸ closed)

theorem run_tracked {jiffies : UInt64} {pids : Int32 → Option Task} {dead : Task → Bool}
    (ran : run (deferredStep hz) (loaded jiffies pids dead) actions = .ok state) :
    Tracked actions state :=
  run_history Tracked deferredStep_tracked (loaded_tracked jiffies pids dead) ran

/-- A timer that is not pending stays so until a call asks for a mode. -/
theorem stays_stopped (stopped : state.timer = none) (ran : run (deferredStep hz) state actions = .ok final)
    (quiet : ∀ action ∈ actions, modeOf action = none) : final.timer = none := by
  induction actions generalizing state with
  | nil =>
    cases ran
    exact stopped
  | cons action actions ih =>
    obtain ⟨next, taken, rest⟩ := bind_eq_ok.mp (run_cons.symm.trans ran)
    have silent := quiet action (by simp)
    refine ih ?_ rest fun other member => quiet other (List.mem_cons_of_mem _ member)
    cases deferredStep_moves taken with
    | request mode asks => simp [silent] at asks
    | cancel _ _ _ _ _ timer => exact timer
    | handler pending => simp [stopped] at pending
    | unload _ timer => exact timer
    | other _ timer => rw [timer, stopped]

/-- The mode after more calls is the old one if none asked for a mode, and is the
mode of some of them otherwise. -/
theorem lastMode_append (before middle : List Action) :
    (lastMode (before ++ middle) = lastMode before ∧ ∀ action ∈ middle, modeOf action = none) ∨
      ∃ action ∈ middle, modeOf action = some (lastMode (before ++ middle)) := by
  induction middle using List.reverseRecOn with
  | nil => simp
  | append_singleton middle action ih =>
    rw [← List.append_assoc, lastMode_concat]
    cases asks : modeOf action with
    | some mode => exact .inr ⟨action, by simp, by simp [asks]⟩
    | none =>
      rcases ih with ⟨same, quiet⟩ | ⟨other, member, mode⟩
      · refine .inl ⟨same, fun other member => ?_⟩
        rcases List.mem_append.mp member with old | new
        · exact quiet other old
        · rw [List.mem_singleton.mp new, asks]
      · exact .inr ⟨other, List.mem_append_left _ member, mode⟩

theorem lastRequest_mon (before after : List Action) (arg : UInt64) (memory : Option (Block Task))
    (later : ∀ action ∈ after, isCancel action = false ∧
      (modeOf action = none ∨ modeOf action = some .mon)) :
    lastRequest (before ++ .ioctl myIoctlTimerMon arg memory :: after) = .mon := by
  induction after using List.reverseRecOn with
  | nil =>
    rw [lastRequest_concat]
    rfl
  | append_singleton after action ih =>
    have rest := ih fun other member => later other (List.mem_append_left _ member)
    obtain ⟨keeps, asks⟩ := later action (by simp)
    rw [← List.cons_append, ← List.append_assoc, lastRequest_concat, keeps, rest]
    rcases asks with none | mon
    · simp [none]
    · simp [mon]

theorem ioAhead_stopped (stopped : state.timer = none) : ioAhead hz state = 0 := by
  simp [ioAhead, stopped]

/-- A handler run that schedules `io_work` is not followed by another. -/
theorem ioAhead_timerHandler : ioAhead hz (timerHandler hz state.delTimer) = 0 := by
  have rearms := timerHandler_rearms hz state
  have schedules := schedulesIoWork_iff hz (timerHandler hz state.delTimer)
  rw [timerHandler_flag] at schedules
  simp only [ioAhead, Bool.toNat_eq_zero, Bool.and_eq_false_imp]
  intro pending
  rw [Bool.eq_false_iff, Ne, schedules]
  intro alloc
  rcases rearms.mp pending with set | mon
  · exact TimerType.noConfusion (set.symm.trans alloc)
  · exact TimerType.noConfusion (mon.symm.trans alloc)

theorem deferredStep_ioAhead (ran : deferredStep hz state action = .ok next) :
    ioScheduled hz state action + ioAhead hz next ≤
      ioAhead hz state + if modeOf action = some .alloc then 1 else 0 := by
  have idle : ∀ {action} mode, modeOf action = some mode ∨ isCancel action = true →
      ioScheduled hz state action = 0 := by
    intro action mode call
    cases action with
    | expire => simp [modeOf, isCancel] at call
    | _ => rfl
  cases deferredStep_moves ran with
  | request mode asks _ _ cdev flag timer =>
    rw [idle mode (.inl asks), asks]
    by_cases alloc : mode = .alloc
    · have few : ioAhead hz next ≤ 1 := Bool.toNat_le _
      simp only [alloc, if_true]
      omega
    · have other : schedulesIoWork hz next = false := by
        rw [Bool.eq_false_iff, Ne, schedulesIoWork_iff, flag]
        exact alloc
      simp [ioAhead, other]
  | cancel asks cancels _ cdev _ timer =>
    rw [idle .none (.inr cancels), ioAhead_stopped timer]
    omega
  | handler pending same =>
    rw [same, ioAhead_timerHandler]
    exact Nat.le_add_right _ _
  | unload closed timer =>
    rw [ioAhead_stopped timer]
    exact Nat.zero_le _
  | other flag timer cdev asks stopped =>
    have ahead : ioAhead hz next = ioAhead hz state := by
      have same : schedulesIoWork hz next = schedulesIoWork hz state := by
        rw [Bool.eq_iff_iff, schedulesIoWork_iff, schedulesIoWork_iff, flag]
      rw [ioAhead, ioAhead, same, timer]
    have none : ioScheduled hz state action = 0 := by
      cases action with
      | expire => exact ioAhead_stopped (stopped rfl)
      | _ => rfl
    omega

/-- Handler runs that schedule `io_work` use up `ALLOC` calls, one each: the last of
those is still unused while the timer is pending for it. -/
theorem ioSchedules_le (ran : run (deferredStep hz) state actions = .ok final) :
    ioSchedules hz state actions ≤ ioAhead hz state + allocCalls actions := by
  induction actions generalizing state with
  | nil => simp [ioSchedules]
  | cons action actions ih =>
    obtain ⟨next, taken, rest⟩ := bind_eq_ok.mp (run_cons.symm.trans ran)
    have later := ih rest
    have here := deferredStep_ioAhead taken
    have count : allocCalls (action :: actions) =
        allocCalls actions + if modeOf action = some .alloc then 1 else 0 := by
      simp [allocCalls, List.countP_cons]
    rw [ioSchedules, taken, count]
    simp only
    omega

/-- **Timer modes.** In every run, a handler run schedules `io_work` exactly when the
most recent request was `ALLOC` and `monitor_work` exactly when it was `MON`, and leaves
the timer pending exactly when it was `SET` or `MON`; between two handler runs that
schedule `io_work` there is an `ALLOC`, and there are no more of them than `ALLOC`
calls; after a `CANCEL` no handler runs before the next request. -/
theorem timer_modes (hz jiffies : UInt64) (pids : Int32 → Option Task) (dead : Task → Bool) :
    (∀ actions state, run (deferredStep hz) (loaded jiffies pids dead) actions = .ok state →
      state.timer.isSome = true →
        (schedulesIoWork hz state = true ↔ lastMode actions = .alloc) ∧
        (schedulesMonitorWork hz state = true ↔ lastMode actions = .mon) ∧
        ((timerHandler hz state.delTimer).timer.isSome = true ↔
          lastMode actions = .set ∨ lastMode actions = .mon)) ∧
    (∀ before middle state later,
      run (deferredStep hz) (loaded jiffies pids dead) before = .ok state →
      state.timer.isSome = true → schedulesIoWork hz state = true →
      run (deferredStep hz) (loaded jiffies pids dead) (before ++ .expire :: middle) = .ok later →
      later.timer.isSome = true → schedulesIoWork hz later = true →
        ∃ action ∈ middle, modeOf action = some .alloc) ∧
    (∀ actions state, run (deferredStep hz) (loaded jiffies pids dead) actions = .ok state →
      ioSchedules hz (loaded jiffies pids dead) actions ≤ allocCalls actions) ∧
    (∀ before arg memory middle state,
      run (deferredStep hz) (loaded jiffies pids dead)
        (before ++ .ioctl myIoctlTimerCancel arg memory :: middle) = .ok state →
      (∀ action ∈ middle, modeOf action = none) → state.timer = none) := by
  refine ⟨fun actions state ran pending => ?_, ?_, ?_, ?_⟩
  · have tracked := run_tracked ran
    have mode := tracked.mode (tracked.open_of_pending pending)
    rw [schedulesIoWork_iff, schedulesMonitorWork_iff, timerHandler_rearms, mode]
    exact ⟨Iff.rfl, Iff.rfl, Iff.rfl⟩
  · intro before middle state later ran pending schedules ran' pending' schedules'
    have tracked := run_tracked ran'
    have mode := tracked.mode (tracked.open_of_pending pending')
    rw [(schedulesIoWork_iff _ _).mp schedules'] at mode
    rw [List.append_cons] at mode ran'
    rcases lastMode_append (before ++ [.expire]) middle with ⟨-, quiet⟩ | ⟨action, member, asks⟩
    · rw [run_append] at ran'
      obtain ⟨handled, first, rest⟩ := bind_eq_ok.mp ran'
      have stopped : handled.timer = none := by
        rw [run_append, ran, ok_bind, run_cons, deferredStep, if_pos pending] at first
        cases first
        have rearms := timerHandler_rearms hz state
        rw [(schedulesIoWork_iff _ _).mp schedules] at rearms
        simpa using rearms
      rw [stays_stopped stopped rest quiet] at pending'
      cases pending'
    · exact ⟨action, member, by rw [asks, ← mode]⟩
  · intro actions state ran
    have bound := ioSchedules_le ran
    rwa [ioAhead_stopped rfl, Nat.zero_add] at bound
  · intro before arg memory middle state ran quiet
    rw [run_append] at ran
    obtain ⟨reached, ran, rest⟩ := bind_eq_ok.mp ran
    obtain ⟨next, taken, rest⟩ := bind_eq_ok.mp (run_cons.symm.trans rest)
    refine stays_stopped ?_ rest quiet
    have tracked := run_tracked ran
    have cancels : isCancel (.ioctl myIoctlTimerCancel arg memory) = true := rfl
    cases deferredStep_moves taken with
    | request mode _ keeps =>
      rw [cancels] at keeps
      cases keeps
    | cancel _ _ _ _ _ timer => exact timer
    | other flag timer cdev asks =>
      rw [timer]
      apply tracked.unloaded
      by_contra open'
      have keeps := (asks (by simpa using open')).2
      rw [cancels] at keeps
      cases keeps

/-- A request for `io_work` under a running monitor: the handler schedules `io_work`
once, and after the next `CANCEL` nothing is pending. -/
theorem timer_modes_alloc :
    ∃ state, run (deferredStep 250) (loaded 0 (fun _ => some 5) fun _ => false)
      [.ioctl myIoctlTimerMon 7 (some ⟨0, .null, .null⟩), .expire, .ioctl myIoctlTimerAlloc 2 none] =
        .ok state ∧ schedulesIoWork 250 state = true ∧ schedulesMonitorWork 250 state = false := by
  obtain ⟨modes, -⟩ := timer_modes 250 0 (fun _ => some 5) fun _ => false
  refine ⟨_, rfl, ?_⟩
  obtain ⟨io, monitor, -⟩ := modes [.ioctl myIoctlTimerMon 7 (some ⟨0, .null, .null⟩), .expire,
    .ioctl myIoctlTimerAlloc 2 none] _ rfl rfl
  exact ⟨io.mpr rfl, Bool.eq_false_iff.mpr fun scheduled => nomatch monitor.mp scheduled⟩

/-- **Monitoring.** While the module is loaded, the timer is pending and its next
expiry will schedule `monitor_work` exactly when the most recent of the `SET`,
`ALLOC`, `MON` and `CANCEL` calls is a `MON`; so a process is watched as long as only
other `MON` calls follow its own. -/
theorem monitoring_goes_on (hz jiffies : UInt64) (pids : Int32 → Option Task) (dead : Task → Bool)
    (actions : List Action) (state : Deferred)
    (ran : run (deferredStep hz) (loaded jiffies pids dead) actions = .ok state)
    (present : state.cdev = true) :
    (state.timer.isSome = true ∧ schedulesMonitorWork hz state = true ↔ lastRequest actions = .mon) ∧
      ∀ before arg memory after, actions = before ++ .ioctl myIoctlTimerMon arg memory :: after →
        (∀ action ∈ after, isCancel action = false ∧
          (modeOf action = none ∨ modeOf action = some .mon)) →
        state.timer.isSome = true ∧ schedulesMonitorWork hz state = true := by
  have tracked := (run_tracked ran).monitoring present
  rw [schedulesMonitorWork_iff]
  refine ⟨tracked, fun before arg memory after whole later => tracked.mpr ?_⟩
  rw [whole]
  exact lastRequest_mon before after arg memory later

theorem monitoring_goes_on_expiry :
    ∃ state, run (deferredStep 250) (loaded 0 (fun _ => some 5) fun _ => false)
      [.ioctl myIoctlTimerMon 7 (some ⟨0, .null, .null⟩), .expire, .runMonitorWork] = .ok state ∧
      state.timer.isSome = true ∧ schedulesMonitorWork 250 state = true := by
  refine ⟨_, rfl, ?_⟩
  refine (monitoring_goes_on 250 0 (fun _ => some 5) (fun _ => false)
    [.ioctl myIoctlTimerMon 7 (some ⟨0, .null, .null⟩), .expire, .runMonitorWork] _ rfl rfl).1.mpr ?_
  rfl

/-- Another client's `SET` leaves the entry on the list and stops its monitoring. -/
theorem set_stops_monitoring :
    ∃ state, run (deferredStep 250) (loaded 0 (fun _ => some 5) fun _ => false)
      [.ioctl myIoctlTimerMon 7 (some ⟨0, .null, .null⟩), .ioctl myIoctlTimerSet 1 none] = .ok state ∧
      Listed state.heap [(.slab 0, 5)] ∧ state.timer.isSome = true ∧
      schedulesMonitorWork 250 state = false := by
  have held := loaded_monitored 0 (fun _ => some 5) fun _ => false
  obtain ⟨middle, heap, got, linked, only, held'⟩ :=
    monitor_request 7 held ⟨0, .null, .null⟩ rfl
  cases got
  cases linked
  exact ⟨_, rfl, held'.listed, rfl, rfl⟩

end KernelLabs.DeferredDriver
