import KernelLabs.DeferredQuiescence

/-! Loading the deferred driver. `deferred_init` runs one statement at a time, and from
`cdev_add` on, clients run theirs in between: one statement too early, since the timer
is set up last. -/
namespace KernelLabs.DeferredLoading
open LinuxList DeferredDriver DeferredUnload

/-- What the functions of the module share. -/
inductive Shared
  | timer
  | flag
  | ioWork
  | monitorWork
  | lock
  | processList
  deriving DecidableEq, Repr

inductive Event
  | init (object : Shared)
  | use (object : Shared)
  deriving DecidableEq, Repr

/-- The next statement of `deferred_init`. -/
inductive InitPc
  | registerChrdevRegion
  | setFlag
  | initIoWork
  | initMonitorWork
  | spinLockInit
  | initListHead
  | cdevInit
  | cdevAdd
  | timerSetup
  | returned
  /-- `register_chrdev_region` failed. -/
  | failed
  deriving DecidableEq, Repr

/-- The driver while it is loaded, and what was done to its objects, in order. -/
structure Loading where
  driver : Unloading
  init : InitPc
  log : List Event

/-! ## What a statement uses -/

def callUses : CallPc → List Shared
  | .setFlag _ _ => [.flag]
  | .modTimer _ | .delTimer => [.timer]
  | .getProc _ _ => []
  | .spinLock _ | .spinUnlock => [.lock]
  | .listAdd _ => [.processList]

def timerUses : TimerPc → List Shared
  | .testSet | .testAlloc | .testMon => [.flag]
  | .scheduleIo => [.ioWork]
  | .scheduleMonitor => [.monitorWork]
  | .modTimer => [.timer]
  | .printk | .return => []

def loopUses : LoopPc → List Shared
  | .spinLock | .spinUnlock => [.lock]
  | .first | .listDel _ _ | .advance _ => [.processList]
  | .test _ _ | .testDead _ _ | .prInfo _ _ | .putTaskStruct _ _ | .kfree _ _ | .return => []

def exitUses : ExitPc → List Shared
  | .delTimerSync => [.timer]
  | .flushIo | .waitIo _ => [.ioWork]
  | .flushMonitor | .waitMonitor _ => [.monitorWork]
  | .cleanup pc => loopUses pc
  | .notStarted | .prInfo | .cdevDel | .unregisterChrdevRegion | .returned => []

/-- The objects that a turn of the driver uses, itself or by the kernel. -/
def uses (state : Unloading) : DeferredUnload.Turn → List Shared
  | .inCall index => (state.calls[index]?.map callUses).getD []
  | .expire => if state.dev.timer.isSome && state.timerHandler.isNone then [.timer] else []
  | .inTimer => (state.timerHandler.map timerUses).getD []
  | .startIo => if state.dev.ioWork && state.io.running.isNone then [.ioWork] else []
  | .startMonitor => if state.dev.monitorWork && state.monitor.running.isNone then [.monitorWork] else []
  | .inMonitor => (state.monitor.running.map loopUses).getD []
  | .inExit => exitUses state.exit
  | .call _ _ _ | .inIo | .unload | .exit _ | .assign _ _ | .tick => []

/-! ## Loading -/

/-- The object that a statement of `deferred_init` initialises. -/
def initialises : InitPc → List Shared
  | .setFlag => [.flag]
  | .initIoWork => [.ioWork]
  | .initMonitorWork => [.monitorWork]
  | .spinLockInit => [.lock]
  | .initListHead => [.processList]
  | .timerSetup => [.timer]
  | .registerChrdevRegion | .cdevInit | .cdevAdd | .returned | .failed => []

/-- One statement of `deferred_init`, and the one after it. If it asks for something, that
is granted or not; nobody looks at what `cdev_add` returns. -/
def initStatement (driver : Unloading) (granted : Bool) : InitPc → Except Fault (Unloading × InitPc)
  | .registerChrdevRegion => .ok (driver, if granted then .setFlag else .failed)
  | .setFlag => .ok ({ driver with dev := { driver.dev with flag := .none } }, .initIoWork)
  | .initIoWork => .ok ({ driver with dev := { driver.dev with ioWork := false } }, .initMonitorWork)
  | .initMonitorWork => .ok ({ driver with dev := { driver.dev with monitorWork := false } }, .spinLockInit)
  | .spinLockInit => .ok ({ driver with locked := false }, .initListHead)
  | .initListHead => do
    let heap ← initListHead driver.dev.heap processList
    return ({ driver with dev := driver.dev.withHeap heap }, .cdevInit)
  | .cdevInit => .ok (driver, .cdevAdd)
  | .cdevAdd => .ok ({ driver with dev := { driver.dev with cdev := granted } }, .timerSetup)
  | .timerSetup => .ok ({ driver with dev := driver.dev.delTimer }, .returned)
  | .returned => .ok (driver, .returned)
  | .failed => .ok (driver, .failed)

inductive LoadTurn
  /-- `deferred_init` executes a statement. -/
  | init (granted : Bool)
  | driver (turn : DeferredUnload.Turn)

/-- Without its device the driver is not called, and before `deferred_init` has returned
it is not unloaded. -/
def admits (state : Loading) : DeferredUnload.Turn → Bool
  | .call _ _ _ => state.driver.dev.cdev
  | .unload => state.init = .returned
  | _ => true

/-- What a turn does to the objects. -/
def events (state : Loading) : LoadTurn → List Event
  | .init _ => (initialises state.init).map .init
  | .driver action => if admits state action then (uses state.driver action).map .use else []

/-- A timer expires that was never set up: its handler is `NULL`. -/
def unhandled (state : Loading) : DeferredUnload.Turn → Bool
  | .expire => state.init ≠ .returned && .timer ∈ uses state.driver .expire
  | _ => false

/-- The driver after a turn, and the next statement of `deferred_init`. -/
def move (hz : UInt64) (state : Loading) : LoadTurn → Except Fault (Unloading × InitPc)
  | .init granted => initStatement state.driver granted state.init
  | .driver action =>
    if !admits state action then .ok (state.driver, state.init)
    else if unhandled state action then .error .badAccess
    else do
      let driver ← turn hz state.driver action
      return (driver, state.init)

def loadTurn (hz : UInt64) (state : Loading) (action : LoadTurn) : Except Fault Loading := do
  let (driver, init) ← move hz state action
  return { driver, init, log := state.log ++ events state action }

/-- The module's data is zero before `deferred_init` starts. -/
def inserted (jiffies : UInt64) (pids : Int32 → Option Task) (dead : Task → Bool) : Loading where
  driver := { atRest jiffies pids dead with
    dev := { loaded jiffies pids dead with
      flag := .set
      heap := { Heap.init processList with
        links := fun p => if p = processList then some ⟨.null, .null⟩ else none }
      cdev := false } }
  init := .registerChrdevRegion
  log := []

/-- `INIT_LIST_HEAD` turns the zeroed head into an empty list. -/
theorem initListHead_inserted (jiffies : UInt64) (pids : Int32 → Option Task) (dead : Task → Bool) :
    initListHead (inserted jiffies pids dead).driver.dev.heap processList = .ok (Heap.init processList) := by
  simp only [initListHead, inserted, Heap.setNext, Heap.setPrev, Heap.Live, Heap.withNext, Heap.withPrev,
    if_true, Option.isSome_some, ok_bind]
  simp only [Heap.init, Option.map_some, Function.update_self, Option.isSome_some, if_true,
    Function.update_idem]
  congr 2
  funext p
  by_cases here : p = processList <;> simp [here]

/-- Undisturbed, `deferred_init` leaves the state in which the other models start. -/
theorem undisturbed_load (hz jiffies : UInt64) (pids : Int32 → Option Task) (dead : Task → Bool) :
    run (loadTurn hz) (inserted jiffies pids dead) (List.replicate 9 (.init true)) =
      .ok ⟨atRest jiffies pids dead, .returned,
        [.init .flag, .init .ioWork, .init .monitorWork, .init .lock, .init .processList, .init .timer]⟩ := by
  let start := inserted jiffies pids dead
  have reached : run (loadTurn hz) start (List.replicate 5 (.init true)) = .ok
      { driver := { start.driver with dev := { start.driver.dev with flag := .none } }
        init := .initListHead
        log := [.init .flag, .init .ioWork, .init .monitorWork, .init .lock] } := rfl
  have linked := initListHead_inserted jiffies pids dead
  rw [show List.replicate 9 (LoadTurn.init true) = List.replicate 5 (.init true) ++
    List.replicate 4 (.init true) from rfl, run_append, reached, ok_bind]
  simp only [List.replicate, run_cons, loadTurn, move, initStatement, start]
  rw [linked]
  rfl

/-! ## Order -/

/-- Every object was initialised before its first use and not after it. -/
def InOrder (log : List Event) : Prop :=
  ∀ before object after, log = before ++ .use object :: after →
    .init object ∈ before ∧ .init object ∉ after

/-- The turn finds every object it uses initialised, and initialises none that was used. -/
def Timely (state : Loading) (action : LoadTurn) : Prop := InOrder (state.log ++ events state action)

/-- No call executes `mod_timer` or `del_timer` before `deferred_init` has returned. -/
def TimerReady (state : Loading) : LoadTurn → Prop
  | .driver (.inCall index) =>
    ∀ pc, state.driver.calls[index]? = some pc → .timer ∈ callUses pc → state.init = .returned
  | _ => True

variable {hz : UInt64} {state next final : Loading} {log more : List Event} {object : Shared}
  {action : LoadTurn} {turns : List LoadTurn}

theorem InOrder.initialised (orderly : InOrder log) (used : .use object ∈ log) : .init object ∈ log := by
  obtain ⟨before, after, rfl⟩ := List.append_of_mem used
  exact List.mem_append_left _ (orderly before object after rfl).1

/-- One more event is in order if it uses what is initialised, and initialises nothing used. -/
theorem InOrder.append {event : Event} (orderly : InOrder log)
    (ready : ∀ object, event = .use object → .init object ∈ log)
    (unused : ∀ object, event = .init object → .use object ∉ log) : InOrder (log ++ [event]) := by
  intro before other after whole
  rcases List.eq_nil_or_concat after with rfl | ⟨after, last, rfl⟩
  · obtain ⟨rfl, same⟩ := List.append_inj' whole rfl
    cases same
    exact ⟨ready other rfl, List.not_mem_nil⟩
  · rw [List.concat_eq_append, ← List.cons_append, ← List.append_assoc] at whole
    obtain ⟨rfl, same⟩ := List.append_inj' whole rfl
    cases same
    obtain ⟨prepared, kept⟩ := orderly before other after rfl
    refine ⟨prepared, fun again => ?_⟩
    rw [List.concat_eq_append, List.mem_append, List.mem_singleton] at again
    rcases again with again | same
    · exact kept again
    · exact unused other same.symm (by simp)

/-- An object that was not used yet may be initialised. -/
theorem InOrder.init (orderly : InOrder log) (unused : .use object ∉ log) : InOrder (log ++ [.init object]) := by
  refine orderly.append (fun other same => ?_) (fun other same => ?_)
  · cases same
  · cases same
    exact unused

theorem InOrder.inits (orderly : InOrder log) {objects : List Shared}
    (unused : ∀ object ∈ objects, .use object ∉ log) : InOrder (log ++ objects.map .init) := by
  induction objects generalizing log with
  | nil => simpa using orderly
  | cons object objects ih =>
    have first := orderly.init (unused object List.mem_cons_self)
    have rest := ih first fun other member used => by
      rcases List.mem_append.mp used with used | same
      · exact unused other (List.mem_cons_of_mem _ member) used
      · cases List.mem_singleton.mp same
    simpa using rest

/-- An object that is initialised may be used. -/
theorem InOrder.use (orderly : InOrder log) (ready : .init object ∈ log) : InOrder (log ++ [.use object]) := by
  refine orderly.append (fun other same => ?_) (fun other same => ?_)
  · cases same
    exact ready
  · cases same

theorem InOrder.uses (orderly : InOrder log) {objects : List Shared}
    (ready : ∀ object ∈ objects, .init object ∈ log) : InOrder (log ++ objects.map .use) := by
  induction objects generalizing log with
  | nil => simpa using orderly
  | cons object objects ih =>
    have first := orderly.use (ready object List.mem_cons_self)
    have rest := ih first fun other member =>
      List.mem_append_left _ (ready other (List.mem_cons_of_mem _ member))
    simpa using rest

/-! ## Phases -/

/-- How many statements were executed. -/
def InitPc.rank : InitPc → Nat
  | .registerChrdevRegion | .failed => 0
  | .setFlag => 1
  | .initIoWork => 2
  | .initMonitorWork => 3
  | .spinLockInit => 4
  | .initListHead => 5
  | .cdevInit => 6
  | .cdevAdd => 7
  | .timerSetup => 8
  | .returned => 9

/-- How many of them come before the object's initialiser. -/
def Shared.rank : Shared → Nat
  | .flag => 1
  | .ioWork => 2
  | .monitorWork => 3
  | .lock => 4
  | .processList => 5
  | .timer => 8

/-- None of the driver's code runs, and nothing can start it. -/
structure Idle (driver : Unloading) : Prop where
  calls : driver.calls = []
  timer : driver.dev.timer = none
  handler : driver.timerHandler = none
  ioWork : driver.dev.ioWork = false
  monitorWork : driver.dev.monitorWork = false
  io : driver.io.running = none
  monitor : driver.monitor.running = none
  exit : driver.exit = .notStarted
  cdev : driver.dev.cdev = false

/-- `deferred_init` has initialised what it has come past, and nothing moves before
`cdev_add`. -/
structure Phase (state : Loading) : Prop where
  done : ∀ object, .init object ∈ state.log ↔ object.rank < state.init.rank
  early : state.init.rank < 8 → Idle state.driver ∧ ∀ object, .use object ∉ state.log

theorem inserted_phase (jiffies : UInt64) (pids : Int32 → Option Task) (dead : Task → Bool) :
    Phase (inserted jiffies pids dead) where
  done object := by simp [inserted, InitPc.rank]
  early _ := ⟨⟨rfl, rfl, rfl, rfl, rfl, rfl, rfl, rfl, rfl⟩, fun object used => by cases used⟩

theorem idle_uses {driver : Unloading} (idle : Idle driver) (action : DeferredUnload.Turn) :
    uses driver action = [] := by
  obtain ⟨calls, timer, handler, ioWork, monitorWork, io, monitor, exit, -⟩ := idle
  cases action <;> simp [uses, exitUses, calls, timer, handler, ioWork, monitorWork, monitor, exit]

theorem idle_turn {action : DeferredUnload.Turn} {driver : Unloading} (idle : Idle state.driver)
    (early : state.init ≠ .returned) (admitted : admits state action = true)
    (ran : turn hz state.driver action = .ok driver) : Idle driver := by
  have kept := idle
  obtain ⟨calls, timer, handler, ioWork, monitorWork, io, monitor, exit, cdev⟩ := idle
  cases action with
  | call cmd arg memory => simp [admits, cdev] at admitted
  | unload => simp [admits, early] at admitted
  | inCall | expire | inTimer | startIo | inIo | startMonitor | inMonitor | inExit =>
    simp [turn, exitStatement, calls, timer, handler, ioWork, io, monitorWork, monitor, exit] at ran
    exact ran ▸ kept
  | exit | assign | tick =>
    cases ran
    exact ⟨calls, timer, handler, ioWork, monitorWork, io, monitor, exit, cdev⟩

/-- A turn of the driver, unless it is not admitted. -/
theorem driver_turn {action : DeferredUnload.Turn} (ran : loadTurn hz state (.driver action) = .ok next) :
    next.init = state.init ∧ (next.driver = state.driver ∨
      admits state action = true ∧ turn hz state.driver action = .ok next.driver) := by
  obtain ⟨⟨driver, init⟩, moved, same⟩ := bind_eq_ok.mp ran
  cases same
  by_cases admitted : admits state action = true
  · rw [move, if_neg (by simp [admitted])] at moved
    split at moved
    · cases moved
    · obtain ⟨after, taken, same⟩ := bind_eq_ok.mp moved
      cases same
      exact ⟨rfl, .inr ⟨admitted, taken⟩⟩
  · rw [move, if_pos (by simpa using admitted)] at moved
    cases moved
    exact ⟨rfl, .inl rfl⟩

theorem loadTurn_log (ran : loadTurn hz state action = .ok next) :
    next.log = state.log ++ events state action := by
  obtain ⟨moved, -, same⟩ := bind_eq_ok.mp ran
  cases same
  rfl

theorem initialises_rank {pc : InitPc} (made : object ∈ initialises pc) : object.rank = pc.rank := by
  cases pc <;> simp_all [initialises, InitPc.rank, Shared.rank]

/-- What a statement of `deferred_init` comes past, and that it starts nothing before
`cdev_add`. -/
theorem initStatement_moves {driver after : Unloading} {granted : Bool} {pc pc' : InitPc}
    (ran : initStatement driver granted pc = .ok (after, pc')) :
    (∀ object : Shared, object.rank < pc'.rank ↔ object.rank < pc.rank ∨ object ∈ initialises pc) ∧
    (pc'.rank < 8 → pc.rank < 8 ∧ (Idle driver → Idle after)) := by
  refine ⟨fun object => ?_, fun low => ?_⟩
  · cases pc with
    | registerChrdevRegion =>
      cases ran
      cases granted <;> cases object <;> simp [initialises, InitPc.rank, Shared.rank]
    | initListHead =>
      obtain ⟨heap, -, same⟩ := bind_eq_ok.mp ran
      cases same
      cases object <;> simp [initialises, InitPc.rank, Shared.rank]
    | setFlag | initIoWork | initMonitorWork | spinLockInit | cdevInit | cdevAdd | timerSetup | returned
    | failed =>
      cases ran
      cases object <;> simp [initialises, InitPc.rank, Shared.rank]
  · cases pc with
    | registerChrdevRegion | cdevInit | failed =>
      cases ran
      exact ⟨by decide, id⟩
    | setFlag | spinLockInit =>
      cases ran
      exact ⟨by decide, fun idle => { idle with }⟩
    | initIoWork =>
      cases ran
      exact ⟨by decide, fun idle => { idle with ioWork := rfl }⟩
    | initMonitorWork =>
      cases ran
      exact ⟨by decide, fun idle => { idle with monitorWork := rfl }⟩
    | initListHead =>
      obtain ⟨heap, -, same⟩ := bind_eq_ok.mp ran
      cases same
      exact ⟨by decide, fun idle => { idle with }⟩
    | cdevAdd | timerSetup | returned =>
      cases ran
      exact absurd low (by decide)

theorem loadTurn_phase (phase : Phase state) (ran : loadTurn hz state action = .ok next) : Phase next := by
  obtain ⟨done, early⟩ := phase
  have grown := loadTurn_log ran
  cases action with
  | driver action =>
    obtain ⟨stays, moved⟩ := driver_turn ran
    refine ⟨fun object => ?_, fun low => ?_⟩
    · have unmade : .init object ∉ events state (.driver action) := by
        by_cases admitted : admits state action = true <;> simp [events, admitted]
      rw [grown, List.mem_append, or_iff_left unmade, stays, done object]
    · rw [stays] at low
      obtain ⟨idle, unused⟩ := early low
      have going : state.init ≠ .returned := by
        intro returned
        rw [returned] at low
        exact absurd low (by decide)
      refine ⟨?_, by simpa [grown, events, idle_uses idle] using unused⟩
      rcases moved with same | ⟨admitted, taken⟩
      · exact same ▸ idle
      · exact idle_turn idle going admitted taken
  | init granted =>
    obtain ⟨⟨driver, init⟩, moved, same⟩ := bind_eq_ok.mp ran
    cases same
    obtain ⟨reached, quiet⟩ := initStatement_moves moved
    refine ⟨fun object => ?_, fun low => ?_⟩
    · simp [reached object, done object, events]
    · obtain ⟨low, kept⟩ := quiet low
      obtain ⟨idle, unused⟩ := early low
      exact ⟨kept idle, by simpa [events] using unused⟩

/-- As long as no call has used the timer, nothing else comes to use it either. -/
def Unarmed (state : Loading) : Prop :=
  state.init ≠ .returned → state.driver.dev.timer = none ∧ state.driver.timerHandler = none ∧
    state.driver.exit = .notStarted

theorem callStatement_timer {dev dev' : Deferred} {locked locked' : Bool} {pc : CallPc} {later : Option CallPc}
    (ran : callStatement hz dev locked pc = .ok (dev', locked', later)) (unused : .timer ∉ callUses pc) :
    dev'.timer = dev.timer := by
  cases pc with
  | modTimer | delTimer => exact absurd (List.mem_singleton.mpr rfl) unused
  | setFlag | spinLock | spinUnlock =>
    cases ran
    rfl
  | getProc pid memory =>
    obtain ⟨⟨middle, p⟩, got, same⟩ := bind_eq_ok.mp ran
    cases same
    rw [getProc_only got]
  | listAdd p =>
    obtain ⟨heap, -, same⟩ := bind_eq_ok.mp ran
    cases same
    rfl

theorem turn_unarmed {action : DeferredUnload.Turn} {driver : Unloading} (going : state.init ≠ .returned)
    (admitted : admits state action = true) (ready : TimerReady state (.driver action))
    (timer : state.driver.dev.timer = none) (handler : state.driver.timerHandler = none)
    (exit : state.driver.exit = .notStarted) (ran : turn hz state.driver action = .ok driver) :
    driver.dev.timer = none ∧ driver.timerHandler = none ∧ driver.exit = .notStarted := by
  cases action with
  | call =>
    simp only [turn, exit, if_true] at ran
    cases ran
    exact ⟨timer, handler, rfl⟩
  | inCall index =>
    simp only [turn] at ran
    split at ran
    · cases ran
      exact ⟨timer, handler, exit⟩
    · next pc here =>
      obtain ⟨⟨dev, locked, later⟩, taken, same⟩ := bind_eq_ok.mp ran
      cases same
      refine ⟨?_, handler, exit⟩
      rw [callStatement_timer taken fun used => going (ready pc here used), timer]
  | expire | inTimer | inExit =>
    simp only [turn, exitStatement, timer, handler, exit] at ran
    cases ran
    exact ⟨timer, handler, exit⟩
  | startIo | startMonitor =>
    simp only [turn] at ran
    split at ran <;> cases ran <;> exact ⟨timer, handler, exit⟩
  | inIo =>
    simp only [turn] at ran
    split at ran
    · cases ran
      exact ⟨timer, handler, exit⟩
    · next pc here =>
      cases pc <;> cases ran <;> exact ⟨timer, handler, exit⟩
  | inMonitor =>
    simp only [turn] at ran
    split at ran
    · cases ran
      exact ⟨timer, handler, exit⟩
    · obtain ⟨dev, locked, monitor, rfl, only, -⟩ := monitorStatement_frame ran
      exact ⟨by rw [only, timer], handler, exit⟩
  | unload => simp [admits, going] at admitted
  | exit | assign | tick =>
    cases ran
    exact ⟨timer, handler, exit⟩

/-- Before `timer_setup`, `deferred_init` leaves the timer alone. -/
theorem initStatement_frame {driver after : Unloading} {granted : Bool} {pc pc' : InitPc}
    (ran : initStatement driver granted pc = .ok (after, pc')) (going : pc' ≠ .returned) :
    pc ≠ .returned ∧ after.dev.timer = driver.dev.timer ∧ after.timerHandler = driver.timerHandler ∧
      after.exit = driver.exit := by
  cases pc with
  | initListHead =>
    obtain ⟨heap, -, same⟩ := bind_eq_ok.mp ran
    cases same
    exact ⟨by simp, rfl, rfl, rfl⟩
  | timerSetup | returned =>
    cases ran
    exact absurd rfl going
  | registerChrdevRegion | setFlag | initIoWork | initMonitorWork | spinLockInit | cdevInit | cdevAdd
  | failed =>
    cases ran
    exact ⟨by simp, rfl, rfl, rfl⟩

theorem loadTurn_unarmed (unarmed : Unarmed state) (ready : TimerReady state action)
    (ran : loadTurn hz state action = .ok next) : Unarmed next := by
  intro going
  cases action with
  | driver action =>
    obtain ⟨stays, moved⟩ := driver_turn ran
    rw [stays] at going
    obtain ⟨timer, handler, exit⟩ := unarmed going
    rcases moved with same | ⟨admitted, taken⟩
    · exact same ▸ ⟨timer, handler, exit⟩
    · exact turn_unarmed going admitted ready timer handler exit taken
  | init granted =>
    obtain ⟨⟨driver, pc⟩, moved, same⟩ := bind_eq_ok.mp ran
    cases same
    obtain ⟨early, timer, handler, exit⟩ := initStatement_frame moved going
    obtain ⟨untimed, unhandled, loading⟩ := unarmed early
    exact ⟨timer.trans untimed, handler.trans unhandled, exit.trans loading⟩

/-! ## The order of a run -/

/-- Before `deferred_init` has returned, only a call can use the timer. -/
theorem timer_used_by_call (unarmed : Unarmed state) (going : state.init ≠ .returned)
    {action : DeferredUnload.Turn} (used : .timer ∈ uses state.driver action) :
    ∃ index pc, action = .inCall index ∧ state.driver.calls[index]? = some pc ∧ .timer ∈ callUses pc := by
  obtain ⟨timer, handler, exit⟩ := unarmed going
  cases action with
  | inCall index =>
    cases here : state.driver.calls[index]? with
    | none => simp [uses, here] at used
    | some pc => exact ⟨index, pc, rfl, here, by simpa [uses, here] using used⟩
  | inMonitor =>
    cases running : state.driver.monitor.running with
    | none => simp [uses, running] at used
    | some pc => cases pc <;> simp [uses, running, loopUses] at used
  | expire | inTimer | inExit => simp [uses, timer, handler, exit, exitUses] at used
  | startIo | startMonitor =>
    simp only [uses] at used
    split at used <;> simp at used
  | call | inIo | unload | exit | assign | tick => simp [uses] at used

/-- A turn is timely exactly when it finds the timer ready, if it is a call's and uses it. -/
theorem timely_iff (phase : Phase state) (orderly : InOrder state.log) (unarmed : Unarmed state) :
    Timely state action ↔ TimerReady state action := by
  cases action with
  | init granted =>
    refine ⟨fun _ => trivial, fun _ => orderly.inits fun object made used => ?_⟩
    have before := (phase.done object).mp (orderly.initialised used)
    exact absurd before (Nat.not_lt.mpr (Nat.le_of_eq (initialises_rank made).symm))
  | driver action =>
    constructor
    · intro timely
      cases action with
      | inCall index =>
        intro pc here used
        have needed : .use .timer ∈ events state (.driver (.inCall index)) := by
          simp [events, admits, uses, here, used]
        have prepared := timely.initialised (List.mem_append_right _ needed)
        have reached := (phase.done .timer).mp (by simpa [events, admits] using prepared)
        cases here : state.init <;> simp_all [InitPc.rank, Shared.rank]
      | _ => trivial
    · intro ready
      by_cases admitted : admits state action = true
      · rw [Timely, events, if_pos admitted]
        refine orderly.uses fun object used => (phase.done object).mpr ?_
        by_cases low : state.init.rank < 8
        · rw [idle_uses (phase.early low).1] at used
          cases used
        · cases object with
          | timer =>
            by_cases returned : state.init = .returned
            · rw [returned]
              decide
            · obtain ⟨index, pc, rfl, here, usesTimer⟩ := timer_used_by_call unarmed returned used
              exact absurd (ready pc here usesTimer) returned
          | flag | ioWork | monitorWork | lock | processList =>
            simp only [Shared.rank]
            omega
      · simpa [Timely, events, admitted] using orderly

/-- **Used once initialised.** At every point of a load every object is initialised before
its first use and not after it, exactly when no call gets as far as its timer statement
before `deferred_init` has returned. -/
theorem initialised_before_use_iff (hz jiffies : UInt64) (pids : Int32 → Option Task) (dead : Task → Bool)
    (turns : List LoadTurn) :
    (∀ before action rest reached, turns = before ++ action :: rest →
      run (loadTurn hz) (inserted jiffies pids dead) before = .ok reached →
      InOrder (reached.log ++ events reached action)) ↔
    Along TimerReady (loadTurn hz) (inserted jiffies pids dead) turns := by
  have everywhere : Along Timely (loadTurn hz) (inserted jiffies pids dead) turns ↔ _ :=
    along_iff_everywhere
  refine everywhere.symm.trans
    (along_congr (fun state => Phase state ∧ InOrder state.log ∧ Unarmed state) ?_ ?_ ?_)
  · rintro state action next ⟨phase, orderly, unarmed⟩ timely ran
    have ready := (timely_iff phase orderly unarmed).mp timely
    exact ⟨loadTurn_phase phase ran, loadTurn_log ran ▸ timely, loadTurn_unarmed unarmed ready ran⟩
  · rintro state action ⟨phase, orderly, unarmed⟩
    exact timely_iff phase orderly unarmed
  · exact ⟨inserted_phase jiffies pids dead, fun before object after whole => by simp [inserted] at whole,
      fun _ => ⟨rfl, rfl, rfl⟩⟩

/-- `deferred_init` up to `cdev_add`, and a request that is about to arm the timer. -/
def earlyRequest : List LoadTurn :=
  List.replicate 8 (.init true) ++ [.driver (.call myIoctlTimerSet 5 none), .driver (.inCall 0)]

/-- The request comes right after `cdev_add`: `mod_timer` gets a timer that was never set up. -/
theorem request_before_timer_setup : ∃ reached,
    run (loadTurn 250) (inserted 0 (fun _ => none) (fun _ => false)) earlyRequest = .ok reached ∧
      reached.init = .timerSetup ∧ events reached (.driver (.inCall 0)) = [.use .timer] ∧
      ¬ InOrder (reached.log ++ events reached (.driver (.inCall 0))) := by
  refine ⟨_, rfl, rfl, rfl, fun orderly => ?_⟩
  have prepared := orderly.initialised (List.mem_append_right _ (List.mem_singleton.mpr rfl))
  exact absurd prepared (by decide)

end KernelLabs.DeferredLoading
