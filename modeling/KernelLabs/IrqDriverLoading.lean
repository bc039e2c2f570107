import KernelLabs.IrqDriver
import KernelLabs.ModuleCycles

/-! Loading and unloading the lab12 driver. `my_driver_init` returns from each of its
failures without undoing what came before it, and `my_driver_exit` asks for a handler
that was never registered. -/
namespace KernelLabs.IrqDriver
open Errno ModuleCycles

/-- The `dev_id` a handler is registered with. -/
inductive DevId
  | null
  /-- `&dev_data`. -/
  | devData
  deriving DecidableEq, Repr

/-- The driver's data, and what the kernel holds for the driver. -/
structure Held where
  driver : Driver
  /-- `MKDEV(MY_MAJOR, 0)` is registered. -/
  region : Bool
  cdevs : Nat
  /-- The handlers of the driver on `MY_IRQ_NO`. -/
  handlers : List DevId

/-- How the kernel answers the calls of one load. -/
structure Outcomes where
  registerChrdevRegion : ErrorCode
  cdevAdd : ErrorCode
  requestIrq : ErrorCode
  /-- `irq_to_desc` finds the descriptor. -/
  irqToDesc : Bool

/-- `register_chrdev_region`: a region that is still registered cannot be registered again. -/
def registerChrdevRegion (held : Held) (answer : ErrorCode) : Held × Int :=
  if held.region then (held, -ebusy)
  else if answer.1 = 0 then ({ held with region := true }, 0)
  else (held, answer.1)

/-- `cdev_add`. -/
def cdevAdd (held : Held) (answer : ErrorCode) : Held × Int :=
  if answer.1 = 0 then ({ held with cdevs := held.cdevs + 1 }, 0) else (held, answer.1)

/-- `request_irq` with `IRQF_SHARED`, which adds a handler to those there are. -/
def requestIrq (held : Held) (devId : DevId) (answer : ErrorCode) : Held × Int :=
  if answer.1 = 0 then ({ held with handlers := devId :: held.handlers }, 0) else (held, answer.1)

/-- `free_irq`, which removes the handler registered with this `dev_id`, if there is one. -/
def freeIrq (held : Held) (devId : DevId) : Held :=
  { held with handlers := held.handlers.erase devId }

/-- `cdev_del`. -/
def cdevDel (held : Held) : Held := { held with cdevs := held.cdevs - 1 }

def unregisterChrdevRegion (held : Held) : Held := { held with region := false }

def myDriverInit (held : Held) (outcomes : Outcomes) : Held × Int :=
  let (held, err) := registerChrdevRegion held outcomes.registerChrdevRegion
  if err ≠ 0 then (held, -enodev)
  else
    let (held, err) := cdevAdd held outcomes.cdevAdd
    if err < 0 then (held, -ebusy)
    else
      let held := { held with driver := loaded }
      let (held, err) := requestIrq held .devData outcomes.requestIrq
      if err < 0 then (held, err)
      else if ¬ outcomes.irqToDesc then (held, -einval)
      else (held, 0)

def myDriverExit (held : Held) : Held :=
  unregisterChrdevRegion (cdevDel (freeIrq held .null))

/-- The driver; an `ioctl` that has to wait for the mutex changes nothing. -/
def driverModule : KernelModule Held Outcomes UInt32 where
  init held outcomes := .ok (myDriverInit held outcomes)
  exit held := .ok (myDriverExit held)
  serve held cmd :=
    match myIoctl held.driver cmd with
    | some (driver, _) => .ok { held with driver := driver }
    | none => .ok held

/-- Before the first load. -/
def unloaded : ModuleState Held where
  held := { driver := loaded, region := false, cdevs := 0, handlers := [] }
  loaded := false

def HoldsNothing (held : Held) : Prop :=
  held.region = false ∧ held.cdevs = 0 ∧ held.handlers = []

def HoldsOneOfEach (held : Held) : Prop :=
  held.region = true ∧ held.cdevs = 1 ∧ held.handlers = [.devData]

/-- The load fails at its first call, or at none. -/
def Outcomes.AllOrNothing (outcomes : Outcomes) : Prop :=
  outcomes.registerChrdevRegion.1 ≠ 0 ∨
    outcomes.cdevAdd.1 = 0 ∧ outcomes.requestIrq.1 = 0 ∧ outcomes.irqToDesc = true

/-- Every load fails at its first call or at none, and a loaded driver stays loaded. -/
def Keeps (state : ModuleState Held) : Event Outcomes UInt32 → Prop :=
  Undoes Outcomes.AllOrNothing (fun _ => False) state

variable {held after : Held} {outcomes : Outcomes} {ret : Int}

/-- What `my_driver_init` makes of each answer. -/
theorem myDriverInit_cases (free : HoldsNothing held) (outcomes : Outcomes) :
    (outcomes.registerChrdevRegion.1 ≠ 0 ∧ myDriverInit held outcomes = (held, -enodev)) ∨
    (outcomes.registerChrdevRegion.1 = 0 ∧ outcomes.cdevAdd.1 ≠ 0 ∧
      myDriverInit held outcomes = ({ held with region := true }, -ebusy)) ∨
    (outcomes.registerChrdevRegion.1 = 0 ∧ outcomes.cdevAdd.1 = 0 ∧ outcomes.requestIrq.1 ≠ 0 ∧
      myDriverInit held outcomes =
        ({ held with driver := loaded, region := true, cdevs := 1 }, outcomes.requestIrq.1)) ∨
    (outcomes.registerChrdevRegion.1 = 0 ∧ outcomes.cdevAdd.1 = 0 ∧ outcomes.requestIrq.1 = 0 ∧
      myDriverInit held outcomes =
        ({ driver := loaded, region := true, cdevs := 1, handlers := [.devData] },
          if outcomes.irqToDesc then 0 else -einval)) := by
  obtain ⟨driver, region, cdevs, handlers⟩ := held
  obtain ⟨rfl, rfl, rfl⟩ : region = false ∧ cdevs = 0 ∧ handlers = [] := free
  have negative (answer : ErrorCode) (fails : answer.1 ≠ 0) : answer.1 < 0 :=
    Int.lt_iff_le_and_ne.mpr ⟨answer.2, fails⟩
  by_cases registered : outcomes.registerChrdevRegion.1 = 0
  · right
    by_cases added : outcomes.cdevAdd.1 = 0
    · right
      by_cases requested : outcomes.requestIrq.1 = 0
      · refine .inr ⟨registered, added, requested, ?_⟩
        cases found : outcomes.irqToDesc <;>
          simp [myDriverInit, registerChrdevRegion, registered, cdevAdd, added, requestIrq, requested, found]
      · refine .inl ⟨registered, added, requested, ?_⟩
        simp [myDriverInit, registerChrdevRegion, registered, cdevAdd, added, requestIrq, requested,
          negative _ requested]
    · refine .inl ⟨registered, added, ?_⟩
      simp [myDriverInit, registerChrdevRegion, registered, cdevAdd, added, negative _ added]
  · refine .inl ⟨registered, ?_⟩
    simp [myDriverInit, registerChrdevRegion, registered]

/-- A load undoes what it did where it fails exactly when it fails at once or not at all. -/
theorem myDriverInit_undoes_iff (free : HoldsNothing held)
    (ran : myDriverInit held outcomes = (after, ret)) :
    ((ret < 0 → HoldsNothing after) ∧ (0 ≤ ret → HoldsOneOfEach after)) ↔ outcomes.AllOrNothing := by
  unfold Outcomes.AllOrNothing
  rcases myDriverInit_cases free outcomes with ⟨fails, same⟩ | ⟨passes, fails, same⟩ |
    ⟨passes, added, fails, same⟩ | ⟨passes, added, requested, same⟩
  · rw [same] at ran
    cases ran
    exact iff_of_true ⟨fun _ => free, fun accepted => absurd accepted (Int.not_le.mpr neg_enodev)⟩
      (.inl fails)
  · rw [same] at ran
    cases ran
    refine iff_of_false (fun undone => ?_) (by simp [passes, fails])
    cases (undone.1 neg_ebusy).1
  · rw [same] at ran
    cases ran
    have negative := Int.lt_iff_le_and_ne.mpr ⟨outcomes.requestIrq.2, fails⟩
    refine iff_of_false (fun undone => ?_) (by simp [passes, fails])
    cases (undone.1 negative).1
  · rw [same] at ran
    cases ran
    cases found : outcomes.irqToDesc with
    | true =>
      refine iff_of_true ⟨fun refused => ?_, fun _ => ⟨rfl, rfl, rfl⟩⟩ (.inr ⟨added, requested, rfl⟩)
      simp at refused
    | false =>
      refine iff_of_false (fun undone => ?_) (by simp [passes])
      cases (undone.1 neg_einval).1

/-- No handler is registered with `NULL`, so an unload leaves the one there is. -/
theorem myDriverExit_leaves_handler (full : HoldsOneOfEach held) :
    (myDriverExit held).handlers = [.devData] := by
  simp [myDriverExit, unregisterChrdevRegion, cdevDel, freeIrq, full.2.2]

/-- An `ioctl` changes nothing but the driver's data. -/
theorem serve_cases (held : Held) (cmd : UInt32) :
    ∃ driver, driverModule.serve held cmd = .ok { held with driver := driver } := by
  cases ran : myIoctl held.driver cmd with
  | none => exact ⟨held.driver, by simp [driverModule, ran]⟩
  | some result => exact ⟨result.1, by simp [driverModule, ran]⟩

/-- **Balance.** In a run, nothing is held for the driver after every failed load and
every unload, and one of each after every successful load, exactly when every load
fails at its first call or not at all, and a loaded driver is never unloaded. -/
theorem driver_balanced_iff (events : List (Event Outcomes UInt32)) :
    (∀ before rest reached, events = before ++ rest →
      run (cycle driverModule) unloaded before = .ok reached →
      (reached.loaded = false → HoldsNothing reached.held) ∧
      (reached.loaded = true → HoldsOneOfEach reached.held)) ↔
    Along Keeps (cycle driverModule) unloaded events := by
  have start : Balanced HoldsNothing HoldsOneOfEach unloaded :=
    ⟨fun _ => ⟨rfl, rfl, rfl⟩, fun loaded => by cases loaded⟩
  show _ ↔ Along (Undoes Outcomes.AllOrNothing fun _ => False) (cycle driverModule) unloaded events
  refine balanced_iff_undoes (cycle_total ?_ ?_ ?_) ?_ ?_ ?_ start
  · intro held outcomes free
    exact ⟨_, rfl⟩
  · intro held full
    exact ⟨_, rfl⟩
  · intro held cmd full
    obtain ⟨driver, served⟩ := serve_cases held cmd
    exact ⟨_, served⟩
  · intro held outcomes after ret free ran
    exact myDriverInit_undoes_iff free (Except.ok.inj ran)
  · intro held after full ran
    cases ran
    refine iff_of_false (fun free => ?_) id
    have leaves := myDriverExit_leaves_handler full
    rw [free.2.2] at leaves
    cases leaves
  · intro held cmd after full ran
    obtain ⟨driver, served⟩ := serve_cases held cmd
    rw [served] at ran
    cases ran
    exact full

/-- A load in which all calls succeed. -/
def Outcomes.allSucceed : Outcomes where
  registerChrdevRegion := ErrorCode.success
  cdevAdd := ErrorCode.success
  requestIrq := ErrorCode.success
  irqToDesc := true

/-- The handler stays registered after an unload, and the next load adds a second one;
a load whose `request_irq` fails leaves the region and the device behind. -/
theorem driver_leaks :
    (∃ reached, run (cycle driverModule) unloaded [.load .allSucceed, .unload] = .ok reached ∧
      reached.loaded = false ∧ reached.held.handlers = [.devData]) ∧
    (∃ reached, run (cycle driverModule) unloaded [.load .allSucceed, .unload, .load .allSucceed] =
        .ok reached ∧
      reached.loaded = true ∧ reached.held.handlers = [.devData, .devData]) ∧
    ∃ reached, run (cycle driverModule) unloaded
        [.load { Outcomes.allSucceed with requestIrq := ⟨-ebusy, Int.le_of_lt neg_ebusy⟩ }] = .ok reached ∧
      reached.loaded = false ∧ reached.held.region = true ∧ reached.held.cdevs = 1 :=
  ⟨⟨_, rfl, rfl, rfl⟩, ⟨_, rfl, rfl, rfl⟩, ⟨_, rfl, rfl, rfl, rfl⟩⟩

end KernelLabs.IrqDriver
