import KernelLabs.IrqDriver
import KernelLabs.ModuleCycles
import Mathlib.Logic.Function.Iterate
import Mathlib.Tactic.FinCases

/-! The interrupt handler of the lab12 driver, one statement at a time, in any number of
runs at once, beside the end of `my_driver_init`. The handler keeps to a spin lock, which
`my_driver_init` sets up only after it has asked for interrupts. That runs of the one
handler overlap is what the source itself assumes: its lock is "for preventing race
condition by multiple runner". -/
namespace KernelLabs.IrqDriver
open Errno ModuleCycles

/-- The next statement of a run of `my_irq_handler`. -/
inductive HandlerPc
  /-- Its interrupt has not come yet. -/
  | idle
  | spinLock
  /-- `dev_data.num[k] = -(k + 1)` -/
  | setNum (k : Fin 5)
  /-- `dev_data.sum += dev_data.num[i]`: what is added up, and where it goes. -/
  | load (i : Fin 5)
  | store (i : Fin 5) (value : CInt)
  | spinUnlock
  | printk
  | returned
  deriving DecidableEq

/-- The next statement of `my_driver_init`, from `request_irq` on. -/
inductive InitPc
  | requestIrq
  | spinLockInit (err : ErrorCode)
  | testErr (err : ErrorCode)
  | irqToDesc
  | spinLockIrqsave
  | cpuWrite
  | spinUnlockIrqrestore
  | printk
  | returned (ret : Int)
  deriving DecidableEq

structure Interrupts where
  devData : MyDeviceData
  locked : Bool
  /-- The handler is registered. -/
  registered : Bool
  init : InitPc
  handler : Nat → HandlerPc
  /-- What each run has printed. -/
  printed : List (Nat × Line)

inductive Turn
  /-- `my_driver_init`, and what `request_irq` or `irq_to_desc` answers if it is asked. -/
  | init (answer : ErrorCode) (found : Bool)
  | interrupt (run : Nat)
  | handler (run : Nat)
  deriving DecidableEq

/-- What the handler stores to `num`. -/
def irqNum : Fin 5 → CInt := ![-1, -2, -3, -4, -5]

def Interrupts.goto (state : Interrupts) (run : Nat) (pc : HandlerPc) : Interrupts :=
  { state with handler := Function.update state.handler run pc }

/-- A load that fails takes the module out of memory. -/
def InitPc.Failed : InitPc → Prop
  | .returned ret => ret < 0
  | _ => False

instance (init : InitPc) : Decidable init.Failed := by
  cases init <;> unfold InitPc.Failed <;> infer_instance

theorem num_pos : 0 < 5 := Nat.succ_pos 4

/-- One statement of a run of `my_irq_handler`. -/
def handlerStep (state : Interrupts) (run : Nat) : Interrupts :=
  match state.handler run with
  | .idle | .returned => state
  | .spinLock => if state.locked then state else { state.goto run (.setNum ⟨0, num_pos⟩) with locked := true }
  | .setNum k =>
    let devData := { state.devData with num := Function.update state.devData.num k (irqNum k) }
    { state.goto run (if next : k.1 + 1 < 5 then .setNum ⟨k.1 + 1, next⟩ else .load ⟨0, num_pos⟩) with devData := devData }
  | .load i => state.goto run (.store i (state.devData.sum + state.devData.num i))
  | .store i value =>
    let devData := { state.devData with sum := value }
    { state.goto run (if next : i.1 + 1 < 5 then .load ⟨i.1 + 1, next⟩ else .spinUnlock) with devData := devData }
  | .spinUnlock => { state.goto run .printk with locked := false }
  | .printk =>
    { state.goto run .returned with printed := state.printed ++ [(run, .irq state.devData.sum.toInt)] }

/-- One statement of `my_driver_init`. -/
def driverInitStep (state : Interrupts) (answer : ErrorCode) (found : Bool) : Interrupts :=
  match state.init with
  | .requestIrq => { state with registered := answer.1 = 0, init := .spinLockInit answer }
  | .spinLockInit err => { state with locked := false, init := .testErr err }
  | .testErr err => { state with init := if err.1 < 0 then .returned err.1 else .irqToDesc }
  | .irqToDesc => { state with init := if found then .spinLockIrqsave else .returned (-einval) }
  | .spinLockIrqsave => if state.locked then state else { state with locked := true, init := .cpuWrite }
  | .cpuWrite => { state with init := .spinUnlockIrqrestore }
  | .spinUnlockIrqrestore => { state with locked := false, init := .printk }
  | .printk => { state with init := .returned 0 }
  | .returned _ => state

/-- One turn. Nothing of a handler whose module is gone can be run. -/
def interruptTurn (state : Interrupts) : Turn → Except Fault Interrupts
  | .init answer found => .ok (driverInitStep state answer found)
  | .interrupt run =>
    if state.registered = true ∧ state.handler run = .idle then
      if state.init.Failed then .error .badAccess else .ok (state.goto run .spinLock)
    else .ok state
  | .handler run =>
    if state.handler run = .idle ∨ state.handler run = .returned then .ok state
    else if state.init.Failed then .error .badAccess
    else .ok (handlerStep state run)

/-- `my_driver_init` comes to `request_irq`. -/
def beforeRequest : Interrupts where
  devData := loaded.devData
  locked := false
  registered := false
  init := .requestIrq
  handler _ := .idle
  printed := []

/-! ## The critical sections -/

/-- The run has the lock, as far as it knows. -/
def HandlerPc.Inside : HandlerPc → Prop
  | .setNum _ | .load _ | .store _ _ | .spinUnlock => True
  | .idle | .spinLock | .printk | .returned => False

/-- The run has given the lock back. -/
def HandlerPc.Past : HandlerPc → Prop
  | .printk | .returned => True
  | _ => False

def InitPc.Inside : InitPc → Prop
  | .cpuWrite | .spinUnlockIrqrestore => True
  | _ => False

/-- `spin_lock_init` has been called. -/
def InitPc.Past : InitPc → Prop
  | .requestIrq | .spinLockInit _ => False
  | _ => True

/-- Who can be inside: a run of the handler, or `my_driver_init`. -/
def Interrupts.Inside (state : Interrupts) : Option Nat → Prop
  | some run => (state.handler run).Inside
  | none => state.init.Inside

def OneInside (state : Interrupts) : Prop := ∀ a b, state.Inside a → state.Inside b → a = b

/-- The lock is locked exactly when somebody is inside. -/
def LockAgrees (state : Interrupts) : Prop := state.locked = true ↔ ∃ a, state.Inside a

/-- `spin_lock_init` is not called while somebody is inside. -/
def Calm (state : Interrupts) : Turn → Prop
  | .init _ _ => ∀ err, state.init = .spinLockInit err → ∀ a, ¬ state.Inside a
  | .interrupt _ | .handler _ => True

variable {state next : Interrupts} {turn : Turn} {i : Nat} {pc : HandlerPc} {turns : List Turn}

@[simp] theorem goto_handler : (state.goto i pc).handler = Function.update state.handler i pc := rfl
@[simp] theorem goto_init : (state.goto i pc).init = state.init := rfl
@[simp] theorem goto_locked : (state.goto i pc).locked = state.locked := rfl
@[simp] theorem goto_devData : (state.goto i pc).devData = state.devData := rfl
@[simp] theorem goto_registered : (state.goto i pc).registered = state.registered := rfl

@[simp] theorem inside_some : state.Inside (some i) ↔ (state.handler i).Inside := Iff.rfl
@[simp] theorem inside_none : state.Inside none ↔ state.init.Inside := Iff.rfl

/-- Only the run that moves can come in or go out. -/
theorem goto_inside (state : Interrupts) (run : Nat) (pc : HandlerPc) (a : Option Nat) :
    (state.goto run pc).Inside a ↔ a = some run ∧ pc.Inside ∨ a ≠ some run ∧ state.Inside a := by
  cases a with
  | none => simp
  | some i =>
    by_cases mine : i = run
    · subst mine
      simp
    · simp [mine]

/-- What a statement of a run does to the lock, and who is inside after it. -/
theorem handlerStep_inside (state : Interrupts) (run : Nat) :
    ((handlerStep state run).locked = state.locked ∧
      ∀ a, (handlerStep state run).Inside a ↔ state.Inside a) ∨
    (state.locked = false ∧ (handlerStep state run).locked = true ∧
      ∀ a, (handlerStep state run).Inside a ↔ a = some run ∨ state.Inside a) ∨
    (state.Inside (some run) ∧ (handlerStep state run).locked = false ∧
      ∀ a, (handlerStep state run).Inside a ↔ a ≠ some run ∧ state.Inside a) := by
  have stays (pc : HandlerPc) (agree : pc.Inside ↔ (state.handler run).Inside) (a : Option Nat) :
      (state.goto run pc).Inside a ↔ state.Inside a := by
    rw [goto_inside, agree, ← inside_some]
    by_cases mine : a = some run <;> simp [mine]
  cases here : state.handler run with
  | idle => exact .inl (by simp [handlerStep, here])
  | returned => exact .inl (by simp [handlerStep, here])
  | spinLock =>
    cases held : state.locked with
    | true => exact .inl (by simp [handlerStep, here, held])
    | false =>
      refine .inr (.inl ⟨rfl, by simp [handlerStep, here, held], fun a => ?_⟩)
      simp only [handlerStep, here, held, Bool.false_eq_true, ↓reduceIte]
      change (state.goto run (.setNum 0)).Inside a ↔ _
      rw [goto_inside]
      by_cases mine : a = some run <;> simp [mine, HandlerPc.Inside]
  | setNum k =>
    simp only [handlerStep, here]
    exact .inl ⟨rfl, stays _ (by split <;> simp [here, HandlerPc.Inside])⟩
  | load k =>
    simp only [handlerStep, here]
    exact .inl ⟨rfl, stays _ (by simp [here, HandlerPc.Inside])⟩
  | store k value =>
    simp only [handlerStep, here]
    exact .inl ⟨rfl, stays _ (by split <;> simp [here, HandlerPc.Inside])⟩
  | spinUnlock =>
    refine .inr (.inr ⟨by simp [here, HandlerPc.Inside], by simp [handlerStep, here], fun a => ?_⟩)
    simp only [handlerStep, here]
    change (state.goto run .printk).Inside a ↔ _
    rw [goto_inside]
    simp [HandlerPc.Inside]
  | printk =>
    simp only [handlerStep, here]
    exact .inl ⟨rfl, stays _ (by simp [here, HandlerPc.Inside])⟩

/-- What a statement of `my_driver_init` does to the lock, and who is inside after it. -/
theorem driverInitStep_inside (state : Interrupts) (answer : ErrorCode) (found : Bool) :
    ((driverInitStep state answer found).locked = state.locked ∧
      ∀ a, (driverInitStep state answer found).Inside a ↔ state.Inside a) ∨
    (state.locked = false ∧ (driverInitStep state answer found).locked = true ∧
      ∀ a, (driverInitStep state answer found).Inside a ↔ a = none ∨ state.Inside a) ∨
    (state.Inside none ∧ (driverInitStep state answer found).locked = false ∧
      ∀ a, (driverInitStep state answer found).Inside a ↔ a ≠ none ∧ state.Inside a) ∨
    ∃ err, state.init = .spinLockInit err ∧ (driverInitStep state answer found).locked = false ∧
      ∀ a, (driverInitStep state answer found).Inside a ↔ state.Inside a := by
  have others {next : Interrupts} (same : next.handler = state.handler) (a : Option Nat) :
      next.Inside a ↔ a = none ∧ next.init.Inside ∨ a ≠ none ∧ state.Inside a := by
    cases a <;> simp [Interrupts.Inside, same]
  have stays {next : Interrupts} (same : next.handler = state.handler)
      (agree : next.init.Inside ↔ state.init.Inside) (a : Option Nat) : next.Inside a ↔ state.Inside a := by
    rw [others same, agree, ← inside_none]
    by_cases mine : a = none <;> simp [mine]
  cases here : state.init with
  | requestIrq =>
    refine .inl ⟨by simp [driverInitStep, here], stays ?_ ?_⟩ <;> simp [driverInitStep, here, InitPc.Inside]
  | spinLockInit err =>
    refine .inr (.inr (.inr ⟨err, rfl, by simp [driverInitStep, here], stays ?_ ?_⟩)) <;>
      simp [driverInitStep, here, InitPc.Inside]
  | testErr err =>
    refine .inl ⟨by simp [driverInitStep, here], stays (by simp [driverInitStep, here]) ?_⟩
    by_cases failed : err.1 < 0 <;> simp [driverInitStep, here, failed, InitPc.Inside]
  | irqToDesc =>
    refine .inl ⟨by simp [driverInitStep, here], stays (by simp [driverInitStep, here]) ?_⟩
    cases found <;> simp [driverInitStep, here, InitPc.Inside]
  | spinLockIrqsave =>
    cases held : state.locked with
    | true => exact .inl (by simp [driverInitStep, here, held])
    | false =>
      refine .inr (.inl ⟨rfl, by simp [driverInitStep, here, held], fun a => ?_⟩)
      rw [others (by simp [driverInitStep, here, held])]
      by_cases mine : a = none <;> simp [driverInitStep, here, held, mine, InitPc.Inside]
  | cpuWrite =>
    refine .inl ⟨by simp [driverInitStep, here], stays ?_ ?_⟩ <;> simp [driverInitStep, here, InitPc.Inside]
  | spinUnlockIrqrestore =>
    refine .inr (.inr (.inl ⟨by simp [here, InitPc.Inside], by simp [driverInitStep, here], fun a => ?_⟩))
    rw [others (by simp [driverInitStep, here])]
    simp [driverInitStep, here, InitPc.Inside]
  | printk =>
    refine .inl ⟨by simp [driverInitStep, here], stays ?_ ?_⟩ <;> simp [driverInitStep, here, InitPc.Inside]
  | returned ret => exact .inl (by simp [driverInitStep, here])

/-- What a turn does to the lock, and who is inside after it. -/
theorem interruptTurn_inside (taken : interruptTurn state turn = .ok next) :
    (next.locked = state.locked ∧ ∀ a, next.Inside a ↔ state.Inside a) ∨
    (∃ b, state.locked = false ∧ next.locked = true ∧ ∀ a, next.Inside a ↔ a = b ∨ state.Inside a) ∨
    (∃ b, state.Inside b ∧ next.locked = false ∧ ∀ a, next.Inside a ↔ a ≠ b ∧ state.Inside a) ∨
    ∃ answer found err, turn = .init answer found ∧ state.init = .spinLockInit err ∧
      next.locked = false ∧ ∀ a, next.Inside a ↔ state.Inside a := by
  cases turn with
  | init answer found =>
    cases taken
    rcases driverInitStep_inside state answer found with same | enters | leaves | ⟨err, here, reset⟩
    · exact .inl same
    · exact .inr (.inl ⟨none, enters⟩)
    · exact .inr (.inr (.inl ⟨none, leaves⟩))
    · exact .inr (.inr (.inr ⟨answer, found, err, rfl, here, reset⟩))
  | interrupt run =>
    left
    simp only [interruptTurn] at taken
    split at taken
    · rename_i comes
      split at taken
      · cases taken
      · cases taken
        refine ⟨rfl, fun a => ?_⟩
        rw [goto_inside]
        by_cases mine : a = some run <;> simp [mine, comes.2, HandlerPc.Inside]
    · cases taken
      exact ⟨rfl, fun a => Iff.rfl⟩
  | handler run =>
    simp only [interruptTurn] at taken
    split at taken
    · cases taken
      exact .inl ⟨rfl, fun a => Iff.rfl⟩
    · split at taken
      · cases taken
      · cases taken
        rcases handlerStep_inside state run with same | enters | leaves
        · exact .inl same
        · exact .inr (.inl ⟨some run, enters⟩)
        · exact .inr (.inr (.inl ⟨some run, leaves⟩))

/-- A turn keeps the sections apart, unless it sets the lock up again around one of them. -/
theorem turn_exclusive (one : OneInside state) (agrees : LockAgrees state) (calm : Calm state turn)
    (taken : interruptTurn state turn = .ok next) : OneInside next ∧ LockAgrees next := by
  have nobody (free : state.locked = false) (a : Option Nat) : ¬ state.Inside a :=
    fun inside => by simpa [free] using agrees.mpr ⟨a, inside⟩
  rcases interruptTurn_inside taken with ⟨locked, same⟩ | ⟨b, free, locked, enters⟩ |
    ⟨b, inside, locked, leaves⟩ | ⟨answer, found, err, rfl, here, locked, same⟩
  · exact ⟨fun a a' left right => one a a' ((same a).mp left) ((same a').mp right),
      by simp [LockAgrees, locked, same, agrees.symm]⟩
  · have only (a : Option Nat) : next.Inside a ↔ a = b := by simp [enters, nobody free]
    refine ⟨fun a a' left right => ?_, by simp [LockAgrees, locked, only]⟩
    rw [(only a).mp left, (only a').mp right]
  · have none_left (a : Option Nat) : ¬ next.Inside a := by
      intro inside'
      obtain ⟨other, still⟩ := (leaves a).mp inside'
      exact other (one a b still inside)
    exact ⟨fun a _ left _ => absurd left (none_left a), by simp [LockAgrees, locked, none_left]⟩
  · have calm' := calm err here
    exact ⟨fun a _ left _ => absurd ((same a).mp left) (calm' a), by simp [LockAgrees, locked, same, calm']⟩

/-! ## The order of the runs -/

/-- The sum with the first `count` of the handler's numbers added to it. -/
def sumUpTo (sum : CInt) (count : Nat) : CInt :=
  ((List.finRange 5).take count).foldl (fun sum i => sum + irqNum i) sum

/-- What the data are where a run stands, given what it found. -/
def HandlerPc.Stands (found devData : MyDeviceData) : HandlerPc → Prop
  | .setNum k => devData.num = (fun j => if j < k then irqNum j else found.num j) ∧ devData.sum = found.sum
  | .load i => devData.num = irqNum ∧ devData.sum = sumUpTo found.sum i
  | .store i value =>
    devData.num = irqNum ∧ devData.sum = sumUpTo found.sum i ∧ value = sumUpTo found.sum (i + 1)
  | .spinUnlock => devData = (myIrqHandler found).1
  | .idle | .spinLock | .printk | .returned => True

/-- The data after a number of whole runs. -/
def afterRuns (count : Nat) : MyDeviceData := (fun devData => (myIrqHandler devData).1)^[count] loaded.devData

/-- The runs that have left the lock did so one after another, each whole. -/
structure InOrder (state : Interrupts) (order : List Nat) : Prop where
  once : order.Nodup
  left : ∀ run, run ∈ order ↔ (state.handler run).Past
  quiet : (∀ run, ¬ (state.handler run).Inside) → state.devData = afterRuns order.length
  busy : ∀ run, (state.handler run).Inside → (state.handler run).Stands (afterRuns order.length) state.devData

theorem sumUpTo_succ (sum : CInt) (i : Fin 5) : sumUpTo sum (i + 1) = sumUpTo sum i + irqNum i := by
  simp [sumUpTo, List.take_add_one]

theorem myIrqHandler_eq (found : MyDeviceData) :
    (myIrqHandler found).1 = { num := irqNum, sum := sumUpTo found.sum 5 } := rfl

/-- A statement inside the lock takes the data as far as it goes. -/
theorem handlerStep_stands {found : MyDeviceData} (run : Nat) (inside : (state.handler run).Inside)
    (stands : (state.handler run).Stands found state.devData) :
    ((handlerStep state run).handler run).Stands found (handlerStep state run).devData := by
  cases here : state.handler run with
  | idle | spinLock | printk | returned => simp [here, HandlerPc.Inside] at inside
  | setNum k =>
    rw [here] at stands
    obtain ⟨num, sum⟩ := stands
    have set : Function.update state.devData.num k (irqNum k) =
        fun j => if j.1 < k.1 + 1 then irqNum j else found.num j := by
      funext j
      by_cases same : j = k
      · subst same
        simp
      · have : j.1 ≠ k.1 := fun equal => same (Fin.ext equal)
        rw [Function.update_of_ne same, num]
        exact if_congr (by rw [Fin.lt_def]; omega) rfl rfl
    have data : (handlerStep state run).devData =
        { num := fun j => if j.1 < k.1 + 1 then irqNum j else found.num j, sum := state.devData.sum } := by
      simp only [handlerStep, here]
      rw [set]
    rw [data]
    by_cases more : k.1 + 1 < 5
    · have goes : (handlerStep state run).handler run = .setNum ⟨k.1 + 1, more⟩ := by
        simp [handlerStep, here, more]
      rw [goes]
      exact ⟨rfl, sum⟩
    · have goes : (handlerStep state run).handler run = .load 0 := by simp [handlerStep, here, more]
      rw [goes]
      exact ⟨funext fun j => if_pos (by omega), sum⟩
  | load k =>
    rw [here] at stands
    obtain ⟨num, sum⟩ := stands
    simp [handlerStep, here, HandlerPc.Stands, num, sum, sumUpTo_succ]
  | store k value =>
    rw [here] at stands
    obtain ⟨num, sum, rfl⟩ := stands
    by_cases more : k.1 + 1 < 5
    · simp [handlerStep, here, more, HandlerPc.Stands, num]
    · have last : k.1 + 1 = 5 := by omega
      simp [handlerStep, here, HandlerPc.Stands, myIrqHandler_eq, num, last]
  | spinUnlock => simp [handlerStep, here, HandlerPc.Stands]

/-- Where a run moves without coming in or going out, and the data stay. -/
theorem InOrder.moves {order : List Nat} (ordered : InOrder state order) (i : Nat) (pc : HandlerPc)
    (moved : next.handler = Function.update state.handler i pc) (same : next.devData = state.devData)
    (before : ¬ (state.handler i).Inside) (after : ¬ pc.Inside)
    (past : pc.Past ↔ (state.handler i).Past) : InOrder next order := by
  have inside (run : Nat) : (next.handler run).Inside ↔ (state.handler run).Inside := by
    by_cases mine : run = i
    · subst mine
      simp [moved, before, after]
    · simp [moved, mine]
  refine ⟨ordered.once, fun run => ?_, fun nobody => ?_, fun run enters => ?_⟩
  · rw [ordered.left run]
    by_cases mine : run = i
    · subst mine
      simp [moved, past]
    · simp [moved, mine]
  · rw [same]
    exact ordered.quiet fun run => (inside run).not.mp (nobody run)
  · have other : run ≠ i := fun mine => before (mine ▸ (inside run).mp enters)
    rw [same, moved, Function.update_of_ne other]
    exact ordered.busy run ((inside run).mp enters)

theorem handlerStep_others (state : Interrupts) {run : Nat} (other : i ≠ run) :
    (handlerStep state run).handler i = state.handler i := by
  unfold handlerStep
  split <;> try simp [other]
  split <;> simp [other]

theorem HandlerPc.Inside.not_past (inside : pc.Inside) : ¬ pc.Past := by
  cases pc <;> simp_all [HandlerPc.Inside, HandlerPc.Past]

/-- A statement inside the lock, the last one apart, keeps the order. -/
theorem InOrder.advances {order : List Nat} (one : OneInside state) (ordered : InOrder state order) {run : Nat}
    (inside : (state.handler run).Inside) (still : ((handlerStep state run).handler run).Inside) :
    InOrder (handlerStep state run) order := by
  refine ⟨ordered.once, fun i => ?_, fun nobody => absurd still (nobody run), fun i enters => ?_⟩
  · rw [ordered.left i]
    by_cases mine : i = run
    · rw [mine]
      exact iff_of_false inside.not_past still.not_past
    · rw [handlerStep_others state mine]
  · by_cases mine : i = run
    · rw [mine]
      exact handlerStep_stands run inside (ordered.busy run inside)
    · rw [handlerStep_others state mine] at enters
      exact absurd (Option.some.inj (one (some i) (some run) enters inside)) mine

/-- A statement of a run keeps the order, or puts the run at its end. -/
theorem handlerStep_inOrder {order : List Nat} (one : OneInside state) (agrees : LockAgrees state)
    (ordered : InOrder state order) (run : Nat) : ∃ order', InOrder (handlerStep state run) order' := by
  cases here : state.handler run with
  | idle | returned => exact ⟨order, by simpa [handlerStep, here] using ordered⟩
  | spinLock =>
    refine ⟨order, ?_⟩
    cases held : state.locked with
    | true => simpa [handlerStep, here, held] using ordered
    | false =>
      have nobody (i : Nat) : ¬ (state.handler i).Inside :=
        fun inside => by simpa [held] using agrees.mpr ⟨some i, inside⟩
      refine ⟨ordered.once, fun i => ?_, fun none => ?_, fun i enters => ?_⟩
      · rw [ordered.left i]
        by_cases mine : i = run
        · simp [handlerStep, here, held, mine, HandlerPc.Past]
        · rw [handlerStep_others state mine]
      · exact absurd (none run) (by simp [handlerStep, here, held, HandlerPc.Inside])
      · by_cases mine : i = run
        · simp [handlerStep, here, held, mine, HandlerPc.Stands, ordered.quiet nobody]
        · rw [handlerStep_others state mine] at enters
          exact absurd enters (nobody i)
  | setNum k =>
    refine ⟨order, ordered.advances one (by simp [here, HandlerPc.Inside]) ?_⟩
    simp only [handlerStep, here, goto_handler, Function.update_self]
    split <;> trivial
  | load k =>
    refine ⟨order, ordered.advances one (by simp [here, HandlerPc.Inside]) ?_⟩
    simp [handlerStep, here, HandlerPc.Inside]
  | store k value =>
    refine ⟨order, ordered.advances one (by simp [here, HandlerPc.Inside]) ?_⟩
    simp only [handlerStep, here, goto_handler, Function.update_self]
    split <;> trivial
  | spinUnlock =>
    have inside : (state.handler run).Inside := by simp [here, HandlerPc.Inside]
    have fresh : run ∉ order := fun member => inside.not_past ((ordered.left run).mp member)
    have whole := ordered.busy run inside
    rw [here] at whole
    refine ⟨order ++ [run], List.nodup_append.mpr ⟨ordered.once, List.nodup_singleton run, ?_⟩,
      fun i => ?_, fun none => ?_, fun i enters => ?_⟩
    · rintro a member b last rfl
      exact fresh (List.mem_singleton.mp last ▸ member)
    · rw [List.mem_append, List.mem_singleton, ordered.left i]
      by_cases mine : i = run
      · simp [handlerStep, here, mine, HandlerPc.Past]
      · simp [handlerStep_others state mine, mine]
    · rw [List.length_append, List.length_singleton, afterRuns, Function.iterate_succ_apply']
      simpa [handlerStep, here, HandlerPc.Stands, afterRuns] using whole
    · exfalso
      by_cases mine : i = run
      · simp [handlerStep, here, mine, HandlerPc.Inside] at enters
      · rw [handlerStep_others state mine] at enters
        exact mine (Option.some.inj (one (some i) (some run) enters inside))
  | printk =>
    refine ⟨order, ordered.moves run .returned ?_ ?_ ?_ ?_ ?_⟩ <;>
      simp [handlerStep, here, HandlerPc.Inside, HandlerPc.Past]

/-- The order grows along a turn. -/
theorem turn_inOrder (one : OneInside state) (agrees : LockAgrees state)
    (ordered : ∃ order, InOrder state order) (taken : interruptTurn state turn = .ok next) :
    ∃ order, InOrder next order := by
  obtain ⟨order, ordered⟩ := ordered
  cases turn with
  | init answer found =>
    cases taken
    have handler : (driverInitStep state answer found).handler = state.handler := by
      unfold driverInitStep
      split <;> try rfl
      split <;> rfl
    have devData : (driverInitStep state answer found).devData = state.devData := by
      unfold driverInitStep
      split <;> try rfl
      split <;> rfl
    obtain ⟨once, left, quiet, busy⟩ := ordered
    exact ⟨order, once, by rwa [handler], by rwa [handler, devData], by rwa [handler, devData]⟩
  | interrupt run =>
    simp only [interruptTurn] at taken
    split at taken
    · rename_i comes
      split at taken
      · cases taken
      · cases taken
        refine ⟨order, ordered.moves run .spinLock rfl rfl ?_ ?_ ?_⟩ <;>
          simp [comes.2, HandlerPc.Inside, HandlerPc.Past]
    · cases taken
      exact ⟨order, ordered⟩
  | handler run =>
    simp only [interruptTurn] at taken
    split at taken
    · cases taken
      exact ⟨order, ordered⟩
    · split at taken
      · cases taken
      · cases taken
        exact handlerStep_inOrder one agrees ordered run

theorem beforeRequest_inside (a : Option Nat) : ¬ beforeRequest.Inside a := by
  cases a <;> exact id

/-- **Serial handlers.** Where `spin_lock_init` meets nobody inside, the runs of the handler
keep out of each other's way and out of `my_driver_init`'s, whenever their interrupts come and
their statements are taken. The data are those of the runs that have left the lock, one whole
run after another, whenever no run is inside. -/
theorem handlers_serialize (along : Along Calm interruptTurn beforeRequest turns)
    (ran : run interruptTurn beforeRequest turns = .ok state) :
    OneInside state ∧ ∃ order : List Nat, order.Nodup ∧ (∀ run, run ∈ order ↔ (state.handler run).Past) ∧
      ((∀ run, ¬ (state.handler run).Inside) → state.devData = afterRuns order.length) := by
  have start : OneInside beforeRequest ∧ LockAgrees beforeRequest ∧ ∃ order, InOrder beforeRequest order := by
    refine ⟨fun a _ inside _ => absurd inside (beforeRequest_inside a), ?_, [], List.nodup_nil, fun run => ?_,
      fun _ => rfl, fun run inside => absurd inside (beforeRequest_inside (some run))⟩
    · exact iff_of_false Bool.false_ne_true fun ⟨a, inside⟩ => beforeRequest_inside a inside
    · exact iff_of_false List.not_mem_nil id
  obtain ⟨one, -, order, once, left, quiet, -⟩ := along_invariant
    (fun state => OneInside state ∧ LockAgrees state ∧ ∃ order, InOrder state order)
    (fun state turn next held calm taken => by
      obtain ⟨one, agrees, ordered⟩ := held
      obtain ⟨one', agrees'⟩ := turn_exclusive one agrees calm taken
      exact ⟨one', agrees', turn_inOrder one agrees ordered taken⟩) start along ran
  exact ⟨one, order, once, left, quiet⟩

/-- Two runs: the second waits for the first, and both print when the second has left. -/
def twoRuns (answer : ErrorCode) : List Turn :=
  [.init answer true, .init answer true, .interrupt 0, .interrupt 1, .handler 0, .handler 1] ++
    List.replicate 16 (.handler 0) ++ List.replicate 17 (.handler 1) ++ [.handler 0, .handler 1]

/-- Both of them print the sum of the second. -/
theorem handlers_serialize_two : ∃ state,
    run interruptTurn beforeRequest (twoRuns ErrorCode.success) = .ok state ∧
    state.printed = [(0, .irq (-30)), (1, .irq (-30))] ∧ OneInside state ∧
    ∃ order : List Nat, order.Nodup ∧ (∀ run, run ∈ order ↔ (state.handler run).Past) ∧
      ((∀ run, ¬ (state.handler run).Inside) → state.devData = afterRuns order.length) := by
  obtain ⟨state, ran, printed⟩ : ∃ state,
      run interruptTurn beforeRequest (twoRuns ErrorCode.success) = .ok state ∧
      state.printed = [(0, .irq (-30)), (1, .irq (-30))] := ⟨_, rfl, rfl⟩
  have along : Along Calm interruptTurn beforeRequest (twoRuns ErrorCode.success) := by
    refine ⟨fun err here => (by cases here), fun next taken => ?_⟩
    cases taken
    refine ⟨fun err _ => beforeRequest_inside, fun next taken => ?_⟩
    refine along_of_forall fun turn member state => ?_
    cases turn with
    | init answer found => simp at member
    | interrupt run => trivial
    | handler run => trivial
  exact ⟨state, ran, printed, handlers_serialize along ran⟩

/-! ## When the lock is set up too late -/

/-- What every run of turns leaves: interrupts come only to a registered handler, and not to
all the runs there could be. -/
structure Reached (state : Interrupts) : Prop where
  first : state.init = .requestIrq → state.registered = false
  unasked : state.registered = false → ∀ run, state.handler run = .idle
  fresh : ∃ bound, ∀ run, bound ≤ run → state.handler run = .idle
  held : state.locked = true → ∃ a, state.Inside a
  before : ¬ state.init.Past → OneInside state ∧ LockAgrees state
  answered : ∀ err, state.init = .spinLockInit err ∨ state.init = .testErr err →
    (state.registered = true ↔ err.1 = 0)
  asked : state.init.Past → ¬ state.init.Failed → (∀ err, state.init ≠ .testErr err) → state.registered = true

theorem reached_start : Reached beforeRequest where
  first _ := rfl
  unasked _ _ := rfl
  fresh := ⟨0, fun _ _ => rfl⟩
  held locked := by cases locked
  before _ := by
    refine ⟨fun a _ inside _ => absurd inside (beforeRequest_inside a), ?_⟩
    exact iff_of_false Bool.false_ne_true fun ⟨a, inside⟩ => beforeRequest_inside a inside
  answered err at_ := by rcases at_ with here | here <;> cases here
  asked past _ _ := past.elim

theorem handlerStep_init (state : Interrupts) (run : Nat) : (handlerStep state run).init = state.init := by
  unfold handlerStep
  split <;> try rfl
  split <;> rfl

theorem handlerStep_registered (state : Interrupts) (run : Nat) :
    (handlerStep state run).registered = state.registered := by
  unfold handlerStep
  split <;> try rfl
  split <;> rfl

theorem driverInitStep_handler (state : Interrupts) (answer : ErrorCode) (found : Bool) :
    (driverInitStep state answer found).handler = state.handler := by
  unfold driverInitStep
  split <;> try rfl
  split <;> rfl

/-- What is not a turn of `my_driver_init` leaves it where it stands, and moves at most one
run: one that has begun, or one whose interrupt comes to a registered handler. -/
theorem turn_run (taken : interruptTurn state turn = .ok next) :
    (∃ answer found, turn = .init answer found ∧ next = driverInitStep state answer found) ∨
    (∀ answer found, turn ≠ .init answer found) ∧ next.init = state.init ∧ next.registered = state.registered ∧
      ∃ run, (∀ i, i ≠ run → next.handler i = state.handler i) ∧
        (state.registered = false → state.handler run = .idle → next.handler run = .idle) := by
  cases turn with
  | init answer found =>
    cases taken
    exact .inl ⟨answer, found, rfl, rfl⟩
  | interrupt run =>
    refine .inr ⟨by simp, ?_⟩
    simp only [interruptTurn] at taken
    split at taken
    · rename_i comes
      split at taken
      · cases taken
      · cases taken
        exact ⟨rfl, rfl, run, fun i other => by simp [other], fun unasked => by simp [comes.1] at unasked⟩
    · cases taken
      exact ⟨rfl, rfl, run, fun _ _ => rfl, fun _ => id⟩
  | handler run =>
    refine .inr ⟨by simp, ?_⟩
    simp only [interruptTurn] at taken
    split at taken
    · cases taken
      exact ⟨rfl, rfl, run, fun _ _ => rfl, fun _ => id⟩
    · rename_i begun
      split at taken
      · cases taken
      · cases taken
        exact ⟨handlerStep_init state run, handlerStep_registered state run, run,
          fun i other => handlerStep_others state other, fun _ idle => absurd (.inl idle) begun⟩

/-- `my_driver_init` does not go back before `spin_lock_init`. -/
theorem driverInitStep_late (past : state.init.Past) (answer : ErrorCode) (found : Bool) :
    (driverInitStep state answer found).registered = state.registered ∧
    (driverInitStep state answer found).init.Past ∧
    (∀ err, (driverInitStep state answer found).init ≠ .testErr err) ∧
    (¬ (driverInitStep state answer found).init.Failed →
      ¬ state.init.Failed ∧ ∀ err, state.init = .testErr err → ¬ err.1 < 0) := by
  cases here : state.init with
  | requestIrq | spinLockInit err => simp [here, InitPc.Past] at past
  | testErr err =>
    by_cases failed : err.1 < 0
    · simp [driverInitStep, here, failed, InitPc.Past, InitPc.Failed]
    · have fits : 0 ≤ err.1 := Int.not_lt.mp failed
      simp [driverInitStep, here, failed, InitPc.Past, InitPc.Failed, fits]
  | irqToDesc => cases found <;> simp [driverInitStep, here, InitPc.Past, InitPc.Failed]
  | spinLockIrqsave =>
    cases held : state.locked <;> simp [driverInitStep, here, held, InitPc.Past, InitPc.Failed]
  | cpuWrite | spinUnlockIrqrestore | printk | returned ret =>
    simp [driverInitStep, here, InitPc.Past, InitPc.Failed]

theorem reached_kept (reached : Reached state) (taken : interruptTurn state turn = .ok next) : Reached next := by
  have held (locked : next.locked = true) : ∃ a, next.Inside a := by
    rcases interruptTurn_inside taken with ⟨stays, same⟩ | ⟨b, -, -, enters⟩ | ⟨b, -, free, -⟩ |
      ⟨_, _, _, _, _, free, _⟩
    · obtain ⟨a, inside⟩ := reached.held (stays ▸ locked)
      exact ⟨a, (same a).mpr inside⟩
    · exact ⟨b, (enters b).mpr (.inl rfl)⟩
    · simp [free] at locked
    · simp [free] at locked
  obtain ⟨bound, idle⟩ := reached.fresh
  rcases turn_run taken with ⟨answer, found, rfl, rfl⟩ | ⟨runs, init, registered, run, others, kept⟩
  · have handler := driverInitStep_handler state answer found
    have before (early : ¬ (driverInitStep state answer found).init.Past) :
        OneInside (driverInitStep state answer found) ∧ LockAgrees (driverInitStep state answer found) := by
      have early' : ¬ state.init.Past := fun past => early (driverInitStep_late past answer found).2.1
      obtain ⟨one, agrees⟩ := reached.before early'
      have calm : Calm state (.init answer found) := by
        intro err here
        exact absurd (by simp [driverInitStep, here, InitPc.Past]) early
      exact turn_exclusive one agrees calm taken
    have fresh : ∃ bound, ∀ run, bound ≤ run → (driverInitStep state answer found).handler run = .idle :=
      ⟨bound, by rwa [handler]⟩
    by_cases past : state.init.Past
    · obtain ⟨registered, past', tested, failed⟩ := driverInitStep_late past answer found
      refine ⟨fun here => ?_, ?_, fresh, held, before, ?_, fun _ fine _ => ?_⟩
      · simp [here, InitPc.Past] at past'
      · rw [registered, handler]
        exact reached.unasked
      · rintro err (here | here)
        · simp [here, InitPc.Past] at past'
        · exact absurd here (tested err)
      · rw [registered]
        obtain ⟨fine', fits⟩ := failed fine
        by_cases testing : ∃ err, state.init = .testErr err
        · obtain ⟨err, here⟩ := testing
          exact (reached.answered err (.inr here)).mpr (Int.le_antisymm err.2 (Int.not_lt.mp (fits err here)))
        · exact reached.asked past fine' fun err here => testing ⟨err, here⟩
    · cases here : state.init with
      | requestIrq =>
        refine ⟨?_, fun _ => ?_, fresh, held, before, ?_, ?_⟩
        · simp [driverInitStep, here]
        · rw [handler]
          exact reached.unasked (reached.first here)
        · simp [driverInitStep, here]
        · simp [driverInitStep, here, InitPc.Past]
      | spinLockInit err =>
        refine ⟨?_, ?_, fresh, held, before, ?_, ?_⟩
        · simp [driverInitStep, here]
        · simpa [driverInitStep, here] using reached.unasked
        · simpa [driverInitStep, here] using reached.answered err (.inl here)
        · simp [driverInitStep, here]
      | _ => simp [here, InitPc.Past] at past
  · refine ⟨?_, ?_, ?_, held, ?_, ?_, ?_⟩
    · rw [init, registered]
      exact reached.first
    · intro unasked i
      have unasked' : state.registered = false := registered ▸ unasked
      by_cases mine : i = run
      · rw [mine]
        exact kept unasked' (reached.unasked unasked' run)
      · rw [others i mine]
        exact reached.unasked unasked' i
    · refine ⟨max bound (run + 1), fun i far => ?_⟩
      rw [others i (by omega)]
      exact idle i (by omega)
    · intro early
      obtain ⟨one, agrees⟩ := reached.before (init ▸ early)
      refine turn_exclusive one agrees ?_ taken
      cases turn with
      | init answer found => exact absurd rfl (runs answer found)
      | interrupt run | handler run => trivial
    · rw [init, registered]
      exact reached.answered
    · rw [init, registered]
      exact reached.asked

/-- A free lock lets a run in, whoever is inside. -/
theorem free_lets_in (asked : state.registered = true) (fine : ¬ state.init.Failed)
    (free : state.locked = false) (idle : state.handler i = .idle) :
    ∃ final, run interruptTurn state [.interrupt i, .handler i] = .ok final ∧
      final.init = state.init ∧ final.Inside (some i) ∧ ∀ a, state.Inside a → final.Inside a := by
  have comes : interruptTurn state (.interrupt i) = .ok (state.goto i .spinLock) := by
    simp [interruptTurn, asked, idle, fine]
  have enters : interruptTurn (state.goto i .spinLock) (.handler i) =
      .ok (handlerStep (state.goto i .spinLock) i) := by
    simp [interruptTurn, fine]
  have standing : (state.goto i .spinLock).handler i = .spinLock := by simp
  refine ⟨handlerStep (state.goto i .spinLock) i, ?_, handlerStep_init _ i, ?_, fun a inside => ?_⟩
  · rw [run_cons, comes, ok_bind, run_cons, enters, ok_bind, run_nil]
  · rw [inside_some]
    simp [handlerStep, standing, free, HandlerPc.Inside]
  · cases a with
    | none => simpa [Interrupts.Inside, handlerStep_init] using inside
    | some j =>
      have other : j ≠ i := by
        rintro rfl
        simp [idle, HandlerPc.Inside] at inside
      simpa [handlerStep_others _ other, other] using inside

/-- Somebody inside who does not have the lock can be joined. -/
theorem free_breaks {a : Option Nat} (reached : Reached state) (asked : state.registered = true)
    (fine : ¬ state.init.Failed) (free : state.locked = false) (inside : state.Inside a) :
    ∃ more final, run interruptTurn state more = .ok final ∧ ¬ OneInside final := by
  obtain ⟨bound, idle⟩ := reached.fresh
  obtain ⟨final, ran, -, joins, keeps⟩ := free_lets_in asked fine free (idle bound (Nat.le_refl bound))
  refine ⟨_, final, ran, fun one => ?_⟩
  rw [one a (some bound) (keeps a inside) joins] at inside
  simp [idle bound (Nat.le_refl bound), HandlerPc.Inside] at inside

/-- Whoever is inside when `spin_lock_init` is called can be joined. -/
theorem reset_breaks {err : ErrorCode} {a : Option Nat} (reached : Reached state)
    (here : state.init = .spinLockInit err) (asked : state.registered = true) (inside : state.Inside a) :
    ∃ more final, run interruptTurn state more = .ok final ∧ ¬ OneInside final := by
  have reset : interruptTurn state (.init err true) = .ok (driverInitStep state err true) := rfl
  have still : (driverInitStep state err true).Inside a := by
    cases a with
    | none => simp [here, InitPc.Inside] at inside
    | some i => simpa [driverInitStep_handler] using inside
  obtain ⟨more, final, ran, broken⟩ := free_breaks (reached_kept reached reset)
    (by simp [driverInitStep, here, asked]) (by simp [driverInitStep, here, InitPc.Failed])
    (by simp [driverInitStep, here]) still
  exact ⟨_ :: more, final, by rw [run_cons, reset, ok_bind, ran], broken⟩

/-- Where the handler is registered before `spin_lock_init`, a run can be inside when it is called. -/
theorem late_lock_breaks {err : ErrorCode} (reached : Reached state) (here : state.init = .spinLockInit err)
    (answered : err.1 = 0) : ∃ more final, run interruptTurn state more = .ok final ∧ ¬ OneInside final := by
  have asked := (reached.answered err (.inl here)).mpr answered
  have fine : ¬ state.init.Failed := by simp [here, InitPc.Failed]
  by_cases entered : ∃ a, state.Inside a
  · obtain ⟨a, inside⟩ := entered
    exact reset_breaks reached here asked inside
  · have free : state.locked = false := Bool.eq_false_iff.mpr fun locked => entered (reached.held locked)
    obtain ⟨bound, idle⟩ := reached.fresh
    obtain ⟨middle, ran, init, inside, -⟩ := free_lets_in asked fine free (idle bound (Nat.le_refl bound))
    have reached' : Reached middle := run_invariant Reached (fun _ _ _ => reached_kept) reached ran
    have here' := init.trans here
    obtain ⟨more, final, ran', broken⟩ :=
      reset_breaks reached' here' ((reached'.answered err (.inl here')).mpr answered) inside
    exact ⟨_ ++ more, final, by rw [run_append, ran, ok_bind, ran'], broken⟩

/-- Nobody comes in any more, or only through the lock. -/
structure Guarded (state : Interrupts) : Prop where
  one : OneInside state
  closed : state.init.Failed ∨ LockAgrees state ∧ (state.init.Past ∨
    (∃ err, state.init = .spinLockInit err) ∧ state.registered = false ∧ ∀ run, state.handler run = .idle)

/-- A driver that failed to load runs nothing any more. -/
theorem failed_rests (failed : state.init.Failed) (taken : interruptTurn state turn = .ok next) :
    next = state := by
  cases turn with
  | init answer found =>
    cases taken
    cases here : state.init with
    | returned ret => simp [driverInitStep, here]
    | _ => simp [here, InitPc.Failed] at failed
  | interrupt run =>
    simp only [interruptTurn, failed, ↓reduceIte] at taken
    split at taken <;> cases taken
    rfl
  | handler run =>
    simp only [interruptTurn, failed, ↓reduceIte] at taken
    split at taken <;> cases taken
    rfl

theorem guarded_kept (guarded : Guarded state) (taken : interruptTurn state turn = .ok next) : Guarded next := by
  obtain ⟨one, failed | ⟨agrees, past | ⟨⟨err, here⟩, unasked, idle⟩⟩⟩ := guarded
  · rw [failed_rests failed taken]
    exact ⟨one, .inl failed⟩
  · have calm : Calm state turn := by
      cases turn with
      | init answer found =>
        intro err here
        simp [here, InitPc.Past] at past
      | interrupt run | handler run => trivial
    obtain ⟨one', agrees'⟩ := turn_exclusive one agrees calm taken
    refine ⟨one', .inr ⟨agrees', .inl ?_⟩⟩
    rcases turn_run taken with ⟨answer, found, -, rfl⟩ | ⟨-, init, -⟩
    · exact (driverInitStep_late past answer found).2.1
    · rwa [init]
  · have nobody (a : Option Nat) : ¬ state.Inside a := by
      cases a with
      | none => simp [here, InitPc.Inside]
      | some run => simp [idle run, HandlerPc.Inside]
    have calm : Calm state turn := by
      cases turn with
      | init answer found => exact fun _ _ => nobody
      | interrupt run | handler run => trivial
    obtain ⟨one', agrees'⟩ := turn_exclusive one agrees calm taken
    refine ⟨one', .inr ⟨agrees', ?_⟩⟩
    rcases turn_run taken with ⟨answer, found, -, rfl⟩ | ⟨-, init, registered, run, others, kept⟩
    · exact .inl (by simp [driverInitStep, here, InitPc.Past])
    · refine .inr ⟨⟨err, by rw [init, here]⟩, by rw [registered, unasked], fun i => ?_⟩
      by_cases mine : i = run
      · rw [mine]
        exact kept unasked (idle run)
      · rw [others i mine]
        exact idle i

/-- **Exclusion for good.** From a reached state on nobody is ever inside together with somebody
else exactly when nobody is now, and either the load has failed, or the lock is locked exactly when
somebody is inside and has been set up, or is about to be for a handler that was refused. -/
theorem exclusion_lasts_iff {before : List Turn} (ran : run interruptTurn beforeRequest before = .ok state) :
    (∀ more final, run interruptTurn state more = .ok final → OneInside final) ↔
    OneInside state ∧ (state.init.Failed ∨ LockAgrees state ∧
      (state.init.Past ∨ ∃ err, err.1 ≠ 0 ∧ state.init = .spinLockInit err)) := by
  have reached : Reached state := run_invariant Reached (fun _ _ _ => reached_kept) reached_start ran
  constructor
  · intro always
    have refuted (broken : ∃ more final, run interruptTurn state more = .ok final ∧ ¬ OneInside final) :
        False := by
      obtain ⟨more, final, ran, broken⟩ := broken
      exact broken (always more final ran)
    refine ⟨always [] state rfl, ?_⟩
    by_cases failed : state.init.Failed
    · exact .inl failed
    · right
      by_cases past : state.init.Past
      · refine ⟨?_, .inl past⟩
        by_contra apart
        have free : state.locked = false :=
          Bool.eq_false_iff.mpr fun locked => apart (iff_of_true locked (reached.held locked))
        obtain ⟨a, inside⟩ : ∃ a, state.Inside a := by
          by_contra none
          exact apart (iff_of_false (Bool.eq_false_iff.mp free) none)
        have asked : state.registered = true := by
          cases a with
          | none =>
            refine reached.asked past failed fun err here => ?_
            simp [here, InitPc.Inside] at inside
          | some run =>
            by_contra refused
            simp [reached.unasked (Bool.eq_false_iff.mpr refused) run, HandlerPc.Inside] at inside
        exact refuted (free_breaks reached asked failed free inside)
      · refine ⟨(reached.before past).2, .inr ?_⟩
        cases here : state.init with
        | requestIrq =>
          have asks : interruptTurn state (.init ErrorCode.success true) =
              .ok (driverInitStep state ErrorCode.success true) := rfl
          have next : (driverInitStep state ErrorCode.success true).init = .spinLockInit ErrorCode.success := by
            simp [driverInitStep, here]
          obtain ⟨more', final', ran', broken⟩ := late_lock_breaks (reached_kept reached asks) next rfl
          exact (refuted ⟨_ :: more', final', by rw [run_cons, asks, ok_bind, ran'], broken⟩).elim
        | spinLockInit err => exact ⟨err, fun answered => refuted (late_lock_breaks reached here answered), rfl⟩
        | _ => simp [here, InitPc.Past] at past
  · rintro ⟨one, closed⟩ more final ran'
    have guarded : Guarded state := by
      refine ⟨one, closed.imp_right fun ⟨agrees, set⟩ => ⟨agrees, set.imp_right ?_⟩⟩
      rintro ⟨err, refused, here⟩
      have unasked : state.registered = false :=
        Bool.eq_false_iff.mpr fun asked => refused ((reached.answered err (.inl here)).mp asked)
      exact ⟨⟨err, here⟩, unasked, reached.unasked unasked⟩
    exact (run_invariant Guarded (fun _ _ _ => guarded_kept) guarded ran').one

/-- The handler is asked for, and a run of it takes the lock before `spin_lock_init`. -/
def lockedEarly : List Turn := [.init ErrorCode.success true, .interrupt 0, .handler 0]

/-- The run has the lock and is alone, but `spin_lock_init` will let others in. -/
theorem exclusion_lasts_iff_locked_early : ∃ state, run interruptTurn beforeRequest lockedEarly = .ok state ∧
    state.locked = true ∧ state.Inside (some 0) ∧
    ¬ ∀ more final, run interruptTurn state more = .ok final → OneInside final := by
  obtain ⟨state, ran, here, locked, inside⟩ : ∃ state, run interruptTurn beforeRequest lockedEarly = .ok state ∧
      state.init = .spinLockInit ErrorCode.success ∧ state.locked = true ∧ state.Inside (some 0) :=
    ⟨_, rfl, rfl, rfl, trivial⟩
  refine ⟨state, ran, locked, inside, fun always => ?_⟩
  obtain ⟨-, failed | ⟨-, past | ⟨err, refused, other⟩⟩⟩ := (exclusion_lasts_iff ran).mp always
  · simp [here, InitPc.Failed] at failed
  · simp [here, InitPc.Past] at past
  · rw [here] at other
    cases other
    exact refused rfl

end KernelLabs.IrqDriver
