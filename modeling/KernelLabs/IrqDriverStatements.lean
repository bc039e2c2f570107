import KernelLabs.ClientStatements
import KernelLabs.IrqDriverClients
import KernelLabs.IrqDriverHandlers
import Mathlib.Data.Fintype.Basic
import Mathlib.Tactic.FinCases

/-! The lab12 driver with the processes of its test clients taking turns at every single
statement of `my_ioctl` and of the handler that `int $0x3B` runs, which nothing else raises. An
increment is a load and a store, and only the mutex keeps the others out between them. -/
namespace KernelLabs.IrqDriver
open Clients Errno Relation

/-- What the statements of all processes share. -/
structure Shared where
  driver : Driver
  /-- The spin lock is locked. -/
  lock : Bool

/-- The next statement of `my_ioctl`, with what it has read. -/
inductive IoctlPc
  | printk (number : Fin 3)
  /-- `my_data->num[index]++`, and then those of `later`: what is stored, and where. -/
  | load (index : Fin 5) (later : List (Fin 5))
  | store (index : Fin 5) (value : CInt) (later : List (Fin 5))
  /-- `int $0x3B` -/
  | handler (pc : HandlerPc)
  /-- `sum += my_data->num[i]` for those of `left`, and `my_data->sum = sum`. -/
  | add (sum : CInt) (left : List (Fin 5))
  /-- `my_data->num[i] = 0` for those of `left`, and `my_data->sum = 0`. -/
  | clear (left : List (Fin 5))
  | mutexLock
  | mutexUnlock
  | invalid

namespace Shared

/-- Nobody runs the handler. -/
def idle (driver : Driver) : Shared := ⟨driver, false⟩

def setNum (shared : Shared) (index : Fin 5) (value : CInt) : Shared :=
  { shared with driver.devData.num := Function.update shared.driver.devData.num index value }

def setSum (shared : Shared) (sum : CInt) : Shared := { shared with driver.devData.sum := sum }

end Shared

/-- The statements of `my_irq_handler`. -/
def irqNext (shared : Shared) : HandlerPc → Option (Shared × (HandlerPc ⊕ List Line))
  | .idle | .returned => none
  | .spinLock =>
    if shared.lock then none else some ({ shared with lock := true }, .inl (.setNum ⟨0, num_pos⟩))
  | .setNum k =>
    some (shared.setNum k (irqNum k),
      .inl (if next : k.1 + 1 < 5 then .setNum ⟨k.1 + 1, next⟩ else .load ⟨0, num_pos⟩))
  | .load i => some (shared, .inl (.store i (shared.driver.devData.sum + shared.driver.devData.num i)))
  | .store i value =>
    some (shared.setSum value, .inl (if next : i.1 + 1 < 5 then .load ⟨i.1 + 1, next⟩ else .spinUnlock))
  | .spinUnlock => some ({ shared with lock := false }, .inl .printk)
  | .printk => some (shared, .inr [.irq shared.driver.devData.sum.toInt])

/-- The first statement of the `case` that a command selects. -/
def IoctlPc.select : Option IoctlCmd → IoctlPc
  | some (.print number) => .printk number
  | some (.inc index) => .load index []
  | some .incAll => .load ⟨0, num_pos⟩ (List.finRange 5).tail
  | some .int => .handler .spinLock
  | some .sum => .add 0 (List.finRange 5)
  | some .reset => .clear (List.finRange 5)
  | some .lock => .mutexLock
  | some .unlock => .mutexUnlock
  | none => .invalid

/-- The statements of `my_ioctl`. A statement that returns does so at once. -/
def ioctlNext (shared : Shared) : IoctlPc → Option (Shared × (IoctlPc ⊕ Reply))
  | .printk number => some (shared, .inr ⟨0, [.ioctl number shared.driver.devData.sum.toInt]⟩)
  | .load index later =>
    some (shared, .inl (.store index (shared.driver.devData.num index + 1) later))
  | .store index value [] => some (shared.setNum index value, .inr ⟨0, []⟩)
  | .store index value (next :: later) => some (shared.setNum index value, .inl (.load next later))
  | .handler pc =>
    (irqNext shared pc).map fun
      | (shared, .inl pc) => (shared, .inl (.handler pc))
      | (shared, .inr printed) => (shared, .inr ⟨0, printed⟩)
  | .add sum [] => some (shared.setSum sum, .inr ⟨0, []⟩)
  | .add sum (i :: left) => some (shared, .inl (.add (sum + shared.driver.devData.num i) left))
  | .clear [] => some (shared.setSum 0, .inr ⟨0, []⟩)
  | .clear (i :: left) => some (shared.setNum i 0, .inl (.clear left))
  | .mutexLock =>
    if shared.driver.devMutex then none
    else some ({ shared with driver.devMutex := true }, .inr ⟨0, []⟩)
  | .mutexUnlock => some ({ shared with driver.devMutex := false }, .inr ⟨0, []⟩)
  | .invalid => some (shared, .inr ⟨-einval, []⟩)

/-- `my_ioctl`, called with the commands of `driver.h`. -/
def ioctlCode : Code Shared IoctlCmd IoctlPc Reply where
  enter cmd := .select (IoctlCmd.ofCode cmd.code)
  next := ioctlNext

/-- These statements of the handler are those that run beside `my_driver_init`. -/
theorem handlerStep_irqNext (state : Interrupts) (run : Nat) (devMutex : Bool) :
    handlerStep state run =
      match irqNext ⟨⟨state.devData, devMutex⟩, state.locked⟩ (state.handler run) with
      | none => state
      | some (shared, .inl pc) =>
        { state.goto run pc with devData := shared.driver.devData, locked := shared.lock }
      | some (_, .inr printed) =>
        { state.goto run .returned with printed := state.printed ++ printed.map (run, ·) } := by
  cases here : state.handler run with
  | spinLock => cases held : state.locked <;> simp [handlerStep, irqNext, here, held, Interrupts.goto]
  | _ => simp [handlerStep, irqNext, here, Interrupts.goto, Shared.setNum, Shared.setSum]

/-! ## Each command, run alone -/

/-- The mutex is locked. -/
def Shared.held (shared : Shared) : Bool := shared.driver.devMutex

/-- How many statements there are before `spin_unlock`. -/
def HandlerPc.left : HandlerPc → Nat
  | .setNum k => 15 - k
  | .load i => 10 - 2 * i
  | .store i _ => 9 - 2 * i
  | _ => 0

variable {shared middle : Shared} {found : MyDeviceData} {pc pc' : HandlerPc}

/-- Inside the lock, the handler goes on to `spin_unlock`. -/
theorem irqNext_inside (shared : Shared) (inside : pc.Inside) (more : pc ≠ .spinUnlock) :
    ∃ middle pc', irqNext shared pc = some (middle, .inl pc') ∧ pc'.Inside ∧ pc'.left < pc.left ∧
      middle.driver.devMutex = shared.driver.devMutex := by
  cases pc with
  | idle | spinLock | printk | returned => simp [HandlerPc.Inside] at inside
  | spinUnlock => exact absurd rfl more
  | setNum k =>
    refine ⟨_, _, rfl, ?_, ?_, rfl⟩
    · split <;> trivial
    · split <;> simp only [HandlerPc.left] <;> omega
  | load i =>
    refine ⟨_, _, rfl, trivial, ?_, rfl⟩
    simp only [HandlerPc.left]
    omega
  | store i value =>
    refine ⟨_, _, rfl, ?_, ?_, rfl⟩
    · split <;> trivial
    · split <;> simp only [HandlerPc.left] <;> omega

/-- It takes the data as far as it goes. -/
theorem irqNext_stands (inside : pc.Inside) (stands : pc.Stands found shared.driver.devData)
    (goes : irqNext shared pc = some (middle, .inl pc')) : pc'.Stands found middle.driver.devData := by
  let state : Interrupts :=
    { devData := shared.driver.devData, locked := shared.lock, registered := true, init := .returned 0,
      handler := fun _ => pc, printed := [] }
  have steps := handlerStep_irqNext state 0 shared.driver.devMutex
  have next : ((handlerStep state 0).handler 0).Stands found (handlerStep state 0).devData :=
    handlerStep_stands 0 inside stands
  rw [steps] at next
  simpa [state, goes] using next

/-- What is left of a run of the handler makes up a whole one. -/
theorem handler_finishes {shared : Shared} {pc : HandlerPc} (inside : pc.Inside)
    (stands : pc.Stands found shared.driver.devData) (busy : shared.held = true) :
    ioctlCode.Finishes Shared.held shared (.handler pc) (.idle ⟨(myIrqHandler found).1, true⟩)
      ⟨0, (myIrqHandler found).2⟩ := by
  induction left : pc.left using Nat.strong_induction_on generalizing shared pc with
  | _ left ih =>
    by_cases last : pc = .spinUnlock
    · obtain ⟨⟨devData, devMutex⟩, lock⟩ := shared
      subst last
      obtain rfl : devData = (myIrqHandler found).1 := stands
      obtain rfl : devMutex = true := busy
      have frees : ioctlCode.next ⟨⟨(myIrqHandler found).1, true⟩, lock⟩ (.handler .spinUnlock) =
          some (.idle ⟨(myIrqHandler found).1, true⟩, .inl (.handler .printk)) := rfl
      exact finishes_next frees rfl (finishes_last rfl)
    · obtain ⟨middle, pc', goes, inside', less, mutex⟩ := irqNext_inside shared inside last
      have busy' : middle.held = true := mutex.trans busy
      have rest := ih pc'.left (left ▸ less) inside' (irqNext_stands inside stands goes) busy' rfl
      exact finishes_next (by simp [ioctlCode, ioctlNext, goes]) busy' rest

/-- The increments of one command. -/
theorem increments_finish (shared : Shared) (index : Fin 5) (later : List (Fin 5)) (busy : shared.held = true) :
    ioctlCode.Finishes Shared.held shared (.load index later)
      { shared with driver.devData.num :=
          (index :: later).foldl (fun num i => Function.update num i (num i + 1)) shared.driver.devData.num }
      ⟨0, []⟩ := by
  induction later generalizing shared index with
  | nil => exact finishes_next rfl busy (finishes_last rfl)
  | cons next later ih => exact finishes_next rfl busy (finishes_next rfl busy (ih _ next busy))

theorem sums_finish (shared : Shared) (sum : CInt) (left : List (Fin 5)) (busy : shared.held = true) :
    ioctlCode.Finishes Shared.held shared (.add sum left)
      (shared.setSum (left.foldl (fun sum i => sum + shared.driver.devData.num i) sum)) ⟨0, []⟩ := by
  induction left generalizing sum with
  | nil => exact finishes_last rfl
  | cons i left ih => exact finishes_next rfl busy (ih _)

theorem clears_finish (shared : Shared) (left : List (Fin 5)) (busy : shared.held = true) :
    ioctlCode.Finishes Shared.held shared (.clear left)
      { shared with driver.devData :=
          ⟨left.foldl (fun num i => Function.update num i 0) shared.driver.devData.num, 0⟩ } ⟨0, []⟩ := by
  induction left generalizing shared with
  | nil => exact finishes_last rfl
  | cons i left ih => exact finishes_next rfl busy (ih _ busy)

theorem enter_eq (cmd : IoctlCmd) : ioctlCode.enter cmd = .select (some cmd) := by
  simp only [ioctlCode, IoctlCmd.ofCode_code]

theorem increments_all (num : Fin 5 → CInt) :
    (⟨0, num_pos⟩ :: (List.finRange 5).tail).foldl (fun num i => Function.update num i (num i + 1)) num =
      fun i => num i + 1 := by
  funext i
  fin_cases i <;> rfl

theorem clears_all (num : Fin 5 → CInt) :
    (List.finRange 5).foldl (fun num i => Function.update num i 0) num = fun _ => 0 := by
  funext i
  fin_cases i <;> rfl

/-- Run alone, the statements of every command do what the command does, and only `mutex_lock` waits
while the mutex is locked. -/
theorem ioctl_implements :
    Implements ioctlCode Shared.idle Shared.held IoctlCmd.lock .unlock ioctl Driver.devMutex := by
  rw [ioctl_eq_runCommand]
  refine ⟨fun _ => rfl, fun shared busy => ?_, ?_, ?_⟩
  · have locked : shared.driver.devMutex = true := busy
    rw [enter_eq]
    simp [ioctlCode, IoctlPc.select, ioctlNext, locked]
  · rintro driver cmd next reply (rfl | rfl) called
    · cases held : driver.devMutex with
      | true => simp [runCommand, held] at called
      | false =>
        simp only [runCommand, held, Bool.false_eq_true, if_false, Option.some.injEq, Prod.mk.injEq] at called
        obtain ⟨rfl, rfl⟩ := called
        rw [enter_eq]
        simp [ioctlCode, IoctlPc.select, ioctlNext, Shared.idle, held]
    · cases called
      rw [enter_eq]
      rfl
  · intro driver cmd next reply notLock notUnlock locked called
    have busy : (Shared.idle driver).held = true := locked
    rw [enter_eq]
    cases cmd with
    | lock => exact absurd rfl notLock
    | unlock => exact absurd rfl notUnlock
    | print number =>
      cases called
      exact finishes_last rfl
    | inc index =>
      cases called
      exact increments_finish _ index [] busy
    | incAll =>
      cases called
      have finishes := increments_finish (.idle driver) ⟨0, num_pos⟩ (List.finRange 5).tail busy
      rwa [increments_all] at finishes
    | int =>
      cases called
      obtain ⟨devData, devMutex⟩ := driver
      obtain rfl : devMutex = true := locked
      have inside : (HandlerPc.setNum 0).Inside := trivial
      have found : (HandlerPc.setNum 0).Stands devData devData := ⟨funext fun j => by simp, rfl⟩
      have takes : ioctlCode.next (.idle ⟨devData, true⟩) (.handler .spinLock) =
          some (⟨⟨devData, true⟩, true⟩, .inl (.handler (.setNum 0))) := rfl
      exact finishes_next takes rfl (handler_finishes inside found rfl)
    | sum =>
      cases called
      exact sums_finish _ 0 _ busy
    | reset =>
      cases called
      have finishes := clears_finish (.idle driver) (List.finRange 5) busy
      rwa [clears_all] at finishes

/-! ## Arbitrary sections, and the test client -/

/-- **Serialization of statements.** Under every interleaving of the single statements of clients
whose commands all stand in critical sections, whenever the mutex is free the data are those of
running the sections one after another, in the order in which their `MY_IOCTL_LOCK` returned. What
is printed inside each section is always so, and while a client has something to do, some client
gets on. -/
theorem driver_statements_serialize {ι : Type} [DecidableEq ι] (driver : Driver)
    (free : driver.devMutex = false) (sections : ι → List (List IoctlCmd))
    (onData : ∀ client, ∀ body ∈ sections client, ∀ cmd ∈ body, cmd.OnData) (turns : List ι) :
    let final := ioctlCode.turns
      (.start (.idle driver) fun client => script .lock .unlock (sections client)) turns
    let runs := collect .lock final.history
    (∃ after, serially ioctl driver (runs.map SectionRun.cmds) = some (after, runs.map SectionRun.outs) ∧
      (final.dev.driver.devMutex = false → final.dev = .idle after)) ∧
    (∀ client, final.todo client = [] → (runs.filter (·.client = client)).map SectionRun.cmds =
      (sections client).map (critical .lock .unlock)) ∧
    ((∃ client, final.todo client ≠ []) → ∃ client, ioctlCode.GetsOn final client) := by
  intro final runs
  obtain ⟨calls, -, matched⟩ :=
    statements_are_calls ioctl_implements ioctl_mutex (fun _ => id) free onData turns
  obtain ⟨serial, programs⟩ := sections_serialize ioctl_mutex free onData calls
  have history := matched.history
  refine ⟨⟨_, ?_, matches_dev matched⟩, ?_, fun ⟨client, busy⟩ =>
    matches_gets_on ioctl_implements ioctl_mutex (fun _ => id) matched busy⟩
  · simpa only [runs, final, history] using serial
  · intro client done
    rw [matched.todo] at done
    simpa only [runs, final, history] using programs client done

/-- Two clients with turns in the middle of each other's sections. -/
theorem driver_statements_serialize_two :
    let final := ioctlCode.turns (.start (.idle loaded) fun client : Bool =>
      script .lock .unlock [if client then [.inc 0, .print 1] else [.inc 0]])
      (List.replicate 10 [false, true]).flatten
    let runs := collect .lock final.history
    (∃ after, serially ioctl loaded (runs.map SectionRun.cmds) = some (after, runs.map SectionRun.outs) ∧
      final.dev = .idle after) ∧
    (runs.filter (·.client = true)).map SectionRun.cmds = [critical .lock .unlock [.inc 0, .print 1]] := by
  obtain ⟨⟨after, serial, idle⟩, programs, -⟩ := driver_statements_serialize loaded rfl
    (fun client : Bool => [if client then [.inc 0, .print 1] else [.inc 0]])
    (by simp [IoctlCmd.OnData]) (List.replicate 10 [false, true]).flatten
  exact ⟨⟨after, serial, idle rfl⟩, programs true rfl⟩

/-- The bodies of the test client's sections. -/
def KnownBody (body : List IoctlCmd) : Prop := body = parentBody ∨ body = childBody

theorem knownBody_plain {body : List IoctlCmd} (known : KnownBody body) : Plain IoctlCmd.lock .unlock body := by
  rcases known with rfl | rfl <;> unfold Plain <;> decide

theorem testBodies_known {forked : Bool} {role : Role} {body : List IoctlCmd}
    (member : body ∈ testBodies forked role) : KnownBody body := by
  cases forked <;> cases role <;> simp_all [testBodies, KnownBody]

/-- **The test client, statement by statement.** However many `ioctl_test` processes run, whichever
of them fork, and whatever the order of their single statements: every `PRINT0` prints 15, every
`PRINT1` 10, every `PRINT2` 25, every interrupt -15. Whenever the mutex is free the driver is as
`my_driver_init` left it, and while a process is not done, some process gets on. -/
theorem test_statements_print_expected {N : Nat} (forked : Fin N → Bool) (turns : List (Fin N × Role)) :
    let final := ioctlCode.turns (.start (.idle loaded) (ioctlTests forked)) turns
    (∀ event ∈ final.history, event.out.printed = expectedLines event.cmd) ∧
    (final.dev.driver.devMutex = false → final.dev = .idle loaded) ∧
    ((∃ client, final.todo client ≠ []) → ∃ client, ioctlCode.GetsOn final client) := by
  have scripts : ioctlTests forked = fun client : Fin N × Role =>
      script .lock .unlock (testBodies (forked client.1) client.2) :=
    funext fun client => ioctlTest_eq_script _ _
  have sound (body : List IoctlCmd) (known : KnownBody body) (driver : Driver)
      (free : driver.devMutex = false) (clean : Clean driver) :
      Safe ioctl (fun cmd reply => reply.printed = expectedLines cmd) Clean driver
        (critical .lock .unlock body) := by
    rw [eq_loaded free clean]
    exact testBody_safe known
  intro final
  have allowed : ∀ client : Fin N × Role, ∀ body ∈ testBodies (forked client.1) client.2, KnownBody body :=
    fun client body => testBodies_known
  have free : loaded.devMutex = false := rfl
  obtain ⟨calls, -, matched⟩ := statements_are_calls ioctl_implements ioctl_mutex (fun _ => knownBody_plain)
    free allowed turns
  rw [← scripts] at matched
  obtain ⟨good, clean⟩ := lock_invariant ioctl_mutex (fun _ => knownBody_plain) sound allowed free
    (show Clean loaded by decide) calls
  rw [← scripts] at good clean
  refine ⟨?_, fun free => ?_, fun ⟨client, busy⟩ =>
    matches_gets_on ioctl_implements ioctl_mutex (fun _ => knownBody_plain) matched busy⟩
  · rwa [← matched.history] at good
  · have idle := matches_dev matched free
    have free' : (schedule ioctl (start loaded (ioctlTests forked)) calls).dev.devMutex = false := by
      rw [← free]
      exact congrArg Shared.held idle.symm
    rw [eq_loaded free' (clean free')] at idle
    exact idle

end KernelLabs.IrqDriver
