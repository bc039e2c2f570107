import KernelLabs.Clients
import KernelLabs.DeferredUnload
import Mathlib.Data.Fin.VecNotation
import Mathlib.Data.List.FinRange

/-! Concurrent `SET` and `ALLOC` calls. Each writes the flag and then arms the timer,
with nothing between the two to keep other calls out, so the mode that is left may
be one call's and the deadline another's. -/
namespace KernelLabs.DeferredUnload
open LinuxList Errno DeferredDriver Clients

/-- A `SET` or `ALLOC` call. -/
inductive Request
  | set (seconds : UInt64)
  | alloc (seconds : UInt64)
  deriving DecidableEq, Repr

namespace Request

def cmd : Request → UInt32
  | .set _ => myIoctlTimerSet
  | .alloc _ => myIoctlTimerAlloc

def seconds : Request → UInt64
  | .set seconds => seconds
  | .alloc seconds => seconds

def mode : Request → TimerType
  | .set _ => .set
  | .alloc _ => .alloc

/-- The statements of the call. -/
def statements (request : Request) : List CallPc :=
  [.setFlag request.mode request.seconds, .modTimer request.seconds]

end Request

section Steps
variable (hz : UInt64)

/-- One statement of a call, for its effect on the driver. -/
def statement (dev : Deferred) (pc : CallPc) : Option (Deferred × Unit) :=
  match callStatement hz dev false pc with
  | .ok (dev, _, _) => some (dev, ())
  | .error _ => none

/-- A whole call, for its effect on the driver. -/
def wholeCall (dev : Deferred) (request : Request) : Except Fault Deferred := do
  let (dev, _) ← deferredIoctl hz dev request.cmd request.seconds none
  return dev

/-- When the timer expires that a call arms at this time. -/
def Request.deadline (jiffies : UInt64) (request : Request) : UInt64 := jiffies + request.seconds * hz

end Steps

section History
variable {ι : Type}

/-- The client that wrote the flag last. -/
def flagWriter (history : List (Event ι CallPc Unit)) : Option ι :=
  history.foldl (fun last event => match event.cmd with
    | .setFlag _ _ => some event.client
    | _ => last) none

/-- The client that armed the timer last. -/
def timerArmer (history : List (Event ι CallPc Unit)) : Option ι :=
  history.foldl (fun last event => match event.cmd with
    | .modTimer _ => some event.client
    | _ => last) none

theorem flagWriter_concat (history : List (Event ι CallPc Unit)) (event : Event ι CallPc Unit) :
    flagWriter (history ++ [event]) = match event.cmd with
      | .setFlag _ _ => some event.client
      | _ => flagWriter history := by
  simp [flagWriter, List.foldl_append]

theorem timerArmer_concat (history : List (Event ι CallPc Unit)) (event : Event ι CallPc Unit) :
    timerArmer (history ++ [event]) = match event.cmd with
      | .modTimer _ => some event.client
      | _ => timerArmer history := by
  simp [timerArmer, List.foldl_append]

end History

variable {hz : UInt64} {dev serial : Deferred}

/-- The two statements are those that a call executes. -/
theorem statements_of_call (request : Request) (memory : Option (Block Task)) (locked : Bool) :
    callStart request.cmd request.seconds memory = some (.setFlag request.mode request.seconds) ∧
      callStatement hz dev locked (.setFlag request.mode request.seconds) =
        .ok ({ dev with flag := request.mode }, locked, some (.modTimer request.seconds)) ∧
      callStatement hz dev locked (.modTimer request.seconds) =
        .ok (dev.modTimer (request.deadline hz dev.jiffies), locked, none) := by
  cases request <;> exact ⟨rfl, rfl, rfl⟩

theorem wholeCall_eq (dev : Deferred) (request : Request) :
    wholeCall hz dev request =
      .ok ({ dev with flag := request.mode }.modTimer (request.deadline hz dev.jiffies)) := by
  cases request <;> rfl

/-- Run alone, the statements of a call do what the call does. -/
theorem replay_statements (dev : Deferred) (request : Request) :
    ∃ after, replay (statement hz) dev request.statements = some (after, [(), ()]) ∧
      wholeCall hz dev request = .ok after :=
  ⟨_, rfl, wholeCall_eq dev request⟩

/-- Calls made one after another leave what the last of them does. -/
theorem wholeCalls_last (hz : UInt64) (dev : Deferred) (before : List Request) (last : Request) :
    ∃ serial, run (wholeCall hz) dev (before ++ [last]) = .ok serial ∧
      serial.flag = last.mode ∧ serial.timer = some (last.deadline hz dev.jiffies) := by
  induction before generalizing dev with
  | nil => exact ⟨_, by rw [List.nil_append, run_cons, wholeCall_eq, ok_bind, run_nil], rfl, rfl⟩
  | cons first before ih =>
    obtain ⟨serial, ran, flag, timer⟩ :=
      ih ({ dev with flag := first.mode }.modTimer (first.deadline hz dev.jiffies))
    refine ⟨serial, ?_, flag, timer⟩
    rw [List.cons_append, run_cons, wholeCall_eq, ok_bind]
    exact ran

/-! ## Interleavings -/

section Interleavings
variable {ι : Type} [DecidableEq ι] {requests : ι → Request}

/-- What the history so far tells of the flag and the timer. -/
structure Interleaved (hz : UInt64) (requests : ι → Request) (dev : Deferred)
    (config : Config ι Deferred CallPc Unit) : Prop where
  jiffies : config.dev.jiffies = dev.jiffies
  place : ∀ client, config.todo client = (requests client).statements ∨
    config.todo client = [.modTimer (requests client).seconds] ∨ config.todo client = []
  flag : ∀ writer, flagWriter config.history = some writer →
    config.dev.flag = (requests writer).mode
  timer : ∀ armer, timerArmer config.history = some armer →
    config.dev.timer = some ((requests armer).deadline hz dev.jiffies)
  wrote : ∀ client, config.todo client ≠ (requests client).statements →
    (flagWriter config.history).isSome = true
  armed : ∀ client, config.todo client = [] → (timerArmer config.history).isSome = true

omit [DecidableEq ι] in
theorem start_interleaved : Interleaved hz requests dev
    (start dev fun client => (requests client).statements) where
  jiffies := rfl
  place client := .inl rfl
  flag writer wrote := by simp [start, flagWriter] at wrote
  timer armer armed := by simp [start, timerArmer] at armed
  wrote client moved := absurd rfl moved
  armed client done := by simp [start, Request.statements] at done

theorem step_interleaved (config : Config ι Deferred CallPc Unit) (client : ι)
    (held : Interleaved hz requests dev config) :
    Interleaved hz requests dev (step (statement hz) config client) := by
  obtain same | ⟨cmd, rest, after, out, found, ran, same⟩ :=
    step_cases (statement hz) config client
  · rwa [same]
  rw [same]
  rcases held.place client with place | place | place
  · -- the call writes its mode
    rw [place] at found
    cases found
    cases ran
    constructor
    · exact held.jiffies
    · intro other
      by_cases own : other = client
      · exact .inr (.inl (by simp [Config.after, own]))
      · simpa [Config.after, Function.update_of_ne own] using held.place other
    · intro writer wrote
      simp only [Config.after, flagWriter_concat, Option.some.injEq] at wrote
      rw [← wrote]
      rfl
    · intro armer armed
      simp only [Config.after, timerArmer_concat] at armed
      exact held.timer armer armed
    · intro other moved
      simp [Config.after, flagWriter_concat]
    · intro other done
      simp only [Config.after, timerArmer_concat]
      by_cases own : other = client
      · simp [Config.after, own] at done
      · exact held.armed other (by simpa [Config.after, Function.update_of_ne own] using done)
  · -- the call arms the timer
    rw [place] at found
    cases found
    cases ran
    constructor
    · exact held.jiffies
    · intro other
      by_cases own : other = client
      · exact .inr (.inr (by simp [Config.after, own]))
      · simpa [Config.after, Function.update_of_ne own] using held.place other
    · intro writer wrote
      simp only [Config.after, flagWriter_concat] at wrote
      exact held.flag writer wrote
    · intro armer armed
      simp only [Config.after, timerArmer_concat, Option.some.injEq] at armed
      rw [← armed, Request.deadline, ← held.jiffies]
      rfl
    · intro other moved
      simp only [Config.after, flagWriter_concat]
      by_cases own : other = client
      · refine held.wrote client ?_
        rw [place]
        simp [Request.statements]
      · exact held.wrote other (by simpa [Config.after, Function.update_of_ne own] using moved)
    · intro other done
      simp [Config.after, timerArmer_concat]
  · rw [place] at found
    cases found

/-- Once every call has returned, the flag is the one written last and the timer
the one armed last. -/
theorem interleaved_leaves (turns : List ι) [Nonempty ι]
    (returned : ∀ client, (schedule (statement hz)
      (start dev fun client => (requests client).statements) turns).todo client = []) :
    ∃ writer armer,
      let final := schedule (statement hz) (start dev fun client => (requests client).statements) turns
      flagWriter final.history = some writer ∧ timerArmer final.history = some armer ∧
      final.dev.flag = (requests writer).mode ∧
      final.dev.timer = some ((requests armer).deadline hz dev.jiffies) := by
  have kept : ∀ config client, Interleaved hz requests dev config →
      Interleaved hz requests dev (step (statement hz) config client) := step_interleaved
  have held := schedule_keeps kept turns start_interleaved
  obtain ⟨client⟩ := ‹Nonempty ι›
  have moved : (schedule (statement hz) (start dev fun client => (requests client).statements)
      turns).todo client ≠ (requests client).statements := by
    rw [returned client]
    simp [Request.statements]
  obtain ⟨writer, wrote⟩ := Option.isSome_iff_exists.mp (held.wrote client moved)
  obtain ⟨armer, armed⟩ := Option.isSome_iff_exists.mp (held.armed client (returned client))
  exact ⟨writer, armer, wrote, armed, held.flag writer wrote, held.timer armer armed⟩

end Interleavings

/-- The calls, made one after another in some order, leave this mode and deadline. -/
def SomeOrderLeaves {k : Nat} (hz : UInt64) (dev : Deferred) (requests : Fin k → Request)
    (flag : TimerType) (timer : Option UInt64) : Prop :=
  ∃ order : List (Fin k), order.Perm (List.finRange k) ∧
    ∃ serial, run (wholeCall hz) dev (order.map requests) = .ok serial ∧
      serial.flag = flag ∧ serial.timer = timer

/-- A mode and a deadline that some order leaves are those of one call. -/
theorem someOrderLeaves_iff {k : Nat} (hz : UInt64) (dev : Deferred) (requests : Fin (k + 1) → Request)
    (flag : TimerType) (timer : Option UInt64) :
    SomeOrderLeaves hz dev requests flag timer ↔
      ∃ client, (requests client).mode = flag ∧
        some ((requests client).deadline hz dev.jiffies) = timer := by
  constructor
  · rintro ⟨order, all, serial, ran, rfl, rfl⟩
    have nonempty : order ≠ [] := by
      rintro rfl
      simpa using all.length_eq
    obtain ⟨before, last, rfl⟩ := (List.eq_nil_or_concat order).resolve_left nonempty
    obtain ⟨serial', ran', flag, timer⟩ :=
      wholeCalls_last hz dev (before.map requests) (requests last)
    rw [List.concat_eq_append, List.map_append, List.map_singleton, ran'] at ran
    cases ran
    exact ⟨last, flag.symm, timer.symm⟩
  · rintro ⟨client, rfl, rfl⟩
    refine ⟨(List.finRange (k + 1)).erase client ++ [client], ?_, ?_⟩
    · exact (List.perm_append_singleton _ _).trans
        (List.perm_cons_erase (List.mem_finRange client)).symm
    · obtain ⟨serial, ran, flag, timer⟩ := wholeCalls_last hz dev
        (((List.finRange (k + 1)).erase client).map requests) (requests client)
      exact ⟨serial, by simpa using ran, flag, timer⟩

/-- **Requests.** When any number of concurrent calls have returned, the flag is that
of the call that wrote it last and the deadline that of the call that armed the
timer last. The pair is left by some order of the whole calls exactly when one of
them has both; so it is if the same call came last in both. -/
theorem requests_leave {k : Nat} (hz : UInt64) (dev : Deferred) (requests : Fin (k + 1) → Request)
    (turns : List (Fin (k + 1)))
    (returned : ∀ client, (schedule (statement hz)
      (start dev fun client => (requests client).statements) turns).todo client = []) :
    let final := schedule (statement hz) (start dev fun client => (requests client).statements) turns
    ∃ writer armer, flagWriter final.history = some writer ∧ timerArmer final.history = some armer ∧
      final.dev.flag = (requests writer).mode ∧
      final.dev.timer = some ((requests armer).deadline hz dev.jiffies) ∧
      (SomeOrderLeaves hz dev requests final.dev.flag final.dev.timer ↔
        ∃ client, (requests client).mode = (requests writer).mode ∧
          (requests client).deadline hz dev.jiffies = (requests armer).deadline hz dev.jiffies) ∧
      (writer = armer → SomeOrderLeaves hz dev requests final.dev.flag final.dev.timer) := by
  intro final
  obtain ⟨writer, armer, wrote, armed, flag, timer⟩ := interleaved_leaves turns returned
  have serial := someOrderLeaves_iff hz dev requests final.dev.flag final.dev.timer
  rw [flag, timer] at serial ⊢
  simp only [Option.some.injEq] at serial
  refine ⟨writer, armer, wrote, armed, rfl, rfl, serial, ?_⟩
  rintro rfl
  exact serial.mpr ⟨writer, rfl, rfl⟩

theorem requests_leave_two :
    let requests := ![Request.set 1, Request.alloc 9]
    let final := schedule (statement 250) (start (loaded 0 (fun _ => none) fun _ => false)
      fun client => (requests client).statements) [0, 1, 0, 1]
    SomeOrderLeaves 250 (loaded 0 (fun _ => none) fun _ => false) requests
      final.dev.flag final.dev.timer := by
  obtain ⟨writer, armer, wrote, armed, -, -, -, together⟩ :=
    requests_leave 250 (loaded 0 (fun _ => none) fun _ => false)
      ![Request.set 1, Request.alloc 9] [0, 1, 0, 1] (by decide)
  cases wrote
  cases armed
  exact together rfl

/-- `SET` of one second and `ALLOC` of nine: the mode of the one with the deadline of
the other, which no order of the two calls leaves. -/
theorem requests_mix :
    let requests := ![Request.set 1, Request.alloc 9]
    let final := schedule (statement 250) (start (loaded 0 (fun _ => none) fun _ => false)
      fun client => (requests client).statements) [0, 1, 1, 0]
    (∀ client, final.todo client = []) ∧ final.dev.flag = .alloc ∧ final.dev.timer = some 250 ∧
      ¬ SomeOrderLeaves 250 (loaded 0 (fun _ => none) fun _ => false) requests
          final.dev.flag final.dev.timer := by
  refine ⟨by decide, rfl, rfl, ?_⟩
  rw [someOrderLeaves_iff]
  decide

end KernelLabs.DeferredUnload
