import KernelLabs.DeferredInterleavings
import KernelLabs.Statements

/-! The processes that the deferred driver watches, and when the kernel may free them.
`get_proc` is taken statement by statement here: it looks a process up inside a read-side
critical section of RCU, and takes its reference only after that has ended. -/
namespace KernelLabs.DeferredLifetimes
open LinuxList Errno DeferredDriver DeferredUnload

/-- The next statement of a call that is in `get_proc`, or has got an error pointer from
it. The others go on in `Unloading.calls`. -/
inductive MonPc
  | rcuReadLock (pid : Int32) (memory : Option (Block Task))
  | pidTask (pid : Int32) (memory : Option (Block Task))
  | rcuReadUnlock (found : Option Task) (memory : Option (Block Task))
  | kmalloc (task : Task) (memory : Option (Block Task))
  | getTaskStruct (task : Task) (p : Ptr)
  | setTask (task : Task) (p : Ptr)
  | spinLock (error : Nat)
  | listAdd (error : Nat)

namespace MonPc

/-- The call is inside its read-side critical section. -/
def reading : MonPc → Bool
  | pidTask _ _ | rcuReadUnlock _ _ => true
  | _ => false

/-- The block that the call has allocated and not filled in. -/
def unset : MonPc → List Ptr
  | getTaskStruct _ p | setTask _ p => [p]
  | _ => []

/-- The call has a reference that no entry stands for yet. -/
def taken : MonPc → Option Task
  | setTask task _ => some task
  | _ => none

/-- The task that the call is about to take a reference to. -/
def found : MonPc → Option Task
  | rcuReadUnlock task _ => task
  | kmalloc task memory => memory.map fun _ => task
  | getTaskStruct task _ => some task
  | _ => none

end MonPc

/-- The driver among processes whose `task_struct`s come and go. -/
structure Lifetimes where
  driver : Unloading
  mons : List MonPc
  /-- The process has exited and given up its number. -/
  released : Task → Bool
  freed : Task → Bool

/-- One statement of such a call, and the one after it. -/
def monStatement (dev : Deferred) (locked : Bool) :
    MonPc → Except Fault (Deferred × Bool × (MonPc ⊕ CallPc))
  | .rcuReadLock pid memory => .ok (dev, locked, .inl (.pidTask pid memory))
  | .pidTask pid memory => .ok (dev, locked, .inl (.rcuReadUnlock (dev.pids pid) memory))
  | .rcuReadUnlock none _ => .ok (dev, locked, .inl (.spinLock esrch.toNat))
  | .rcuReadUnlock (some task) memory => .ok (dev, locked, .inl (.kmalloc task memory))
  | .kmalloc task memory =>
    let (heap, p) := LinuxList.kmalloc dev.heap memory
    .ok (dev.withHeap heap, locked,
      .inl (if p = .null then .spinLock enomem.toNat else .getTaskStruct task p))
  | .getTaskStruct task p => .ok (dev.getTaskStruct task, locked, .inl (.setTask task p))
  | .setTask task p => do
    let heap ← dev.heap.store p task
    return (dev.withHeap heap, locked, .inr (.spinLock p))
  | .spinLock error => .ok (dev, true, .inl (if locked then .spinLock error else .listAdd error))
  | .listAdd error => do
    let heap ← LinuxList.listAdd dev.heap (.err error) processList
    return (dev.withHeap heap, locked, .inr .spinUnlock)

/-- Where a call is, with what it works on. -/
abbrev Standing := Deferred × Bool × (MonPc ⊕ CallPc)

def getProcNext (now : Standing) : Except Fault Standing :=
  match now.2.2 with
  | .inl pc => monStatement now.1 now.2.1 pc
  | .inr _ => .ok now

/-- What `get_proc` has returned, when the call goes on to take the lock. -/
def getProcReturned (now : Standing) : Option Ptr :=
  match now.2.2 with
  | .inl (.spinLock error) => some (.err error)
  | .inr (.spinLock p) => some p
  | _ => none

/-- Undisturbed, the statements of `get_proc` do what `getProc` does. -/
theorem statements_getProc (dev : Deferred) (locked : Bool) (pid : Int32) (memory : Option (Block Task)) :
    (do
      let (now, p) ← Statements.complete getProcNext getProcReturned 7
        (dev, locked, .inl (.rcuReadLock pid memory))
      return (now.1, now.2.1, p)) =
    do
      let (after, p) ← getProc dev pid memory
      return (after, locked, p) := by
  cases known : dev.pids pid with
  | none => simp [Statements.complete, getProcNext, getProcReturned, monStatement, getProc, known]
  | some task =>
    cases memory with
    | none =>
      simp [Statements.complete, getProcNext, getProcReturned, monStatement, getProc, known, LinuxList.kmalloc]
    | some block =>
      simp [Statements.complete, getProcNext, getProcReturned, monStatement, getProc, known, LinuxList.kmalloc,
        Deferred.withHeap, Deferred.getTaskStruct, Heap.store]

inductive LifeTurn
  | driver (turn : DeferredUnload.Turn)
  /-- A call in `get_proc` executes a statement. -/
  | inMon (index : Nat)
  /-- A process that has exited gives up its number. -/
  | release (task : Task)
  /-- Its `task_struct` is freed. -/
  | free (task : Task)

/-- The device stays open while a call is in `get_proc`, and a number is not given to
a process that is gone. -/
def admits (state : Lifetimes) : DeferredUnload.Turn → Bool
  | .unload => state.mons.isEmpty
  | .assign _ (some task) => !state.released task
  | _ => true

/-- The kernel frees no `task_struct` to which there is a reference, and none while a
read-side critical section is open. -/
def freeable (state : Lifetimes) (task : Task) : Bool :=
  state.released task && decide (state.driver.dev.refs task ≤ 0) && !state.mons.any MonPc.reading

def lifeTurn (hz : UInt64) (state : Lifetimes) : LifeTurn → Except Fault Lifetimes
  | .driver (.inCall index) =>
    match state.driver.calls[index]? with
    | some (.getProc pid memory) => .ok { state with
        driver := { state.driver with calls := state.driver.calls.eraseIdx index }
        mons := state.mons ++ [.rcuReadLock pid memory] }
    | _ => do
      let driver ← turn hz state.driver (.inCall index)
      return { state with driver }
  | .driver action =>
    if !admits state action then .ok state
    else do
      let driver ← turn hz state.driver action
      return { state with driver }
  | .inMon index =>
    match state.mons[index]? with
    | none => .ok state
    | some pc => do
      let (dev, locked, later) ← monStatement state.driver.dev state.driver.locked pc
      match later with
      | .inl pc =>
        return { state with driver := { state.driver with dev, locked }, mons := state.mons.set index pc }
      | .inr pc =>
        return { state with
          driver := { state.driver with dev, locked, calls := state.driver.calls ++ [pc] }
          mons := state.mons.eraseIdx index }
  | .release task =>
    if state.driver.dev.dead task then
      let pids := fun pid => if state.driver.dev.pids pid = some task then none else state.driver.dev.pids pid
      .ok { state with
        driver := { state.driver with dev := { state.driver.dev with pids } }
        released := Function.update state.released task true }
    else .ok state
  | .free task =>
    if freeable state task then .ok { state with freed := Function.update state.freed task true }
    else .ok state

/-- The state `deferred_init` leaves, before any process is gone. -/
def atRest (jiffies : UInt64) (pids : Int32 → Option Task) (dead : Task → Bool) : Lifetimes where
  driver := DeferredUnload.atRest jiffies pids dead
  mons := []
  released _ := false
  freed _ := false

/-! ## What is safe -/

/-- The entry whose task the statement reads. -/
def reads : LoopPc → Option Ptr
  | .testDead pos _ | .prInfo pos _ | .putTaskStruct pos _ => some pos
  | _ => none

def exitLoops : ExitPc → List LoopPc
  | .cleanup pc => [pc]
  | _ => []

/-- The loops over the list that are running. -/
def loops (state : Unloading) : List LoopPc := state.monitor.running.toList ++ exitLoops state.exit

/-- No statement that comes next uses a `task_struct` that is freed. -/
structure Sound (state : Lifetimes) : Prop where
  taken : ∀ task p, .getTaskStruct task p ∈ state.mons → state.freed task = false
  read : ∀ pc ∈ loops state.driver, ∀ pos ∈ reads pc, ∀ task,
    state.driver.dev.heap.load pos = .ok task → state.freed task = false

/-- No `task_struct` is freed while a call has left its read-side critical section with it
and has not yet taken its reference. -/
def Kept (state : Lifetimes) : LifeTurn → Prop
  | .free task => freeable state task = true → ∀ pc ∈ state.mons, pc.found ≠ some task
  | _ => True

/-! ## The list -/

/-- What the call has of the list and the lock is what a call has at this statement. -/
def MonPc.stands : MonPc → List CallPc
  | .getTaskStruct _ p | .setTask _ p => [.spinLock p]
  | .listAdd _ => [.spinUnlock]
  | _ => []

/-- The driver with all of its calls. -/
def Lifetimes.whole (state : Lifetimes) : Unloading :=
  { state.driver with calls := state.driver.calls ++ state.mons.flatMap MonPc.stands }

variable {hz : UInt64} {state next : Lifetimes} {nodes : List Ptr} {index : Nat}

theorem stands_loose (mons : List MonPc) :
    (mons.flatMap MonPc.stands).flatMap CallPc.loose = mons.flatMap MonPc.unset := by
  rw [List.flatMap_assoc]
  congr 1
  funext pc
  cases pc <;> rfl

/-- Blocks, calls and the lock change, and the list stays. -/
theorem guarded_update {before after : Unloading} (guarded : Guarded before nodes)
    (same : { before with dev := after.dev, locked := after.locked, calls := after.calls } = after)
    (ring : Ring after.dev.heap processList nodes after.loose)
    (holders : after.calls.countP CallPc.critical + before.locked.toNat =
      before.calls.countP CallPc.critical + after.locked.toNat) : Guarded after nodes := by
  obtain ⟨-, count, monitor, exit⟩ := guarded
  rw [← same] at ring ⊢
  refine ⟨ring, ?_, monitor, exit⟩
  simp only [Unloading.holders] at count ⊢
  omega

/-- Calls that hold the same blocks and the same lock are as good. -/
theorem guarded_calls {before after : Unloading} (guarded : Guarded before nodes)
    (same : { before with calls := after.calls } = after)
    (loose : (before.calls.flatMap CallPc.loose).Perm (after.calls.flatMap CallPc.loose))
    (critical : after.calls.countP CallPc.critical = before.calls.countP CallPc.critical) :
    Guarded after nodes := by
  have locked : after.locked = before.locked := by rw [← same]
  have dev : after.dev = before.dev := by rw [← same]
  refine guarded_update guarded (by rw [dev, locked, same]) ?_ (by rw [critical, locked])
  rw [dev, ← same]
  exact ring_perm guarded.ring ((loose.append_right _).append_right _)

theorem timerStatement_calls (hz : UInt64) (before : Unloading) (calls : List CallPc) (pc : TimerPc) :
    timerStatement hz { before with calls } pc = { timerStatement hz before pc with calls } ∧
      (timerStatement hz before pc).calls = before.calls := by
  cases pc with
  | scheduleIo =>
    simp only [timerStatement, Unloading.scheduleIo]
    split <;> exact ⟨rfl, rfl⟩
  | scheduleMonitor =>
    simp only [timerStatement, Unloading.scheduleMonitor]
    split <;> exact ⟨rfl, rfl⟩
  | printk | testSet | testAlloc | testMon | modTimer | «return» => exact ⟨rfl, rfl⟩

theorem monitorStatement_calls {before after : Unloading} {pc : LoopPc} (calls : List CallPc)
    (ran : monitorStatement before pc = .ok after) :
    monitorStatement { before with calls } pc = .ok { after with calls } ∧ after.calls = before.calls := by
  rcases monitorStatement_cases ran with ⟨rfl, rfl⟩ | ⟨going, dev, locked, later, taken, rfl⟩
  · exact ⟨rfl, rfl⟩
  · exact ⟨monitorStatement_loop going taken, rfl⟩

theorem exitStatement_calls {before after : Unloading} {pc : ExitPc} (calls : List CallPc)
    (ran : exitStatement before pc = .ok after) :
    exitStatement { before with calls } pc = .ok { after with calls } ∧ after.calls = before.calls := by
  cases pc with
  | cleanup pc =>
    rcases cleanup_cases ran with ⟨rfl, rfl⟩ | ⟨going, dev, locked, later, taken, rfl⟩
    · exact ⟨rfl, rfl⟩
    · exact ⟨cleanup_loop going taken, rfl⟩
  | delTimerSync | waitIo | waitMonitor =>
    simp only [exitStatement] at ran ⊢
    split at ran <;> cases ran <;> simp_all
  | notStarted | prInfo | cdevDel | unregisterChrdevRegion | flushIo | flushMonitor | returned =>
    cases ran
    exact ⟨rfl, rfl⟩

/-- Only `ioctl` calls and unloading look at the calls. -/
theorem turn_calls {before after : Unloading} {action : DeferredUnload.Turn} (calls : List CallPc)
    (ran : turn hz before action = .ok after)
    (other : ∀ cmd arg memory index,
      action ≠ .call cmd arg memory ∧ action ≠ .inCall index ∧ action ≠ .unload) :
    turn hz { before with calls } action = .ok { after with calls } ∧ after.calls = before.calls := by
  cases action with
  | call cmd arg memory => exact absurd rfl (other cmd arg memory 0).1
  | inCall index => exact absurd rfl (other 0 0 none index).2.1
  | unload => exact absurd rfl (other 0 0 none 0).2.2
  | expire | startIo | startMonitor =>
    simp only [turn] at ran ⊢
    split at ran <;> cases ran <;> simp_all
  | inTimer =>
    obtain ⟨dev, timerHandler, io, monitor, locked, others, exit⟩ := before
    cases timerHandler with
    | none =>
      cases ran
      exact ⟨rfl, rfl⟩
    | some pc =>
      cases ran
      obtain ⟨same, kept⟩ :=
        timerStatement_calls hz ⟨dev, some pc, io, monitor, locked, others, exit⟩ calls pc
      exact ⟨congrArg Except.ok same, kept⟩
  | inIo =>
    obtain ⟨dev, timerHandler, ⟨running, enqueued, finished⟩, monitor, locked, others, exit⟩ := before
    cases running with
    | none =>
      cases ran
      exact ⟨rfl, rfl⟩
    | some pc =>
      cases pc <;> cases ran <;> exact ⟨rfl, rfl⟩
  | inMonitor =>
    obtain ⟨dev, timerHandler, io, ⟨running, enqueued, finished⟩, locked, others, exit⟩ := before
    cases running with
    | none =>
      cases ran
      exact ⟨rfl, rfl⟩
    | some pc => exact monitorStatement_calls calls ran
  | inExit => exact exitStatement_calls calls ran
  | exit | assign | tick =>
    cases ran
    exact ⟨rfl, rfl⟩

/-- More calls after the one that moves make no difference. -/
theorem inCall_append {before after : Unloading} {pc : CallPc} (more : List CallPc)
    (here : before.calls[index]? = some pc) (ran : turn hz before (.inCall index) = .ok after) :
    turn hz { before with calls := before.calls ++ more } (.inCall index) =
      .ok { after with calls := after.calls ++ more } := by
  have inside : index < before.calls.length := (List.getElem?_eq_some_iff.mp here).1
  have here' : (before.calls ++ more)[index]? = some pc := by
    rw [List.getElem?_append_left inside, here]
  simp only [turn, here] at ran
  obtain ⟨⟨dev, locked, later⟩, taken, same⟩ := bind_eq_ok.mp ran
  cases same
  simp only [turn, here', taken, ok_bind, pure_eq_ok]
  cases later with
  | none => simp only [List.eraseIdx_append_of_lt_length inside]
  | some pc => simp only [List.set_append_left _ _ inside]

/-- What a turn of the driver does. -/
theorem driver_turn {action : DeferredUnload.Turn} (ran : lifeTurn hz state (.driver action) = .ok next) :
    next = state ∨
    (∃ index pid memory, action = .inCall index ∧ state.driver.calls[index]? = some (.getProc pid memory) ∧
      next = { state with
        driver := { state.driver with calls := state.driver.calls.eraseIdx index }
        mons := state.mons ++ [.rcuReadLock pid memory] }) ∨
    ∃ driver, turn hz state.driver action = .ok driver ∧ next = { state with driver } ∧
      (action = .unload → state.mons = []) ∧
      (∀ pid task, action = .assign pid (some task) → state.released task = false) ∧
      ∀ index, action = .inCall index → ∃ pc, state.driver.calls[index]? = some pc ∧
        ∀ pid memory, pc ≠ .getProc pid memory := by
  by_cases isCall : ∃ index, action = .inCall index
  · obtain ⟨index, rfl⟩ := isCall
    simp only [lifeTurn] at ran
    split at ran
    · next pid memory here =>
      cases ran
      exact .inr (.inl ⟨index, pid, memory, rfl, here, rfl⟩)
    · next other =>
      obtain ⟨driver, taken, same⟩ := bind_eq_ok.mp ran
      cases same
      cases here : state.driver.calls[index]? with
      | none =>
        simp only [turn, here] at taken
        cases taken
        exact .inl rfl
      | some pc =>
        refine .inr (.inr ⟨driver, taken, rfl, fun same => ?_, fun pid task same => ?_, fun index' same => ?_⟩)
        · cases same
        · cases same
        · cases same
          exact ⟨pc, here, fun pid memory same => other pid memory (same ▸ here)⟩
  · rw [lifeTurn] at ran
    · split at ran
      · cases ran
        exact .inl rfl
      · next admitted =>
        obtain ⟨driver, taken, same⟩ := bind_eq_ok.mp ran
        cases same
        refine .inr (.inr ⟨driver, taken, rfl, ?_, ?_, fun index same => absurd ⟨index, same⟩ isCall⟩)
        · rintro rfl
          simpa [admits] using admitted
        · rintro pid task rfl
          simpa [admits] using admitted
    · exact fun index same => isCall ⟨index, same⟩

theorem driver_guarded {action : DeferredUnload.Turn} (guarded : Guarded state.whole nodes)
    (ran : lifeTurn hz state (.driver action) = .ok next) : ∃ nodes', Guarded next.whole nodes' := by
  rcases driver_turn ran with rfl | ⟨index, pid, memory, -, here, rfl⟩ |
    ⟨driver, taken, rfl, empty, -, calling⟩
  · exact ⟨nodes, guarded⟩
  · obtain ⟨front, back, calls, -, erased⟩ := calls_split here
    rw [calls] at erased
    refine ⟨nodes, guarded_calls guarded rfl ?_ ?_⟩
    · simp [Lifetimes.whole, calls, erased, MonPc.stands, CallPc.loose]
    · simp [Lifetimes.whole, calls, erased, MonPc.stands, CallPc.critical]
  · have moves : ∀ {after}, turn hz state.whole action = .ok after → Served state.whole action →
        ∃ nodes', Guarded after nodes' := by
      intro after moved served
      have safe : ∃ next nodes', turn hz state.whole action = .ok next ∧ Guarded next nodes' :=
        turn_safe guarded served
      obtain ⟨same, nodes', moved', guarded'⟩ := safe
      rw [moved] at moved'
      cases moved'
      exact ⟨nodes', guarded'⟩
    cases action with
    | call cmd arg memory =>
      simp only [turn] at taken
      split at taken
      · cases taken
        have idle : ∀ pc ∈ (callStart cmd arg memory).toList, pc.loose = [] ∧ pc.critical = false :=
          fun pc started => callStart_idle (Option.mem_toList.mp started)
        have noBlocks : (callStart cmd arg memory).toList.flatMap CallPc.loose = [] :=
          List.flatMap_eq_nil_iff.mpr fun pc started => (idle pc started).1
        have noLock : (callStart cmd arg memory).toList.countP CallPc.critical = 0 :=
          List.countP_eq_zero.mpr fun pc started => by simp [(idle pc started).2]
        refine ⟨nodes, guarded_calls guarded rfl ?_ ?_⟩
        · simp [Lifetimes.whole, noBlocks]
        · simp [Lifetimes.whole, noLock]
      · cases taken
        exact ⟨nodes, guarded⟩
    | inCall index =>
      obtain ⟨pc, here, other⟩ := calling index rfl
      refine moves (inCall_append _ here taken) fun pid memory found => ?_
      have inside : index < state.driver.calls.length := (List.getElem?_eq_some_iff.mp here).1
      have same : state.whole.calls[index]? = some pc := by
        rw [Lifetimes.whole, List.getElem?_append_left inside, here]
      rw [same] at found
      exact absurd (Option.some.inj found) (other pid memory)
    | unload =>
      have whole : ∀ driver : Unloading, ({ state with driver } : Lifetimes).whole = driver := by
        intro driver
        simp [Lifetimes.whole, empty rfl]
      rw [whole driver]
      exact moves ((whole state.driver).symm ▸ taken) trivial
    | expire | inTimer | startIo | inIo | startMonitor | inMonitor | inExit | exit | assign | tick =>
      obtain ⟨moved, same⟩ := turn_calls state.whole.calls taken fun _ _ _ _ => by simp
      have here : ({ state with driver } : Lifetimes).whole = { driver with calls := state.whole.calls } := by
        simp [Lifetimes.whole, same]
      rw [here]
      exact moves moved trivial

/-- What a turn of a call in `get_proc` does. -/
theorem inMon_turn (ran : lifeTurn hz state (.inMon index) = .ok next) :
    next = state ∨ ∃ front pc back dev locked later,
      state.mons = front ++ pc :: back ∧
      monStatement state.driver.dev state.driver.locked pc = .ok (dev, locked, later) ∧
      ((∃ pc', later = .inl pc' ∧ next = { state with
          driver := { state.driver with dev, locked }
          mons := front ++ pc' :: back }) ∨
        ∃ call, later = .inr call ∧ next = { state with
          driver := { state.driver with dev, locked, calls := state.driver.calls ++ [call] }
          mons := front ++ back }) := by
  cases here : state.mons[index]? with
  | none =>
    simp only [lifeTurn, here] at ran
    cases ran
    exact .inl rfl
  | some pc =>
    obtain ⟨front, back, mons, replaced, erased⟩ := calls_split here
    simp only [lifeTurn, here] at ran
    obtain ⟨⟨dev, locked, later⟩, taken, rest⟩ := bind_eq_ok.mp ran
    refine .inr ⟨front, pc, back, dev, locked, later, mons, taken, ?_⟩
    cases later with
    | inl pc' =>
      cases rest
      exact .inl ⟨pc', rfl, by rw [replaced]⟩
    | inr call =>
      cases rest
      exact .inr ⟨call, rfl, by rw [erased]⟩

theorem block_moves {p : Ptr} {first second third : List Ptr} :
    (first ++ (second ++ p :: third)).Perm (p :: (first ++ (second ++ third))) := by
  rw [← List.append_assoc, ← List.append_assoc]
  exact List.perm_middle

theorem inMon_guarded (guarded : Guarded state.whole nodes)
    (ran : lifeTurn hz state (.inMon index) = .ok next) : Guarded next.whole nodes := by
  rcases inMon_turn ran with rfl | ⟨front, pc, back, dev, locked, later, mons, taken, moved⟩
  · exact guarded
  have ring : Ring state.driver.dev.heap processList nodes _ := guarded.ring
  cases pc with
  | rcuReadLock | pidTask =>
    cases taken
    obtain ⟨pc', same, rfl⟩ | ⟨call, same, -⟩ := moved <;> cases same
    exact guarded_calls guarded rfl (by simp [Lifetimes.whole, mons, MonPc.stands])
      (by simp [Lifetimes.whole, mons, MonPc.stands])
  | rcuReadUnlock found memory =>
    cases found <;> cases taken <;> obtain ⟨pc', same, rfl⟩ | ⟨call, same, -⟩ := moved <;> cases same <;>
      exact guarded_calls guarded rfl (by simp [Lifetimes.whole, mons, MonPc.stands])
        (by simp [Lifetimes.whole, mons, MonPc.stands])
  | kmalloc task memory =>
    cases taken
    obtain ⟨pc', same, rfl⟩ | ⟨call, same, -⟩ := moved <;> cases same
    cases memory with
    | none =>
      exact guarded_calls guarded rfl (by simp [Lifetimes.whole, mons, MonPc.stands])
        (by simp [Lifetimes.whole, mons, MonPc.stands])
    | some block =>
      refine guarded_update guarded rfl (ring_perm (kmalloc_ring ring block) ?_) ?_
      · simp only [Lifetimes.whole, Unloading.loose, mons, List.flatMap_append, List.flatMap_cons,
          MonPc.stands, List.append_assoc]
        exact block_moves.symm
      · simp [Lifetimes.whole, mons, MonPc.stands, CallPc.critical]
  | getTaskStruct task p =>
    cases taken
    obtain ⟨pc', same, rfl⟩ | ⟨call, same, -⟩ := moved <;> cases same
    refine guarded_update guarded rfl (ring_perm ring ?_) ?_
    · simp [Lifetimes.whole, Unloading.loose, mons, MonPc.stands, CallPc.loose]
    · simp [Lifetimes.whole, mons, MonPc.stands, CallPc.critical]
  | setTask task p =>
    obtain ⟨heap, stored, same⟩ := bind_eq_ok.mp taken
    cases same
    obtain ⟨pc', same, -⟩ | ⟨call, same, rfl⟩ := moved <;> cases same
    have mine : p ∈ state.whole.loose := by
      simp [Lifetimes.whole, Unloading.loose, mons, MonPc.stands, CallPc.loose]
    obtain ⟨result, written, kept, -⟩ := store_ring ring p mine task
    rw [stored] at written
    cases written
    refine guarded_update guarded rfl (ring_perm kept ?_) ?_
    · simp only [Lifetimes.whole, Unloading.loose, mons, List.flatMap_append, List.flatMap_cons,
        MonPc.stands, List.append_assoc]
      exact List.perm_middle.append_left _
    · simp [Lifetimes.whole, mons, MonPc.stands, CallPc.critical]
  | spinLock error =>
    cases taken
    obtain ⟨pc', same, rfl⟩ | ⟨call, same, -⟩ := moved <;> cases same
    cases free : state.driver.locked with
    | true =>
      refine guarded_update guarded rfl (ring_perm ring ?_) ?_
      · simp [Lifetimes.whole, Unloading.loose, mons, MonPc.stands]
      · simp [Lifetimes.whole, mons, MonPc.stands, free]
    | false =>
      refine guarded_update guarded rfl (ring_perm ring ?_) ?_
      · simp [Lifetimes.whole, Unloading.loose, mons, MonPc.stands, CallPc.loose]
      · have one (calls : List CallPc) : (CallPc.spinUnlock :: calls).countP CallPc.critical =
            calls.countP CallPc.critical + 1 := List.countP_cons_of_pos rfl
        simp [Lifetimes.whole, mons, MonPc.stands, free, one]
        omega
  | listAdd error =>
    obtain ⟨heap, linked, -⟩ := bind_eq_ok.mp taken
    rw [listAdd_of_dead (ring_err ring error)] at linked
    cases linked

end KernelLabs.DeferredLifetimes
