import KernelLabs.DeferredUnload
import KernelLabs.LinuxListProofs

/-! No interleaving of the deferred driver's statements uses a bad pointer. The list
belongs to whoever holds `dev.lock`; an entry that is allocated but not on the list
belongs to the code that is about to link or free it. -/
namespace KernelLabs.DeferredUnload
open LinuxList DeferredDriver

/-- The entries this code has to itself. -/
def LoopPc.loose : LoopPc → List Ptr
  | .kfree pos _ => [pos]
  | _ => []

def CallPc.loose : CallPc → List Ptr
  | .spinLock p | .listAdd p => [p]
  | _ => []

def ExitPc.loose : ExitPc → List Ptr
  | .cleanup pc => pc.loose
  | _ => []

/-- This code holds the lock. -/
def LoopPc.critical : LoopPc → Bool
  | .spinLock | .return => false
  | _ => true

def CallPc.critical : CallPc → Bool
  | .listAdd _ | .spinUnlock => true
  | _ => false

def ExitPc.critical : ExitPc → Bool
  | .cleanup pc => pc.critical
  | _ => false

/-- `deferred_exit` is not in its loop, or waits there for the lock. -/
def ExitPc.Outside (pc : ExitPc) : Prop := pc.loose = [] ∧ pc.critical = false

/-- The cursors of a loop that holds the lock stand on the list or at its head. -/
def LoopPc.Within (nodes : List Ptr) : LoopPc → Prop
  | .test pos n => (pos = processList ∨ pos ∈ nodes) ∧ (n = processList ∨ n ∈ nodes) ∧
    (pos ≠ processList → n ≠ pos)
  | .testDead pos n | .prInfo pos n | .putTaskStruct pos n | .listDel pos n =>
    pos ∈ nodes ∧ (n = processList ∨ n ∈ nodes) ∧ n ≠ pos
  | .kfree _ n | .advance n => n = processList ∨ n ∈ nodes
  | .spinLock | .first | .spinUnlock | .return => True

namespace Unloading

/-- The entries that are allocated but not on the list. -/
def loose (state : Unloading) : List Ptr :=
  state.calls.flatMap CallPc.loose ++ state.monitor.running.toList.flatMap LoopPc.loose ++
    state.exit.loose

/-- What all of the code works on, and who is at work besides `deferred_exit`. -/
def shared (state : Unloading) : Heap Task × Bool × List CallPc × Option LoopPc :=
  (state.dev.heap, state.locked, state.calls, state.monitor.running)

/-- How many pieces of code hold the lock. -/
def holders (state : Unloading) : Nat :=
  state.calls.countP CallPc.critical + (state.monitor.running.any LoopPc.critical).toNat +
    state.exit.critical.toNat

end Unloading

/-- The list is well formed, every other entry has an owner, and the lock is held by
one piece of code at most. -/
structure Guarded (state : Unloading) (nodes : List Ptr) : Prop where
  ring : Ring state.dev.heap processList nodes state.loose
  holders : state.holders = state.locked.toNat
  monitor : ∀ pc, state.monitor.running = some pc → pc.Within nodes
  exit : ∀ pc, state.exit = .cleanup pc → pc.Within nodes

/-- `get_proc` finds its process and its memory. -/
def Served (state : Unloading) : Turn → Prop
  | .inCall index => ∀ pid memory, state.calls[index]? = some (.getProc pid memory) →
    (state.dev.pids pid).isSome ∧ memory.isSome
  | _ => True

/-- Which calls are served can be read off the state. -/
instance decidableServed : (state : Unloading) → (action : Turn) → Decidable (Served state action)
  | state, .inCall index =>
    decidable_of_iff (state.calls[index]?.all (fun
        | .getProc pid memory => (state.dev.pids pid).isSome && memory.isSome
        | _ => true) = true) <| by
      constructor
      · intro every pid memory found
        simpa [found] using every
      · intro served
        cases found : state.calls[index]? with
        | none => rfl
        | some pc =>
          cases pc with
          | getProc pid memory => simpa using served pid memory found
          | setFlag | modTimer | delTimer | spinLock | listAdd | spinUnlock => rfl
  | _, .call _ _ _ | _, .expire | _, .inTimer | _, .startIo | _, .inIo | _, .startMonitor | _, .inMonitor
  | _, .unload | _, .inExit | _, .exit _ | _, .assign _ _ | _, .tick => isTrue trivial

variable {dev : Deferred} {nodes loose : List Ptr} {p : Ptr} {locked : Bool}

/-! ## Single statements -/

/-- From the head or an entry, `next` leads to an entry or to the head, and never stays. -/
theorem ring_follow {heap : Heap Task} (ring : Ring heap processList nodes loose)
    (on : p = processList ∨ p ∈ nodes) :
    ∃ n, heap.next p = .ok n ∧ (n = processList ∨ n ∈ nodes) ∧ (p ≠ processList → n ≠ p) := by
  rcases on with rfl | member
  · refine ⟨_, Heap.next_of_next? (ring_first ring), ?_, fun other => absurd rfl other⟩
    cases nodes with
    | nil => exact .inl rfl
    | cons first rest => exact .inr List.mem_cons_self
  · have head := ring_head_not_mem ring
    have distinct := (List.nodup_append.mp (List.nodup_cons.mp ring.distinct).2).1
    obtain ⟨front, back, rfl⟩ := List.append_of_mem member
    refine ⟨_, Heap.next_of_next? (ring_next front ring), ?_, fun _ => ?_⟩
    · cases back with
      | nil => exact .inl rfl
      | cons first rest => exact .inr (by simp)
    · cases back with
      | nil =>
        rintro rfl
        exact head member
      | cons first rest =>
        rintro rfl
        have tail := (List.nodup_append.mp distinct).2.1
        simp at tail

theorem ring_load {heap : Heap Task} (ring : Ring heap processList nodes loose) (member : p ∈ nodes) :
    ∃ task, heap.load p = .ok task := by
  obtain ⟨task, found⟩ := Option.isSome_iff_exists.mp ((ring.allocated p).mpr (.inl member))
  exact ⟨task, Heap.load_of_entry found⟩

theorem within_of_not_critical {pc : LoopPc} (waits : pc.critical = false) : pc.Within nodes := by
  cases pc <;> trivial

/-- One statement of a loop: no bad access, and the list stays well formed. Only the
holder of the lock changes it. -/
theorem loopStatement_safe (onlyDead : Bool) {pc : LoopPc}
    (ring : Ring dev.heap processList nodes (pc.loose ++ loose)) (within : pc.Within nodes)
    (holds : pc.critical = true → locked = true) :
    ∃ after locked' pc' nodes', loopStatement onlyDead dev locked pc = .ok (after, locked', pc') ∧
      Ring after.heap processList nodes' (pc'.loose ++ loose) ∧ pc'.Within nodes' ∧
      (pc.critical = false → nodes' = nodes) ∧
      locked'.toNat + pc.critical.toNat = locked.toNat + pc'.critical.toNat := by
  cases pc with
  | spinLock =>
    refine ⟨dev, true, _, nodes, rfl, ?_, ?_, fun _ => rfl, ?_⟩ <;> cases locked
    · exact ring
    · exact ring
    · trivial
    · trivial
    · rfl
    · rfl
  | first =>
    obtain ⟨pos, first, on, -⟩ := ring_follow ring (.inl rfl)
    obtain ⟨n, second, on', moved⟩ := ring_follow ring on
    exact ⟨dev, locked, .test pos n, nodes, by simp [loopStatement, first, second], ring,
      ⟨on, on', moved⟩, fun _ => rfl, rfl⟩
  | test pos n =>
    obtain ⟨on, on', moved⟩ := within
    by_cases ends : pos = processList
    · exact ⟨dev, locked, .spinUnlock, nodes, by simp [loopStatement, ends], ring, trivial, fun _ => rfl, rfl⟩
    have member : pos ∈ nodes := on.resolve_left ends
    cases onlyDead with
    | false =>
      exact ⟨dev, locked, .putTaskStruct pos n, nodes, by simp [loopStatement, ends], ring,
        ⟨member, on', moved ends⟩, fun _ => rfl, rfl⟩
    | true =>
      exact ⟨dev, locked, .testDead pos n, nodes, by simp [loopStatement, ends], ring,
        ⟨member, on', moved ends⟩, fun _ => rfl, rfl⟩
  | testDead pos n =>
    obtain ⟨task, load⟩ := ring_load ring within.1
    refine ⟨dev, locked, _, nodes, by simp only [loopStatement, load, ok_bind]; rfl, ?_, ?_,
      fun _ => rfl, ?_⟩ <;> cases dev.dead task
    · exact ring
    · exact ring
    · exact within.2.1
    · exact within
    · rfl
    · rfl
  | prInfo pos n =>
    obtain ⟨task, load⟩ := ring_load ring within.1
    exact ⟨{ dev with reported := dev.reported ++ [(pos, task)] }, locked, .putTaskStruct pos n, nodes,
      by simp [loopStatement, load], ring, within, fun _ => rfl, rfl⟩
  | putTaskStruct pos n =>
    obtain ⟨task, load⟩ := ring_load ring within.1
    exact ⟨dev.putTaskStruct task, locked, .listDel pos n, nodes, by simp [loopStatement, load], ring,
      within, fun _ => rfl, rfl⟩
  | listDel pos n =>
    obtain ⟨member, on, moved⟩ := within
    obtain ⟨front, back, rfl⟩ := List.append_of_mem member
    obtain ⟨heap, deleted, removed, -⟩ := listDel_ring ring
    exact ⟨dev.withHeap heap, locked, .kfree pos n, front ++ back, by simp [loopStatement, deleted],
      removed, on.imp_right fun inside => by simpa [moved] using inside, nofun, rfl⟩
  | kfree pos n =>
    obtain ⟨heap, released, retired, -⟩ := kfree_ring ring
    exact ⟨dev.withHeap heap, locked, .advance n, nodes, by simp [loopStatement, released], retired,
      within, fun _ => rfl, rfl⟩
  | advance n =>
    obtain ⟨later, found, on, moved⟩ := ring_follow ring within
    exact ⟨dev, locked, .test n later, nodes, by simp [loopStatement, found], ring, ⟨within, on, moved⟩,
      fun _ => rfl, rfl⟩
  | spinUnlock =>
    obtain rfl : locked = true := holds rfl
    exact ⟨dev, false, .return, nodes, rfl, ring, trivial, fun _ => rfl, rfl⟩
  | «return» => exact ⟨dev, locked, .return, nodes, rfl, ring, trivial, fun _ => rfl, rfl⟩

/-- One statement of a call, if `get_proc` finds its process and its memory. -/
theorem callStatement_safe (hz : UInt64) {pc : CallPc}
    (ring : Ring dev.heap processList nodes (pc.loose ++ loose))
    (holds : pc.critical = true → locked = true)
    (served : ∀ pid memory, pc = .getProc pid memory → (dev.pids pid).isSome ∧ memory.isSome) :
    ∃ after locked' later nodes', callStatement hz dev locked pc = .ok (after, locked', later) ∧
      Ring after.heap processList nodes' (later.toList.flatMap CallPc.loose ++ loose) ∧
      (pc.critical = false → nodes' = nodes) ∧
      locked'.toNat + pc.critical.toNat = locked.toNat + (later.any CallPc.critical).toNat := by
  cases pc with
  | setFlag flag seconds => exact ⟨_, locked, _, nodes, rfl, ring, fun _ => rfl, rfl⟩
  | modTimer seconds => exact ⟨_, locked, _, nodes, rfl, ring, fun _ => rfl, rfl⟩
  | delTimer => exact ⟨_, locked, _, nodes, rfl, ring, fun _ => rfl, rfl⟩
  | getProc pid memory =>
    obtain ⟨known, allocated⟩ := served pid memory rfl
    obtain ⟨task, found⟩ := Option.isSome_iff_exists.mp known
    obtain ⟨block, rfl⟩ := Option.isSome_iff_exists.mp allocated
    have fresh := kmalloc_ring ring block
    obtain ⟨stored, write, kept, -⟩ := store_ring fresh (.slab dev.heap.handedOut) (by simp) task
    have nonnull : (kmalloc dev.heap (some block)).2 = .slab dev.heap.handedOut := rfl
    refine ⟨((dev.withHeap (kmalloc dev.heap (some block)).1).getTaskStruct task).withHeap stored, locked,
      some (.spinLock (.slab dev.heap.handedOut)), nodes, ?_, kept, fun _ => rfl, rfl⟩
    simp [callStatement, getProc, found, nonnull, Deferred.withHeap, Deferred.getTaskStruct, write]
  | spinLock p =>
    refine ⟨dev, true, _, nodes, rfl, ?_, fun _ => rfl, ?_⟩ <;> cases locked
    · exact ring
    · exact ring
    · rfl
    · rfl
  | listAdd p =>
    obtain ⟨heap, linked, added, -⟩ := listAdd_ring ring
    exact ⟨dev.withHeap heap, locked, some .spinUnlock, p :: nodes, by simp [callStatement, linked], added,
      nofun, rfl⟩
  | spinUnlock =>
    obtain rfl : locked = true := holds rfl
    exact ⟨dev, false, _, nodes, rfl, ring, fun _ => rfl, rfl⟩

/-! ## Turns -/

variable {hz : UInt64} {state next : Unloading}

theorem Guarded.of_same (guarded : Guarded state nodes) (same : next.shared = state.shared)
    (exit : next.exit = state.exit) : Guarded next nodes := by
  simp only [Unloading.shared, Prod.mk.injEq] at same
  obtain ⟨heap, locked, calls, monitor⟩ := same
  have loose : next.loose = state.loose := by simp only [Unloading.loose, calls, monitor, exit]
  have holders : next.holders = state.holders := by
    simp only [Unloading.holders, calls, monitor, exit]
  constructor
  · rw [heap, loose]
    exact guarded.ring
  · rw [holders, locked]
    exact guarded.holders
  · rw [monitor]
    exact guarded.monitor
  · rw [exit]
    exact guarded.exit

/-- `deferred_exit` goes on, outside its loop. -/
theorem Guarded.exit_moves (guarded : Guarded state nodes) (same : next.shared = state.shared)
    (before : state.exit.Outside) (after : next.exit.Outside) : Guarded next nodes := by
  simp only [Unloading.shared, Prod.mk.injEq] at same
  obtain ⟨heap, locked, calls, monitor⟩ := same
  have loose : next.loose = state.loose := by
    simp only [Unloading.loose, calls, monitor, before.1, after.1]
  have holders : next.holders = state.holders := by
    simp only [Unloading.holders, calls, monitor, before.2, after.2]
  constructor
  · rw [heap, loose]
    exact guarded.ring
  · rw [holders, locked]
    exact guarded.holders
  · rw [monitor]
    exact guarded.monitor
  · intro pc phase
    rw [phase] at after
    exact within_of_not_critical after.2

theorem timerStatement_shared (hz : UInt64) (state : Unloading) (pc : TimerPc) :
    (timerStatement hz state pc).shared = state.shared ∧
      (timerStatement hz state pc).exit = state.exit := by
  obtain ⟨_, _, _, _, _, _, same⟩ := timerStatement_touches hz state pc
  exact ⟨by rw [same]; rfl, by rw [same]⟩

theorem callStart_idle {cmd : UInt32} {arg : UInt64} {memory : Option (Block Task)} {pc : CallPc}
    (started : pc ∈ callStart cmd arg memory) : pc.loose = [] ∧ pc.critical = false := by
  unfold callStart at started
  split at started
  · cases started
    exact ⟨rfl, rfl⟩
  split at started
  · cases started
    exact ⟨rfl, rfl⟩
  split at started
  · cases started
    exact ⟨rfl, rfl⟩
  split at started
  · cases started
    exact ⟨rfl, rfl⟩
  · cases started

/-- A call in the middle of a list of running calls. -/
theorem calls_split {Pc : Type} {calls : List Pc} {index : Nat} {pc : Pc} (found : calls[index]? = some pc) :
    ∃ front back, calls = front ++ pc :: back ∧
      (∀ later, calls.set index later = front ++ later :: back) ∧ calls.eraseIdx index = front ++ back := by
  obtain ⟨inside, same⟩ := List.getElem?_eq_some_iff.mp found
  refine ⟨calls.take index, calls.drop (index + 1), ?_, fun later => ?_, ?_⟩
  · rw [← same, List.getElem_cons_drop, List.take_append_drop]
  · exact List.set_eq_take_append_cons_drop.trans (if_pos inside)
  · exact List.eraseIdx_eq_take_drop_succ calls index

/-- Who holds the lock is its only holder. -/
theorem only_holder {others : Nat} {mine : Bool} (count : others + mine.toNat = locked.toNat)
    (holds : mine = true) : locked = true ∧ others = 0 := by
  subst holds
  cases locked <;> simp_all

/-- Cursors stay within the list while others change it, since those hold the lock. -/
theorem within_kept {pc : LoopPc} {nodes' : List Ptr} {mine : Bool} (within : pc.Within nodes)
    (same : mine = false → nodes' = nodes) (apart : mine = true → pc.critical = false) :
    pc.Within nodes' := by
  cases mine with
  | false => exact same rfl ▸ within
  | true => exact within_of_not_critical (apart rfl)

/-- A statement of `monitor_work_handler` is safe. -/
theorem inMonitor_safe {pc : LoopPc} (guarded : Guarded state nodes)
    (running : state.monitor.running = some pc) :
    ∃ next nodes', monitorStatement state pc = .ok next ∧ Guarded next nodes' := by
  obtain ⟨ring, holders, monitor, exit⟩ := guarded
  by_cases ends : pc = .return
  · subst ends
    refine ⟨_, nodes, rfl, ?_, ?_, nofun, exit⟩
    · simpa [Unloading.loose, running, LoopPc.loose] using ring
    · simpa [Unloading.holders, running, LoopPc.critical] using holders
  let others := state.calls.flatMap CallPc.loose ++ state.exit.loose
  have arrange : ∀ pc : LoopPc, (state.calls.flatMap CallPc.loose ++ [pc].flatMap LoopPc.loose ++
      state.exit.loose).Perm (pc.loose ++ others) := by
    intro pc
    simp only [List.flatMap_singleton, others, List.append_assoc]
    exact List.perm_append_comm_assoc _ _ _
  have mine : state.calls.countP CallPc.critical + state.exit.critical.toNat + pc.critical.toNat =
      state.locked.toNat := by
    rw [← holders, Unloading.holders, running, Option.any_some]
    omega
  have ring' : Ring state.dev.heap processList nodes (pc.loose ++ others) := by
    rw [Unloading.loose, running] at ring
    exact ring_perm ring (arrange pc)
  obtain ⟨dev, locked, later, nodes', ran, moved, within, same, balance⟩ :=
    loopStatement_safe true ring' (monitor pc running) fun holds => (only_holder mine holds).1
  refine ⟨{ state with dev, locked, monitor := { state.monitor with running := some later } }, nodes',
    monitorStatement_loop ends ran, ring_perm moved (arrange later).symm, ?_, ?_, ?_⟩
  · simp only [Unloading.holders, Option.any_some]
    omega
  · rintro pc' ⟨⟩
    exact within
  · intro pc' (phase : state.exit = .cleanup pc')
    refine within_kept (exit pc' phase) same fun holds => ?_
    have none := (only_holder mine holds).2
    simp only [phase, ExitPc.critical, Nat.add_eq_zero_iff, Bool.toNat_eq_zero] at none
    exact none.2

/-- A statement of the last loop of `deferred_exit` is safe. -/
theorem cleanup_safe {pc : LoopPc} (guarded : Guarded state nodes) (phase : state.exit = .cleanup pc) :
    ∃ next nodes', exitStatement state (.cleanup pc) = .ok next ∧ Guarded next nodes' := by
  obtain ⟨ring, holders, monitor, exit⟩ := guarded
  by_cases ends : pc = .return
  · subst ends
    refine ⟨_, nodes, rfl, ?_, ?_, monitor, nofun⟩
    · simpa [Unloading.loose, phase, ExitPc.loose, LoopPc.loose] using ring
    · simpa [Unloading.holders, phase, ExitPc.critical, LoopPc.critical] using holders
  let others := state.calls.flatMap CallPc.loose ++ state.monitor.running.toList.flatMap LoopPc.loose
  have mine : state.calls.countP CallPc.critical + (state.monitor.running.any LoopPc.critical).toNat +
      pc.critical.toNat = state.locked.toNat := by
    rw [← holders, Unloading.holders, phase]
    rfl
  have ring' : Ring state.dev.heap processList nodes (pc.loose ++ others) := by
    rw [Unloading.loose, phase] at ring
    exact ring_perm ring List.perm_append_comm
  obtain ⟨dev, locked, later, nodes', ran, moved, within, same, balance⟩ :=
    loopStatement_safe false ring' (exit pc phase) fun holds => (only_holder mine holds).1
  refine ⟨{ state with dev, locked, exit := .cleanup later }, nodes', cleanup_loop ends ran,
    ring_perm moved List.perm_append_comm, ?_, ?_, ?_⟩
  · simp only [Unloading.holders, ExitPc.critical]
    omega
  · intro pc' (running : state.monitor.running = some pc')
    refine within_kept (monitor pc' running) same fun holds => ?_
    have none := (only_holder mine holds).2
    simp only [running, Option.any_some, Nat.add_eq_zero_iff, Bool.toNat_eq_zero] at none
    exact none.2
  · rintro pc' ⟨⟩
    exact within

/-- A statement of a call is safe. -/
theorem inCall_safe {index : Nat} {pc : CallPc} (guarded : Guarded state nodes)
    (found : state.calls[index]? = some pc) (served : Served state (.inCall index)) :
    ∃ next nodes', turn hz state (.inCall index) = .ok next ∧ Guarded next nodes' := by
  obtain ⟨ring, holders, monitor, exit⟩ := guarded
  obtain ⟨front, back, calls, replaced, erased⟩ := calls_split found
  let loops := state.monitor.running.toList.flatMap LoopPc.loose ++ state.exit.loose
  let others := front.flatMap CallPc.loose ++ back.flatMap CallPc.loose ++ loops
  have arrange : ∀ later : Option CallPc,
      ((front ++ (later.toList ++ back)).flatMap CallPc.loose ++
        state.monitor.running.toList.flatMap LoopPc.loose ++ state.exit.loose).Perm
      (later.toList.flatMap CallPc.loose ++ others) := by
    intro later
    simp only [List.flatMap_append, others, loops, List.append_assoc]
    exact List.perm_append_comm_assoc _ _ _
  have mine : front.countP CallPc.critical + back.countP CallPc.critical +
      (state.monitor.running.any LoopPc.critical).toNat + state.exit.critical.toNat +
      pc.critical.toNat = state.locked.toNat := by
    have one : (if pc.critical = true then 1 else 0) = pc.critical.toNat := by
      cases pc.critical <;> rfl
    rw [← holders, Unloading.holders, calls, List.countP_append, List.countP_cons, one]
    omega
  have ring' : Ring state.dev.heap processList nodes (pc.loose ++ others) := by
    rw [Unloading.loose, calls] at ring
    simpa using ring_perm ring (arrange (some pc))
  obtain ⟨dev, locked, later, nodes', ran, moved, same, balance⟩ :=
    callStatement_safe hz ring' (fun holds => (only_holder mine holds).1) fun pid memory this =>
      served pid memory (this ▸ found)
  have count : later.toList.countP CallPc.critical = (later.any CallPc.critical).toNat := by
    cases later with
    | none => rfl
    | some pc => cases critical : pc.critical <;> simp [critical]
  refine ⟨{ state with dev, locked, calls := front ++ (later.toList ++ back) }, nodes', ?_,
    ring_perm moved (arrange later).symm, ?_, ?_, ?_⟩
  · simp only [turn, found, ran, ok_bind, pure_eq_ok]
    cases later <;> simp [erased, replaced]
  · simp only [Unloading.holders, List.countP_append, count]
    omega
  · intro pc' (running : state.monitor.running = some pc')
    refine within_kept (monitor pc' running) same fun holds => ?_
    have none := (only_holder mine holds).2
    simp only [running, Option.any_some, Nat.add_eq_zero_iff, Bool.toNat_eq_zero] at none
    exact none.1.2
  · intro pc' (phase : state.exit = .cleanup pc')
    refine within_kept (exit pc' phase) same fun holds => ?_
    have none := (only_holder mine holds).2
    simp only [phase, ExitPc.critical, Nat.add_eq_zero_iff, Bool.toNat_eq_zero] at none
    exact none.2

/-- No turn makes a bad access. -/
theorem turn_safe {action : Turn} (guarded : Guarded state nodes) (served : Served state action) :
    ∃ next nodes', turn hz state action = .ok next ∧ Guarded next nodes' := by
  cases action with
  | call cmd arg memory =>
    by_cases fresh : state.exit = .notStarted
    · refine ⟨{ state with calls := state.calls ++ (callStart cmd arg memory).toList }, nodes,
        by rw [turn, if_pos fresh], ?_, ?_, guarded.monitor, guarded.exit⟩
      · have none : (callStart cmd arg memory).toList.flatMap CallPc.loose = [] := by
          apply List.flatMap_eq_nil_iff.mpr
          intro pc started
          exact (callStart_idle (Option.mem_toList.mp started)).1
        simpa [Unloading.loose, none] using guarded.ring
      · have none : (callStart cmd arg memory).toList.countP CallPc.critical = 0 := by
          apply List.countP_eq_zero.mpr
          intro pc started
          simp [(callStart_idle (Option.mem_toList.mp started)).2]
        simpa [Unloading.holders, none] using guarded.holders
    · exact ⟨state, nodes, by simp [turn, fresh], guarded⟩
  | inCall index =>
    cases found : state.calls[index]? with
    | none => exact ⟨state, nodes, by simp [turn, found], guarded⟩
    | some pc => exact inCall_safe guarded found served
  | expire =>
    simp only [turn]
    split
    · exact ⟨_, nodes, rfl, guarded.of_same rfl rfl⟩
    · exact ⟨state, nodes, rfl, guarded⟩
  | inTimer =>
    simp only [turn]
    split
    · exact ⟨state, nodes, rfl, guarded⟩
    · next pc running =>
      obtain ⟨shared, exit⟩ := timerStatement_shared hz state pc
      exact ⟨_, nodes, rfl, guarded.of_same shared exit⟩
  | startIo =>
    simp only [turn]
    split
    · exact ⟨_, nodes, rfl, guarded.of_same rfl rfl⟩
    · exact ⟨state, nodes, rfl, guarded⟩
  | inIo =>
    simp only [turn]
    split
    · exact ⟨state, nodes, rfl, guarded⟩
    · next pc running =>
      cases pc <;> exact ⟨_, nodes, rfl, guarded.of_same rfl rfl⟩
  | startMonitor =>
    simp only [turn]
    split
    · next due =>
      simp only [Bool.and_eq_true, Option.isNone_iff_eq_none] at due
      obtain ⟨ring, holders, -, exit⟩ := guarded
      refine ⟨_, nodes, rfl, ?_, ?_, ?_, exit⟩
      · simpa [Unloading.loose, due, LoopPc.loose] using ring
      · simpa [Unloading.holders, due, LoopPc.critical] using holders
      · rintro pc ⟨⟩
        trivial
    · exact ⟨state, nodes, rfl, guarded⟩
  | inMonitor =>
    simp only [turn]
    split
    · exact ⟨state, nodes, rfl, guarded⟩
    · next pc running => exact inMonitor_safe guarded running
  | unload =>
    simp only [turn]
    split
    · next fresh =>
      refine ⟨_, nodes, rfl, guarded.exit_moves rfl ?_ ⟨rfl, rfl⟩⟩
      rw [fresh.1]
      exact ⟨rfl, rfl⟩
    · exact ⟨state, nodes, rfl, guarded⟩
  | inExit =>
    simp only [turn]
    cases phase : state.exit with
    | cleanup pc => exact cleanup_safe guarded phase
    | notStarted | returned => exact ⟨state, nodes, rfl, guarded⟩
    | prInfo | cdevDel | unregisterChrdevRegion | flushIo | flushMonitor =>
      refine ⟨_, nodes, rfl, guarded.exit_moves rfl ?_ ⟨rfl, rfl⟩⟩
      rw [phase]
      exact ⟨rfl, rfl⟩
    | delTimerSync | waitIo | waitMonitor =>
      simp only [exitStatement]
      split
      · exact ⟨state, nodes, rfl, guarded⟩
      · refine ⟨_, nodes, rfl, guarded.exit_moves rfl ?_ ⟨rfl, rfl⟩⟩
        rw [phase]
        exact ⟨rfl, rfl⟩
  | exit | assign | tick => exact ⟨_, nodes, rfl, guarded.of_same rfl rfl⟩

theorem atRest_guarded (jiffies : UInt64) (pids : Int32 → Option Task) (dead : Task → Bool) :
    Guarded (atRest jiffies pids dead) [] where
  ring := init_ring 0
  holders := rfl
  monitor := nofun
  exit := nofun

/-- A handler of the work and two calls take turns at the list, and so does `deferred_exit`
then. -/
def interleaved (memory : Option (Block Task)) : List Turn :=
  [.call myIoctlTimerMon 7 memory] ++ List.replicate 6 (.inCall 0) ++ [.call myIoctlTimerMon 9 memory, .expire] ++
    List.replicate 6 .inTimer ++ [.inCall 0, .startMonitor, .exit 7, .inMonitor, .inCall 0] ++
    List.replicate 12 .inMonitor ++ List.replicate 5 (.inCall 0) ++ [.unload] ++ List.replicate 4 .inExit ++
    [.inTimer] ++ List.replicate 16 .inExit

end KernelLabs.DeferredUnload
