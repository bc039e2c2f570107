import KernelLabs.DeferredInterleavings
import KernelLabs.DeferredQuiescence
import Mathlib.Data.List.TakeWhile

/-! `deferred_exit` comes to its end. Whatever the timer, the two work items and the calls
were doing when it began, nothing it waits for waits for it: the code that is running, and
the work that is queued, can be run until `deferred_exit` returns. -/
namespace KernelLabs.DeferredUnload
open LinuxList DeferredDriver

/-! ## What a loop has still to do -/

/-- How many entries there are from this one on; none from the head on. -/
def behind (nodes : List Ptr) (p : Ptr) : Nat := (nodes.dropWhile (· ≠ p)).length

/-- A bound on the statements of a loop that are left. -/
def LoopPc.rank (nodes : List Ptr) : LoopPc → Nat
  | .spinLock => 10 * nodes.length + 11
  | .first => 10 * nodes.length + 10
  | .test pos n => if pos = processList then 2 else 10 * behind nodes n + 9
  | .testDead _ n => 10 * behind nodes n + 8
  | .prInfo _ n => 10 * behind nodes n + 7
  | .putTaskStruct _ n => 10 * behind nodes n + 6
  | .listDel _ n => 10 * behind nodes n + 5
  | .kfree _ n => 10 * behind nodes n + 4
  | .advance n => 10 * behind nodes n + 3
  | .spinUnlock => 1
  | .return => 0

variable {nodes nodes' loose loose' front back : List Ptr} {p n : Ptr} {dev dev' : Deferred}
  {locked locked' onlyDead : Bool} {pc pc' : LoopPc} {hz : UInt64} {state next : Unloading} {action : Turn}

theorem behind_le (nodes : List Ptr) (p : Ptr) : behind nodes p ≤ nodes.length :=
  (List.dropWhile_sublist _).length_le

theorem behind_sublist (fewer : nodes'.Sublist nodes) (p : Ptr) : behind nodes' p ≤ behind nodes p := by
  unfold behind
  induction fewer with
  | slnil => exact Nat.le_refl _
  | cons first fewer ih =>
    by_cases here : first = p
    · rw [List.dropWhile_cons_of_neg (by simp [here])]
      exact (List.dropWhile_sublist _).length_le.trans (fewer.length_le.trans (Nat.le_succ _))
    · rwa [List.dropWhile_cons_of_pos (by simp [here])]
  | cons_cons first fewer ih =>
    by_cases here : first = p
    · rw [List.dropWhile_cons_of_neg (by simp [here]), List.dropWhile_cons_of_neg (by simp [here])]
      exact Nat.succ_le_succ fewer.length_le
    · rwa [List.dropWhile_cons_of_pos (by simp [here]), List.dropWhile_cons_of_pos (by simp [here])]

theorem behind_none (outside : p ∉ nodes) : behind nodes p = 0 := by
  refine List.length_eq_zero_iff.mpr (List.dropWhile_eq_nil_iff.mpr fun q member => ?_)
  have other : q ≠ p := fun same => outside (same ▸ member)
  simp [other]

theorem behind_self (distinct : (front ++ p :: back).Nodup) : behind (front ++ p :: back) p = back.length + 1 := by
  have before (q : Ptr) (member : q ∈ front) : decide (q ≠ p) = true := by
    have other : q ≠ p := (List.nodup_append.mp distinct).2.2 q member p List.mem_cons_self
    simp [other]
  rw [behind, List.dropWhile_append_of_pos before, List.dropWhile_cons_of_neg (by simp), List.length_cons]

theorem ring_unique {heap : Heap Task} (ring : Ring heap processList nodes loose)
    (ring' : Ring heap processList nodes' loose') : nodes = nodes' :=
  chain_unique ring.chain ring'.chain (ring_head_not_mem ring) (ring_head_not_mem ring')

/-- The entry after this one has fewer from it on. -/
theorem behind_next {heap : Heap Task} (ring : Ring heap processList nodes loose) (member : p ∈ nodes)
    (found : heap.next p = .ok n) : behind nodes n < behind nodes p := by
  have distinct := (List.nodup_append.mp (List.nodup_cons.mp ring.distinct).2).1
  obtain ⟨front, back, rfl⟩ := List.append_of_mem member
  cases (Heap.next_of_next? (ring_next front ring)).symm.trans found
  rw [behind_self distinct]
  cases back with
  | nil =>
    rw [List.head?_nil, Option.getD_none, behind_none (ring_head_not_mem ring)]
    exact Nat.zero_lt_one
  | cons first rest =>
    rw [show front ++ p :: first :: rest = (front ++ [p]) ++ first :: rest by simp] at distinct ⊢
    rw [List.head?_cons, Option.getD_some, behind_self distinct]
    exact Nat.lt_succ_self _

/-- A statement of a loop is one fewer to make, unless it waits for the lock. -/
theorem loopStatement_falls (ring : Ring dev.heap processList nodes (pc.loose ++ loose)) (within : pc.Within nodes)
    (going : pc ≠ .return) (free : pc = .spinLock → locked = false)
    (ran : loopStatement onlyDead dev locked pc = .ok (dev', locked', pc'))
    (ring' : Ring dev'.heap processList nodes' loose') :
    pc'.rank nodes' < pc.rank nodes ∧ nodes'.length ≤ nodes.length := by
  cases pc with
  | spinLock =>
    cases free rfl
    cases ran
    cases ring_unique ring ring'
    simp [LoopPc.rank]
  | first =>
    obtain ⟨pos, first, after⟩ := bind_eq_ok.mp ran
    obtain ⟨n, second, same⟩ := bind_eq_ok.mp after
    cases same
    cases ring_unique ring ring'
    have bound := behind_le nodes n
    simp only [LoopPc.rank, Nat.le_refl, and_true]
    split <;> omega
  | test pos n =>
    cases ran
    cases ring_unique ring ring'
    by_cases ends : pos = processList
    · simp [LoopPc.rank, ends]
    · cases onlyDead <;> simp [LoopPc.rank, ends]
  | testDead pos n =>
    obtain ⟨task, load, same⟩ := bind_eq_ok.mp ran
    cases same
    cases ring_unique ring ring'
    cases dead : dev.dead task <;> simp [LoopPc.rank]
  | prInfo pos n =>
    obtain ⟨task, load, same⟩ := bind_eq_ok.mp ran
    cases same
    cases ring_unique ring ring'
    simp [LoopPc.rank]
  | putTaskStruct pos n =>
    obtain ⟨task, load, same⟩ := bind_eq_ok.mp ran
    cases same
    cases ring_unique ring ring'
    simp [LoopPc.rank]
  | listDel pos n =>
    obtain ⟨heap, deleted, same⟩ := bind_eq_ok.mp ran
    cases same
    obtain ⟨front, back, rfl⟩ := List.append_of_mem within.1
    obtain ⟨heap', deleted', removed, -⟩ := listDel_ring ring
    cases deleted.symm.trans deleted'
    cases ring_unique removed ring'
    have fewer : (front ++ back).Sublist (front ++ pos :: back) :=
      (List.Sublist.refl front).append (List.sublist_cons_self pos back)
    have less := behind_sublist fewer n
    refine ⟨?_, fewer.length_le⟩
    simp only [LoopPc.rank]
    omega
  | kfree pos n =>
    obtain ⟨heap, released, same⟩ := bind_eq_ok.mp ran
    cases same
    obtain ⟨heap', released', retired, -⟩ := kfree_ring ring
    cases released.symm.trans released'
    cases ring_unique retired ring'
    simp [LoopPc.rank]
  | advance n =>
    obtain ⟨later, found, same⟩ := bind_eq_ok.mp ran
    cases same
    cases ring_unique ring ring'
    refine ⟨?_, Nat.le_refl _⟩
    simp only [LoopPc.rank]
    split
    · omega
    · rename_i away
      have less := behind_next ring (Or.resolve_left within away) found
      omega
  | spinUnlock =>
    cases ran
    cases ring_unique ring ring'
    simp [LoopPc.rank]
  | «return» => exact absurd rfl going

/-! ## What the module has still to do -/

/-- Once the handler has run, its work may have to run, too. -/
def TimerPc.rank (most : Nat) : TimerPc → Nat
  | .printk => 10 * most + 21
  | .testSet => 10 * most + 20
  | .testAlloc => 10 * most + 19
  | .testMon => 10 * most + 18
  | .scheduleMonitor => 10 * most + 17
  | .scheduleIo => 7
  | .modTimer => 2
  | .return => 1

def IoPc.rank : IoPc → Nat
  | .setCurrentState => 4
  | .scheduleTimeout => 3
  | .prInfo => 2
  | .return => 1

def ExitPc.rank (most : Nat) (nodes : List Ptr) : ExitPc → Nat
  | .prInfo => 10 * most + 20
  | .cdevDel => 10 * most + 19
  | .unregisterChrdevRegion => 10 * most + 18
  | .delTimerSync => 10 * most + 17
  | .flushIo => 10 * most + 16
  | .waitIo _ => 10 * most + 15
  | .flushMonitor => 10 * most + 14
  | .waitMonitor _ => 10 * most + 13
  | .cleanup pc => pc.rank nodes + 1
  | .notStarted | .returned => 0

/-- A bound on the statements that are left, where there are never more than `most`
entries and the timer does not expire again. -/
def Unloading.rank (most : Nat) (nodes : List Ptr) (state : Unloading) : Nat :=
  state.exit.rank most nodes + state.timerHandler.elim 0 (TimerPc.rank most) +
    (bif state.dev.ioWork then 5 else 0) + state.io.running.elim 0 IoPc.rank +
    (bif state.dev.monitorWork then 10 * most + 14 else 0) +
    state.monitor.running.elim 0 fun pc => pc.rank nodes + 1

/-- A turn of code of the module. -/
def Turn.ofModule : Turn → Bool
  | .inCall _ | .inTimer | .startIo | .inIo | .startMonitor | .inMonitor | .inExit => true
  | _ => false

def Turn.expires : Turn → Bool
  | .expire => true
  | _ => false

/-- Code of the module that waits is not given the turn. -/
def GetsOn (hz : UInt64) (state : Unloading) (action : Turn) : Prop :=
  action.ofModule = true → turn hz state action ≠ .ok state

/-- `deferred_exit` has begun, from a state that the module can be in. -/
structure Ending (most : Nat) (nodes : List Ptr) (state : Unloading) : Prop where
  orderly : Orderly state
  guarded : Guarded state nodes
  begun : state.exit ≠ .notStarted
  few : nodes.length ≤ most

variable {most : Nat}

theorem Ending.calls (ending : Ending most nodes state) : state.calls = [] := by
  have reached := ending.orderly.reached
  cases phase : state.exit with
  | notStarted => exact absurd phase ending.begun
  | prInfo | cdevDel | unregisterChrdevRegion | delTimerSync =>
    rw [phase] at reached
    exact reached
  | flushIo | flushMonitor | cleanup | returned =>
    rw [phase] at reached
    exact reached.calls
  | waitIo | waitMonitor =>
    rw [phase] at reached
    exact reached.1.calls

theorem Guarded.same_nodes (guarded : Guarded state nodes) (guarded' : Guarded next nodes')
    (same : next.dev.heap = state.dev.heap) : nodes' = nodes :=
  (ring_unique guarded.ring (same ▸ guarded'.ring)).symm

/-- A statement of `timer_handler` leaves less to do, also where it queues work. -/
theorem timerStatement_falls {pc : TimerPc} (running : state.timerHandler = some pc) :
    (timerStatement hz state pc).rank most nodes < state.rank most nodes := by
  cases pc with
  | printk | modTimer | «return» =>
    simp only [Unloading.rank, timerStatement, running, Option.elim_some, Option.elim_none, TimerPc.rank,
      Deferred.modTimer]
    omega
  | testSet | testAlloc | testMon =>
    simp only [Unloading.rank, timerStatement, running, Option.elim_some]
    split <;> simp only [TimerPc.rank] <;> omega
  | scheduleIo =>
    simp only [Unloading.rank, timerStatement, Unloading.scheduleIo, running, Option.elim_some, TimerPc.rank]
    split
    · omega
    · rename_i free
      simp only [Bool.eq_false_iff.mpr free, cond_false, cond_true]
      omega
  | scheduleMonitor =>
    simp only [Unloading.rank, timerStatement, Unloading.scheduleMonitor, running, Option.elim_some, TimerPc.rank]
    split
    · omega
    · rename_i free
      simp only [Bool.eq_false_iff.mpr free, cond_false, cond_true]
      omega

theorem ioStatement_falls {pc : IoPc} (running : state.io.running = some pc) :
    (ioStatement state pc).rank most nodes < state.rank most nodes := by
  cases pc <;>
    simp only [Unloading.rank, ioStatement, running, Option.elim_some, Option.elim_none, IoPc.rank] <;> omega

/-- `deferred_exit` is not in its loop while `monitor_work_handler` runs. -/
theorem Ending.exit_rank {pc : LoopPc} (ending : Ending most nodes state)
    (running : state.monitor.running = some pc) (nodes' : List Ptr) :
    state.exit.rank most nodes' = state.exit.rank most nodes ∧ state.exit.loose = [] ∧
      state.exit.critical = false := by
  have reached := ending.orderly.reached
  cases phase : state.exit with
  | cleanup later =>
    rw [phase] at reached
    cases running.symm.trans reached.monitor
  | notStarted | prInfo | cdevDel | unregisterChrdevRegion | delTimerSync | flushIo | waitIo | flushMonitor
  | waitMonitor | returned => exact ⟨rfl, rfl, rfl⟩

/-- A statement of `monitor_work_handler` leaves less to do, unless it waits for the lock. -/
theorem monitorStatement_falls {pc : LoopPc} (ending : Ending most nodes state)
    (running : state.monitor.running = some pc) (ran : monitorStatement state pc = .ok next)
    (guarded' : Guarded next nodes') (free : pc = .spinLock → state.locked = false) :
    nodes'.length ≤ nodes.length ∧ next.rank most nodes' < state.rank most nodes := by
  obtain ⟨exit, unlisted, -⟩ := ending.exit_rank running nodes'
  rcases monitorStatement_cases ran with ⟨ends, same⟩ | ⟨going, dev, locked, later, taken, same⟩
  · cases ending.guarded.same_nodes guarded' (by rw [same])
    refine ⟨Nat.le_refl _, ?_⟩
    simp only [same, Unloading.rank, running, Option.elim_some, Option.elim_none]
    omega
  · have ring : Ring state.dev.heap processList nodes (pc.loose ++ []) := by
      have ring := ending.guarded.ring
      simpa [Unloading.loose, ending.calls, running, unlisted] using ring
    have ring' : Ring dev.heap processList nodes' next.loose := by
      have ring' := guarded'.ring
      rwa [same] at ring' ⊢
    obtain ⟨less, fewer⟩ := loopStatement_falls ring (ending.guarded.monitor pc running) going free taken ring'
    have only := loopStatement_only taken
    have ioWork : dev.ioWork = state.dev.ioWork := by rw [only]
    have monitorWork : dev.monitorWork = state.dev.monitorWork := by rw [only]
    refine ⟨fewer, ?_⟩
    simp only [same, Unloading.rank, running, Option.elim_some, exit, ioWork, monitorWork]
    omega

/-- So does a statement of `deferred_exit`. -/
theorem cleanup_falls {pc : LoopPc} (ending : Ending most nodes state) (phase : state.exit = .cleanup pc)
    (ran : exitStatement state (.cleanup pc) = .ok next) (guarded' : Guarded next nodes')
    (free : pc = .spinLock → state.locked = false) :
    nodes'.length ≤ nodes.length ∧ next.rank most nodes' < state.rank most nodes := by
  have quiet : Quiet state := by
    have reached := ending.orderly.reached
    rwa [phase] at reached
  rcases cleanup_cases ran with ⟨ends, same⟩ | ⟨going, dev, locked, later, taken, same⟩
  · cases ending.guarded.same_nodes guarded' (by rw [same])
    refine ⟨Nat.le_refl _, ?_⟩
    simp only [same, Unloading.rank, phase, ExitPc.rank]
    omega
  · have ring : Ring state.dev.heap processList nodes (pc.loose ++ []) := by
      have ring := ending.guarded.ring
      simpa [Unloading.loose, ending.calls, quiet.monitor, phase, ExitPc.loose] using ring
    have ring' : Ring dev.heap processList nodes' next.loose := by
      have ring' := guarded'.ring
      rwa [same] at ring' ⊢
    obtain ⟨less, fewer⟩ := loopStatement_falls ring (ending.guarded.exit pc phase) going free taken ring'
    have only := loopStatement_only taken
    have ioWork : dev.ioWork = state.dev.ioWork := by rw [only]
    have monitorWork : dev.monitorWork = state.dev.monitorWork := by rw [only]
    refine ⟨fewer, ?_⟩
    simp only [same, Unloading.rank, phase, ExitPc.rank, quiet.monitor, Option.elim_none, ioWork, monitorWork]
    omega

/-- Nothing else of `deferred_exit` touches the list. -/
theorem exitStatement_falls (ending : Ending most nodes state)
    (ran : exitStatement state state.exit = .ok next) (moved : next ≠ state) (guarded' : Guarded next nodes')
    (free : state.exit = .cleanup .spinLock → state.locked = false) :
    nodes'.length ≤ nodes.length ∧ next.rank most nodes' < state.rank most nodes := by
  have few := ending.few
  cases phase : state.exit with
  | notStarted => exact absurd phase ending.begun
  | cleanup pc =>
    rw [phase] at ran
    exact cleanup_falls ending phase ran guarded' fun waits => free (by rw [phase, waits])
  | returned =>
    rw [phase] at ran
    cases ran
    exact absurd rfl moved
  | prInfo | cdevDel | unregisterChrdevRegion | flushIo | flushMonitor =>
    rw [phase] at ran
    cases ran
    cases ending.guarded.same_nodes guarded' rfl
    refine ⟨Nat.le_refl _, ?_⟩
    simp only [Unloading.rank, phase, ExitPc.rank]
    omega
  | delTimerSync | waitIo | waitMonitor =>
    rw [phase] at ran
    simp only [exitStatement] at ran
    split at ran <;> cases ran
    · exact absurd rfl moved
    · cases ending.guarded.same_nodes guarded' rfl
      refine ⟨Nat.le_refl _, ?_⟩
      simp only [Unloading.rank, phase, ExitPc.rank, LoopPc.rank, Deferred.delTimer]
      omega

theorem monitor_waits (running : state.monitor.running = some .spinLock) (taken : state.locked = true) :
    monitorStatement state .spinLock = .ok state := by
  obtain ⟨dev, timerHandler, io, ⟨handler, enqueued, finished⟩, locked, calls, exit⟩ := state
  cases running
  cases taken
  rfl

theorem cleanup_waits (phase : state.exit = .cleanup .spinLock) (taken : state.locked = true) :
    exitStatement state (.cleanup .spinLock) = .ok state := by
  obtain ⟨dev, timerHandler, io, monitor, locked, calls, exit⟩ := state
  cases phase
  cases taken
  rfl

/-- Each turn of code that gets on leaves less to do; each time the timer expires, there is
more to do by the statements of its handler and of the work that may follow. -/
theorem turn_falls (ending : Ending most nodes state) (taken : turn hz state action = .ok next)
    (on : GetsOn hz state action) (guarded' : Guarded next nodes') :
    nodes'.length ≤ nodes.length ∧ next.rank most nodes' + action.ofModule.toNat ≤
      state.rank most nodes + (10 * most + 21) * action.expires.toNat := by
  have moved (code : action.ofModule = true) : next ≠ state := by
    rintro rfl
    exact on code taken
  have counts (code : action.ofModule = true) (falls : nodes'.length ≤ nodes.length ∧
      next.rank most nodes' < state.rank most nodes) : nodes'.length ≤ nodes.length ∧
      next.rank most nodes' + action.ofModule.toNat ≤
        state.rank most nodes + (10 * most + 21) * action.expires.toNat := by
    rw [code, Bool.toNat_true]
    exact ⟨falls.1, Nat.le_add_right_of_le falls.2⟩
  cases action with
  | call cmd arg memory =>
    simp only [turn, ending.begun, if_false] at taken
    cases taken
    cases ending.guarded.same_nodes guarded' rfl
    exact ⟨Nat.le_refl _, Nat.le_add_right _ _⟩
  | inCall index =>
    simp only [turn, ending.calls, List.getElem?_nil] at taken
    cases taken
    exact absurd rfl (moved rfl)
  | expire =>
    simp only [turn] at taken
    split at taken <;> cases taken <;> cases ending.guarded.same_nodes guarded' rfl
    · rename_i due
      rw [Bool.and_eq_true, Option.isNone_iff_eq_none] at due
      refine ⟨Nat.le_refl _, ?_⟩
      simp only [Unloading.rank, due.2, Option.elim_some, Option.elim_none, TimerPc.rank, Deferred.delTimer,
        Turn.ofModule, Turn.expires, Bool.toNat_false, Bool.toNat_true]
      omega
    · exact ⟨Nat.le_refl _, Nat.le_add_right _ _⟩
  | inTimer =>
    simp only [turn] at taken
    split at taken <;> cases taken
    · exact absurd rfl (moved rfl)
    · rename_i pc running
      have same := (timerStatement_shared hz state pc).1
      cases ending.guarded.same_nodes guarded' (congrArg Prod.fst same)
      exact counts rfl ⟨Nat.le_refl _, timerStatement_falls running⟩
  | startIo =>
    simp only [turn] at taken
    split at taken <;> cases taken
    · rename_i due
      rw [Bool.and_eq_true, Option.isNone_iff_eq_none] at due
      cases ending.guarded.same_nodes guarded' rfl
      refine counts rfl ⟨Nat.le_refl _, ?_⟩
      simp only [Unloading.rank, due, Option.elim_some, Option.elim_none, IoPc.rank, cond_true, cond_false]
      omega
    · exact absurd rfl (moved rfl)
  | inIo =>
    simp only [turn] at taken
    split at taken <;> cases taken
    · exact absurd rfl (moved rfl)
    · rename_i pc running
      have same : (ioStatement state pc).dev.heap = state.dev.heap := by cases pc <;> rfl
      cases ending.guarded.same_nodes guarded' same
      exact counts rfl ⟨Nat.le_refl _, ioStatement_falls running⟩
  | startMonitor =>
    simp only [turn] at taken
    split at taken <;> cases taken
    · rename_i due
      rw [Bool.and_eq_true, Option.isNone_iff_eq_none] at due
      cases ending.guarded.same_nodes guarded' rfl
      have few := ending.few
      refine counts rfl ⟨Nat.le_refl _, ?_⟩
      simp only [Unloading.rank, due, Option.elim_some, Option.elim_none, LoopPc.rank, cond_true, cond_false]
      omega
    · exact absurd rfl (moved rfl)
  | inMonitor =>
    simp only [turn] at taken
    split at taken
    · cases taken
      exact absurd rfl (moved rfl)
    · rename_i pc running
      refine counts rfl (monitorStatement_falls ending running taken guarded' ?_)
      rintro rfl
      refine Bool.eq_false_iff.mpr fun held => moved rfl ?_
      exact Except.ok.inj (taken.symm.trans (monitor_waits running held))
  | inExit =>
    refine counts rfl (exitStatement_falls ending taken (moved rfl) guarded' fun phase => ?_)
    refine Bool.eq_false_iff.mpr fun held => moved rfl ?_
    rw [turn, phase] at taken
    exact Except.ok.inj (taken.symm.trans (cleanup_waits phase held))
  | unload =>
    simp only [turn, ending.begun, false_and, if_false] at taken
    cases taken
    cases ending.guarded.same_nodes guarded' rfl
    exact ⟨Nat.le_refl _, Nat.le_add_right _ _⟩
  | exit | assign | tick =>
    cases taken
    cases ending.guarded.same_nodes guarded' rfl
    exact ⟨Nat.le_refl _, Nat.le_add_right _ _⟩

theorem turn_begun (begun : state.exit ≠ .notStarted) (taken : turn hz state action = .ok next) :
    next.exit ≠ .notStarted := by
  by_cases inExit : action = .inExit
  · subst inExit
    rw [turn] at taken
    cases phase : state.exit with
    | notStarted => exact absurd phase begun
    | prInfo | cdevDel | unregisterChrdevRegion | flushIo | flushMonitor | returned =>
      rw [phase] at taken
      cases taken
      simp [phase]
    | delTimerSync | waitIo | waitMonitor =>
      rw [phase] at taken
      simp only [exitStatement] at taken
      split at taken <;> cases taken <;> simp [phase]
    | cleanup pc =>
      rw [phase] at taken
      obtain ⟨dev, locked, exit, rfl, -, ends⟩ := cleanup_frame taken
      rcases ends with rfl | ⟨pc, rfl⟩ <;> simp
  by_cases unload : action = .unload
  · subst unload
    simp only [turn, begun, false_and, if_false] at taken
    exact Except.ok.inj taken ▸ begun
  · exact (turn_harmless ⟨unload, inExit⟩ taken).exit ▸ begun

/-- No call is running any more. -/
theorem Ending.served (ending : Ending most nodes state) (action : Turn) : Served state action := by
  cases action with
  | inCall index =>
    intro pid memory found
    rw [ending.calls, List.getElem?_nil] at found
    cases found
  | call | expire | inTimer | startIo | inIo | startMonitor | inMonitor | unload | inExit | exit | assign
  | tick => trivial

theorem Ending.turn_ok (hz : UInt64) (ending : Ending most nodes state) (action : Turn) :
    ∃ next nodes', turn hz state action = .ok next ∧ Guarded next nodes' :=
  turn_safe ending.guarded (ending.served action)

/-- Nobody holds the lock that `monitor_work_handler` waits for. -/
theorem Ending.monitor_free {pc : LoopPc} (ending : Ending most nodes state)
    (running : state.monitor.running = some pc) (waits : pc = .spinLock) : state.locked = false := by
  have holders := ending.guarded.holders
  obtain ⟨-, -, outside⟩ := ending.exit_rank running nodes
  rw [Unloading.holders, ending.calls, running, outside, waits] at holders
  exact Bool.toNat_eq_zero.mp holders.symm

theorem Ending.cleanup_free (ending : Ending most nodes state) (phase : state.exit = .cleanup .spinLock) :
    state.locked = false := by
  have holders := ending.guarded.holders
  have reached := ending.orderly.reached
  rw [phase] at reached
  rw [Unloading.holders, ending.calls, reached.monitor, phase] at holders
  exact Bool.toNat_eq_zero.mp holders.symm

theorem Ending.moves {nodes' : List Ptr} (ending : Ending most nodes state) (guarded' : Guarded next nodes')
    (falls : next.rank most nodes' < state.rank most nodes) : next ≠ state := by
  rintro rfl
  cases ending.guarded.same_nodes guarded' rfl
  exact Nat.lt_irrefl _ falls

/-- Where an instance of a work item has yet to finish, it runs or is in the queue. -/
theorem unfinished {Pc : Type} {queued : Bool} {work : Work Pc} (accounted : Accounted queued work)
    (left : work.finished < work.enqueued) : work.running.isSome = true ∨ queued = true ∧ work.running = none := by
  unfold Accounted at accounted
  cases running : work.running with
  | some pc => exact .inl rfl
  | none =>
    rw [running] at accounted
    cases queued with
    | true => exact .inr ⟨rfl, rfl⟩
    | false =>
      simp only [Option.toList_none, List.length_nil, Bool.toNat_false] at accounted
      omega

/-- Some code of the module can get on. -/
def CanGoOn (hz : UInt64) (state : Unloading) : Prop :=
  ∃ action next, action.ofModule = true ∧ turn hz state action = .ok next ∧ next ≠ state

/-- A turn that leaves less to do, gets on. -/
theorem Ending.can_go_on (ending : Ending most nodes state) (action : Turn) (code : action.ofModule = true)
    (falls : ∀ next nodes', turn hz state action = .ok next → Guarded next nodes' →
      next.rank most nodes' < state.rank most nodes) : CanGoOn hz state := by
  obtain ⟨next, nodes', taken, guarded'⟩ := ending.turn_ok hz action
  exact ⟨action, next, code, taken, ending.moves guarded' (falls next nodes' taken guarded')⟩

/-- `deferred_exit` waits only for code that is not waiting itself. -/
theorem Ending.goes_on (hz : UInt64) (ending : Ending most nodes state) :
    state.exit = .returned ∨ CanGoOn hz state := by
  have exits (moved : ∀ next, exitStatement state state.exit = .ok next → next.exit ≠ state.exit) :
      CanGoOn hz state := by
    obtain ⟨next, nodes', taken, -⟩ := ending.turn_ok hz .inExit
    exact ⟨.inExit, next, rfl, taken, fun same => moved next taken (congrArg Unloading.exit same)⟩
  cases phase : state.exit with
  | notStarted => exact absurd phase ending.begun
  | returned => exact .inl rfl
  | prInfo | cdevDel | unregisterChrdevRegion | flushIo | flushMonitor =>
    refine .inr (exits fun next ran => ?_)
    rw [phase] at ran ⊢
    cases ran
    simp
  | delTimerSync =>
    right
    cases running : state.timerHandler with
    | some pc =>
      refine ending.can_go_on .inTimer rfl fun next nodes' taken guarded' => ?_
      simp only [turn, running] at taken
      cases taken
      cases ending.guarded.same_nodes guarded' (congrArg Prod.fst (timerStatement_shared hz state pc).1)
      exact timerStatement_falls running
    | none =>
      refine exits fun next ran => ?_
      rw [phase] at ran ⊢
      simp only [exitStatement, running, Option.isSome_none, Bool.false_eq_true, if_false] at ran
      cases ran
      simp
  | waitIo target =>
    right
    have reached := ending.orderly.reached
    rw [phase] at reached
    by_cases left : state.io.finished < target
    · rcases unfinished ending.orderly.io (reached.2 ▸ left) with runs | ⟨queued, idle⟩
      · obtain ⟨pc, running⟩ := Option.isSome_iff_exists.mp runs
        refine ending.can_go_on .inIo rfl fun next nodes' taken guarded' => ?_
        simp only [turn, running] at taken
        cases taken
        cases ending.guarded.same_nodes guarded' (by cases pc <;> rfl)
        exact ioStatement_falls running
      · have starts : turn hz state .startIo = .ok { state with
            dev := { state.dev with ioWork := false }
            io := { state.io with running := some .setCurrentState } } := by
          simp [turn, queued, idle]
        refine ⟨.startIo, _, rfl, starts, fun same => ?_⟩
        cases (congrArg (·.dev.ioWork) same).trans queued
    · refine exits fun next ran => ?_
      rw [phase] at ran ⊢
      simp only [exitStatement, left, if_false] at ran
      cases ran
      simp
  | waitMonitor target =>
    right
    have reached := ending.orderly.reached
    rw [phase] at reached
    by_cases left : state.monitor.finished < target
    · rcases unfinished ending.orderly.monitor (reached.2 ▸ left) with runs | ⟨queued, idle⟩
      · obtain ⟨pc, running⟩ := Option.isSome_iff_exists.mp runs
        refine ending.can_go_on .inMonitor rfl fun next nodes' taken guarded' => ?_
        simp only [turn, running] at taken
        exact (monitorStatement_falls ending running taken guarded' (ending.monitor_free running)).2
      · have starts : turn hz state .startMonitor = .ok { state with
            dev := { state.dev with monitorWork := false }
            monitor := { state.monitor with running := some .spinLock } } := by
          simp [turn, queued, idle]
        refine ⟨.startMonitor, _, rfl, starts, fun same => ?_⟩
        cases (congrArg (·.dev.monitorWork) same).trans queued
    · refine exits fun next ran => ?_
      rw [phase] at ran ⊢
      simp only [exitStatement, left, if_false] at ran
      cases ran
      simp
  | cleanup pc =>
    right
    refine ending.can_go_on .inExit rfl fun next nodes' taken guarded' => ?_
    rw [turn, phase] at taken
    exact (cleanup_falls ending phase taken guarded' fun waits =>
      ending.cleanup_free (by rw [phase, waits])).2

/-! ## Calls that got an error from `get_proc` -/

/-- The call is to link the error pointer that `get_proc` returned. -/
def CallPc.doomed : CallPc → Bool
  | .spinLock (.err _) | .listAdd (.err _) => true
  | _ => false

/-- Such a call is there, and will not come to its end. -/
structure Doomed (state : Unloading) : Prop where
  fresh : state.exit = .notStarted
  call : state.calls.any CallPc.doomed = true
  heap : ∀ errno, state.dev.heap.links (.err errno) = none

theorem loopStatement_dead {errno : Nat} (dead : dev.heap.links (.err errno) = none)
    (ran : loopStatement onlyDead dev locked pc = .ok (dev', locked', pc')) :
    dev'.heap.links (.err errno) = none := by
  cases pc with
  | spinLock | test | spinUnlock | «return» =>
    cases ran
    exact dead
  | first =>
    obtain ⟨pos, -, ran⟩ := bind_eq_ok.mp ran
    obtain ⟨n, -, ran⟩ := bind_eq_ok.mp ran
    cases ran
    exact dead
  | testDead | prInfo | putTaskStruct | advance =>
    obtain ⟨_, -, ran⟩ := bind_eq_ok.mp ran
    cases ran
    exact dead
  | listDel pos n =>
    obtain ⟨heap, unlinked, ran⟩ := bind_eq_ok.mp ran
    cases ran
    exact listDel_dead dead unlinked
  | kfree pos n =>
    obtain ⟨heap, freed, ran⟩ := bind_eq_ok.mp ran
    cases ran
    exact kfree_dead dead freed

theorem getProc_dead {errno : Nat} {pid : Int32} {memory : Option (Block Task)}
    (dead : dev.heap.links (.err errno) = none) (ran : getProc dev pid memory = .ok (dev', p)) :
    dev'.heap.links (.err errno) = none := by
  unfold getProc at ran
  cases known : dev.pids pid with
  | none =>
    rw [known] at ran
    cases ran
    exact dead
  | some task =>
    rw [known] at ran
    cases memory with
    | none =>
      cases ran
      exact dead
    | some block =>
      obtain ⟨heap, stored, rest⟩ := bind_eq_ok.mp ran
      cases rest
      unfold Heap.store at stored
      split at stored <;> cases stored
      simpa [Deferred.withHeap, Deferred.getTaskStruct, kmalloc] using dead

theorem callStatement_dead {errno : Nat} {call : CallPc} {later : Option CallPc}
    (dead : dev.heap.links (.err errno) = none)
    (ran : callStatement hz dev locked call = .ok (dev', locked', later)) :
    dev'.heap.links (.err errno) = none := by
  cases call with
  | setFlag | modTimer | delTimer | spinLock | spinUnlock =>
    cases ran
    exact dead
  | getProc pid memory =>
    obtain ⟨⟨dev, p⟩, got, rest⟩ := bind_eq_ok.mp ran
    cases rest
    exact getProc_dead dead got
  | listAdd p =>
    obtain ⟨heap, linked, rest⟩ := bind_eq_ok.mp ran
    cases rest
    exact listAdd_dead dead linked

/-- A doomed call stays doomed, as long as it runs. -/
theorem callStatement_doomed {call : CallPc} {later : Option CallPc}
    (dead : ∀ errno, dev.heap.links (.err errno) = none) (doomed : call.doomed = true)
    (ran : callStatement hz dev locked call = .ok (dev', locked', later)) : later.any CallPc.doomed = true := by
  unfold CallPc.doomed at doomed
  split at doomed
  · cases ran
    cases locked <;> rfl
  · rename_i errno
    obtain ⟨heap, linked, -⟩ := bind_eq_ok.mp ran
    rw [listAdd_of_dead (dead errno)] at linked
    cases linked
  · cases doomed

/-- No turn completes a doomed call. -/
theorem turn_doomed (doomed : Doomed state) (taken : turn hz state action = .ok next) : Doomed next := by
  obtain ⟨fresh, call, heap⟩ := doomed
  have shared (after : Unloading) (same : after.shared = state.shared) (exit : after.exit = state.exit) :
      Doomed after := by
    simp only [Unloading.shared, Prod.mk.injEq] at same
    obtain ⟨heaps, -, calls, -⟩ := same
    exact ⟨exit.trans fresh, by rw [calls, call], by rw [heaps]; exact heap⟩
  cases action with
  | call cmd arg memory =>
    rw [turn, if_pos fresh] at taken
    cases taken
    exact ⟨fresh, by rw [List.any_append, call, Bool.true_or], heap⟩
  | inCall index =>
    simp only [turn] at taken
    split at taken
    · cases taken
      exact ⟨fresh, call, heap⟩
    · rename_i pc found
      obtain ⟨front, back, calls, replaced, erased⟩ := calls_split found
      obtain ⟨⟨dev, locked, later⟩, ran, same⟩ := bind_eq_ok.mp taken
      cases same
      refine ⟨fresh, ?_, fun errno => callStatement_dead (heap errno) ran⟩
      have whole : (front ++ (later.toList ++ back)).any CallPc.doomed = true := by
        simp only [calls, List.any_append, List.any_cons, Bool.or_eq_true] at call ⊢
        rcases call with before | mine | after
        · exact .inl before
        · refine .inr (.inl ?_)
          have still := callStatement_doomed heap mine ran
          cases later with
          | none => cases still
          | some pc' => simpa using still
        · exact .inr (.inr after)
      cases later with
      | none => simpa [erased] using whole
      | some pc' => simpa [replaced] using whole
  | expire | startIo =>
    simp only [turn] at taken
    split at taken <;> cases taken <;> exact shared _ rfl rfl
  | startMonitor =>
    simp only [turn] at taken
    split at taken <;> cases taken <;> exact ⟨fresh, call, heap⟩
  | inTimer =>
    simp only [turn] at taken
    split at taken
    · cases taken
      exact shared _ rfl rfl
    · rename_i pc running
      cases taken
      exact shared _ (timerStatement_shared hz state pc).1 (timerStatement_shared hz state pc).2
  | inIo =>
    simp only [turn] at taken
    split at taken
    · cases taken
      exact shared _ rfl rfl
    · rename_i pc running
      cases taken
      cases pc <;> exact shared _ rfl rfl
  | inMonitor =>
    simp only [turn] at taken
    split at taken
    · cases taken
      exact shared _ rfl rfl
    · rcases monitorStatement_cases taken with ⟨-, rfl⟩ | ⟨-, dev, locked, later, ran, rfl⟩
      · exact ⟨fresh, call, heap⟩
      · exact ⟨fresh, call, fun errno => loopStatement_dead (heap errno) ran⟩
  | unload =>
    have busy : state.calls ≠ [] := by
      rintro none
      rw [none] at call
      cases call
    simp only [turn, busy, and_false, if_false] at taken
    cases taken
    exact ⟨fresh, call, heap⟩
  | inExit =>
    rw [turn, fresh] at taken
    cases taken
    exact ⟨fresh, call, heap⟩
  | exit | assign | tick =>
    cases taken
    exact shared _ rfl rfl

/-- A call that is not served becomes doomed. -/
theorem unserved_doomed (guarded : Guarded state nodes) (fresh : state.exit = .notStarted)
    (unserved : ¬ Served state action) (taken : turn hz state action = .ok next) : Doomed next := by
  cases action with
  | inCall index =>
    simp only [Served, not_forall] at unserved
    obtain ⟨pid, memory, found, missing⟩ := unserved
    obtain ⟨errno, got⟩ : ∃ errno, getProc state.dev pid memory = .ok (state.dev, .err errno) := by
      cases known : state.dev.pids pid with
      | none => exact ⟨_, by simp only [getProc, known]; rfl⟩
      | some task =>
        cases memory with
        | none => exact ⟨_, by simp only [getProc, known]; rfl⟩
        | some block => exact absurd ⟨by rw [known]; rfl, rfl⟩ missing
    obtain ⟨front, back, calls, replaced, -⟩ := calls_split found
    have linked : callStatement hz state.dev state.locked (.getProc pid memory) =
        .ok (state.dev, state.locked, some (.spinLock (.err errno))) := by
      rw [callStatement, got]
      rfl
    simp only [turn, found, linked, ok_bind, replaced] at taken
    cases taken
    exact ⟨fresh, by simp [CallPc.doomed], ring_err guarded.ring⟩
  | call | expire | inTimer | startIo | inIo | startMonitor | inMonitor | unload | inExit | exit | assign
  | tick => exact absurd trivial unserved

/-- In every run, the list is guarded or a call is doomed. -/
theorem run_guarded (hz jiffies : UInt64) (pids : Int32 → Option Task) (dead : Task → Bool) {turns : List Turn}
    (ran : run (turn hz) (atRest jiffies pids dead) turns = .ok state) :
    Orderly state ∧ ((∃ nodes, Guarded state nodes) ∨ Doomed state) := by
  refine run_invariant (fun state => Orderly state ∧ ((∃ nodes, Guarded state nodes) ∨ Doomed state)) ?_
    ⟨atRest_orderly jiffies pids dead, .inl ⟨[], atRest_guarded jiffies pids dead⟩⟩ ran
  rintro state action next ⟨orderly, ⟨nodes, guarded⟩ | doomed⟩ taken
  · refine ⟨turn_orderly orderly taken, ?_⟩
    by_cases served : Served state action
    · obtain ⟨after, nodes', taken', guarded'⟩ := turn_safe guarded served
      cases taken.symm.trans taken'
      exact .inl ⟨nodes', guarded'⟩
    · right
      by_cases fresh : state.exit = .notStarted
      · exact unserved_doomed guarded fresh served taken
      · have ending : Ending nodes.length nodes state := ⟨orderly, guarded, fresh, Nat.le_refl _⟩
        exact absurd (ending.served action) served
  · exact ⟨turn_orderly orderly taken, .inr (turn_doomed doomed taken)⟩

/-! ## The end -/

/-- **Unloading ends.** Whatever the timer, the work items and the calls were doing when
`deferred_exit` began, and however the processors take turns: until it returns, some code
of the module can get on, and all of it together gets on a bounded number of times for each
time that the timer expires. -/
theorem deferred_exit_ends (hz jiffies : UInt64) (pids : Int32 → Option Task) (dead : Task → Bool)
    (turns : List Turn) (state : Unloading)
    (ran : run (turn hz) (atRest jiffies pids dead) turns = .ok state) (begun : state.exit ≠ .notStarted) :
    ∃ bound, ∀ more final, Along (GetsOn hz) (turn hz) state more → run (turn hz) state more = .ok final →
      more.countP Turn.ofModule ≤ bound * (more.countP Turn.expires + 1) ∧
      (final.exit = .returned ∨ CanGoOn hz final) := by
  obtain ⟨orderly, held⟩ := run_guarded hz jiffies pids dead ran
  obtain ⟨nodes, guarded⟩ := held.resolve_right fun doomed => begun doomed.fresh
  have start : Ending nodes.length nodes state := ⟨orderly, guarded, begun, Nat.le_refl _⟩
  let left (rank : Nat) (state : Unloading) : Prop :=
    ∃ nodes', Ending nodes.length nodes' state ∧ state.rank nodes.length nodes' = rank
  have steps (rank : Nat) (state : Unloading) (action : Turn) (next : Unloading) (held : left rank state)
      (on : GetsOn hz state action) (taken : turn hz state action = .ok next) : ∃ rank', left rank' next ∧
      rank' + action.ofModule.toNat ≤ rank + (10 * nodes.length + 21) * action.expires.toNat := by
    obtain ⟨before, ending, rfl⟩ := held
    obtain ⟨next', after, taken', guarded'⟩ := ending.turn_ok hz action
    cases taken.symm.trans taken'
    obtain ⟨fewer, less⟩ := turn_falls ending taken on guarded'
    have ending' : Ending nodes.length after next :=
      ⟨turn_orderly ending.orderly taken, guarded', turn_begun ending.begun taken, fewer.trans ending.few⟩
    exact ⟨_, ⟨after, ending', rfl⟩, less⟩
  refine ⟨state.rank nodes.length nodes + (10 * nodes.length + 21), fun more final along ran' => ?_⟩
  obtain ⟨rank, ⟨nodes', ending, -⟩, bound⟩ := run_bounded left steps ⟨nodes, start, rfl⟩ along ran'
  refine ⟨?_, ending.goes_on hz⟩
  rw [Nat.mul_add, Nat.mul_one, Nat.add_mul]
  omega

/-- `deferred_exit` begins while the handler of the timer is about to queue the work. -/
def meetsHandler (memory : Option (Block Task)) : List Turn :=
  [.call myIoctlTimerMon 7 memory] ++ List.replicate 6 (.inCall 0) ++ [.expire] ++ List.replicate 4 .inTimer ++
    [.unload]

theorem deferred_exit_ends_after_handler : ∃ state,
    run (turn 250) (atRest 0 (fun _ => some 5) fun _ => false) (meetsHandler (some ⟨0, .null, .null⟩)) = .ok state ∧
    state.exit = .prInfo ∧ state.timerHandler = some .scheduleMonitor ∧
    ∃ bound, ∀ more final, Along (GetsOn 250) (turn 250) state more → run (turn 250) state more = .ok final →
      more.countP Turn.ofModule ≤ bound * (more.countP Turn.expires + 1) ∧
      (final.exit = .returned ∨ CanGoOn 250 final) := by
  obtain ⟨state, ran, begun, handler⟩ : ∃ state,
      run (turn 250) (atRest 0 (fun _ => some 5) fun _ => false) (meetsHandler (some ⟨0, .null, .null⟩)) =
        .ok state ∧
      state.exit = .prInfo ∧ state.timerHandler = some .scheduleMonitor := ⟨_, rfl, rfl, rfl⟩
  refine ⟨state, ran, begun, handler, ?_⟩
  exact deferred_exit_ends 250 0 _ _ _ state ran (by rw [begun]; simp)

end KernelLabs.DeferredUnload
