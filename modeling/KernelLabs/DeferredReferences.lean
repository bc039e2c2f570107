import KernelLabs.DeferredLifetimes
import KernelLabs.DeferredQuiescence
import KernelLabs.ReferenceCounts
import Mathlib.Data.Finset.Range

/-! The references of the deferred driver. Each entry on the list stands for one, from the
moment it is filled in to the one in which a loop gives the reference back; so the kernel
keeps what the loops read, and what a call has found it keeps only as long as the call is
inside its read-side critical section. -/
namespace KernelLabs.DeferredLifetimes
open LinuxList DeferredDriver DeferredUnload ReferenceCounts

variable {hz : UInt64} {state next : Lifetimes} {nodes : List Ptr} {index : Nat}

/-! ## References -/

/-- The entry whose reference a loop has given back. -/
def given : LoopPc → List Ptr
  | .listDel pos _ | .kfree pos _ => [pos]
  | _ => []

/-- The entries that no reference stands for. -/
def Lifetimes.unowned (state : Lifetimes) : List Ptr :=
  state.mons.flatMap MonPc.unset ++ (loops state.driver).flatMap given

/-- The references to the task that no entry stands for yet. -/
def Lifetimes.taken (state : Lifetimes) (task : Task) : Nat :=
  state.mons.countP fun pc => pc.taken = some task

/-- The entries that stand for a reference to the task, by the numbers of their blocks. -/
def holders (heap : Heap Task) (unowned : List Ptr) (task : Task) : Finset Nat :=
  (Finset.range heap.handedOut).filter fun number =>
    heap.entry (.slab number) = some task ∧ Ptr.slab number ∉ unowned

/-- The references are right. -/
def Lifetimes.Accounted (state : Lifetimes) : Prop :=
  Counted (holders state.driver.dev.heap state.unowned) state.taken state.driver.dev.refs

variable {heap heap' : Heap Task} {unowned unowned' : List Ptr} {task : Task} {pos : Ptr} {number : Nat}

theorem mem_holders : number ∈ holders heap unowned task ↔
    number < heap.handedOut ∧ heap.entry (.slab number) = some task ∧ Ptr.slab number ∉ unowned := by
  simp [holders]

/-- What was no holder becomes none, as long as its entry does not change. -/
theorem holders_subset (low : heap'.handedOut = heap.handedOut)
    (same : ∀ number, Ptr.slab number ∉ unowned' → heap'.entry (.slab number) = some task →
      heap.entry (.slab number) = some task ∧ Ptr.slab number ∉ unowned) :
    holders heap' unowned' task ⊆ holders heap unowned task := by
  intro number holds
  obtain ⟨inside, content, free⟩ := mem_holders.mp holds
  exact mem_holders.mpr ⟨low ▸ inside, same number free content⟩

/-! ## What the driver does to its references -/

/-- What a statement of a loop does to entries and references. -/
inductive LoopEffect (dev dev' : Deferred) : LoopPc → LoopPc → Prop
  | keeps {pc pc' : LoopPc} (entry : dev'.heap.entry = dev.heap.entry)
      (handedOut : dev'.heap.handedOut = dev.heap.handedOut) (refs : dev'.refs = dev.refs)
      (same : given pc' = given pc) : LoopEffect dev dev' pc pc'
  | puts {pos n : Ptr} {task : Task} (load : dev.heap.load pos = .ok task) (after : dev' = dev.putTaskStruct task) :
      LoopEffect dev dev' (.putTaskStruct pos n) (.listDel pos n)
  | frees {pos n : Ptr} (entry : dev'.heap.entry = Function.update dev.heap.entry pos none)
      (handedOut : dev'.heap.handedOut = dev.heap.handedOut) (refs : dev'.refs = dev.refs) :
      LoopEffect dev dev' (.kfree pos n) (.advance n)

theorem loopStatement_effect {onlyDead locked locked' : Bool} {dev dev' : Deferred} {pc pc' : LoopPc}
    (ran : loopStatement onlyDead dev locked pc = .ok (dev', locked', pc')) : LoopEffect dev dev' pc pc' := by
  cases pc with
  | spinLock =>
    cases ran
    cases locked <;> exact .keeps rfl rfl rfl rfl
  | test pos n =>
    cases ran
    refine .keeps rfl rfl rfl ?_
    split
    · rfl
    · cases onlyDead <;> rfl
  | spinUnlock | «return» =>
    cases ran
    exact .keeps rfl rfl rfl rfl
  | first =>
    obtain ⟨pos, -, ran⟩ := bind_eq_ok.mp ran
    obtain ⟨n, -, same⟩ := bind_eq_ok.mp ran
    cases same
    exact .keeps rfl rfl rfl rfl
  | testDead pos n =>
    obtain ⟨task, -, same⟩ := bind_eq_ok.mp ran
    cases same
    refine .keeps rfl rfl rfl ?_
    split <;> rfl
  | prInfo pos n | advance n =>
    obtain ⟨value, -, same⟩ := bind_eq_ok.mp ran
    cases same
    exact .keeps rfl rfl rfl rfl
  | putTaskStruct pos n =>
    obtain ⟨task, load, same⟩ := bind_eq_ok.mp ran
    cases same
    exact .puts load rfl
  | listDel pos n =>
    obtain ⟨heap, deleted, same⟩ := bind_eq_ok.mp ran
    cases same
    exact .keeps (listDel_blocks deleted).1 (listDel_blocks deleted).2 rfl rfl
  | kfree pos n =>
    obtain ⟨heap, released, same⟩ := bind_eq_ok.mp ran
    cases same
    unfold LinuxList.kfree at released
    split at released <;> cases released
    exact .frees rfl rfl rfl

/-- What the references of the driver depend on, and the numbers of processes. -/
def books (state : Unloading) :
    (Ptr → Option Task) × Nat × (Task → Int) × List Ptr × (Int32 → Option Task) :=
  (state.dev.heap.entry, state.dev.heap.handedOut, state.dev.refs, (loops state).flatMap given, state.dev.pids)

/-- What a turn of the driver does to them. -/
inductive Effect (before after : Unloading) : Prop
  | keeps (same : books after = books before)
  | loop {pc pc' : LoopPc} (front back : List LoopPc) (effect : LoopEffect before.dev after.dev pc pc')
      (running : loops before = front ++ pc :: back)
      (unowned : (loops after).flatMap given = front.flatMap given ++ given pc' ++ back.flatMap given)
      (pids : after.dev.pids = before.dev.pids)

theorem callStatement_books {dev dev' : Deferred} {locked locked' : Bool} {pc : CallPc} {later : Option CallPc}
    (ran : callStatement hz dev locked pc = .ok (dev', locked', later))
    (other : ∀ pid memory, pc ≠ .getProc pid memory) :
    dev'.heap.entry = dev.heap.entry ∧ dev'.heap.handedOut = dev.heap.handedOut ∧ dev'.refs = dev.refs ∧
      dev'.pids = dev.pids := by
  cases pc with
  | getProc pid memory => exact absurd rfl (other pid memory)
  | listAdd p =>
    obtain ⟨heap, linked, same⟩ := bind_eq_ok.mp ran
    cases same
    exact ⟨(listAdd_blocks linked).1, (listAdd_blocks linked).2, rfl, rfl⟩
  | setFlag | modTimer | delTimer | spinLock | spinUnlock =>
    cases ran
    exact ⟨rfl, rfl, rfl, rfl⟩

theorem monitorStatement_effect {before after : Unloading} {pc : LoopPc}
    (running : before.monitor.running = some pc) (ran : monitorStatement before pc = .ok after) :
    Effect before after := by
  rcases monitorStatement_cases ran with ⟨rfl, rfl⟩ | ⟨-, dev, locked, later, taken, rfl⟩
  · exact .keeps (by simp [books, loops, running, given])
  · refine .loop [] (exitLoops before.exit) (loopStatement_effect taken) ?_ ?_ ?_
    · simp [loops, running]
    · simp [loops]
    · rw [loopStatement_only taken]

theorem exitStatement_effect {before after : Unloading} (ran : exitStatement before before.exit = .ok after) :
    Effect before after := by
  cases phase : before.exit with
  | cleanup pc =>
    rw [phase] at ran
    rcases cleanup_cases ran with ⟨rfl, rfl⟩ | ⟨-, dev, locked, later, taken, rfl⟩
    · exact .keeps (by simp [books, loops, phase, exitLoops, given])
    · refine .loop before.monitor.running.toList [] (loopStatement_effect taken) ?_ ?_ ?_
      · simp [loops, phase, exitLoops]
      · simp [loops, exitLoops]
      · rw [loopStatement_only taken]
  | delTimerSync | waitIo | waitMonitor =>
    rw [phase] at ran
    simp only [exitStatement] at ran
    split at ran <;> cases ran <;> exact .keeps (by simp [books, loops, phase, exitLoops, given, Deferred.delTimer])
  | notStarted | prInfo | cdevDel | unregisterChrdevRegion | flushIo | flushMonitor | returned =>
    rw [phase] at ran
    cases ran
    exact .keeps (by simp [books, loops, phase, exitLoops])

theorem turn_effect {before after : Unloading} {action : DeferredUnload.Turn}
    (ran : turn hz before action = .ok after)
    (numbers : ∀ pid task, action ≠ .assign pid task)
    (calling : ∀ index, action = .inCall index → ∃ pc, before.calls[index]? = some pc ∧
      ∀ pid memory, pc ≠ .getProc pid memory) : Effect before after := by
  cases action with
  | call | expire | startIo =>
    simp only [turn] at ran
    split at ran <;> cases ran <;> exact .keeps rfl
  | inCall index =>
    obtain ⟨pc, here, other⟩ := calling index rfl
    simp only [turn, here] at ran
    obtain ⟨⟨dev, locked, later⟩, taken, same⟩ := bind_eq_ok.mp ran
    cases same
    obtain ⟨entry, handedOut, refs, pids⟩ := callStatement_books taken other
    exact .keeps (by simp only [books, entry, handedOut, refs, pids, loops])
  | inTimer =>
    simp only [turn] at ran
    split at ran
    · cases ran
      exact .keeps rfl
    · next pc running =>
      cases ran
      obtain ⟨_, _, _, _, _, _, same⟩ := timerStatement_touches hz before pc
      exact .keeps (by rw [same]; rfl)
  | inIo =>
    simp only [turn] at ran
    split at ran
    · cases ran
      exact .keeps rfl
    · next pc running =>
      cases pc <;> cases ran <;> exact .keeps rfl
  | startMonitor =>
    simp only [turn] at ran
    split at ran
    · next due =>
      simp only [Bool.and_eq_true, Option.isNone_iff_eq_none] at due
      cases ran
      exact .keeps (by simp [books, loops, due.2, given])
    · cases ran
      exact .keeps rfl
  | inMonitor =>
    simp only [turn] at ran
    split at ran
    · cases ran
      exact .keeps rfl
    · next pc running => exact monitorStatement_effect running ran
  | unload =>
    simp only [turn] at ran
    split at ran
    · next fresh =>
      cases ran
      exact .keeps (by simp [books, loops, fresh.1, exitLoops])
    · cases ran
      exact .keeps rfl
  | inExit => exact exitStatement_effect ran
  | assign pid task => exact absurd rfl (numbers pid task)
  | exit | tick =>
    cases ran
    exact .keeps rfl

/-! ## Cursors -/

/-- One loop at most holds the lock. -/
theorem loops_critical {before : Unloading} (guarded : Guarded before nodes) :
    (loops before).countP LoopPc.critical ≤ 1 := by
  have count := guarded.holders
  have one := Bool.toNat_le before.locked
  have monitor : before.monitor.running.toList.countP LoopPc.critical =
      (before.monitor.running.any LoopPc.critical).toNat := by
    cases before.monitor.running with
    | none => rfl
    | some pc => cases critical : pc.critical <;> simp [critical]
  have exit : (exitLoops before.exit).countP LoopPc.critical = before.exit.critical.toNat := by
    cases before.exit with
    | cleanup pc => cases critical : pc.critical <;> simp [exitLoops, ExitPc.critical, critical]
    | _ => rfl
  rw [loops, List.countP_append, monitor, exit]
  simp only [Unloading.holders] at count
  omega

theorem given_of_waiting {pc : LoopPc} (waits : pc.critical = false) : given pc = [] := by
  cases pc <;> first | rfl | cases waits

/-- While a loop holds the lock, no other one has given a reference back. -/
theorem others_given {before : Unloading} {pc : LoopPc} {front back : List LoopPc}
    (guarded : Guarded before nodes) (running : loops before = front ++ pc :: back)
    (critical : pc.critical = true) : front.flatMap given = [] ∧ back.flatMap given = [] := by
  have count := loops_critical guarded
  rw [running, List.countP_append, List.countP_cons_of_pos critical] at count
  have none : ∀ part : List LoopPc, part.countP LoopPc.critical = 0 → part.flatMap given = [] := by
    intro part none
    refine List.flatMap_eq_nil_iff.mpr fun pc member => given_of_waiting ?_
    simpa using List.countP_eq_zero.mp none pc member
  exact ⟨none front (by omega), none back (by omega)⟩

/-- What no loop has given back and no call still has to fill in stands for a reference. -/
theorem linked_unowned (guarded : Guarded state.whole nodes) (member : pos ∈ nodes)
    (kept : (loops state.driver).flatMap given = []) : pos ∉ state.unowned := by
  rw [Lifetimes.unowned, kept, List.append_nil, ← stands_loose]
  intro unset
  have distinct := (List.nodup_cons.mp guarded.ring.distinct).2
  refine (List.nodup_append.mp distinct).2.2 pos member pos ?_ rfl
  simp only [Unloading.loose, Lifetimes.whole, List.flatMap_append, List.mem_append]
  exact .inl (.inl (.inr unset))

theorem cursor_linked {before : Unloading} {pc : LoopPc} (guarded : Guarded before nodes)
    (running : pc ∈ loops before) (cursor : pos ∈ reads pc) :
    pos ∈ nodes ∧ pc.critical = true ∧ given pc = [] := by
  have within : pc.Within nodes := by
    rcases List.mem_append.mp running with inMonitor | inExit
    · exact guarded.monitor pc (Option.mem_toList.mp inMonitor)
    · cases phase : before.exit with
      | cleanup pc' =>
        rw [phase] at inExit
        obtain rfl := List.mem_singleton.mp inExit
        exact guarded.exit pc phase
      | _ => simp [phase, exitLoops] at inExit
  cases pc <;> cases cursor <;> exact ⟨within.1, rfl, rfl⟩

/-- The entry at the cursor of a loop stands for a reference. -/
theorem cursor_holds {pc : LoopPc} (guarded : Guarded state.whole nodes) (running : pc ∈ loops state.driver)
    (cursor : pos ∈ reads pc) (load : state.driver.dev.heap.load pos = .ok task) :
    ∃ number, pos = .slab number ∧ number ∈ holders state.driver.dev.heap state.unowned task := by
  have same : loops state.whole = loops state.driver := rfl
  obtain ⟨member, critical, mine⟩ := cursor_linked guarded (same ▸ running) cursor
  obtain ⟨front, back, split⟩ := List.append_of_mem running
  obtain ⟨before, after⟩ := others_given guarded (same.trans split) critical
  have free : pos ∉ state.unowned := by
    refine linked_unowned guarded member ?_
    rw [split, List.flatMap_append, List.flatMap_cons, before, after, mine]
    rfl
  obtain ⟨number, low, rfl⟩ := (guarded.ring.issued pos).mpr (.inl member)
  refine ⟨number, rfl, mem_holders.mpr ⟨low, ?_, free⟩⟩
  unfold Heap.load at load
  split at load
  · next found =>
    cases load
    exact found
  · cases load

/-! ## The references stay right -/

theorem accounted_of_same (accounted : state.Accounted)
    (entry : next.driver.dev.heap.entry = state.driver.dev.heap.entry)
    (handedOut : next.driver.dev.heap.handedOut = state.driver.dev.heap.handedOut)
    (refs : next.driver.dev.refs = state.driver.dev.refs) (unowned : next.unowned = state.unowned)
    (taken : ∀ task, next.taken task = state.taken task) : next.Accounted := by
  have pending : next.taken = state.taken := funext taken
  have holding : holders next.driver.dev.heap state.unowned = holders state.driver.dev.heap state.unowned := by
    funext task
    simp only [holders, entry, handedOut]
  rw [Lifetimes.Accounted, unowned, holding, refs, pending]
  exact accounted

/-- An entry gives its reference back. -/
theorem accounted_put {driver : Unloading} (accounted : state.Accounted)
    (holds : number ∈ holders state.driver.dev.heap state.unowned task)
    (after : driver.dev = state.driver.dev.putTaskStruct task)
    (grows : ∀ p, p = .slab number ∨ p ∈ state.unowned → p ∈ ({ state with driver } : Lifetimes).unowned) :
    ({ state with driver } : Lifetimes).Accounted := by
  have heap : driver.dev.heap = state.driver.dev.heap := by rw [after, Deferred.putTaskStruct]
  have refs : driver.dev.refs =
      Function.update state.driver.dev.refs task (state.driver.dev.refs task - 1) := by
    rw [after, Deferred.putTaskStruct]
  have fewer : ∀ other, holders driver.dev.heap ({ state with driver } : Lifetimes).unowned other ⊆
      holders state.driver.dev.heap state.unowned other := by
    intro other
    rw [heap]
    exact holders_subset rfl fun number free content => ⟨content, fun held => free (grows _ (.inr held))⟩
  rw [Lifetimes.Accounted, refs]
  refine accounted.put holds (fun other inside => ?_) fun other _ => fewer other
  refine Finset.mem_erase.mpr ⟨?_, fewer task inside⟩
  rintro rfl
  exact (mem_holders.mp inside).2.2 (grows _ (.inl rfl))

/-- An entry without a reference is freed. -/
theorem accounted_kfree {driver : Unloading} (accounted : state.Accounted)
    (entry : driver.dev.heap.entry = Function.update state.driver.dev.heap.entry pos none)
    (handedOut : driver.dev.heap.handedOut = state.driver.dev.heap.handedOut)
    (refs : driver.dev.refs = state.driver.dev.refs)
    (shrinks : ∀ p, p ∈ state.unowned → p = pos ∨ p ∈ ({ state with driver } : Lifetimes).unowned) :
    ({ state with driver } : Lifetimes).Accounted := by
  rw [Lifetimes.Accounted, refs]
  refine accounted.mono fun task => holders_subset handedOut fun number free content => ?_
  have apart : Ptr.slab number ≠ pos := by
    intro same
    rw [entry, same, Function.update_self] at content
    cases content
  rw [entry, Function.update_of_ne apart] at content
  exact ⟨content, fun held => (shrinks _ held).elim apart free⟩

/-- `put_task_struct` takes no reference. -/
theorem put_refs (dev : Deferred) (task other : Task) : (dev.putTaskStruct task).refs other ≤ dev.refs other := by
  simp only [Deferred.putTaskStruct]
  by_cases same : other = task
  · subst same
    rw [Function.update_self]
    omega
  · rw [Function.update_of_ne same]

/-- A turn of the driver keeps the references right, and takes none. -/
theorem effect_accounted {driver : Unloading} (guarded : Guarded state.whole nodes)
    (accounted : state.Accounted) (effect : Effect state.driver driver) :
    ({ state with driver } : Lifetimes).Accounted ∧
      (∀ task, driver.dev.refs task ≤ state.driver.dev.refs task) ∧
      driver.dev.pids = state.driver.dev.pids := by
  cases effect with
  | keeps same =>
    simp only [books, Prod.mk.injEq] at same
    obtain ⟨entry, handedOut, refs, returned, pids⟩ := same
    refine ⟨accounted_of_same accounted entry handedOut refs ?_ fun _ => rfl, fun task => by rw [refs], pids⟩
    simp only [Lifetimes.unowned, returned]
  | @loop pc pc' front back effect running unowned pids =>
    have split : state.unowned = state.mons.flatMap MonPc.unset ++
        (front.flatMap given ++ (given pc ++ back.flatMap given)) := by
      rw [Lifetimes.unowned, running, List.flatMap_append, List.flatMap_cons]
    have split' : ({ state with driver } : Lifetimes).unowned = state.mons.flatMap MonPc.unset ++
        (front.flatMap given ++ given pc' ++ back.flatMap given) := by
      rw [Lifetimes.unowned, unowned]
    cases effect with
    | keeps entry handedOut refs same =>
      refine ⟨accounted_of_same accounted entry handedOut refs ?_ fun _ => rfl, fun task => by rw [refs], pids⟩
      rw [split, split', same, List.append_assoc]
    | @puts pos n task load after =>
      obtain ⟨number, rfl, holds⟩ := cursor_holds guarded (running ▸ List.mem_append_cons_self) rfl load
      refine ⟨accounted_put accounted holds after fun p => ?_, fun other => ?_, pids⟩
      · simp only [split, split', given, List.mem_append, List.mem_cons, List.not_mem_nil]
        tauto
      · rw [after]
        exact put_refs state.driver.dev task other
    | @frees pos n entry handedOut refs =>
      refine ⟨accounted_kfree accounted entry handedOut refs fun p => ?_, fun task => by rw [refs], pids⟩
      simp only [split, split', given, List.mem_append, List.mem_cons, List.not_mem_nil]
      tauto

/-- A call in `get_proc` moves on without touching its block or its reference. -/
theorem accounted_silent {front back : List MonPc} {pc pc' : MonPc} {locked : Bool}
    (accounted : state.Accounted) (mons : state.mons = front ++ pc :: back) (unset : pc'.unset = pc.unset)
    (taken : pc'.taken = pc.taken) :
    ({ state with driver := { state.driver with locked }, mons := front ++ pc' :: back } : Lifetimes).Accounted :=
  accounted_of_same accounted rfl rfl rfl (by simp [Lifetimes.unowned, mons, unset, loops]) fun task => by
    simp [Lifetimes.taken, mons, List.countP_cons, taken]

/-- A fresh block stands for nothing until it is filled in. -/
theorem accounted_kmalloc {front back : List MonPc} (accounted : state.Accounted) (block : Block Task)
    (mons : state.mons = front ++ .kmalloc task (some block) :: back)
    (dev : next.driver.dev = state.driver.dev.withHeap (LinuxList.kmalloc state.driver.dev.heap (some block)).1)
    (running : loops next.driver = loops state.driver)
    (mons' : next.mons = front ++ .getTaskStruct task (.slab state.driver.dev.heap.handedOut) :: back) :
    next.Accounted := by
  have sent : next.taken = state.taken := by
    funext other
    simp [Lifetimes.taken, mons, mons', MonPc.taken]
  have grows : ∀ p, p = .slab state.driver.dev.heap.handedOut ∨ p ∈ state.unowned → p ∈ next.unowned := by
    intro p
    simp only [Lifetimes.unowned, mons, mons', running, List.flatMap_append, List.flatMap_cons, MonPc.unset,
      List.mem_append, List.mem_cons, List.not_mem_nil]
    tauto
  rw [Lifetimes.Accounted, sent, dev]
  refine accounted.mono fun other number holds => ?_
  obtain ⟨low, content, free⟩ := mem_holders.mp holds
  have apart : Ptr.slab number ≠ .slab state.driver.dev.heap.handedOut := fun same => free (grows _ (.inl same))
  have old : number < state.driver.dev.heap.handedOut := by
    have inside : number < state.driver.dev.heap.handedOut + 1 := low
    have other : number ≠ state.driver.dev.heap.handedOut := fun same => apart (congrArg Ptr.slab same)
    omega
  refine mem_holders.mpr ⟨old, ?_, fun held => free (grows _ (.inr held))⟩
  simpa [Deferred.withHeap, LinuxList.kmalloc, Function.update_of_ne apart] using content

/-- A reference is taken that has no entry yet. -/
theorem accounted_get {front back : List MonPc} {p : Ptr} (accounted : state.Accounted)
    (mons : state.mons = front ++ .getTaskStruct task p :: back)
    (dev : next.driver.dev = state.driver.dev.getTaskStruct task)
    (running : loops next.driver = loops state.driver)
    (mons' : next.mons = front ++ .setTask task p :: back) : next.Accounted := by
  have unowned : next.unowned = state.unowned := by
    simp [Lifetimes.unowned, mons, mons', running, MonPc.unset]
  rw [Lifetimes.Accounted, unowned, dev]
  refine accounted.get task fun other => ?_
  simp only [Lifetimes.taken, mons, mons', List.countP_append, List.countP_cons, MonPc.taken]
  by_cases same : other = task
  · simp [same]
    omega
  · simp [same, Ne.symm same]

/-- The reference that was taken goes into its entry. -/
theorem accounted_store {front back : List MonPc} {p : Ptr} (accounted : state.Accounted)
    (mons : state.mons = front ++ .setTask task p :: back) (mine : p = .slab number)
    (stored : state.driver.dev.heap.store p task = .ok heap)
    (dev : next.driver.dev = state.driver.dev.withHeap heap) (running : loops next.driver = loops state.driver)
    (mons' : next.mons = front ++ back) : next.Accounted := by
  have shrinks : ∀ q, q ∈ state.unowned → q = p ∨ q ∈ next.unowned := by
    intro q
    simp only [Lifetimes.unowned, mons, mons', running, List.flatMap_append, List.flatMap_cons, MonPc.unset,
      List.mem_append, List.mem_cons, List.not_mem_nil]
    tauto
  have written : heap.entry = Function.update state.driver.dev.heap.entry p (some task) ∧
      heap.handedOut = state.driver.dev.heap.handedOut := by
    unfold Heap.store at stored
    split at stored <;> cases stored
    exact ⟨rfl, rfl⟩
  have before : ∀ other k, k ∈ holders heap next.unowned other → k ≠ number →
      k ∈ holders state.driver.dev.heap state.unowned other := by
    intro other k holds apart
    obtain ⟨low, content, free⟩ := mem_holders.mp holds
    have apart' : Ptr.slab k ≠ p := by
      rw [mine]
      exact fun same => apart (by cases same; rfl)
    rw [written.1, Function.update_of_ne apart'] at content
    exact mem_holders.mpr ⟨written.2 ▸ low, content, fun held => (shrinks _ held).elim apart' free⟩
  rw [Lifetimes.Accounted, dev]
  refine accounted.arrive number task (fun other => ?_) (fun k holds => ?_) fun other apart k holds => ?_
  · simp only [Lifetimes.taken, mons, mons', List.countP_append, List.countP_cons, MonPc.taken]
    by_cases same : other = task
    · simp [same]
      omega
    · simp [same, Ne.symm same]
  · by_cases same : k = number
    · subst same
      exact Finset.mem_insert_self k _
    · exact Finset.mem_insert_of_mem (before task k holds same)
  · refine before other k holds ?_
    rintro rfl
    have content := (mem_holders.mp holds).2.1
    rw [Deferred.withHeap, written.1, mine, Function.update_self] at content
    exact apart (Option.some.inj content).symm

/-! ## What every turn keeps -/

/-- A task that is freed has no number, no reference and no call that is about to take one. -/
structure Alive (state : Lifetimes) : Prop where
  guarded : ∃ nodes, Guarded state.whole nodes
  accounted : state.Accounted
  gone : ∀ task, state.freed task = true → state.released task = true
  unnamed : ∀ pid task, state.driver.dev.pids pid = some task → state.released task = false
  unreferenced : ∀ task, state.freed task = true → state.driver.dev.refs task ≤ 0
  found : ∀ pc ∈ state.mons, ∀ task ∈ pc.found, state.freed task = false

theorem alive_sound (alive : Alive state) : Sound state where
  taken task p standing := alive.found _ standing task rfl
  read pc running pos cursor task load := by
    obtain ⟨nodes, guarded⟩ := alive.guarded
    obtain ⟨number, rfl, holds⟩ := cursor_holds guarded running cursor load
    have positive := alive.accounted.positive holds
    cases freed : state.freed task with
    | false => rfl
    | true =>
      have none := alive.unreferenced task freed
      omega

theorem driver_alive {action : DeferredUnload.Turn} (alive : Alive state)
    (ran : lifeTurn hz state (.driver action) = .ok next) : Alive next := by
  obtain ⟨⟨nodes, guarded⟩, accounted, gone, unnamed, unreferenced, found⟩ := alive
  have guarded' := driver_guarded guarded ran
  rcases driver_turn ran with rfl | ⟨index, pid, memory, -, -, rfl⟩ |
    ⟨driver, taken, rfl, -, assigned, calling⟩
  · exact ⟨guarded', accounted, gone, unnamed, unreferenced, found⟩
  · refine ⟨guarded', ?_, gone, unnamed, unreferenced, ?_⟩
    · exact accounted_of_same accounted rfl rfl rfl (by simp [Lifetimes.unowned, MonPc.unset, loops])
        fun task => by simp [Lifetimes.taken, MonPc.taken]
    · simp only [List.forall_mem_append, List.forall_mem_singleton]
      exact ⟨found, fun task looked => by cases looked⟩
  · by_cases numbers : ∃ pid task, action = .assign pid task
    · obtain ⟨pid, task, rfl⟩ := numbers
      cases taken
      refine ⟨guarded', accounted, gone, fun pid' task' named => ?_, unreferenced, found⟩
      by_cases same : pid' = pid
      · subst same
        simp only [Function.update_self] at named
        exact assigned pid' task' (by rw [named])
      · simp only [Function.update_of_ne same] at named
        exact unnamed pid' task' named
    · have effect := turn_effect taken (fun pid task same => numbers ⟨pid, task, same⟩) calling
      obtain ⟨right, fewer, pids⟩ := effect_accounted guarded accounted effect
      refine ⟨guarded', right, gone, fun pid task named => ?_, fun task freed => ?_, found⟩
      · exact unnamed pid task (pids ▸ named)
      · exact (fewer task).trans (unreferenced task freed)

theorem inMon_alive (alive : Alive state) (ran : lifeTurn hz state (.inMon index) = .ok next) : Alive next := by
  obtain ⟨⟨nodes, guarded⟩, accounted, gone, unnamed, unreferenced, found⟩ := alive
  have guarded' := inMon_guarded guarded ran
  rcases inMon_turn ran with rfl | ⟨front, pc, back, dev, locked, later, mons, taken, moved⟩
  · exact ⟨⟨nodes, guarded⟩, accounted, gone, unnamed, unreferenced, found⟩
  have replaced : ∀ pc' : MonPc, (∀ task ∈ pc'.found, state.freed task = false) →
      ∀ pc ∈ front ++ pc' :: back, ∀ task ∈ pc.found, state.freed task = false := by
    intro pc' fresh
    rw [mons] at found
    simp only [List.forall_mem_append, List.forall_mem_cons] at found ⊢
    exact ⟨found.1, fresh, found.2.2⟩
  cases pc with
  | rcuReadLock pid memory =>
    cases taken
    obtain ⟨pc', same, rfl⟩ | ⟨call, same, -⟩ := moved <;> cases same
    exact ⟨⟨nodes, guarded'⟩, accounted_silent accounted mons rfl rfl, gone, unnamed, unreferenced,
      replaced _ fun task looked => by cases looked⟩
  | pidTask pid memory =>
    cases taken
    obtain ⟨pc', same, rfl⟩ | ⟨call, same, -⟩ := moved <;> cases same
    refine ⟨⟨nodes, guarded'⟩, accounted_silent accounted mons rfl rfl, gone, unnamed, unreferenced,
      replaced _ fun task looked => ?_⟩
    have here := unnamed pid task looked
    cases freed : state.freed task with
    | false => rfl
    | true => rw [gone task freed] at here; cases here
  | rcuReadUnlock task memory =>
    have still : ∀ task' ∈ task, state.freed task' = false :=
      found (.rcuReadUnlock task memory) (by simp [mons])
    cases task with
    | none =>
      cases taken
      obtain ⟨pc', same, rfl⟩ | ⟨call, same, -⟩ := moved <;> cases same
      exact ⟨⟨nodes, guarded'⟩, accounted_silent accounted mons rfl rfl, gone, unnamed, unreferenced,
        replaced _ fun task looked => by cases looked⟩
    | some task =>
      cases taken
      obtain ⟨pc', same, rfl⟩ | ⟨call, same, -⟩ := moved <;> cases same
      refine ⟨⟨nodes, guarded'⟩, accounted_silent accounted mons rfl rfl, gone, unnamed, unreferenced,
        replaced _ fun task' looked => still task' ?_⟩
      obtain ⟨block, -, same⟩ := Option.map_eq_some_iff.mp looked
      exact congrArg some same
  | kmalloc task memory =>
    cases taken
    obtain ⟨pc', same, rfl⟩ | ⟨call, same, -⟩ := moved <;> cases same
    cases memory with
    | none =>
      exact ⟨⟨nodes, guarded'⟩, accounted_silent accounted mons rfl rfl, gone, unnamed, unreferenced,
        replaced _ fun task looked => by cases looked⟩
    | some block =>
      have still : state.freed task = false := found (.kmalloc task (some block)) (by simp [mons]) task rfl
      refine ⟨⟨nodes, guarded'⟩, accounted_kmalloc accounted block mons rfl rfl rfl, gone, unnamed,
        unreferenced, replaced _ fun task' looked => ?_⟩
      cases looked
      exact still
  | getTaskStruct task p =>
    have still : state.freed task = false := found (.getTaskStruct task p) (by simp [mons]) task rfl
    cases taken
    obtain ⟨pc', same, rfl⟩ | ⟨call, same, -⟩ := moved <;> cases same
    refine ⟨⟨nodes, guarded'⟩, accounted_get accounted mons rfl rfl rfl, gone, unnamed,
      fun task' freed => ?_, replaced _ fun task' looked => ?_⟩
    · have apart : task' ≠ task := by
        rintro rfl
        rw [still] at freed
        cases freed
      simp only [Deferred.getTaskStruct, Function.update_of_ne apart]
      exact unreferenced task' freed
    · cases looked
  | setTask task p =>
    obtain ⟨heap, stored, same⟩ := bind_eq_ok.mp taken
    cases same
    obtain ⟨pc', same, -⟩ | ⟨call, same, rfl⟩ := moved <;> cases same
    refine ⟨⟨nodes, guarded'⟩, ?_, gone, unnamed, unreferenced, fun pc member => found pc ?_⟩
    · have mine : p ∈ state.whole.loose := by
        simp [Lifetimes.whole, Unloading.loose, mons, MonPc.stands, CallPc.loose]
      obtain ⟨number, -, slab⟩ := (guarded.ring.issued p).mpr (.inr (.inl mine))
      exact accounted_store accounted mons slab stored rfl rfl rfl
    · rw [mons]
      simp only [List.mem_append, List.mem_cons] at member ⊢
      tauto
  | spinLock error =>
    cases taken
    obtain ⟨pc', same, rfl⟩ | ⟨call, same, -⟩ := moved <;> cases same
    have unset : (if state.driver.locked then MonPc.spinLock error else .listAdd error).unset = [] := by
      split <;> rfl
    have untaken : (if state.driver.locked then MonPc.spinLock error else .listAdd error).taken = none := by
      split <;> rfl
    refine ⟨⟨nodes, guarded'⟩, accounted_silent accounted mons unset untaken, gone, unnamed, unreferenced,
      replaced _ fun task looked => ?_⟩
    split at looked <;> cases looked
  | listAdd error =>
    obtain ⟨heap, linked, -⟩ := bind_eq_ok.mp taken
    have ring : Ring state.driver.dev.heap processList nodes _ := guarded.ring
    rw [listAdd_of_dead (ring_err ring error)] at linked
    cases linked

theorem release_alive (alive : Alive state) (ran : lifeTurn hz state (.release task) = .ok next) :
    Alive next := by
  obtain ⟨⟨nodes, guarded⟩, accounted, gone, unnamed, unreferenced, found⟩ := alive
  simp only [lifeTurn] at ran
  split at ran
  · cases ran
    refine ⟨⟨nodes, guarded.of_same rfl rfl⟩, accounted, fun other freed => ?_, fun pid other named => ?_,
      unreferenced, found⟩
    · by_cases same : other = task
      · subst same
        exact Function.update_self other true state.released
      · exact (Function.update_of_ne same true state.released).trans (gone other freed)
    · simp only at named
      split at named
      · cases named
      · next apart =>
        have other : other ≠ task := fun same => apart (same ▸ named)
        exact (Function.update_of_ne other true state.released).trans (unnamed pid _ named)
  · cases ran
    exact ⟨⟨nodes, guarded⟩, accounted, gone, unnamed, unreferenced, found⟩

theorem free_alive (alive : Alive state) (kept : Kept state (.free task))
    (ran : lifeTurn hz state (.free task) = .ok next) : Alive next := by
  obtain ⟨⟨nodes, guarded⟩, accounted, gone, unnamed, unreferenced, found⟩ := alive
  simp only [lifeTurn] at ran
  split at ran
  · next allowed =>
    cases ran
    have apart := kept allowed
    simp only [freeable, Bool.and_eq_true, decide_eq_true_eq] at allowed
    obtain ⟨⟨released, none⟩, -⟩ := allowed
    have earlier : ∀ other, other ≠ task → Function.update state.freed task true other = state.freed other :=
      fun other same => Function.update_of_ne same true state.freed
    refine ⟨⟨nodes, guarded⟩, accounted, fun other freed => ?_, unnamed, fun other freed => ?_,
      fun pc member other looked => ?_⟩
    · by_cases same : other = task
      · exact same ▸ released
      · exact gone other ((earlier other same).symm.trans freed)
    · by_cases same : other = task
      · exact same ▸ none
      · exact unreferenced other ((earlier other same).symm.trans freed)
    · have same : other ≠ task := by
        rintro rfl
        exact apart pc member looked
      exact (earlier other same).trans (found pc member other looked)
  · cases ran
    exact ⟨⟨nodes, guarded⟩, accounted, gone, unnamed, unreferenced, found⟩

theorem lifeTurn_alive {action : LifeTurn} (alive : Alive state) (kept : Kept state action)
    (ran : lifeTurn hz state action = .ok next) : Alive next := by
  cases action with
  | driver action => exact driver_alive alive ran
  | inMon index => exact inMon_alive alive ran
  | release task => exact release_alive alive ran
  | free task => exact free_alive alive kept ran

theorem atRest_alive (jiffies : UInt64) (pids : Int32 → Option Task) (dead : Task → Bool) :
    Alive (atRest jiffies pids dead) where
  guarded := ⟨[], atRest_guarded jiffies pids dead⟩
  accounted task := by simp [atRest, DeferredUnload.atRest, loaded, Heap.init, holders, Lifetimes.taken]
  gone _ freed := freed
  unnamed _ _ _ := rfl
  unreferenced _ _ := le_rfl
  found _ member := by cases member

/-- **Watched processes.** Suppose no `task_struct` is freed while a call has left its
read-side critical section with it and has not yet taken its reference. Then in every state
that any run leads to, no call takes a reference to a `task_struct` that is freed, and
neither `monitor_work_handler` nor `deferred_exit` reads one. -/
theorem watched_tasks_stay (hz jiffies : UInt64) (pids : Int32 → Option Task) (dead : Task → Bool)
    (turns : List LifeTurn) (final : Lifetimes)
    (kept : Along Kept (lifeTurn hz) (atRest jiffies pids dead) turns)
    (ran : run (lifeTurn hz) (atRest jiffies pids dead) turns = .ok final) : Sound final := by
  refine alive_sound (along_invariant Alive (fun state action next alive kept taken => ?_)
    (atRest_alive jiffies pids dead) kept ran)
  exact lifeTurn_alive alive kept taken

instance (state : Lifetimes) : (action : LifeTurn) → Decidable (Kept state action)
  | .free task =>
    inferInstanceAs (Decidable (freeable state task = true → ∀ pc ∈ state.mons, pc.found ≠ some task))
  | .driver _ | .inMon _ | .release _ => isTrue trivial

/-- Process 3 has number 7. -/
def processes (pid : Int32) : Option Task := if pid = 7 then some 3 else none

/-- A process is watched, exits, and is read by `monitor_work_handler`. -/
def watched : List LifeTurn :=
  [.driver (.call myIoctlTimerMon 7 (some ⟨0, ⟨.null, .null⟩⟩)), .driver (.inCall 0)] ++
    List.replicate 6 (.inMon 0) ++ List.replicate 5 (.driver (.inCall 0)) ++
    [.driver (.exit 3), .release 3, .free 3, .driver .expire] ++ List.replicate 7 (.driver .inTimer) ++
    .driver .startMonitor :: List.replicate 4 (.driver .inMonitor)

theorem watched_tasks_stay_read :
    ∃ final, run (lifeTurn 250) (atRest 0 processes fun _ => false)
      watched = .ok final ∧ final.released 3 = true ∧
      final.driver.monitor.running = some (.prInfo (.slab 0) processList) ∧ Sound final :=
  ⟨_, rfl, rfl, rfl, watched_tasks_stay 250 0 processes (fun _ => false) watched _ (by decide) rfl⟩

/-- That is exactly when it goes wrong: after any other such free, the call may come to take
its reference. -/
theorem unkept_free_unsound (hz : UInt64) (freeable : freeable state task = true)
    (unkept : ¬ Kept state (.free task)) :
    ∃ more final, run (lifeTurn hz) state (.free task :: more) = .ok final ∧ ¬ Sound final := by
  simp only [Kept, Classical.not_imp, not_forall, not_not] at unkept
  obtain ⟨-, pc, member, looked⟩ := unkept
  let freed : Lifetimes := { state with freed := Function.update state.freed task true }
  have taken : lifeTurn hz state (.free task) = .ok freed := by simp [lifeTurn, freeable, freed]
  have gone : freed.freed task = true := Function.update_self task true state.freed
  cases pc with
  | rcuReadUnlock found memory =>
    simp only [DeferredLifetimes.freeable, Bool.and_eq_true, Bool.not_eq_true', List.any_eq_false] at freeable
    exact absurd rfl (freeable.2 _ member)
  | kmalloc other memory =>
    obtain ⟨block, rfl, rfl⟩ := Option.map_eq_some_iff.mp looked
    obtain ⟨index, here⟩ := List.getElem?_of_mem member
    let p : Ptr := .slab state.driver.dev.heap.handedOut
    have standing : MonPc.getTaskStruct other p ∈ state.mons.set index (.getTaskStruct other p) := by
      have inside : index < state.mons.length := (List.getElem?_eq_some_iff.mp here).1
      exact List.mem_set inside _
    let after : Lifetimes := { freed with
      driver := { freed.driver with
        dev := freed.driver.dev.withHeap (LinuxList.kmalloc freed.driver.dev.heap (some block)).1 }
      mons := state.mons.set index (.getTaskStruct other p) }
    have allocated : lifeTurn hz freed (.inMon index) = .ok after := by
      simp only [lifeTurn, freed, here, monStatement]
      rfl
    refine ⟨[.inMon index], after, by rw [run_cons, taken, ok_bind, run_cons, allocated, ok_bind, run_nil],
      fun sound => ?_⟩
    have safe : freed.freed other = false := sound.taken other p standing
    rw [gone] at safe
    cases safe
  | getTaskStruct other p =>
    cases looked
    refine ⟨[], freed, by rw [run_cons, taken, ok_bind, run_nil], fun sound => ?_⟩
    have safe := sound.taken task p member
    rw [gone] at safe
    cases safe
  | rcuReadLock | pidTask | setTask | spinLock | listAdd => cases looked

def freedEarly : List LifeTurn :=
  [.driver (.call myIoctlTimerMon 7 (some ⟨0, ⟨.null, .null⟩⟩)), .driver (.inCall 0), .inMon 0, .inMon 0,
    .inMon 0, .driver (.exit 3), .release 3, .free 3, .inMon 0]

/-- Process 7 exits and is freed while `get_proc` allocates its entry. -/
theorem reference_to_freed_task :
    ∃ final, run (lifeTurn 250) (atRest 0 processes fun _ => false)
      freedEarly = .ok final ∧ .getTaskStruct 3 (.slab 0) ∈ final.mons ∧ final.freed 3 = true ∧
        ¬ Sound final := by
  refine ⟨_, rfl, List.mem_singleton.mpr rfl, rfl, fun sound => ?_⟩
  have safe := sound.taken 3 (.slab 0) (List.mem_singleton.mpr rfl)
  cases safe

end KernelLabs.DeferredLifetimes
