import KernelLabs.DeferredDriver
import KernelLabs.LinuxListProofs

/-! The monitored processes of the deferred driver. Over every run, the module
holds one reference on a task for each entry of the list that names it; an entry
is reported and freed once, and none is left when the module is unloaded. -/
namespace KernelLabs.DeferredDriver
open LinuxList Errno

/-- The list runs through exactly the allocated entries, and these are their tasks. -/
abbrev Listed (heap : Heap Task) (entries : List (Ptr × Task)) : Prop :=
  Holds (· = ·) heap processList entries

/-- The invariant of the driver's entries. -/
structure Monitored (state : Deferred) (entries : List (Ptr × Task)) : Prop where
  listed : Listed state.heap entries
  /-- One reference for each entry. -/
  counted : ∀ task, state.refs task = (entries.map Prod.snd).count task
  once : (state.reported.map Prod.fst).Nodup
  /-- What was reported is dead, and its entry freed. -/
  retired : ∀ report ∈ state.reported, report.1 ∈ state.heap.freed ∧ state.dead report.2 = true

variable {state after : Deferred} {entries front back : List (Ptr × Task)} {p : Ptr} {task : Task}

theorem loaded_monitored (jiffies : UInt64) (pids : Int32 → Option Task) (dead : Task → Bool) :
    Monitored (loaded jiffies pids dead) [] where
  listed := init_holds 0
  counted _ := rfl
  once := List.nodup_nil
  retired := by simp [loaded]

/-- An entry of the list has not been reported. -/
theorem unreported (held : Monitored state (front ++ (p, task) :: back)) :
    p ∉ state.reported.map Prod.fst := by
  intro member
  obtain ⟨report, inside, rfl⟩ := List.mem_map.mp member
  have gone := held.listed.ring.freedGone report.1 (held.retired report inside).1
  simp at gone

/-- Both loops give up an entry in the same three steps: the reference, the link and
the memory. -/
theorem release_entry (held : Monitored state (front ++ (p, task) :: back))
    {reports : List (Ptr × Task)}
    (truthful : reports = [] ∨ reports = [(p, task)] ∧ state.dead task = true) :
    ∃ unlinked heap, listDel state.heap p = .ok unlinked ∧ kfree unlinked p = .ok heap ∧
      Monitored ({ state with reported := state.reported ++ reports }.putTaskStruct task |>.withHeap heap)
        (front ++ back) := by
  obtain ⟨unlinked, heap, deleted, released, removed, -, -, freed⟩ := holds_remove front held.listed
  refine ⟨unlinked, heap, deleted, released, removed, fun other => ?_, ?_, fun report member => ?_⟩
  · have count := held.counted other
    simp only [List.map_append, List.map_cons, List.count_append, List.count_cons] at count ⊢
    by_cases same : other = task
    · subst same
      simp only [BEq.rfl, if_true] at count
      simp [Deferred.withHeap, Deferred.putTaskStruct, count]
      omega
    · simp only [beq_iff_eq, Ne.symm same, if_false] at count
      simp [Deferred.withHeap, Deferred.putTaskStruct, Function.update_of_ne same, count]
  · rcases truthful with rfl | ⟨rfl, -⟩
    · simpa [Deferred.withHeap, Deferred.putTaskStruct] using held.once
    · have fresh := unreported held
      simp only [Deferred.withHeap, Deferred.putTaskStruct, List.map_append, List.map_cons, List.map_nil]
      exact List.nodup_append.mpr ⟨held.once, List.nodup_singleton p, by
        rintro a inside b last rfl
        exact fresh (List.mem_singleton.mp last ▸ inside)⟩
  · simp only [Deferred.withHeap, Deferred.putTaskStruct] at member ⊢
    rw [freed]
    rcases List.mem_append.mp member with old | new
    · obtain ⟨gone, dead⟩ := held.retired report old
      exact ⟨List.mem_append_left _ gone, dead⟩
    · rcases truthful with rfl | ⟨rfl, dead⟩
      · simp at new
      · rw [List.mem_singleton.mp new]
        exact ⟨by simp, dead⟩

/-- A run of `monitor_work_handler` reports and removes exactly the entries whose
task is dead, and keeps the others in order. -/
theorem monitorWorkHandler_spec (held : Monitored state entries) :
    ∃ after, monitorWorkHandler state = .ok after ∧ OnlyEntries state after ∧
      Monitored after (entries.filter fun entry => !state.dead entry.2) ∧
      after.reported = state.reported ++ entries.filter fun entry => state.dead entry.2 := by
  let Inv (front back : List (Ptr × Task)) (current : Deferred) : Prop := OnlyEntries state current ∧
    Monitored current ((front.filter fun entry => !state.dead entry.2) ++ back) ∧
      current.reported = state.reported ++ front.filter fun entry => state.dead entry.2
  have visit : ∀ front p task back current, entries = front ++ (p, task) :: back →
      Inv front ((p, task) :: back) current →
      ∃ next, monitorBody current p = .ok (.next next) ∧ Inv (front ++ [(p, task)]) back next := by
    rintro front p task back current - ⟨only, held, reported⟩
    obtain ⟨content, load, rfl⟩ := holds_load held.listed
    have same : current.dead = state.dead := by rw [only]
    by_cases gone : state.dead content = true
    · obtain ⟨unlinked, heap, deleted, released, removed⟩ :=
        release_entry held (.inr ⟨rfl, by rw [same, gone]⟩)
      refine ⟨{ current with reported := current.reported ++ [(p, content)] }.putTaskStruct
        content |>.withHeap heap, ?_, ?_, ?_, ?_⟩
      · simp only [monitorBody, load, same, gone, ok_bind, if_true]
        simp [Deferred.putTaskStruct, deleted, released]
      · rw [only]
        rfl
      · simpa [List.filter_append, gone] using removed
      · simp [Deferred.withHeap, Deferred.putTaskStruct, List.filter_append, gone, reported]
    · refine ⟨current, by simp [monitorBody, load, same, gone], only, ?_, ?_⟩
      · simpa [List.filter_append, gone] using held
      · simp [List.filter_append, gone, reported]
  have start : Inv [] entries state := ⟨rfl, held, by simp⟩
  obtain ⟨final, ran, only, kept, reported⟩ := holds_forEachSafe_all (·.heap) Inv
    (fun front back current _ inv => ⟨_, inv.2.1.listed⟩) visit held.listed start
  exact ⟨final, by simp [monitorWorkHandler, ran], only, by simpa using kept, reported⟩

/-- The last loop of `deferred_exit` gives up every entry. -/
theorem exitLoop_spec (held : Monitored state entries) :
    ∃ after, listForEachEntrySafe (·.heap) processList exitBody state = .ok (.next after) ∧
      OnlyEntries state after ∧ Monitored after [] := by
  let Inv (front back : List (Ptr × Task)) (current : Deferred) : Prop :=
    OnlyEntries state current ∧ Monitored current back
  have visit : ∀ front p task back current, entries = front ++ (p, task) :: back →
      Inv front ((p, task) :: back) current →
      ∃ next, exitBody current p = .ok (.next next) ∧ Inv (front ++ [(p, task)]) back next := by
    rintro front p task back current - ⟨only, held⟩
    have held : Monitored current ([] ++ (p, task) :: back) := held
    obtain ⟨content, load, rfl⟩ := holds_load held.listed
    obtain ⟨unlinked, heap, deleted, released, removed⟩ := release_entry held (.inl rfl)
    refine ⟨(current.putTaskStruct content).withHeap heap, ?_, ?_, ?_⟩
    · simp only [exitBody, load, ok_bind]
      simp [Deferred.putTaskStruct, deleted, released]
    · rw [only]
      rfl
    · simpa using removed
  have start : Inv [] entries state := ⟨rfl, held⟩
  exact holds_forEachSafe_all (·.heap) Inv (fun front back current _ inv => ⟨[], inv.2.listed⟩) visit
    held.listed start

/-- What the invariant depends on. -/
def accounts (state : Deferred) : Heap Task × (Task → Int) × List (Ptr × Task) × (Task → Bool) :=
  (state.heap, state.refs, state.reported, state.dead)

theorem Monitored.of_same (held : Monitored state entries) (same : accounts after = accounts state) :
    Monitored after entries := by
  simp only [accounts, Prod.mk.injEq] at same
  obtain ⟨heap, refs, reported, dead⟩ := same
  constructor
  · exact heap ▸ held.listed
  · exact refs ▸ held.counted
  · exact reported ▸ held.once
  · rw [heap, reported, dead]
    exact held.retired

/-- `get_proc` of an existing process, and `list_add`: the entry goes first. -/
theorem monitor_request (pid : Int32) (held : Monitored state entries) (block : Block Task)
    (found : state.pids pid = some task) :
    ∃ middle heap, getProc state pid (some block) = .ok (middle, .slab state.heap.handedOut) ∧
      listAdd middle.heap (.slab state.heap.handedOut) processList = .ok heap ∧
      OnlyEntries state (middle.withHeap heap) ∧
      Monitored (middle.withHeap heap) ((.slab state.heap.handedOut, task) :: entries) := by
  have fresh := kmalloc_ring held.listed.ring block
  obtain ⟨stored, write, loose, written, -, freed⟩ := store_ring fresh
    (.slab state.heap.handedOut) (by simp) task
  obtain ⟨linked, add, ring, same, -, freed'⟩ := listAdd_ring loose
  refine ⟨((state.withHeap (kmalloc state.heap (some block)).1).getTaskStruct task).withHeap stored,
    linked, ?_, add, rfl, ?_⟩
  · have nonnull : (kmalloc state.heap (some block)).2 = .slab state.heap.handedOut := rfl
    simp [getProc, found, nonnull, Deferred.withHeap, Deferred.getTaskStruct, write]
  · refine ⟨holds_link [] entries held.listed ring ?_ rfl, fun other => ?_, held.once,
      fun report member => ?_⟩
    · show linked.entry = _
      rw [same, written]
      simp [kmalloc]
    · have count := held.counted other
      simp only [List.map_cons, List.count_cons]
      by_cases same : other = task
      · subst same
        simp [Deferred.withHeap, Deferred.getTaskStruct, count]
      · simp [Deferred.withHeap, Deferred.getTaskStruct, Function.update_of_ne same, Ne.symm same, count]
    · obtain ⟨gone, dead⟩ := held.retired report member
      refine ⟨?_, dead⟩
      simp only [Deferred.withHeap, freed', freed]
      exact gone

/-! ## Runs -/

section Steps
variable {hz : UInt64}

/-- A monitor request names an existing process, and its entry can be allocated. -/
def Admitted (state : Deferred) : Action → Prop
  | .ioctl cmd arg memory => state.cdev = true → cmd = myIoctlTimerMon →
    (state.pids arg.toUInt32.toInt32).isSome ∧ memory.isSome
  | _ => True

/-- Every command keeps the entries' invariant, with one entry more or the same ones. -/
theorem deferredIoctl_spec (hz : UInt64) (held : Monitored state entries) {cmd : UInt32} {arg : UInt64}
    {memory : Option (Block Task)} (admitted : cmd = myIoctlTimerMon →
      (state.pids arg.toUInt32.toInt32).isSome ∧ memory.isSome) :
    ∃ after ret entries', deferredIoctl hz state cmd arg memory = .ok (after, ret) ∧
      Monitored after entries' ∧ after.cdev = state.cdev := by
  unfold deferredIoctl
  by_cases set : cmd = myIoctlTimerSet
  · exact ⟨{ state with flag := .set }.modTimer (state.jiffies + arg * hz), 0, entries,
      by rw [if_pos set]; rfl, held.of_same rfl, rfl⟩
  rw [if_neg set]
  by_cases cancel : cmd = myIoctlTimerCancel
  · exact ⟨state.delTimer, 0, entries, by rw [if_pos cancel]; rfl, held.of_same rfl, rfl⟩
  rw [if_neg cancel]
  by_cases alloc : cmd = myIoctlTimerAlloc
  · exact ⟨{ state with flag := .alloc }.modTimer (state.jiffies + arg * hz), 0, entries,
      by rw [if_pos alloc]; rfl, held.of_same rfl, rfl⟩
  rw [if_neg alloc]
  by_cases mon : cmd = myIoctlTimerMon
  · obtain ⟨known, allocated⟩ := admitted mon
    obtain ⟨task, found⟩ := Option.isSome_iff_exists.mp known
    obtain ⟨block, rfl⟩ := Option.isSome_iff_exists.mp allocated
    obtain ⟨middle, heap, got, add, only, held'⟩ := monitor_request _ held block found
    have cdev : (middle.withHeap heap).cdev = state.cdev := by rw [only]
    refine ⟨{ middle.withHeap heap with flag := .mon }.modTimer (middle.jiffies + 1 * hz), 0, _, ?_,
      held'.of_same rfl, cdev⟩
    rw [if_pos mon, got, ok_bind]
    simp only [reduceCtorEq, if_false, add, ok_bind, pure_eq_ok]
    rfl
  · exact ⟨state, -enotty, entries, by rw [if_neg mon]; rfl, held, rfl⟩

theorem timerHandler_keeps (hz : UInt64) (held : Monitored state entries) :
    Monitored (timerHandler hz state) entries ∧ (timerHandler hz state).cdev = state.cdev := by
  unfold timerHandler
  cases state.flag <;> exact ⟨held.of_same rfl, rfl⟩

theorem runMonitorWork_spec (held : Monitored state entries) :
    ∃ after entries', runMonitorWork state = .ok after ∧ Monitored after entries' ∧
      after.monitorWork = false ∧ after.cdev = state.cdev ∧ after.timer = state.timer ∧
      (entries = [] → entries' = []) := by
  by_cases queued : state.monitorWork = true
  · have taken : Monitored { state with monitorWork := false } entries := held.of_same rfl
    obtain ⟨after, ran, only, held', -⟩ := monitorWorkHandler_spec taken
    refine ⟨after, _, by simpa [runMonitorWork, queued] using ran, held', ?_, ?_, ?_, ?_⟩
    · rw [only]
    · rw [only]
    · rw [only]
    · rintro rfl
      rfl
  · exact ⟨state, entries, by simp [runMonitorWork, queued], held, by simpa using queued, rfl, rfl, id⟩

theorem deferredExit_spec (held : Monitored state entries) :
    ∃ after, deferredExit state = .ok after ∧ Monitored after [] ∧ after.cdev = false ∧
      after.timer = none ∧ after.monitorWork = false := by
  have closed : Monitored { { state with cdev := false }.delTimer with ioWork := false } entries :=
    held.of_same rfl
  obtain ⟨middle, entries', flushed, held', idle, cdev, timer, -⟩ := runMonitorWork_spec closed
  obtain ⟨after, emptied, only, empty⟩ := exitLoop_spec held'
  refine ⟨after, by simp [deferredExit, flushed, emptied], empty, ?_, ?_, ?_⟩
  · rw [only]
    exact cdev
  · rw [only]
    exact timer
  · rw [only]
    exact idle

/-- The invariant of a run: once the module is unloaded, nothing is left that
could bring an entry back. -/
def Settled (state : Deferred) : Prop :=
  ∃ entries, Monitored state entries ∧
    (state.cdev = false → entries = [] ∧ state.timer = none ∧ state.monitorWork = false)

/-- No admitted step faults, and none opens the device again. -/
theorem deferredStep_settled {action : Action} (settled : Settled state)
    (admitted : Admitted state action) :
    ∃ next, deferredStep hz state action = .ok next ∧ Settled next ∧
      (state.cdev = false ∨ action = .unload → next.cdev = false) := by
  obtain ⟨entries, held, unloaded⟩ := settled
  cases action with
  | ioctl cmd arg memory =>
    by_cases cdev : state.cdev = true
    · obtain ⟨after, ret, entries', ran, held', same⟩ := deferredIoctl_spec hz held (admitted cdev)
      refine ⟨after, by simp [deferredStep, cdev, ran], ⟨entries', held', ?_⟩, ?_⟩
      · simp [same, cdev]
      · simp [cdev]
    · exact ⟨state, by simp [deferredStep, cdev], ⟨entries, held, unloaded⟩, by simp⟩
  | expire =>
    by_cases pending : state.timer.isSome = true
    · have cdev : state.cdev ≠ false := fun closed => by simp [(unloaded closed).2.1] at pending
      have expired : Monitored state.delTimer entries := held.of_same rfl
      obtain ⟨held', same⟩ := timerHandler_keeps hz expired
      have open' : (timerHandler hz state.delTimer).cdev ≠ false := fun closed => cdev (same ▸ closed)
      exact ⟨_, by rw [deferredStep, if_pos pending], ⟨entries, held', fun closed => absurd closed open'⟩,
        by simp [cdev]⟩
    · exact ⟨state, by rw [deferredStep, if_neg pending], ⟨entries, held, unloaded⟩, by simp⟩
  | runIoWork => exact ⟨_, rfl, ⟨entries, held.of_same rfl, unloaded⟩, by simp⟩
  | runMonitorWork =>
    obtain ⟨after, entries', ran, held', idle, cdev, timer, empty⟩ := runMonitorWork_spec held
    refine ⟨after, ran, ⟨entries', held', fun closed => ?_⟩, by simp [cdev]⟩
    obtain ⟨none, stopped, -⟩ := unloaded (cdev ▸ closed)
    exact ⟨empty none, timer.trans stopped, idle⟩
  | exit task =>
    refine ⟨_, rfl, ⟨entries, ⟨held.listed, held.counted, held.once, fun report member => ?_⟩, unloaded⟩,
      by simp⟩
    obtain ⟨gone, dead⟩ := held.retired report member
    refine ⟨gone, ?_⟩
    by_cases same : report.2 = task
    · simp [same]
    · simp [Function.update_of_ne same, dead]
  | assign pid task => exact ⟨_, rfl, ⟨entries, held.of_same rfl, unloaded⟩, by simp⟩
  | tick => exact ⟨_, rfl, ⟨entries, held.of_same rfl, unloaded⟩, by simp⟩
  | unload =>
    by_cases cdev : state.cdev = true
    · obtain ⟨after, ran, empty, closed, stopped, idle⟩ := deferredExit_spec held
      exact ⟨after, by simp [deferredStep, cdev, ran], ⟨[], empty, fun _ => ⟨rfl, stopped, idle⟩⟩,
        fun _ => closed⟩
    · exact ⟨state, by simp [deferredStep, cdev], ⟨entries, held, unloaded⟩, by simp at cdev; simp [cdev]⟩

/-- An admitted run never faults, and the device stays away once it was unloaded. -/
theorem run_settled {actions : List Action} (settled : Settled state)
    (admitted : Along Admitted (deferredStep hz) state actions) :
    ∃ final, run (deferredStep hz) state actions = .ok final ∧ Settled final ∧
      (state.cdev = false ∨ .unload ∈ actions → final.cdev = false) := by
  induction actions generalizing state with
  | nil => exact ⟨state, rfl, settled, by simp⟩
  | cons action actions ih =>
    obtain ⟨next, taken, kept, closes⟩ := deferredStep_settled settled admitted.1
    obtain ⟨final, ran, done, closed⟩ := ih kept (admitted.2 next taken)
    refine ⟨final, by simp [taken, ran], done, fun gone => ?_⟩
    apply closed
    rcases gone with gone | member
    · exact .inl (closes (.inl gone))
    · rcases List.mem_cons.mp member with same | later
      · exact .inl (closes (.inr same.symm))
      · exact .inr later

/-- Every entry ever allocated is on the list, or has been freed exactly once. -/
theorem freed_count (held : Monitored state entries) {number : Nat}
    (issued : number < state.heap.handedOut) :
    state.heap.freed.count (.slab number) = if .slab number ∈ entries.map Prod.fst then 0 else 1 := by
  have ring := held.listed.ring
  split
  · next member => exact List.count_eq_zero.mpr fun gone => (ring.freedGone _ gone).1 member
  · next absent =>
    have kept := (ring.issued (.slab number)).mp ⟨number, issued, rfl⟩
    have gone : .slab number ∈ state.heap.freed := by simpa [absent] using kept
    exact List.count_eq_one_of_mem ring.freedOnce gone

/-- **References match entries.** In every state a run reaches, the module holds as
many references on a task as the list has entries for it; what was reported is dead
and was reported once; every entry is on the list or was freed once; the monitor
work would report and remove exactly the entries whose task is dead. After the
module is unloaded the list is empty and no reference is held. -/
theorem references_match_entries (hz jiffies : UInt64) (pids : Int32 → Option Task) (dead : Task → Bool)
    (actions : List Action)
    (admitted : Along Admitted (deferredStep hz) (loaded jiffies pids dead) actions) :
    ∃ final entries, run (deferredStep hz) (loaded jiffies pids dead) actions = .ok final ∧
      Listed final.heap entries ∧
      (∀ task, final.refs task = (entries.map Prod.snd).count task) ∧
      (final.reported.map Prod.fst).Nodup ∧ (∀ report ∈ final.reported, final.dead report.2 = true) ∧
      (∀ number < final.heap.handedOut, final.heap.freed.count (.slab number) =
        if .slab number ∈ entries.map Prod.fst then 0 else 1) ∧
      (∃ after, monitorWorkHandler final = .ok after ∧
        Listed after.heap (entries.filter fun entry => !final.dead entry.2) ∧
        after.reported = final.reported ++ entries.filter fun entry => final.dead entry.2) ∧
      (.unload ∈ actions → entries = [] ∧ ∀ task, final.refs task = 0) := by
  obtain ⟨final, ran, ⟨entries, held, unloaded⟩, closes⟩ :=
    run_settled ⟨[], loaded_monitored jiffies pids dead, by simp [loaded]⟩ admitted
  obtain ⟨after, visited, -, held', reported⟩ := monitorWorkHandler_spec held
  refine ⟨final, entries, ran, held.listed, held.counted, held.once,
    fun report member => (held.retired report member).2, fun number issued => freed_count held issued,
    ⟨after, visited, held'.listed, reported⟩, fun member => ?_⟩
  obtain ⟨rfl, -, -⟩ := unloaded (closes (.inr member))
  exact ⟨rfl, held.counted⟩

/-- A process is named once, dies, and is reported; then the module is unloaded. -/
theorem references_match_entries_death :
    ∃ final entries, run (deferredStep 250) (loaded 0 (fun _ => some 5) fun _ => false)
      [.ioctl myIoctlTimerMon 7 (some ⟨0, .null, .null⟩), .expire, .exit 5, .runMonitorWork, .unload] =
        .ok final ∧ Listed final.heap entries ∧ entries = [] ∧ final.refs 5 = 0 := by
  obtain ⟨final, entries, ran, listed, -, -, -, -, -, unloaded⟩ :=
    references_match_entries 250 0 (fun _ => some 5) (fun _ => false)
      [.ioctl myIoctlTimerMon 7 (some ⟨0, .null, .null⟩), .expire, .exit 5, .runMonitorWork, .unload]
      ⟨fun _ _ => ⟨rfl, rfl⟩, fun _ _ => ⟨trivial, fun _ _ => ⟨trivial, fun _ _ => ⟨trivial, fun _ _ =>
        ⟨trivial, fun _ _ => trivial⟩⟩⟩⟩⟩
  obtain ⟨empty, released⟩ := unloaded (by simp)
  exact ⟨final, entries, ran, listed, empty, released 5⟩

end Steps

end KernelLabs.DeferredDriver
