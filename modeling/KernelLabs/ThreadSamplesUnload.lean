import KernelLabs.ThreadSamples
import Mathlib.Algebra.BigOperators.Fin

/-! What an unload of the thread samples waits for, and when it can come to its end. A
thread can end before it is told to, and the kernel then frees its `task_struct`, which
`simple_module_exit` and the threads that watch it still point to. -/
namespace KernelLabs.ThreadSamples
open ReadWriteLock

variable {n : Nat} {sample : Sample n} {state next : Threads n} {i j : Fin n} {turns : List (Turn n)}

/-! ## The faults -/

theorem signalPending_error (absent : ¬ state.Watchable i) : signalPending state i = .error .badAccess := by
  unfold signalPending
  cases here : state.kthreadStruct i with
  | null | err => rfl
  | task => simp only [not_not.mp fun kept => absent ⟨here, kept⟩, if_true]

/-- A statement of a thread faults only where it looks at a `task_struct` that is not there. -/
theorem threadFnStep_error (agrees : Agrees (state.holds sample) state.lock) {bug : Bug}
    (faults : threadFnStep sample state i = .error bug) :
    bug = .badAccess ∧ (state.thread i).pc = .signalPending ∧ ¬ state.Watchable (sample.threadFn i).watched := by
  have releases {mode : Mode} {pc : ThreadPc} (locked : (sample.threadFn i).lock = some mode)
      (inside : (state.thread i).pc.inside = true) : ∃ after, unlock state i mode pc = .ok after := by
    have held : state.holds sample i = some mode := by simp [Threads.holds, inside, locked]
    obtain ⟨lock, released, -⟩ := agrees.release held
    exact ⟨_, by rw [unlock, released]⟩
  unfold threadFnStep at faults
  cases here : (state.thread i).pc with
  | signalPending =>
    simp only [here] at faults
    by_cases there : state.Watchable (sample.threadFn i).watched
    · rw [signalPending_ok_iff.mpr ⟨there, rfl⟩] at faults
      cases faults
    · rw [signalPending_error there] at faults
      cases faults
      exact ⟨rfl, rfl, there⟩
  | lock =>
    simp only [here] at faults
    split at faults
    · cases faults
    · split at faults <;> cases faults
  | unlockKilled | unlock =>
    simp only [here] at faults
    split at faults
    · cases faults
    · rename_i mode locked
      obtain ⟨after, taken⟩ := releases locked (by rw [here]; rfl)
      rw [taken] at faults
      cases faults
  | _ =>
    simp only [here] at faults
    cases faults

/-- `kthread_stop` faults the same way, and nothing else does. -/
theorem turn_error (sound : Sound sample state) {action : Turn n} {bug : Bug}
    (faults : turn sample state action = .error bug) : bug = .badAccess := by
  cases action with
  | module created =>
    simp only [turn, moduleStep] at faults
    split at faults
    case h_5 =>
      split at faults
      · cases faults
      · cases faults
        rfl
      · split at faults <;> cases faults
        rfl
    case h_6 => split at faults <;> cases faults
    all_goals cases faults
  | thread i => exact (threadFnStep_error sound.agrees faults).1
  | signal | free => cases faults

/-- **The threads keep to their lock.** In every interleaving of any of the modules, the
lock's word counts the threads that are in their critical sections, a writer is in its
alone, and no thread ever releases a lock that it does not hold: on both paths out of the
critical section the lock is released once. -/
theorem threads_keep_to_lock (sample : Sample n) (turns : List (Turn n)) :
    match run (turn sample) (load n) turns with
    | .error bug => bug = .badAccess
    | .ok state =>
      state.lock.readers = (Finset.univ.filter fun i =>
        (state.thread i).pc.inside = true ∧ (sample.threadFn i).lock = some .read).card ∧
      (state.lock.writer = true ↔
        ∃ i, (state.thread i).pc.inside = true ∧ (sample.threadFn i).lock = some .write) ∧
      ∀ i j, (state.thread i).pc.inside = true → (sample.threadFn i).lock = some .write →
        (state.thread j).pc.inside = true → (sample.threadFn j).lock ≠ none → j = i := by
  cases ran : run (turn sample) (load n) turns with
  | error bug =>
    obtain ⟨before, action, rest, reached, -, went, faults⟩ := run_fault ran
    exact turn_error (run_sound went) faults
  | ok state =>
    have agrees := (run_sound ran).agrees
    have holds_iff (i : Fin n) (mode : Mode) : state.holds sample i = some mode ↔
        (state.thread i).pc.inside = true ∧ (sample.threadFn i).lock = some mode := by
      simp [Threads.holds]
    refine ⟨?_, ?_, fun i j inside writes other locked => ?_⟩
    · rw [agrees.readers, holders]
      simp only [holds_iff]
    · rw [agrees.writer]
      simp only [holds_iff]
    · refine agrees.alone i j ((holds_iff i .write).mpr ⟨inside, writes⟩) ?_
      simpa [Threads.holds, other] using locked

/-! ## What an unload waits for -/

/-- The report of `simple_module_init` only looks for `NULL`, which no `kthread_struct` is. -/
theorem run_report (ran : run (turn sample) (load n) turns = .ok state) : state.report ≠ some false := by
  have kept : Sound sample state ∧ state.report ≠ some false := by
    refine run_invariant (fun state => Sound sample state ∧ state.report ≠ some false) ?_
      ⟨load_sound sample, by simp [load]⟩ ran
    rintro state action next ⟨sound, report⟩ taken
    refine ⟨turn_sound sound taken, ?_⟩
    cases action with
    | module created =>
      cases moduleStep_cases taken with
      | report here =>
        have found : (sample.tested.all fun i => decide (state.kthreadStruct i ≠ .null)) = true := by
          rw [List.all_eq_true]
          exact fun i _ => decide_eq_true (sound.assigned (by rw [here]; rfl) i)
        change some (sample.tested.all fun i => decide (state.kthreadStruct i ≠ .null)) ≠ some false
        rw [found]
        exact fun same => by cases same
      | _ => exact report
    | thread i =>
      rcases threadFnStep_cases taken with ⟨rfl, -⟩ | ⟨pending, moved⟩
      · exact report
      · rw [moved.report]
        exact report
    | signal i =>
      cases taken
      rcases signal_cases state i with same | sent
      · rwa [same]
      · rw [sent]
        exact report
    | free i =>
      cases taken
      rcases free_cases state i with same | ⟨-, -, freed⟩
      · rwa [same]
      · rw [freed]
        exact report
  exact kept.2

/-- **An unload that returns leaves nothing behind.** When `simple_module_exit` has
returned, every `kthread_run` had succeeded, every thread has exited and the lock is free.
Nothing else notices a `kthread_run` that failed: the report of `simple_module_init` is
never the one of a failure. -/
theorem unload_leaves_nothing (ran : run (turn sample) (load n) turns = .ok state) :
    state.report ≠ some false ∧ (state.module = .unloaded →
      (∀ i, state.kthreadStruct i = .task ∧ (state.thread i).pc.Gone) ∧ state.lock = LockWord.free) := by
  refine ⟨run_report ran, fun unloaded => ?_⟩
  have sound := run_sound ran
  have stopped (i : Fin n) : state.kthreadStruct i = .task ∧ (state.thread i).pc.Gone :=
    sound.stopped i (by rw [unloaded]; exact id) (by rw [Threads.Held, unloaded]; exact id)
  refine ⟨stopped, sound.agrees.free_iff.mpr fun i => holds_of_not_inside ?_⟩
  rcases (stopped i).2 with gone | gone <;> rw [gone] <;> rfl

/-- Each of these threads executes `count` statements. -/
def threadsGo (threads : List (Fin n)) (count : Nat) : List (Turn n) :=
  threads.flatMap fun i => List.replicate count (.thread i)

/-- A load, a round of the five readers together and then of the writer through the
critical section, and an unload that waits for one thread after the other. -/
def roundsAndUnload : List (Turn 6) :=
  List.replicate 13 (.module true) ++
    threadsGo ((List.finRange 6).take 5) 6 ++ threadsGo ((List.finRange 6).take 5) 3 ++
    threadsGo ((List.finRange 6).drop 5) 9 ++ [.module true] ++
    (List.finRange 6).flatMap (fun i => .module true :: threadsGo [i] 3 ++ [.module true]) ++ [.module true]

theorem unload_leaves_nothing_after_rounds :
    ∃ state, run (turn simpleRwlock) (load 6) roundsAndUnload = .ok state ∧ state.lock = LockWord.free ∧
      ∀ i, (state.thread i).pc.Gone := by
  have unloads : (run (turn simpleRwlock) (load 6) roundsAndUnload).map (fun state => state.module) =
      .ok .unloaded := by decide +kernel
  cases ran : run (turn simpleRwlock) (load 6) roundsAndUnload with
  | error bug =>
    rw [ran] at unloads
    cases unloads
  | ok state =>
    rw [ran] at unloads
    obtain ⟨gone, free⟩ := (unload_leaves_nothing ran).2 (Except.ok.inj unloads)
    exact ⟨state, rfl, free, fun i => (gone i).2⟩

/-! ## When an unload can come to its end -/

/-- The thread will look at the `task_struct` it watches before it can leave its loop. -/
def ThreadPc.Committed : ThreadPc → Prop
  | .printkRunning | .ssleep | .lock | .printkInside | .signalPending => True
  | _ => False

/-- `kthread_run` has failed for thread `i`. -/
def Threads.Failed (state : Threads n) (i : Fin n) : Prop :=
  state.kthreadStruct i = .err ∨ ∃ left, state.module = .assign i false left

/-- Nothing stands in the way of the unload. -/
structure Unloadable (sample : Sample n) (state : Threads n) : Prop where
  created : ∀ i, ¬ state.Failed i
  /-- `kthread_stop` finds the `task_struct` of each thread it is still called for. -/
  toStop : ∀ i, state.module.ToStop i → (state.thread i).pc ≠ .freed
  /-- So does each thread that will look at one. -/
  watched : ∀ i, (state.thread i).pc.Committed → (state.thread (sample.threadFn i).watched).pc ≠ .freed

/-- How many statements a thread is from its end, if it is told to stop. -/
def ThreadPc.rank : ThreadPc → Nat
  | .notCreated | .exited | .freed => 0
  | .doExit => 1
  | .printkStopping => 2
  | .kthreadShouldStop | .printkKilling => 3
  | .unlock | .unlockKilled | .allowSignal => 4
  | .signalPending | .kthread => 5
  | .printkInside => 6
  | .lock => 7
  | .ssleep => 8
  | .printkRunning => 9

/-- How far the module is from the end of its unload. -/
def ModulePc.rank : ModulePc n → Nat
  | .unloaded => 0
  | .kthreadStop left => 2 * left.length + 1
  | .waitExited _ left => 2 * left.length + 2
  | .loaded => 2 * n + 2
  | .kthreadRun left => 2 * n + 3 + 8 * left.length
  | .assign _ _ left => 2 * n + 4 + 8 * left.length

/-- The statements ahead, if no thread goes round its loop again. -/
def Threads.rank (state : Threads n) : Nat := (∑ i, (state.thread i).pc.rank) + state.module.rank

theorem next_rank {locked stop pending : Bool} {pc : ThreadPc} (alive : pc.Alive)
    (told : pc = .kthreadShouldStop → stop = true) : (pc.next locked stop pending).rank < pc.rank := by
  cases pc <;> cases locked <;> cases stop <;> cases pending <;>
    simp_all [ThreadPc.next, ThreadPc.rank, ThreadPc.Alive]

theorem next_committed {locked stop pending : Bool} {pc : ThreadPc}
    (told : pc = .kthreadShouldStop → stop = true) (goes : (pc.next locked stop pending).Committed) :
    pc.Committed := by
  cases pc <;> cases locked <;> cases stop <;> cases pending <;>
    simp_all [ThreadPc.next, ThreadPc.Committed]

/-- The ranks of all threads, when one of them changes. -/
theorem sum_rank (thread : Thread) :
    (∑ j, (Function.update state.thread i thread j).pc.rank) + (state.thread i).pc.rank =
      (∑ j, (state.thread j).pc.rank) + thread.pc.rank := by
  have before := Finset.add_sum_erase Finset.univ (fun j => (state.thread j).pc.rank) (Finset.mem_univ i)
  have after := Finset.add_sum_erase Finset.univ (fun j => (Function.update state.thread i thread j).pc.rank)
    (Finset.mem_univ i)
  have same : ∑ j ∈ Finset.univ.erase i, (Function.update state.thread i thread j).pc.rank =
      ∑ j ∈ Finset.univ.erase i, (state.thread j).pc.rank :=
    Finset.sum_congr rfl fun j member => by rw [Function.update_of_ne (Finset.ne_of_mem_erase member)]
  simp only [Function.update_self] at before after
  omega

/-- A thread that is there can take its next step, unless it spins or looks at a
`task_struct` that is not there. -/
theorem thread_moves (sound : Sound sample state) (alive : (state.thread i).pc.Alive)
    (unblocked : (state.thread i).pc = .lock → ∀ mode, (sample.threadFn i).lock = some mode →
      state.lock.acquire mode ≠ none)
    (there : (state.thread i).pc = .signalPending → state.Watchable (sample.threadFn i).watched) :
    ∃ next pending, threadFnStep sample state i = .ok next ∧ Moved sample state i pending next := by
  cases taken : threadFnStep sample state i with
  | error bug =>
    obtain ⟨-, here, absent⟩ := threadFnStep_error sound.agrees taken
    exact absurd (there here) absent
  | ok next =>
    rcases threadFnStep_cases taken with ⟨same, here | gone⟩ | ⟨pending, moved⟩
    · unfold threadFnStep at taken
      simp only [here] at taken
      cases locked : (sample.threadFn i).lock with
      | none =>
        simp only [locked, Except.ok.injEq] at taken
        have pcs := congrArg (fun after => (after.thread i).pc) (taken.trans same)
        simp [here] at pcs
      | some mode =>
        cases acquired : state.lock.acquire mode with
        | none => exact absurd acquired (unblocked here mode locked)
        | some lock =>
          simp only [locked, acquired, Except.ok.injEq] at taken
          have pcs := congrArg (fun after => (after.thread i).pc) (taken.trans same)
          simp [here] at pcs
    · exact absurd alive gone
    · exact ⟨next, pending, rfl, moved⟩

/-- A statement that does not enter the loop brings the thread closer to its end and puts
nothing in the way of the unload. -/
theorem moved_progress {pending : Bool} (unloadable : Unloadable sample state)
    (moved : Moved sample state i pending next)
    (told : (state.thread i).pc = .kthreadShouldStop → (state.thread i).shouldStop = true) :
    Unloadable sample next ∧ next.rank < state.rank := by
  have freed (j : Fin n) : (next.thread j).pc = .freed ↔ (state.thread j).pc = .freed := by
    by_cases same : j = i
    · rw [same, moved.pc, next_freed]
    · rw [moved.thread, Function.update_of_ne same]
  refine ⟨⟨fun j => ?_, fun j ahead => ?_, fun j committed => ?_⟩, ?_⟩
  · rw [Threads.Failed, moved.kthreadStruct, moved.module]
    exact unloadable.created j
  · rw [moved.module] at ahead
    exact mt (freed j).mp (unloadable.toStop j ahead)
  · refine mt (freed _).mp (unloadable.watched j ?_)
    by_cases same : j = i
    · rw [same] at committed ⊢
      rw [moved.pc] at committed
      exact next_committed told committed
    · rwa [moved.thread, Function.update_of_ne same] at committed
  · have lower : (next.thread i).pc.rank < (state.thread i).pc.rank := by
      rw [moved.pc]
      exact next_rank moved.alive told
    have total : (∑ j, (next.thread j).pc.rank) + (state.thread i).pc.rank =
        (∑ j, (state.thread j).pc.rank) + (next.thread i).pc.rank := by
      have whole : Function.update state.thread i (next.thread i) = next.thread := by
        rw [moved.thread, Function.update_self]
      rw [← whole, Function.update_self]
      exact sum_rank (next.thread i)
    rw [Threads.rank, Threads.rank, moved.module]
    omega

/-- A statement of the module that moves no thread and stores no `kthread_struct`. -/
theorem Unloadable.advance {after : Threads n} (unloadable : Unloadable sample state)
    (pcs : ∀ i, (after.thread i).pc = (state.thread i).pc) (structs : after.kthreadStruct = state.kthreadStruct)
    (made : ∀ i left, after.module ≠ .assign i false left)
    (ahead : ∀ i, after.module.ToStop i → state.module.ToStop i)
    (lower : after.module.rank < state.module.rank) : Unloadable sample after ∧ after.rank < state.rank := by
  refine ⟨⟨fun i => ?_, fun i still => ?_, fun i committed => ?_⟩, ?_⟩
  · rintro (isErr | ⟨left, same⟩)
    · exact unloadable.created i (.inl (by rw [← structs]; exact isErr))
    · exact made i left same
  · rw [pcs]
    exact unloadable.toStop i (ahead i still)
  · rw [pcs] at committed ⊢
    exact unloadable.watched i committed
  · simp only [Threads.rank, pcs]
    omega

theorem create_progress {left : List (Fin n)} (sound : Sound sample state) (unloadable : Unloadable sample state)
    (here : state.module = .kthreadRun (i :: left)) :
    let after := { state.set i Thread.new with module := .assign i true left }
    Unloadable sample after ∧ after.rank < state.rank := by
  intro after
  have fresh : (state.thread i).pc = .notCreated := by
    rw [sound.missing, Threads.Missing, here]
    exact .inl List.mem_cons_self
  have pcs (j : Fin n) : (after.thread j).pc = if j = i then .kthread else (state.thread j).pc := by
    by_cases same : j = i <;> simp [after, same, Threads.set, Thread.new]
  have kept (j : Fin n) (was : (state.thread j).pc ≠ .freed) : (after.thread j).pc ≠ .freed := by
    rw [pcs]
    split
    · exact fun same => by cases same
    · exact was
  refine ⟨⟨fun j => ?_, fun j _ => ?_, fun j committed => ?_⟩, ?_⟩
  · rintro (isErr | ⟨left, same⟩)
    · exact unloadable.created j (.inl isErr)
    · cases same
  · exact kept j (unloadable.toStop j (by rw [here]; trivial))
  · refine kept _ (unloadable.watched j ?_)
    rw [pcs] at committed
    split at committed
    · exact committed.elim
    · exact committed
  · have total : (∑ j, (after.thread j).pc.rank) + (state.thread i).pc.rank =
        (∑ j, (state.thread j).pc.rank) + Thread.new.pc.rank := sum_rank Thread.new
    have new : Thread.new.pc.rank = 5 := rfl
    have module : after.module.rank = 2 * n + 4 + 8 * left.length := rfl
    rw [Threads.rank, Threads.rank, here, ModulePc.rank, List.length_cons, module]
    omega

theorem assign_progress {left : List (Fin n)} (unloadable : Unloadable sample state)
    (here : state.module = .assign i true left) :
    let after := { state with
      kthreadStruct := Function.update state.kthreadStruct i .task, module := .kthreadRun left }
    Unloadable sample after ∧ after.rank < state.rank := by
  refine ⟨⟨fun j => ?_, fun j _ => ?_, unloadable.watched⟩, ?_⟩
  · rintro (isErr | ⟨left, same⟩)
    · by_cases same : j = i
      · simp [same] at isErr
      · simp only [Function.update_of_ne same] at isErr
        exact unloadable.created j (.inl isErr)
    · cases same
  · exact unloadable.toStop j (by rw [here]; trivial)
  · simp only [Threads.rank, here, ModulePc.rank]
    omega

/-- The module's own statements, where the unload does not wait. -/
theorem module_progress (sound : Sound sample state) (unloadable : Unloadable sample state)
    (unfinished : state.module ≠ .unloaded)
    (returns : ∀ i left, state.module = .waitExited i left → (state.thread i).pc = .exited) :
    ∃ next, moduleStep sample state true = .ok next ∧ Unloadable sample next ∧ next.rank < state.rank := by
  cases here : state.module with
  | unloaded => exact absurd here unfinished
  | kthreadRun left =>
    cases left with
    | nil =>
      refine ⟨{ state with
          report := some (sample.tested.all fun i => state.kthreadStruct i ≠ .null), module := .loaded },
        by simp only [moduleStep, here],
        unloadable.advance (fun _ => rfl) rfl (fun _ _ same => by cases same) (fun _ _ => by rw [here]; trivial) ?_⟩
      simp only [here, ModulePc.rank, List.length_nil]
      omega
    | cons i left => exact ⟨_, by simp [moduleStep, here], create_progress sound unloadable here⟩
  | assign i created left =>
    cases created with
    | false => exact absurd (.inr ⟨left, here⟩) (unloadable.created i)
    | true => exact ⟨_, by simp [moduleStep, here], assign_progress unloadable here⟩
  | loaded =>
    refine ⟨{ state with module := .kthreadStop (List.finRange n) }, by simp only [moduleStep, here],
      unloadable.advance (fun _ => rfl) rfl (fun _ _ same => by cases same) (fun _ _ => by rw [here]; trivial) ?_⟩
    simp only [here, ModulePc.rank, List.length_finRange]
    omega
  | kthreadStop left =>
    cases left with
    | nil =>
      refine ⟨{ state with module := .unloaded }, by simp only [moduleStep, here],
        unloadable.advance (fun _ => rfl) rfl (fun _ _ same => by cases same) (fun _ ahead => ahead.elim) ?_⟩
      simp only [here, ModulePc.rank, List.length_nil]
      omega
    | cons i left =>
      have isTask : state.kthreadStruct i = .task := by
        cases there : state.kthreadStruct i with
        | null => exact absurd there (sound.assigned (by rw [here]; rfl) i)
        | err => exact absurd (.inl there) (unloadable.created i)
        | task => rfl
      have kept := unloadable.toStop i (by rw [here]; exact List.mem_cons_self)
      refine ⟨{ state.set i { state.thread i with shouldStop := true } with module := .waitExited i left },
        by simp [moduleStep, here, isTask, kept],
        unloadable.advance (fun j => ?_) rfl (fun _ _ same => by cases same)
          (fun j ahead => by rw [here]; exact List.mem_cons_of_mem _ ahead) ?_⟩
      · by_cases same : j = i <;> simp [same, Threads.set]
      · simp only [here, ModulePc.rank, List.length_cons]
        omega
  | waitExited i left =>
    refine ⟨{ state with module := .kthreadStop left }, by simp [moduleStep, here, returns i left here],
      unloadable.advance (fun _ => rfl) rfl (fun _ _ same => by cases same) (fun _ ahead => by rw [here]; exact ahead) ?_⟩
    simp only [here, ModulePc.rank]
    omega

/-- As long as nothing stands in its way, the unload or a thread it has to wait for can
take a step. -/
theorem unload_progress (sound : Sound sample state) (unloadable : Unloadable sample state)
    (unfinished : state.module ≠ .unloaded) :
    ∃ action next, turn sample state action = .ok next ∧ (Sound sample next ∧ Unloadable sample next) ∧
      next.rank < state.rank := by
  by_cases waits : ∃ i left, state.module = .waitExited i left ∧ (state.thread i).pc ≠ .exited
  · obtain ⟨i, left, here, going⟩ := waits
    obtain ⟨there, told⟩ := sound.held i (by rw [Threads.Held, here])
    have missing : (state.thread i).pc ≠ .notCreated := by
      rw [Ne, sound.missing, Threads.Missing, here, there.1]
      exact fun same => by cases same
    have alive : (state.thread i).pc.Alive := by
      cases pc : (state.thread i).pc with
      | notCreated => exact absurd pc missing
      | exited => exact absurd pc going
      | freed => exact absurd pc there.2
      | _ => trivial
    have assigned (j : Fin n) : state.kthreadStruct j = .task := by
      cases value : state.kthreadStruct j with
      | null => exact absurd value (sound.assigned (by rw [here]; rfl) j)
      | err => exact absurd (.inl value) (unloadable.created j)
      | task => rfl
    have looks (j : Fin n) (pc : (state.thread j).pc = .signalPending) :
        state.Watchable (sample.threadFn j).watched :=
      ⟨assigned _, unloadable.watched j (by rw [pc]; trivial)⟩
    by_cases blocked : (state.thread i).pc = .lock ∧
        ∃ mode, (sample.threadFn i).lock = some mode ∧ state.lock.acquire mode = none
    · -- whoever holds the lock can go on
      obtain ⟨-, mode, -, spins⟩ := blocked
      obtain ⟨holder, held, holds, -⟩ := sound.agrees.acquire_none_iff.mp spins
      have inside : (state.thread holder).pc.inside = true := by
        by_contra outside
        rw [holds_of_not_inside (Bool.not_eq_true _ ▸ outside)] at holds
        cases holds
      have notLock : (state.thread holder).pc ≠ .lock := fun pc => by rw [pc] at inside; cases inside
      obtain ⟨next, pending, taken, moved⟩ := thread_moves sound
        (by cases pc : (state.thread holder).pc <;> rw [pc] at inside <;> trivial)
        (fun pc => absurd pc notLock) (looks holder)
      obtain ⟨after, lower⟩ := moved_progress unloadable moved fun pc => by rw [pc] at inside; cases inside
      exact ⟨.thread holder, next, taken, ⟨thread_sound sound taken, after⟩, lower⟩
    · obtain ⟨next, pending, taken, moved⟩ := thread_moves sound alive
        (fun pc mode locked spins => blocked ⟨pc, mode, locked, spins⟩) (looks i)
      obtain ⟨after, lower⟩ := moved_progress unloadable moved fun _ => told
      exact ⟨.thread i, next, taken, ⟨thread_sound sound taken, after⟩, lower⟩
  · obtain ⟨next, taken, after, lower⟩ := module_progress sound unloadable unfinished fun i left here => by
      by_contra going
      exact waits ⟨i, left, here, going⟩
    exact ⟨.module true, next, taken, ⟨module_sound sound taken, after⟩, lower⟩

/-- What stands in the way of the unload stays there. -/
theorem unloadable_before (sound : Sound sample state) {action : Turn n}
    (taken : turn sample state action = .ok next) (after : Unloadable sample next) : Unloadable sample state := by
  cases action with
  | module created =>
    cases moduleStep_cases taken with
    | create i left here =>
      have fresh : (state.thread i).pc = .notCreated := by
        rw [sound.missing, Threads.Missing, here]
        exact .inl List.mem_cons_self
      have kept (j : Fin n) (freed : (state.thread j).pc = .freed) :
          ((state.set i Thread.new).thread j).pc = .freed := by
        have apart : j ≠ i := by
          rintro rfl
          rw [fresh] at freed
          cases freed
        rw [set_thread, Function.update_of_ne apart, freed]
      refine ⟨fun j => ?_, fun j _ => mt (kept j) (after.toStop j trivial), fun j committed => ?_⟩
      · rintro (isErr | ⟨left, same⟩)
        · exact after.created j (.inl isErr)
        · rw [here] at same
          cases same
      · have apart : j ≠ i := by
          rintro rfl
          rw [fresh] at committed
          exact committed
        refine mt (kept _) (after.watched j ?_)
        simpa [Threads.set, apart] using committed
    | refuse i left here => exact absurd (.inr ⟨left, rfl⟩) (after.created i)
    | assign i created left here =>
      refine ⟨fun j => ?_, fun j _ => after.toStop j trivial, after.watched⟩
      rintro (isErr | ⟨left', same⟩)
      · by_cases same : j = i
        · rw [same] at isErr
          have isNull : state.kthreadStruct i = .null := by
            rw [sound.unassigned, here]
            exact List.mem_cons_self
          rw [isNull] at isErr
          cases isErr
        · exact after.created j (.inl (by rw [← isErr]; exact Function.update_of_ne same ..))
      · rw [here] at same
        cases same
        exact after.created i (.inl (by simp))
    | report here | rmmod here =>
      refine ⟨fun j => ?_, fun j ahead => after.toStop j ?_, after.watched⟩
      · rintro (isErr | ⟨left, same⟩)
        · exact after.created j (.inl isErr)
        · rw [here] at same
          cases same
      · first | trivial | exact List.mem_finRange j
    | skip i left here null => exact absurd null (sound.assigned (by rw [here]; rfl) i)
    | stop i left here there =>
      have pcs (j : Fin n) : ((state.set i { state.thread i with shouldStop := true }).thread j).pc =
          (state.thread j).pc := by
        by_cases same : j = i <;> simp [same]
      refine ⟨fun j => ?_, fun j ahead => ?_, fun j committed => ?_⟩
      · rintro (isErr | ⟨left', same⟩)
        · exact after.created j (.inl isErr)
        · rw [here] at same
          cases same
      · rw [here] at ahead
        rcases List.mem_cons.mp ahead with rfl | member
        · exact there.2
        · rw [← pcs]
          exact after.toStop j member
      · rw [← pcs]
        exact after.watched j (by rw [← pcs] at committed; exact committed)
    | exited i left here done =>
      refine ⟨fun j => ?_, fun j ahead => after.toStop j (by rw [here] at ahead; exact ahead), after.watched⟩
      rintro (isErr | ⟨left', same⟩)
      · exact after.created j (.inl isErr)
      · rw [here] at same
        cases same
    | finish here =>
      refine ⟨fun j => ?_, fun j ahead => ?_, after.watched⟩
      · rintro (isErr | ⟨left', same⟩)
        · exact after.created j (.inl isErr)
        · rw [here] at same
          cases same
      · rw [here] at ahead
        cases ahead
    | stay => exact after
  | thread i =>
    rcases threadFnStep_cases taken with ⟨rfl, -⟩ | ⟨pending, moved⟩
    · exact after
    have freed (j : Fin n) : (next.thread j).pc = .freed ↔ (state.thread j).pc = .freed := by
      by_cases same : j = i
      · rw [same, moved.pc, next_freed]
      · rw [moved.thread, Function.update_of_ne same]
    refine ⟨fun j => ?_, fun j ahead => ?_, fun j committed => ?_⟩
    · have made := after.created j
      rwa [Threads.Failed, moved.kthreadStruct, moved.module] at made
    · exact mt (freed j).mpr (after.toStop j (by rw [moved.module]; exact ahead))
    · by_cases same : j = i
      · -- the thread is still committed, unless it has just looked
        rw [same] at committed ⊢
        by_cases looks : (state.thread i).pc = .signalPending
        · exact (signalPending_ok_iff.mp (moved.looked looks)).1.2
        · refine mt (freed _).mpr (after.watched i ?_)
          rw [moved.pc]
          cases pc : (state.thread i).pc <;> rw [pc] at committed looks <;>
            first | exact committed.elim | exact absurd rfl looks | skip
          all_goals simp only [ThreadPc.next]
          · trivial
          · split <;> trivial
          · trivial
          · trivial
      · refine mt (freed _).mpr (after.watched j ?_)
        rwa [moved.thread, Function.update_of_ne same]
  | signal i =>
    cases taken
    rcases signal_cases state i with same | sent
    · rwa [same] at after
    · rw [sent] at after
      have pcs (j : Fin n) : ((state.set i { state.thread i with signalled := true }).thread j).pc =
          (state.thread j).pc := by
        by_cases same : j = i <;> simp [same]
      refine ⟨after.created, fun j ahead => ?_, fun j committed => ?_⟩
      · rw [← pcs]
        exact after.toStop j ahead
      · rw [← pcs]
        exact after.watched j (by rw [pcs]; exact committed)
  | free i =>
    cases taken
    rcases free_cases state i with same | ⟨exited, idle, freed⟩
    · rwa [same] at after
    · rw [freed] at after
      have kept (j : Fin n) (was : (state.thread j).pc = .freed) : ((state.goto i .freed).thread j).pc = .freed := by
        by_cases same : j = i <;> simp [same, was]
      refine ⟨after.created, fun j ahead => mt (kept j) (after.toStop j ahead), fun j committed => ?_⟩
      refine mt (kept _) (after.watched j ?_)
      have apart : j ≠ i := by
        rintro rfl
        rw [exited] at committed
        exact committed
      rwa [goto_thread, Function.update_of_ne apart]

/-- **When an unload can come to its end.** From any state that a run of any of the
modules reaches there is a way for the module to be unloaded without a bad access exactly
if every `kthread_run` so far has succeeded, no thread that `kthread_stop` is still to be
called for has been freed, and no thread that will look at a `task_struct` before it can
leave its loop watches one that has been freed. So the lock never keeps an unload from
its end, and once one of the three is broken `simple_module_exit` never returns. -/
theorem unload_possible_iff (ran : run (turn sample) (load n) turns = .ok state) :
    (∃ more final, run (turn sample) state more = .ok final ∧ final.module = .unloaded) ↔
      (∀ i, ¬ state.Failed i) ∧ (∀ i, state.module.ToStop i → (state.thread i).pc ≠ .freed) ∧
        ∀ i, (state.thread i).pc.Committed → (state.thread (sample.threadFn i).watched).pc ≠ .freed := by
  have sound := run_sound ran
  constructor
  · rintro ⟨more, final, went, unloaded⟩
    suffices clear : Unloadable sample state from ⟨clear.created, clear.toStop, clear.watched⟩
    clear ran
    induction more generalizing state with
    | nil =>
      cases went
      have stopped (i : Fin n) : final.kthreadStruct i = .task ∧ (final.thread i).pc.Gone :=
        sound.stopped i (by rw [unloaded]; exact id) (by rw [Threads.Held, unloaded]; exact id)
      refine ⟨fun i => ?_, fun i ahead => ?_, fun i committed => ?_⟩
      · rintro (isErr | ⟨left, same⟩)
        · rw [(stopped i).1] at isErr
          cases isErr
        · rw [unloaded] at same
          cases same
      · rw [unloaded] at ahead
        exact ahead.elim
      · rcases (stopped i).2 with gone | gone <;> rw [gone] at committed <;> exact committed.elim
    | cons action more ih =>
      obtain ⟨next, taken, rest⟩ := bind_eq_ok.mp (run_cons.symm.trans went)
      exact unloadable_before sound taken (ih (turn_sound sound taken) rest)
  · rintro ⟨created, toStop, watched⟩
    have start : Sound sample state ∧ Unloadable sample state := ⟨sound, created, toStop, watched⟩
    refine run_reaches (fun state => Sound sample state ∧ Unloadable sample state) Threads.rank ?_ start
    intro state held unfinished
    exact unload_progress held.1 held.2 unfinished

/-- A thread that is killed and freed while the module is loaded. -/
def killedAndFreed (thread : Fin n) : List (Turn n) :=
  List.replicate 3 (.module true) ++ List.replicate 5 (.thread thread) ++ [.signal thread] ++
    List.replicate 4 (.thread thread) ++ [.free thread]

/-- It keeps `simple_kthread` loaded. -/
theorem unload_impossible_killed :
    ∃ state, run (turn simpleKthread) (load 1) (killedAndFreed 0) = .ok state ∧
      ¬ ∃ more final, run (turn simpleKthread) state more = .ok final ∧ final.module = .unloaded := by
  obtain ⟨state, ran, loaded, freed⟩ : ∃ state, run (turn simpleKthread) (load 1) (killedAndFreed 0) = .ok state ∧
    state.module = .loaded ∧ (state.thread 0).pc = .freed := ⟨_, rfl, rfl, rfl⟩
  refine ⟨state, ran, fun possible => ((unload_possible_iff ran).mp possible).2.1 0 ?_ freed⟩
  rw [loaded]
  trivial

/-! ## Why a thread ends -/

/-- The thread has left its loop. -/
def ThreadPc.Left : ThreadPc → Prop
  | .unlockKilled | .printkKilling | .printkStopping | .doExit | .exited | .freed => True
  | _ => False

/-- Where the actions so far have led to. -/
structure Traced (sample : Sample n) (done : List (Turn n)) (state : Threads n) : Prop where
  signalled : ∀ i, (state.thread i).signalled = true → .signal i ∈ done
  left : ∀ i, (state.thread i).pc.Left →
    (state.thread i).shouldStop = true ∨ .signal (sample.threadFn i).watched ∈ done
  failed : ∀ i, state.Failed i → .module false ∈ done
  /-- A thread is told to stop once. -/
  stopping : match state.module with
    | .kthreadStop left => left.Nodup
    | .waitExited i left => (i :: left).Nodup
    | _ => True
  told : ∀ i, (state.thread i).shouldStop = true → ¬ state.module.ToStop i

theorem load_traced (sample : Sample n) : Traced sample [] (load n) where
  signalled i sent := by cases sent
  left i left := left.elim
  failed i failed := by
    rcases failed with isErr | ⟨left, same⟩
    · cases isErr
    · cases same
  stopping := trivial
  told i told := by cases told

theorem next_left {locked stop pending : Bool} {pc : ThreadPc} (left : (pc.next locked stop pending).Left) :
    pc.Left ∨ (pc = .signalPending ∧ pending = true) ∨ stop = true := by
  cases pc <;> cases locked <;> cases stop <;> cases pending <;> simp_all [ThreadPc.next, ThreadPc.Left]

theorem thread_traced {done : List (Turn n)} (traced : Traced sample done state)
    (taken : threadFnStep sample state i = .ok next) : Traced sample (done ++ [.thread i]) next := by
  have later {action : Turn n} (member : action ∈ done) : action ∈ done ++ [.thread i] :=
    List.mem_append_left _ member
  rcases threadFnStep_cases taken with ⟨rfl, -⟩ | ⟨pending, moved⟩
  · exact ⟨fun j sent => later (traced.signalled j sent), fun j left => (traced.left j left).imp_right later,
      fun j failed => later (traced.failed j failed), traced.stopping, traced.told⟩
  have flags (j : Fin n) : (next.thread j).signalled = (state.thread j).signalled ∧
      (next.thread j).shouldStop = (state.thread j).shouldStop := by
    by_cases same : j = i
    · rw [same, moved.thread, Function.update_self]
      exact ⟨rfl, rfl⟩
    · rw [moved.thread, Function.update_of_ne same]
      exact ⟨rfl, rfl⟩
  refine ⟨fun j sent => ?_, fun j left => ?_, fun j failed => ?_, ?_, fun j told => ?_⟩
  · exact later (traced.signalled j ((flags j).1 ▸ sent))
  · rw [(flags j).2]
    by_cases same : j = i
    · rw [same] at left ⊢
      rw [moved.pc] at left
      rcases next_left left with already | ⟨looks, rfl⟩ | stop
      · exact (traced.left i already).imp_right later
      · have found := (signalPending_ok_iff.mp (moved.looked looks)).2
        exact .inr (later (traced.signalled _ found.symm))
      · exact .inl stop
    · rw [moved.thread, Function.update_of_ne same] at left
      exact (traced.left j left).imp_right later
  · rw [Threads.Failed, moved.kthreadStruct, moved.module] at failed
    exact later (traced.failed j failed)
  · rw [moved.module]
    exact traced.stopping
  · rw [moved.module]
    exact traced.told j ((flags j).2 ▸ told)

theorem module_traced {done : List (Turn n)} {created : Bool} (sound : Sound sample state)
    (traced : Traced sample done state) (taken : moduleStep sample state created = .ok next) :
    Traced sample (done ++ [.module created]) next := by
  have later {action : Turn n} (member : action ∈ done) : action ∈ done ++ [.module created] :=
    List.mem_append_left _ member
  have signalled := fun j sent => later (traced.signalled j sent)
  have left := fun j left => (traced.left j left).imp_right later
  have failed := fun j failed => later (traced.failed j failed)
  have made := taken
  cases moduleStep_cases taken with
  | create i left' here =>
    refine ⟨fun j sent => ?_, fun j goes => ?_, fun j failing => ?_, trivial, fun j told => ?_⟩
    · by_cases same : j = i
      · simp [same, Threads.set, Thread.new] at sent
      · exact signalled j (by simpa [same, Threads.set] using sent)
    · by_cases same : j = i
      · simp [same, Threads.set, Thread.new, ThreadPc.Left] at goes
      · have goes' : (state.thread j).pc.Left := by simpa [same, Threads.set] using goes
        simpa [same, Threads.set] using left j goes'
    · rcases failing with isErr | ⟨left', same⟩
      · exact failed j (.inl isErr)
      · cases same
    · by_cases same : j = i
      · simp [same, Threads.set, Thread.new] at told
      · have told' : (state.thread j).shouldStop = true := by simpa [same, Threads.set] using told
        have before := traced.told j told'
        rw [here] at before
        exact absurd trivial before
  | refuse i left' here =>
    have refused : created = false := by
      cases created with
      | false => rfl
      | true =>
        simp only [moduleStep, here, if_true, Except.ok.injEq] at made
        have module := congrArg Threads.module made
        simp at module
    refine ⟨signalled, left, fun j failing => ?_, trivial, fun j told => ?_⟩
    · rcases failing with isErr | -
      · exact failed j (.inl isErr)
      · rw [refused]
        simp
    · have before := traced.told j told
      rw [here] at before
      exact absurd trivial before
  | assign i done' left' here =>
    refine ⟨signalled, left, fun j failing => ?_, trivial, fun j told => ?_⟩
    · rcases failing with isErr | ⟨left', same⟩
      · by_cases same : j = i
        · subst same
          cases done' with
          | false => exact failed j (.inr ⟨left', here⟩)
          | true => simp at isErr
        · exact failed j (.inl (by simpa [same] using isErr))
      · cases same
    · have before := traced.told j told
      rw [here] at before
      exact absurd trivial before
  | report here | rmmod here =>
    refine ⟨signalled, left, fun j failing => ?_, ?_, fun j told => ?_⟩
    · rcases failing with isErr | ⟨left', same⟩
      · exact failed j (.inl isErr)
      · cases same
    · first | trivial | exact List.nodup_finRange n
    · have before := traced.told j told
      rw [here] at before
      exact absurd trivial before
  | skip i left' here null => exact absurd null (sound.assigned (by rw [here]; rfl) i)
  | stop i left' here there =>
    have stopping := traced.stopping
    rw [here] at stopping
    have flags (j : Fin n) : ((state.set i { state.thread i with shouldStop := true }).thread j).signalled =
        (state.thread j).signalled ∧
        ((state.set i { state.thread i with shouldStop := true }).thread j).pc = (state.thread j).pc := by
      by_cases same : j = i <;> simp [same]
    refine ⟨fun j sent => signalled j ((flags j).1 ▸ sent), fun j goes => ?_, fun j failing => ?_, stopping,
      fun j told => ?_⟩
    · by_cases same : j = i
      · exact .inl (by simp [same, Threads.set])
      · have goes' : (state.thread j).pc.Left := (flags j).2 ▸ goes
        simpa [same, Threads.set] using left j goes'
    · rcases failing with isErr | ⟨left', same⟩
      · exact failed j (.inl isErr)
      · cases same
    · by_cases same : j = i
      · rw [same]
        exact (List.nodup_cons.mp stopping).1
      · have told' : (state.thread j).shouldStop = true := by simpa [same, Threads.set] using told
        have before := traced.told j told'
        rw [here] at before
        exact mt (List.mem_cons_of_mem i) before
  | exited i left' here exited =>
    have stopping := traced.stopping
    rw [here] at stopping
    refine ⟨signalled, left, fun j failing => ?_, (List.nodup_cons.mp stopping).2, fun j told => ?_⟩
    · rcases failing with isErr | ⟨left', same⟩
      · exact failed j (.inl isErr)
      · cases same
    · have before := traced.told j told
      rwa [here] at before
  | finish here =>
    refine ⟨signalled, left, fun j failing => ?_, trivial, fun j _ => id⟩
    rcases failing with isErr | ⟨left', same⟩
    · exact failed j (.inl isErr)
    · cases same
  | stay => exact ⟨signalled, left, failed, traced.stopping, traced.told⟩

theorem turn_traced {done : List (Turn n)} {action : Turn n} (sound : Sound sample state)
    (traced : Traced sample done state) (taken : turn sample state action = .ok next) :
    Traced sample (done ++ [action]) next := by
  have later {before : Turn n} (member : before ∈ done) : before ∈ done ++ [action] :=
    List.mem_append_left _ member
  cases action with
  | module created => exact module_traced sound traced taken
  | thread i => exact thread_traced traced taken
  | signal i =>
    cases taken
    rcases signal_cases state i with same | sent
    · rw [same]
      exact ⟨fun j sent => later (traced.signalled j sent), fun j left => (traced.left j left).imp_right later,
        fun j failed => later (traced.failed j failed), traced.stopping, traced.told⟩
    · rw [sent]
      have flags (j : Fin n) : ((state.set i { state.thread i with signalled := true }).thread j).shouldStop =
          (state.thread j).shouldStop ∧
          ((state.set i { state.thread i with signalled := true }).thread j).pc = (state.thread j).pc := by
        by_cases same : j = i <;> simp [same]
      refine ⟨fun j sent' => ?_, fun j left => ?_, fun j failed => later (traced.failed j failed),
        traced.stopping, fun j told => traced.told j ((flags j).1 ▸ told)⟩
      · by_cases same : j = i
        · rw [same]
          simp
        · exact later (traced.signalled j (by simpa [same] using sent'))
      · rw [(flags j).1]
        exact (traced.left j ((flags j).2 ▸ left)).imp_right later
  | free i =>
    cases taken
    rcases free_cases state i with same | ⟨exited, idle, freed⟩
    · rw [same]
      exact ⟨fun j sent => later (traced.signalled j sent), fun j left => (traced.left j left).imp_right later,
        fun j failed => later (traced.failed j failed), traced.stopping, traced.told⟩
    · rw [freed]
      have flags (j : Fin n) : ((state.goto i .freed).thread j).shouldStop = (state.thread j).shouldStop ∧
          ((state.goto i .freed).thread j).signalled = (state.thread j).signalled := by
        by_cases same : j = i <;> simp [same]
      refine ⟨fun j sent => later (traced.signalled j ((flags j).2 ▸ sent)), fun j left => ?_,
        fun j failed => later (traced.failed j failed), traced.stopping, fun j told => traced.told j ((flags j).1 ▸ told)⟩
      rw [(flags j).1]
      by_cases same : j = i
      · rw [same]
        exact (traced.left i (by rw [exited]; trivial)).imp_right later
      · exact (traced.left j (by simpa [same] using left)).imp_right later

theorem run_traced (ran : run (turn sample) (load n) turns = .ok state) : Traced sample turns state := by
  have both : Sound sample state ∧ Traced sample turns state := by
    refine run_history (fun done state => Sound sample state ∧ Traced sample done state) ?_
      ⟨load_sound sample, load_traced sample⟩ ran
    rintro done state action next ⟨sound, traced⟩ taken
    exact ⟨turn_sound sound taken, turn_traced sound traced taken⟩
  exact both.2

/-- **Who ends whom in `simple_rwlock`.** A reader leaves its loop only if it is told to
stop or `SIGKILL` was sent to the first thread, and the writer only if it is told to stop
or `SIGKILL` was sent to the second, which is a reader: each of them asks about another
thread's signals, so a signal to threads three to six never ends anything. -/
theorem rwlock_killed_by (turns : List (Turn 6)) (state : Threads 6)
    (ran : run (turn simpleRwlock) (load 6) turns = .ok state) (i : Fin 6) (left : (state.thread i).pc.Left) :
    (state.thread i).shouldStop = true ∨ (i < 5 ∧ .signal 0 ∈ turns) ∨ (i = 5 ∧ .signal 1 ∈ turns) := by
  rcases (run_traced ran).left i left with told | sent
  · exact .inl told
  · refine .inr ?_
    simp only [simpleRwlock] at sent
    split at sent
    · rename_i reader
      exact .inl ⟨reader, sent⟩
    · rename_i writer
      refine .inr ⟨?_, sent⟩
      have last := i.isLt
      simp only [Fin.lt_def] at writer
      exact Fin.ext (by omega)

/-- A signal to a thread of `simple_rwlock` before another one goes round its loop. -/
def signalledBefore (first second : Fin n) : List (Turn n) :=
  List.replicate 13 (.module true) ++ [.thread first, .thread first, .signal first] ++
    List.replicate 8 (.thread second)

/-- A signal to the second thread ends the sixth. -/
theorem rwlock_killed_by_second :
    ∃ state, run (turn simpleRwlock) (load 6) (signalledBefore 1 5) = .ok state ∧
      ((state.thread 5).shouldStop = true ∨ ((5 : Fin 6) < 5 ∧ .signal 0 ∈ signalledBefore (1 : Fin 6) 5) ∨
        ((5 : Fin 6) = 5 ∧ .signal 1 ∈ signalledBefore (1 : Fin 6) 5)) := by
  obtain ⟨state, ran, left⟩ : ∃ state, run (turn simpleRwlock) (load 6) (signalledBefore 1 5) = .ok state ∧
    (state.thread 5).pc = .unlockKilled := ⟨_, rfl, rfl⟩
  exact ⟨state, ran, rwlock_killed_by (signalledBefore 1 5) state ran 5 (by rw [left]; trivial)⟩

/-- **A quiet run can be unloaded.** Where every thread watches itself, as in
`simple_kthread` and `simple_spinlock`, and no `SIGKILL` is sent and every `kthread_run`
succeeds, the module can be unloaded from every state that is reached, and the only bad
access is of a thread that looks at its `kthread_struct` before `simple_module_init` has
stored it. -/
theorem quiet_run_unloads (own : ∀ i, (sample.threadFn i).watched = i)
    (quiet : ∀ action ∈ turns, action ≠ .module false ∧ ∀ i, action ≠ .signal i) :
    match run (turn sample) (load n) turns with
    | .error _ => ∃ before i rest reached, turns = before ++ .thread i :: rest ∧
        run (turn sample) (load n) before = .ok reached ∧
        (reached.thread i).pc = .signalPending ∧ reached.kthreadStruct i = .null
    | .ok state => ∃ more final, run (turn sample) state more = .ok final ∧ final.module = .unloaded := by
  have clear {before : List (Turn n)} {reached : Threads n} (every : ∀ action ∈ before, action ∈ turns)
      (went : run (turn sample) (load n) before = .ok reached) : Unloadable sample reached := by
    have traced := run_traced went
    have left (i : Fin n) (gone : (reached.thread i).pc.Left) : (reached.thread i).shouldStop = true := by
      rcases traced.left i gone with told | sent
      · exact told
      · exact absurd rfl ((quiet _ (every _ sent)).2 _)
    refine ⟨fun i failed => ?_, fun i ahead freed => ?_, fun i committed => ?_⟩
    · exact absurd rfl (quiet _ (every _ (traced.failed i failed))).1
    · exact traced.told i (left i (by rw [freed]; trivial)) ahead
    · rw [own]
      intro freed
      rw [freed] at committed
      exact committed
  cases ran : run (turn sample) (load n) turns with
  | error bug =>
    obtain ⟨before, action, rest, reached, whole, went, faults⟩ := run_fault ran
    have sound := run_sound went
    have unloadable := clear (fun action member => by rw [whole]; exact List.mem_append_left _ member) went
    cases action with
    | module created =>
      simp only [turn, moduleStep] at faults
      split at faults
      case h_5 i left here =>
        have kept := unloadable.toStop i (by rw [here]; exact List.mem_cons_self)
        split at faults
        · cases faults
        · rename_i isErr
          exact absurd (.inl isErr) (unloadable.created i)
        · rw [if_neg kept] at faults
          cases faults
      case h_6 => split at faults <;> cases faults
      all_goals cases faults
    | thread i =>
      obtain ⟨-, looks, absent⟩ := threadFnStep_error sound.agrees faults
      rw [own] at absent
      refine ⟨before, i, rest, reached, whole, went, looks, ?_⟩
      cases value : reached.kthreadStruct i with
      | null => rfl
      | err => exact absurd (.inl value) (unloadable.created i)
      | task => exact absurd ⟨value, by rw [looks]; exact fun same => by cases same⟩ absent
    | signal | free => cases faults
  | ok state =>
    have start : Sound sample state ∧ Unloadable sample state := ⟨run_sound ran, clear (fun _ => id) ran⟩
    refine run_reaches (fun state => Sound sample state ∧ Unloadable sample state) Threads.rank ?_ start
    intro state held unfinished
    exact unload_progress held.1 held.2 unfinished

/-- `simple_spinlock` just after its load. -/
theorem quiet_run_unloads_spinlock :
    ∃ state more final, run (turn simpleSpinlock) (load 2) (List.replicate 5 (.module true)) = .ok state ∧
      run (turn simpleSpinlock) state more = .ok final ∧ final.module = .unloaded := by
  obtain ⟨state, ran⟩ : ∃ state, run (turn simpleSpinlock) (load 2) (List.replicate 5 (.module true)) = .ok state :=
    ⟨_, rfl⟩
  have quiet : ∀ action ∈ List.replicate 5 (Turn.module true : Turn 2),
      action ≠ .module false ∧ ∀ i, action ≠ .signal i := by decide
  have own : ∀ i, (simpleSpinlock.threadFn i).watched = i := fun _ => rfl
  have unloads := quiet_run_unloads own quiet
  rw [ran] at unloads
  obtain ⟨more, final, went, done⟩ := unloads
  exact ⟨state, more, final, ran, went, done⟩

end KernelLabs.ThreadSamples
