import KernelLabs.ReadWriteLock
import Mathlib.Data.List.FinRange

/-! `samples/threads_and_locks`: modules whose threads loop over a critical section until
they are told to stop or see a signal. The three modules are one program with different
thread functions; each statement of a thread, of `simple_module_init` and of
`simple_module_exit` is a step, and the steps come in any order. -/
namespace KernelLabs.ThreadSamples
open ReadWriteLock

/-- What a thread must never do. -/
inductive Bug
  /-- It uses a `task_struct` that is not there: `NULL`, an error, or freed. -/
  | badAccess
  /-- It releases a lock it does not hold. -/
  | notHeld
  deriving DecidableEq, Repr

/-- `thread_fn`, `thread1_fn`, `thread2_fn`. -/
structure ThreadFn (n : Nat) where
  /-- Which of the `kthread_struct`s is the argument of `signal_pending`. -/
  watched : Fin n
  /-- How the critical section is entered, if there is one. -/
  lock : Option Mode

/-- A module with `n` threads. -/
structure Sample (n : Nat) where
  threadFn : Fin n → ThreadFn n
  /-- The `kthread_struct`s that `simple_module_init` looks at. -/
  tested : List (Fin n)

/-- `simple_kthread.c`. -/
def simpleKthread : Sample 1 where
  threadFn _ := { watched := 0, lock := none }
  tested := [0]

/-- `simple_spinlock.c`. -/
def simpleSpinlock : Sample 2 where
  threadFn i := { watched := i, lock := some .write }
  tested := [0, 1]

/-- `simple_rwlock.c`: five threads run `thread1_fn`, the sixth `thread2_fn`. -/
def simpleRwlock : Sample 6 where
  threadFn i := if i < 5 then { watched := 0, lock := some .read } else { watched := 1, lock := some .write }
  tested := [0, 1]

/-- The next statement of a thread. -/
inductive ThreadPc
  | notCreated
  /-- The kernel has not called the thread function yet. -/
  | kthread
  | allowSignal
  | kthreadShouldStop
  | printkRunning
  | ssleep
  | lock
  | printkInside
  | signalPending
  /-- The unlock ahead of the `break`. -/
  | unlockKilled
  | printkKilling
  | unlock
  | printkStopping
  | doExit
  /-- The thread has exited; its `task_struct` is still there. -/
  | exited
  | freed
  deriving DecidableEq, Repr

/-- A thread's `task_struct`. -/
structure Thread where
  pc : ThreadPc
  /-- `KTHREAD_SHOULD_STOP`. -/
  shouldStop : Bool
  /-- `SIGKILL` is not ignored. -/
  allowed : Bool
  /-- What `signal_pending` returns. -/
  signalled : Bool
  deriving DecidableEq, Repr

/-- A thread that `kthread_run` has just created. -/
def Thread.new : Thread := ⟨.kthread, false, false, false⟩

/-- The value of a `kthread_struct`. -/
inductive TaskPtr
  | null
  /-- `ERR_PTR`: `kthread_run` failed. -/
  | err
  | task
  deriving DecidableEq, Repr

/-- The next statement of `simple_module_init` or `simple_module_exit`, with the threads
whose statements are still ahead. -/
inductive ModulePc (n : Nat)
  | kthreadRun (left : List (Fin n))
  /-- `kthread_run` has returned, its value is not stored yet. -/
  | assign (i : Fin n) (created : Bool) (left : List (Fin n))
  | loaded
  | kthreadStop (left : List (Fin n))
  /-- In `kthread_stop`, which holds a reference to the thread it waits for. -/
  | waitExited (i : Fin n) (left : List (Fin n))
  | unloaded
  deriving DecidableEq, Repr

structure Threads (n : Nat) where
  kthreadStruct : Fin n → TaskPtr
  thread : Fin n → Thread
  lock : LockWord
  module : ModulePc n
  /-- Whether `simple_module_init` has reported success. -/
  report : Option Bool

variable {n : Nat}

/-- A module that is about to be initialised. -/
def load (n : Nat) : Threads n where
  kthreadStruct _ := .null
  thread _ := { Thread.new with pc := .notCreated }
  lock := LockWord.free
  module := .kthreadRun (List.finRange n)
  report := none

/-- Thread `i` as it is after a statement. -/
def Threads.set (state : Threads n) (i : Fin n) (thread : Thread) : Threads n :=
  { state with thread := Function.update state.thread i thread }

/-- Thread `i` goes on with `pc`. -/
def Threads.goto (state : Threads n) (i : Fin n) (pc : ThreadPc) : Threads n :=
  state.set i { state.thread i with pc := pc }

/-- `signal_pending(kthread_struct)`. -/
def signalPending (state : Threads n) (i : Fin n) : Except Bug Bool :=
  match state.kthreadStruct i with
  | .null | .err => .error .badAccess
  | .task => if (state.thread i).pc = .freed then .error .badAccess else .ok (state.thread i).signalled

/-- The unlock of thread `i`, which goes on with `pc`. -/
def unlock (state : Threads n) (i : Fin n) (mode : Mode) (pc : ThreadPc) : Except Bug (Threads n) :=
  match state.lock.release mode with
  | none => .error .notHeld
  | some lock => .ok { state.goto i pc with lock := lock }

/-- A statement of thread `i`. A thread that spins, or is not there, stays where it is. -/
def threadFnStep (sample : Sample n) (state : Threads n) (i : Fin n) : Except Bug (Threads n) :=
  let fn := sample.threadFn i
  match (state.thread i).pc with
  | .notCreated | .exited | .freed => .ok state
  | .kthread => .ok (state.goto i (if (state.thread i).shouldStop then .exited else .allowSignal))
  | .allowSignal => .ok (state.set i { state.thread i with pc := .kthreadShouldStop, allowed := true })
  | .kthreadShouldStop =>
    .ok (state.goto i (if (state.thread i).shouldStop then .printkStopping else .printkRunning))
  | .printkRunning => .ok (state.goto i .ssleep)
  | .ssleep => .ok (state.goto i (if fn.lock.isSome then .lock else .signalPending))
  | .lock =>
    match fn.lock with
    | none => .ok (state.goto i .printkInside)
    | some mode =>
      match state.lock.acquire mode with
      | none => .ok state
      | some lock => .ok { state.goto i .printkInside with lock := lock }
  | .printkInside => .ok (state.goto i .signalPending)
  | .signalPending => do
    let pending ← signalPending state fn.watched
    return state.goto i
      (if fn.lock.isSome then (if pending then .unlockKilled else .unlock)
       else (if pending then .printkKilling else .kthreadShouldStop))
  | .unlockKilled =>
    match fn.lock with
    | none => .ok (state.goto i .printkKilling)
    | some mode => unlock state i mode .printkKilling
  | .printkKilling => .ok (state.goto i .printkStopping)
  | .unlock =>
    match fn.lock with
    | none => .ok (state.goto i .kthreadShouldStop)
    | some mode => unlock state i mode .kthreadShouldStop
  | .printkStopping => .ok (state.goto i .doExit)
  | .doExit => .ok (state.goto i .exited)

/-- A statement of `simple_module_init` or `simple_module_exit`. `kthread_run` returns an
error where it does not create the thread, which no `NULL` test notices. -/
def moduleStep (sample : Sample n) (state : Threads n) (created : Bool) : Except Bug (Threads n) :=
  match state.module with
  | .kthreadRun (i :: left) =>
    .ok { (if created then state.set i Thread.new else state) with module := .assign i created left }
  | .assign i created left =>
    .ok { state with
      kthreadStruct := Function.update state.kthreadStruct i (if created then .task else .err)
      module := .kthreadRun left }
  | .kthreadRun [] =>
    .ok { state with
      report := some (sample.tested.all fun i => state.kthreadStruct i ≠ .null)
      module := .loaded }
  | .loaded => .ok { state with module := .kthreadStop (List.finRange n) }
  | .kthreadStop (i :: left) =>
    match state.kthreadStruct i with
    | .null => .ok { state with module := .kthreadStop left }
    | .err => .error .badAccess
    | .task =>
      if (state.thread i).pc = .freed then .error .badAccess
      else .ok { state.set i { state.thread i with shouldStop := true } with module := .waitExited i left }
  | .waitExited i left =>
    if (state.thread i).pc = .exited then .ok { state with module := .kthreadStop left } else .ok state
  | .kthreadStop [] => .ok { state with module := .unloaded }
  | .unloaded => .ok state

/-- `SIGKILL` is sent to thread `i`; the kernel drops it unless the thread allows it. -/
def signal (state : Threads n) (i : Fin n) : Threads n :=
  if (state.thread i).allowed ∧ (state.thread i).pc ≠ .exited ∧ (state.thread i).pc ≠ .freed then
    state.set i { state.thread i with signalled := true }
  else state

/-- `kthread_stop` holds a reference to thread `i`. -/
def Threads.Held (state : Threads n) (i : Fin n) : Prop :=
  match state.module with
  | .waitExited j _ => j = i
  | _ => False

instance (state : Threads n) (i : Fin n) : Decidable (state.Held i) := by
  unfold Threads.Held
  split <;> infer_instance

/-- The kernel frees the `task_struct` of a thread that has exited. -/
def free (state : Threads n) (i : Fin n) : Threads n :=
  if (state.thread i).pc = .exited ∧ ¬ state.Held i then state.goto i .freed else state

inductive Turn (n : Nat)
  /-- `created` is whether `kthread_run` succeeds, where it is called. -/
  | module (created : Bool)
  | thread (i : Fin n)
  | signal (i : Fin n)
  | free (i : Fin n)
  deriving DecidableEq, Repr

def turn (sample : Sample n) (state : Threads n) : Turn n → Except Bug (Threads n)
  | .module created => moduleStep sample state created
  | .thread i => threadFnStep sample state i
  | .signal i => .ok (signal state i)
  | .free i => .ok (free state i)

/-! ## What a statement of a thread does -/

/-- The control flow of a thread function. -/
def ThreadPc.next (locked stop pending : Bool) : ThreadPc → ThreadPc
  | .kthread => if stop then .exited else .allowSignal
  | .allowSignal => .kthreadShouldStop
  | .kthreadShouldStop => if stop then .printkStopping else .printkRunning
  | .printkRunning => .ssleep
  | .ssleep => if locked then .lock else .signalPending
  | .lock => .printkInside
  | .printkInside => .signalPending
  | .signalPending =>
    if locked then (if pending then .unlockKilled else .unlock)
    else (if pending then .printkKilling else .kthreadShouldStop)
  | .unlockKilled => .printkKilling
  | .printkKilling => .printkStopping
  | .unlock => .kthreadShouldStop
  | .printkStopping => .doExit
  | .doExit => .exited
  | pc => pc

/-- The thread is there and has statements left. -/
def ThreadPc.Alive : ThreadPc → Prop
  | .notCreated | .exited | .freed => False
  | _ => True

/-- The thread is in its critical section, if it has one. -/
def ThreadPc.inside : ThreadPc → Bool
  | .printkInside | .signalPending | .unlockKilled | .unlock => true
  | _ => false

/-- How thread `i` holds the lock. -/
def Threads.holds (sample : Sample n) (state : Threads n) (i : Fin n) : Option Mode :=
  if (state.thread i).pc.inside then (sample.threadFn i).lock else none

/-- `kthread_struct` can be used. -/
def Threads.Watchable (state : Threads n) (i : Fin n) : Prop :=
  state.kthreadStruct i = .task ∧ (state.thread i).pc ≠ .freed

section Step
variable {sample : Sample n} {state next : Threads n} {i j : Fin n}

@[simp] theorem set_thread (thread : Thread) :
    (state.set i thread).thread = Function.update state.thread i thread := rfl

@[simp] theorem goto_thread (pc : ThreadPc) :
    (state.goto i pc).thread = Function.update state.thread i { state.thread i with pc := pc } := rfl

theorem signalPending_ok_iff {pending : Bool} :
    signalPending state i = .ok pending ↔ state.Watchable i ∧ pending = (state.thread i).signalled := by
  unfold signalPending Threads.Watchable
  cases state.kthreadStruct i with
  | null | err => simp
  | task => by_cases gone : (state.thread i).pc = .freed <;> simp [gone, eq_comm]

/-- A statement that thread `i` has executed. -/
structure Moved (sample : Sample n) (state : Threads n) (i : Fin n) (pending : Bool) (next : Threads n) :
    Prop where
  alive : (state.thread i).pc.Alive
  thread : next.thread = Function.update state.thread i
    { state.thread i with
      pc := (state.thread i).pc.next (sample.threadFn i).lock.isSome (state.thread i).shouldStop pending
      allowed := (state.thread i).allowed || (state.thread i).pc = .allowSignal }
  kthreadStruct : next.kthreadStruct = state.kthreadStruct
  module : next.module = state.module
  report : next.report = state.report
  looked : (state.thread i).pc = .signalPending →
    signalPending state (sample.threadFn i).watched = .ok pending
  lock : ((state.thread i).pc = .lock ∧
      ∃ mode, (sample.threadFn i).lock = some mode ∧ state.lock.acquire mode = some next.lock) ∨
    (((state.thread i).pc = .unlock ∨ (state.thread i).pc = .unlockKilled) ∧
      ∃ mode, (sample.threadFn i).lock = some mode ∧ state.lock.release mode = some next.lock) ∨
    (next.lock = state.lock ∧ next.holds sample i = state.holds sample i)

/-- A thread that takes a step stays where it is, since it is not there or spins, or
executes its next statement. -/
theorem threadFnStep_cases (taken : threadFnStep sample state i = .ok next) :
    (next = state ∧ ((state.thread i).pc = .lock ∨ ¬ (state.thread i).pc.Alive)) ∨
      ∃ pending, Moved sample state i pending next := by
  have plain (pending : Bool) {thread : Thread} (alive : (state.thread i).pc.Alive)
      (looks : (state.thread i).pc = .signalPending →
        signalPending state (sample.threadFn i).watched = .ok pending)
      (becomes : thread = { state.thread i with
        pc := (state.thread i).pc.next (sample.threadFn i).lock.isSome (state.thread i).shouldStop pending
        allowed := (state.thread i).allowed || (state.thread i).pc = .allowSignal })
      (keeps : (sample.threadFn i).lock ≠ none → thread.pc.inside = (state.thread i).pc.inside) :
      Moved sample state i pending (state.set i thread) := by
    refine ⟨alive, by rw [set_thread, becomes], rfl, rfl, rfl, looks, .inr (.inr ⟨rfl, ?_⟩)⟩
    cases locked : (sample.threadFn i).lock with
    | none => simp [Threads.holds, locked]
    | some mode => simp [Threads.holds, keeps (by rw [locked]; exact Option.some_ne_none mode)]
  unfold threadFnStep at taken
  cases here : (state.thread i).pc with
  | notCreated | exited | freed =>
    simp only [here, Except.ok.injEq] at taken
    exact .inl ⟨taken.symm, .inr (by simp [ThreadPc.Alive])⟩
  | kthread | allowSignal | kthreadShouldStop | printkRunning | ssleep | printkInside | printkKilling
  | printkStopping | doExit =>
    simp only [here, Except.ok.injEq] at taken
    subst taken
    refine .inr ⟨false, plain false (by simp [here, ThreadPc.Alive]) (by simp [here]) ?_ ?_⟩
    · simp [here, ThreadPc.next]
    · intro locked
      have isSome := Option.ne_none_iff_isSome.mp locked
      simp only [here, isSome, if_true]
      try split
      all_goals rfl
  | lock =>
    simp only [here] at taken
    cases locked : (sample.threadFn i).lock with
    | none =>
      simp only [locked, Except.ok.injEq] at taken
      subst taken
      refine .inr ⟨false, plain false (by simp [here, ThreadPc.Alive]) (by simp [here]) ?_ ?_⟩
      · simp [here, ThreadPc.next]
      · exact fun some_lock => absurd locked some_lock
    | some mode =>
      simp only [locked] at taken
      cases acquired : state.lock.acquire mode with
      | none =>
        simp only [acquired, Except.ok.injEq] at taken
        exact .inl ⟨taken.symm, .inl rfl⟩
      | some lock =>
        simp only [acquired, Except.ok.injEq] at taken
        subst taken
        refine .inr ⟨false, by simp [here, ThreadPc.Alive], ?_, rfl, rfl, rfl, by simp [here], ?_⟩
        · simp [here, ThreadPc.next]
        · exact .inl ⟨here, mode, locked, acquired⟩
  | signalPending =>
    simp only [here] at taken
    obtain ⟨pending, looked, same⟩ := bind_eq_ok.mp taken
    cases same
    refine .inr ⟨pending, plain pending (by simp [here, ThreadPc.Alive]) (fun _ => looked) ?_ ?_⟩
    · simp [here, ThreadPc.next]
    · intro locked
      have isSome := Option.ne_none_iff_isSome.mp locked
      simp only [here, isSome, if_true]
      cases pending <;> rfl
  | unlockKilled | unlock =>
    simp only [here] at taken
    cases locked : (sample.threadFn i).lock with
    | none =>
      simp only [locked, Except.ok.injEq] at taken
      subst taken
      refine .inr ⟨false, plain false (by simp [here, ThreadPc.Alive]) (by simp [here]) ?_ ?_⟩
      · simp [here, ThreadPc.next]
      · exact fun some_lock => absurd locked some_lock
    | some mode =>
      simp only [locked, ThreadSamples.unlock] at taken
      cases released : state.lock.release mode with
      | none => simp [released] at taken
      | some lock =>
        simp only [released, Except.ok.injEq] at taken
        subst taken
        refine .inr ⟨false, by simp [here, ThreadPc.Alive], ?_, rfl, rfl, rfl, by simp [here], ?_⟩
        · simp [here, ThreadPc.next]
        · exact .inr (.inl ⟨by simp [here], mode, locked, released⟩)

/-! ## The lock -/

theorem holds_of_not_inside (outside : (state.thread i).pc.inside = false) : state.holds sample i = none := by
  simp [Threads.holds, outside]

theorem holds_congr (same : ∀ i, (next.thread i).pc.inside = (state.thread i).pc.inside) :
    next.holds sample = state.holds sample := by
  funext i
  rw [Threads.holds, Threads.holds, same]

/-- What one thread holds after a step of it. -/
theorem Moved.holds_update {pending : Bool} (moved : Moved sample state i pending next) :
    next.holds sample = Function.update (state.holds sample) i (next.holds sample i) := by
  funext j
  by_cases same : j = i
  · rw [same, Function.update_self]
  · rw [Function.update_of_ne same, Threads.holds, Threads.holds, moved.thread, Function.update_of_ne same]

theorem Moved.pc {pending : Bool} (moved : Moved sample state i pending next) :
    (next.thread i).pc =
      (state.thread i).pc.next (sample.threadFn i).lock.isSome (state.thread i).shouldStop pending := by
  rw [moved.thread, Function.update_self]

theorem moved_agrees {pending : Bool} (agrees : Agrees (state.holds sample) state.lock)
    (moved : Moved sample state i pending next) : Agrees (next.holds sample) next.lock := by
  rw [moved.holds_update]
  rcases moved.lock with ⟨here, mode, locked, acquired⟩ | ⟨here, mode, locked, released⟩ | ⟨same, keeps⟩
  · have inside : next.holds sample i = some mode := by
      simp [Threads.holds, moved.pc, here, ThreadPc.next, ThreadPc.inside, locked]
    rw [inside]
    exact agrees.acquire (holds_of_not_inside (by rw [here]; rfl)) acquired
  · have held : state.holds sample i = some mode := by
      rcases here with here | here <;> simp [Threads.holds, here, ThreadPc.inside, locked]
    have outside : next.holds sample i = none := by
      rcases here with here | here <;> simp [Threads.holds, moved.pc, here, ThreadPc.next, ThreadPc.inside]
    obtain ⟨lock, taken, after⟩ := agrees.release held
    rw [outside]
    rw [released] at taken
    cases taken
    exact after
  · rw [same, keeps, Function.update_eq_self]
    exact agrees

/-! ## What the other steps do -/

/-- What a statement of `simple_module_init` or `simple_module_exit` does. -/
inductive ModuleMoved (sample : Sample n) (state : Threads n) : Threads n → Prop
  | create (i : Fin n) (left : List (Fin n)) (here : state.module = .kthreadRun (i :: left)) :
    ModuleMoved sample state { state.set i Thread.new with module := .assign i true left }
  | refuse (i : Fin n) (left : List (Fin n)) (here : state.module = .kthreadRun (i :: left)) :
    ModuleMoved sample state { state with module := .assign i false left }
  | assign (i : Fin n) (created : Bool) (left : List (Fin n)) (here : state.module = .assign i created left) :
    ModuleMoved sample state { state with
      kthreadStruct := Function.update state.kthreadStruct i (if created then .task else .err)
      module := .kthreadRun left }
  | report (here : state.module = .kthreadRun []) :
    ModuleMoved sample state { state with
      report := some (sample.tested.all fun i => state.kthreadStruct i ≠ .null)
      module := .loaded }
  | rmmod (here : state.module = .loaded) :
    ModuleMoved sample state { state with module := .kthreadStop (List.finRange n) }
  | skip (i : Fin n) (left : List (Fin n)) (here : state.module = .kthreadStop (i :: left))
      (null : state.kthreadStruct i = .null) : ModuleMoved sample state { state with module := .kthreadStop left }
  | stop (i : Fin n) (left : List (Fin n)) (here : state.module = .kthreadStop (i :: left))
      (there : state.Watchable i) :
    ModuleMoved sample state
      { state.set i { state.thread i with shouldStop := true } with module := .waitExited i left }
  | exited (i : Fin n) (left : List (Fin n)) (here : state.module = .waitExited i left)
      (done : (state.thread i).pc = .exited) :
    ModuleMoved sample state { state with module := .kthreadStop left }
  | finish (here : state.module = .kthreadStop []) : ModuleMoved sample state { state with module := .unloaded }
  | stay (here : state.module = .unloaded ∨ ∃ i left, state.module = .waitExited i left) :
    ModuleMoved sample state state

theorem moduleStep_cases {created : Bool} (taken : moduleStep sample state created = .ok next) :
    ModuleMoved sample state next := by
  unfold moduleStep at taken
  cases here : state.module with
  | kthreadRun left =>
    rw [here] at taken
    cases left with
    | nil =>
      cases taken
      exact .report here
    | cons i left =>
      cases taken
      cases created with
      | false => exact .refuse i left here
      | true => exact .create i left here
  | assign i done left =>
    rw [here] at taken
    cases taken
    exact .assign i done left here
  | loaded =>
    rw [here] at taken
    cases taken
    exact .rmmod here
  | unloaded =>
    rw [here] at taken
    cases taken
    exact .stay (.inl here)
  | kthreadStop left =>
    rw [here] at taken
    cases left with
    | nil =>
      cases taken
      exact .finish here
    | cons i left =>
      cases there : state.kthreadStruct i with
      | null =>
        simp only [there, Except.ok.injEq] at taken
        exact taken ▸ .skip i left here there
      | err => simp [there] at taken
      | task =>
        simp only [there] at taken
        split at taken
        · cases taken
        · rename_i kept
          cases taken
          exact .stop i left here ⟨there, kept⟩
  | waitExited i left =>
    simp only [here] at taken
    split at taken
    · rename_i done
      cases taken
      exact .exited i left here done
    · cases taken
      exact .stay (.inr ⟨i, left, here⟩)

/-- What the kernel does to a thread by itself. -/
theorem signal_cases (state : Threads n) (i : Fin n) :
    signal state i = state ∨ signal state i = state.set i { state.thread i with signalled := true } := by
  unfold signal
  split
  · exact .inr rfl
  · exact .inl rfl

theorem free_cases (state : Threads n) (i : Fin n) :
    free state i = state ∨
      (state.thread i).pc = .exited ∧ ¬ state.Held i ∧ free state i = state.goto i .freed := by
  unfold free
  split
  · rename_i gone
    exact .inr ⟨gone.1, gone.2, rfl⟩
  · exact .inl rfl

/-! ## What holds in every interleaving -/

/-- The threads whose `kthread_struct` is still to be stored. -/
def ModulePc.ahead : ModulePc n → List (Fin n)
  | .kthreadRun left => left
  | .assign i _ left => i :: left
  | _ => []

/-- `kthread_stop` is still to be called for thread `i`, as far as the module has come. -/
def ModulePc.ToStop (i : Fin n) : ModulePc n → Prop
  | .kthreadRun _ | .assign .. | .loaded => True
  | .kthreadStop left | .waitExited _ left => i ∈ left
  | .unloaded => False

/-- `kthread_run` has not created thread `i`: it failed, or was not called yet. -/
def Threads.Missing (state : Threads n) (i : Fin n) : Prop :=
  match state.module with
  | .kthreadRun left => i ∈ left ∨ state.kthreadStruct i = .err
  | .assign j created left => i ∈ left ∨ (i = j ∧ created = false) ∨ state.kthreadStruct i = .err
  | _ => state.kthreadStruct i = .err

def ThreadPc.Gone (pc : ThreadPc) : Prop := pc = .exited ∨ pc = .freed

structure Sound (sample : Sample n) (state : Threads n) : Prop where
  /-- The lock's word is what the threads in their critical sections hold. -/
  agrees : Agrees (state.holds sample) state.lock
  nodup : state.module.ahead.Nodup
  unassigned : ∀ i, state.kthreadStruct i = .null ↔ i ∈ state.module.ahead
  missing : ∀ i, (state.thread i).pc = .notCreated ↔ state.Missing i
  held : ∀ i, state.Held i → state.Watchable i ∧ (state.thread i).shouldStop = true
  /-- `kthread_stop` returns when the thread has exited. -/
  stopped : ∀ i, ¬ state.module.ToStop i → ¬ state.Held i →
    state.kthreadStruct i = .task ∧ (state.thread i).pc.Gone

theorem load_sound (sample : Sample n) : Sound sample (load n) where
  agrees := free_agrees fun _ => rfl
  nodup := List.nodup_finRange n
  unassigned i := iff_of_true rfl (List.mem_finRange i)
  missing i := iff_of_true rfl (.inl (List.mem_finRange i))
  held _ held := held.elim
  stopped _ done _ := absurd trivial done

/-- A step that leaves the module where it is, and every thread missing, gone or there as
it was. -/
theorem Sound.kept (sound : Sound sample state) (agrees : Agrees (next.holds sample) next.lock)
    (module : next.module = state.module) (structs : next.kthreadStruct = state.kthreadStruct)
    (created : ∀ i, (next.thread i).pc = .notCreated ↔ (state.thread i).pc = .notCreated)
    (gone : ∀ i, (state.thread i).pc.Gone → (next.thread i).pc.Gone)
    (freed : ∀ i, state.Held i → (next.thread i).pc = .freed → (state.thread i).pc = .freed)
    (told : ∀ i, (next.thread i).shouldStop = (state.thread i).shouldStop) : Sound sample next := by
  have held (i : Fin n) : next.Held i ↔ state.Held i := by rw [Threads.Held, Threads.Held, module]
  have missing (i : Fin n) : next.Missing i ↔ state.Missing i := by
    rw [Threads.Missing, Threads.Missing, module, structs]
  refine ⟨agrees, by rw [module]; exact sound.nodup, fun i => ?_, fun i => ?_, fun i holds => ?_,
    fun i done idle => ?_⟩
  · rw [structs, module]
    exact sound.unassigned i
  · rw [created, missing]
    exact sound.missing i
  · have holds := (held i).mp holds
    obtain ⟨⟨isTask, kept⟩, stop⟩ := sound.held i holds
    refine ⟨⟨by rw [structs]; exact isTask, fun now => kept (freed i holds now)⟩, by rw [told]; exact stop⟩
  · rw [module] at done
    obtain ⟨isTask, exited⟩ := sound.stopped i done (mt (held i).mpr idle)
    exact ⟨by rw [structs]; exact isTask, gone i exited⟩

theorem next_notCreated {locked stop pending : Bool} {pc : ThreadPc} :
    pc.next locked stop pending = .notCreated ↔ pc = .notCreated := by
  cases pc <;> cases locked <;> cases stop <;> cases pending <;> simp [ThreadPc.next]

theorem next_freed {locked stop pending : Bool} {pc : ThreadPc} :
    pc.next locked stop pending = .freed ↔ pc = .freed := by
  cases pc <;> cases locked <;> cases stop <;> cases pending <;> simp [ThreadPc.next]

theorem gone_not_alive {pc : ThreadPc} (gone : pc.Gone) : ¬ pc.Alive := by
  rcases gone with rfl | rfl <;> exact id

theorem thread_sound (sound : Sound sample state) (taken : threadFnStep sample state i = .ok next) :
    Sound sample next := by
  rcases threadFnStep_cases taken with ⟨rfl, -⟩ | ⟨pending, moved⟩
  · exact sound
  have others (j : Fin n) (apart : j ≠ i) : next.thread j = state.thread j := by
    rw [moved.thread, Function.update_of_ne apart]
  refine sound.kept (moved_agrees sound.agrees moved) moved.module moved.kthreadStruct
    (fun j => ?_) (fun j gone => ?_) (fun j _ freed => ?_) fun j => ?_
  · by_cases same : j = i
    · rw [same, moved.pc, next_notCreated]
    · rw [others j same]
  · by_cases same : j = i
    · rw [same] at gone
      exact absurd moved.alive (gone_not_alive gone)
    · rw [others j same]
      exact gone
  · by_cases same : j = i
    · rw [same, moved.pc, next_freed] at freed
      rw [same, freed]
    · rwa [others j same] at freed
  · by_cases same : j = i
    · rw [same, moved.thread, Function.update_self]
    · rw [others j same]

theorem signal_sound (sound : Sound sample state) : Sound sample (signal state i) := by
  rcases signal_cases state i with same | sent
  · rw [same]
    exact sound
  have pcs (j : Fin n) : ((signal state i).thread j).pc = (state.thread j).pc := by
    rw [sent]
    by_cases same : j = i <;> simp [same]
  have holds : (signal state i).holds sample = state.holds sample := holds_congr fun j => by rw [pcs]
  have lock : (signal state i).lock = state.lock := by rw [sent]; rfl
  refine sound.kept (by rw [holds, lock]; exact sound.agrees) (by rw [sent]; rfl) (by rw [sent]; rfl)
    (fun j => by rw [pcs]) (fun j => by rw [pcs]; exact id) (fun j _ => by rw [pcs]; exact id) fun j => ?_
  · rw [sent]
    by_cases same : j = i <;> simp [same]

theorem free_sound (sound : Sound sample state) : Sound sample (free state i) := by
  rcases free_cases state i with same | ⟨exited, idle, freed⟩
  · rw [same]
    exact sound
  have pcs (j : Fin n) : ((free state i).thread j).pc = if j = i then .freed else (state.thread j).pc := by
    rw [freed]
    by_cases same : j = i <;> simp [same]
  have holds : (free state i).holds sample = state.holds sample := by
    refine holds_congr fun j => ?_
    rw [pcs]
    split
    · rename_i same
      rw [same, exited]
      rfl
    · rfl
  have lock : (free state i).lock = state.lock := by rw [freed]; rfl
  refine sound.kept (by rw [holds, lock]; exact sound.agrees) (by rw [freed]; rfl) (by rw [freed]; rfl)
    (fun j => ?_) (fun j gone => ?_) (fun j held now => ?_) fun j => ?_
  · rw [pcs]
    split
    · rename_i same
      simp [same, exited]
    · exact Iff.rfl
  · rw [pcs]
    split
    · exact .inr rfl
    · exact gone
  · rw [pcs] at now
    split at now
    · rename_i same
      exact absurd (same ▸ held) idle
    · exact now
  · rw [freed]
    by_cases same : j = i <;> simp [same]

/-- A statement of the module's functions that leaves the threads alone. -/
theorem holds_same (same : next.thread = state.thread) : next.holds sample = state.holds sample :=
  holds_congr fun i => by rw [same]

theorem create_sound {left : List (Fin n)} (sound : Sound sample state) (here : state.module = .kthreadRun (i :: left)) :
    Sound sample { state.set i Thread.new with module := .assign i true left } := by
  have missing := sound.missing
  have fresh : (state.thread i).pc = .notCreated := by
    rw [missing, Threads.Missing, here]
    exact .inl List.mem_cons_self
  have notLeft : i ∉ left := by
    have whole := sound.nodup
    rw [here] at whole
    exact (List.nodup_cons.mp whole).1
  have isNull : state.kthreadStruct i = .null := by
    rw [sound.unassigned, here]
    exact List.mem_cons_self
  have holds : Threads.holds sample { state.set i Thread.new with module := .assign i true left } =
      state.holds sample := by
    refine holds_congr fun j => ?_
    by_cases same : j = i
    · subst same
      simp [fresh, Thread.new, ThreadPc.inside]
    · simp [same]
  refine ⟨by rw [holds]; exact sound.agrees, ?_, fun j => ?_, fun j => ?_, fun j held => held.elim,
    fun j done _ => absurd trivial done⟩
  · have whole := sound.nodup
    rwa [here] at whole
  · have whole := sound.unassigned j
    rwa [here] at whole
  · have whole := missing j
    simp only [Threads.Missing, here] at whole
    by_cases same : j = i
    · subst same
      simp [Thread.new, Threads.Missing, Threads.set, notLeft, isNull]
    · simp only [Function.update_of_ne same, whole, Threads.Missing, Threads.set, List.mem_cons, same, false_or,
        false_and]

theorem refuse_sound {left : List (Fin n)} (sound : Sound sample state) (here : state.module = .kthreadRun (i :: left)) :
    Sound sample { state with module := .assign i false left } := by
  refine ⟨sound.agrees, ?_, fun j => ?_, fun j => ?_, fun j held => held.elim, fun j done _ => absurd trivial done⟩
  · have whole := sound.nodup
    rwa [here] at whole
  · have whole := sound.unassigned j
    rwa [here] at whole
  · have whole := sound.missing j
    simp only [Threads.Missing, here, List.mem_cons] at whole
    simp only [Threads.Missing, whole, and_true]
    tauto

theorem assign_sound {left : List (Fin n)} {created : Bool} (sound : Sound sample state)
    (here : state.module = .assign i created left) :
    Sound sample { state with
      kthreadStruct := Function.update state.kthreadStruct i (if created then .task else .err)
      module := .kthreadRun left } := by
  obtain ⟨notLeft, nodup⟩ : i ∉ left ∧ left.Nodup := by
    have whole := sound.nodup
    rw [here] at whole
    exact List.nodup_cons.mp whole
  refine ⟨sound.agrees, nodup, fun j => ?_, fun j => ?_, fun j held => held.elim, fun j done _ => absurd trivial done⟩
  · have whole := sound.unassigned j
    rw [here] at whole
    by_cases same : j = i
    · subst same
      simp only [Function.update_self, ModulePc.ahead, notLeft, iff_false]
      cases created <;> simp
    · simpa [same, ModulePc.ahead] using whole
  · have whole := sound.missing j
    simp only [Threads.Missing, here] at whole
    have isNull : state.kthreadStruct i = .null := by
      rw [sound.unassigned, here]
      exact List.mem_cons_self
    by_cases same : j = i
    · subst same
      simp only [whole, Threads.Missing, Function.update_self, isNull]
      cases created <;> simp
    · simpa [same, Threads.Missing] using whole

/-- Once all are assigned, no `kthread_struct` is `NULL`. -/
theorem Sound.assigned (sound : Sound sample state) (done : state.module.ahead = []) (i : Fin n) :
    state.kthreadStruct i ≠ .null := by
  rw [Ne, sound.unassigned, done]
  exact List.not_mem_nil

theorem module_sound {created : Bool} (sound : Sound sample state)
    (taken : moduleStep sample state created = .ok next) : Sound sample next := by
  -- where the module's place changes and nothing of what `unassigned` and `missing` say
  have moves {after : Threads n} (threads : after.thread = state.thread) (lock : after.lock = state.lock)
      (structs : after.kthreadStruct = state.kthreadStruct)
      (ahead : after.module.ahead = state.module.ahead) (missing : ∀ i, after.Missing i ↔ state.Missing i)
      (held : ∀ i, ¬ after.Held i)
      (stopped : ∀ i, ¬ after.module.ToStop i → state.kthreadStruct i = .task ∧ (state.thread i).pc.Gone) :
      Sound sample after := by
    refine ⟨by rw [holds_same threads, lock]; exact sound.agrees, by rw [ahead]; exact sound.nodup, fun i => ?_,
      fun i => ?_, fun i holds => absurd holds (held i), fun i done _ => ?_⟩
    · rw [structs, ahead]
      exact sound.unassigned i
    · rw [threads, missing]
      exact sound.missing i
    · rw [structs, threads]
      exact stopped i done
  cases moduleStep_cases taken with
  | create i left here => exact create_sound sound here
  | refuse i left here => exact refuse_sound sound here
  | assign i created left here => exact assign_sound sound here
  | report here =>
    refine moves rfl rfl rfl (by rw [here]; rfl) (fun i => ?_) (fun i => id) fun i done => absurd trivial done
    simp [Threads.Missing, here]
  | rmmod here =>
    refine moves rfl rfl rfl (by rw [here]; rfl) (fun i => ?_) (fun i => id) fun i done => ?_
    · simp [Threads.Missing, here]
    · exact absurd (List.mem_finRange i) done
  | skip i left here null => exact absurd null (sound.assigned (by rw [here]; rfl) i)
  | stop i left here there =>
    have holds : Threads.holds sample
        { state.set i { state.thread i with shouldStop := true } with module := .waitExited i left } =
          state.holds sample := by
      refine holds_congr fun j => ?_
      by_cases same : j = i <;> simp [same]
    refine ⟨by rw [holds]; exact sound.agrees, List.nodup_nil, fun j => ?_, fun j => ?_, fun j held => ?_,
      fun j done idle => ?_⟩
    · have whole := sound.unassigned j
      rwa [here] at whole
    · have whole := sound.missing j
      simp only [Threads.Missing, here] at whole
      by_cases same : j = i
      · subst same
        simpa [Threads.Missing, Threads.set] using whole
      · simpa [Threads.Missing, Threads.set, same] using whole
    · cases (show i = j from held)
      exact ⟨⟨there.1, by simpa [Threads.set] using there.2⟩, by simp [Threads.set]⟩
    · have apart : j ≠ i := fun same => idle (same ▸ rfl)
      obtain ⟨isTask, gone⟩ := sound.stopped j
        (by rw [here]; exact fun member => (List.mem_cons.mp member).elim apart done)
        (by rw [Threads.Held, here]; exact id)
      exact ⟨isTask, by simpa [Threads.set, apart] using gone⟩
  | exited i left here done =>
    refine moves rfl rfl rfl (by rw [here]; rfl) (fun j => ?_) (fun j => id) fun j stopped => ?_
    · simp [Threads.Missing, here]
    · by_cases same : j = i
      · have held := (sound.held j (by rw [Threads.Held, here]; exact same.symm)).1
        exact ⟨held.1, .inl (by rw [same]; exact done)⟩
      · refine sound.stopped j (by rw [here]; exact stopped) ?_
        rw [Threads.Held, here]
        exact Ne.symm same
  | finish here =>
    refine moves rfl rfl rfl (by rw [here]; rfl) (fun j => ?_) (fun j => id) fun j _ => ?_
    · simp [Threads.Missing, here]
    · refine sound.stopped j (by rw [here]; exact List.not_mem_nil) ?_
      rw [Threads.Held, here]
      exact id
  | stay => exact sound

theorem turn_sound {action : Turn n} (sound : Sound sample state)
    (taken : turn sample state action = .ok next) : Sound sample next := by
  cases action with
  | module created => exact module_sound sound taken
  | thread i => exact thread_sound sound taken
  | signal i =>
    cases taken
    exact signal_sound sound
  | free i =>
    cases taken
    exact free_sound sound

theorem run_sound {turns : List (Turn n)} (ran : run (turn sample) (load n) turns = .ok state) :
    Sound sample state :=
  run_invariant (Sound sample) (fun _ _ _ held taken => turn_sound held taken) (load_sound sample) ran

end Step

end KernelLabs.ThreadSamples
