import KernelLabs.NameListWrite

/-! Unloading `list.c` while it is still written to. `list_exit` destroys the
list before it removes `/proc/list/management`, so a command that arrives in
between can leave an entry behind. What it leaves is computed here from the
commands alone. -/
namespace KernelLabs.NameList
open CBytes LinuxList Errno

/-- `proc_list`, `proc_list_read` and `proc_list_write`. -/
inductive ProcEntry
  | list
  | preview
  | management
  deriving DecidableEq, Repr

/-- The calls `list_exit` is made of. -/
inductive ExitCall
  | destroyList
  | procRemove (entry : ProcEntry)
  deriving DecidableEq, Repr

def listExit : List ExitCall :=
  [.destroyList, .procRemove .management, .procRemove .preview, .procRemove .list]

/-- A module being unloaded. -/
structure Unload where
  heap : Heap NameArray
  /-- The `/proc` entries that have not been removed. -/
  proc : List ProcEntry
  /-- The calls `list_exit` has still to make. -/
  remaining : List ExitCall

/-- The state in which `list_exit` is called. -/
def unloading (heap : Heap NameArray) : Unload where
  heap := heap
  proc := [.list, .preview, .management]
  remaining := listExit

inductive UnloadAction
  /-- Some process writes to `/proc/list/management`. -/
  | write (call : WriteCall)
  /-- `list_exit` makes its next call. -/
  | exit

/-- Writes reach the module until their entry is removed; `proc_remove` waits
for the ones that run, so whole calls interleave. -/
def unloadStep (state : Unload) : UnloadAction → Except Fault Unload
  | .write call =>
    if ProcEntry.management ∈ state.proc then do
      let (heap, _) ← listWrite state.heap call
      return { state with heap := heap }
    else .ok state
  | .exit =>
    match state.remaining with
    | [] => .ok state
    | .destroyList :: rest => do
      let (heap, _) ← destroyList state.heap
      return { state with heap := heap, remaining := rest }
    | .procRemove entry :: rest =>
      .ok { state with proc := state.proc.erase entry, remaining := rest }

/-- The writes up to the next call of `list_exit`. -/
def untilExit : List UnloadAction → List WriteCall
  | [] => []
  | .write call :: actions => call :: untilExit actions
  | .exit :: _ => []

/-- The writes between the first and the second call of `list_exit`. -/
def window : List UnloadAction → List WriteCall
  | [] => []
  | .write _ :: actions => window actions
  | .exit :: actions => untilExit actions

/-- How a call changes the number of entries with some name. -/
def WriteCall.balance (name : Bytes) (count : Nat) (call : WriteCall) : Nat :=
  match call.command with
  | some (.addf, added) | some (.adde, added) =>
    if added = name ∧ call.memory.isSome then count + 1 else count
  | some (.delf, deleted) => if deleted = name then count - 1 else count
  | some (.dela, deleted) => if deleted = name then 0 else count
  | none => count

/-- The number of entries with this name that the calls leave on an empty list. -/
def leftover (name : Bytes) (calls : List WriteCall) : Nat :=
  calls.foldl (fun count call => call.balance name count) 0

variable {heap : Heap NameArray} {entries : List (Ptr × Bytes)} {call : WriteCall}
  {state : Unload} {name : Bytes}

/-! ## Counting names -/

theorem count_onNames (names : List Bytes) :
    (call.onNames names).count name = call.balance name (names.count name) := by
  unfold WriteCall.onNames WriteCall.balance
  cases call.command with
  | none => rfl
  | some command =>
    obtain ⟨inst, target⟩ := command
    cases inst with
    | addf =>
      cases call.memory <;> simp [Inst.onNames, List.count_cons, beq_iff_eq]
      split <;> rfl
    | adde =>
      cases call.memory <;> simp [Inst.onNames, List.count_append, List.count_singleton, beq_iff_eq]
      split <;> rfl
    | delf =>
      by_cases same : target = name
      · simp [Inst.onNames, same]
      · simp [Inst.onNames, same, List.count_erase_of_ne (Ne.symm same)]
    | dela =>
      by_cases same : target = name
      · subst same
        simp [Inst.onNames, List.count_eq_zero]
      · simp [Inst.onNames, same, List.count_filter, Ne.symm same]

theorem count_foldl_onNames (name : Bytes) (calls : List WriteCall) (names : List Bytes) :
    (calls.foldl (fun names call => call.onNames names) names).count name =
      calls.foldl (fun count call => call.balance name count) (names.count name) := by
  induction calls generalizing names with
  | nil => rfl
  | cons call calls ih => rw [List.foldl_cons, List.foldl_cons, ih, count_onNames]

/-- A run of calls empties an empty list again exactly when no name is left over. -/
theorem foldl_onNames_eq_nil (calls : List WriteCall) :
    calls.foldl (fun names call => call.onNames names) [] = [] ↔
      ∀ name, leftover name calls = 0 := by
  constructor
  · intro empty name
    have counted := count_foldl_onNames name calls []
    rw [empty] at counted
    exact counted.symm
  · intro drained
    apply List.eq_nil_iff_forall_not_mem.mpr
    intro name member
    have counted := count_foldl_onNames name calls []
    rw [List.count_nil] at counted
    have := List.count_pos_iff.mpr member
    rw [counted, show calls.foldl _ 0 = 0 from drained name] at this
    omega

/-! ## Runs of the unload -/

/-- Once `management` is gone the memory no longer changes. -/
private theorem closed_run (state : Unload) (actions : List UnloadAction) (closed : ProcEntry.management ∉ state.proc)
    (destroyed : ExitCall.destroyList ∉ state.remaining) :
    ∃ final, run unloadStep state actions = .ok final ∧ final.heap = state.heap := by
  induction actions generalizing state with
  | nil => exact ⟨state, rfl, rfl⟩
  | cons action actions ih =>
    cases action with
    | write call =>
      obtain ⟨final, ran, same⟩ := ih state closed destroyed
      exact ⟨final, by simp [unloadStep, closed, ran], same⟩
    | exit =>
      cases shape : state.remaining with
      | nil =>
        obtain ⟨final, ran, same⟩ := ih state closed destroyed
        exact ⟨final, by simp [unloadStep, shape, ran], same⟩
      | cons next rest =>
        rw [shape, List.mem_cons, not_or] at destroyed
        cases next with
        | destroyList => exact absurd rfl destroyed.1
        | procRemove entry =>
          let after : Unload := { state with proc := state.proc.erase entry, remaining := rest }
          obtain ⟨final, ran, same⟩ := ih after
            (fun member => closed (List.mem_of_mem_erase member)) destroyed.2
          exact ⟨final, by simpa [unloadStep, shape] using ran, same⟩

/-- After `destroy_list`, the names are the ones the writes up to the removal of
`management` leave. -/
private theorem open_run (state : Unload) (actions : List UnloadAction) (held : Represents state.heap entries)
    (opened : state.proc = [.list, .preview, .management])
    (shape : state.remaining = [.procRemove .management, .procRemove .preview, .procRemove .list]) :
    ∃ final entries', run unloadStep state actions = .ok final ∧ Represents final.heap entries' ∧
      entries'.map Prod.snd = (untilExit actions).foldl (fun names call => call.onNames names)
        (entries.map Prod.snd) := by
  induction actions generalizing state entries with
  | nil => exact ⟨state, entries, rfl, held, rfl⟩
  | cons action actions ih =>
    cases action with
    | write call =>
      obtain ⟨after, ran, represents⟩ := listWrite_spec call held
      obtain ⟨final, entries', rest, represents', names⟩ :=
        ih { state with heap := after } represents opened shape
      have present : ProcEntry.management ∈ state.proc := by simp [opened]
      refine ⟨final, entries', by simp [unloadStep, present, ran, rest], represents', ?_⟩
      rw [names, call_onEntries_names]
      rfl
    | exit =>
      let after : Unload :=
        { state with
          proc := [.list, .preview]
          remaining := [.procRemove .preview, .procRemove .list] }
      obtain ⟨final, ran, same⟩ := closed_run after actions (by simp [after])
        (by simp [after])
      refine ⟨final, entries, ?_, by rw [same]; exact held, rfl⟩
      simpa [unloadStep, shape, opened, after, List.erase_cons] using ran

/-- The list that is left when `list_exit` has run carries the names that the
writes in the window leave on an empty list. -/
private theorem unload_run (state : Unload) (actions : List UnloadAction) (held : Represents state.heap entries)
    (opened : state.proc = [.list, .preview, .management]) (shape : state.remaining = listExit) :
    ∃ final entries', run unloadStep state actions = .ok final ∧ Represents final.heap entries' ∧
      (final.remaining = [] → entries'.map Prod.snd =
        (window actions).foldl (fun names call => call.onNames names) []) := by
  induction actions generalizing state entries with
  | nil =>
    refine ⟨state, entries, rfl, held, fun finished => ?_⟩
    simp [shape, listExit] at finished
  | cons action actions ih =>
    cases action with
    | write call =>
      obtain ⟨after, ran, represents⟩ := listWrite_spec call held
      obtain ⟨final, entries', rest, represents', names⟩ :=
        ih { state with heap := after } represents opened shape
      have present : ProcEntry.management ∈ state.proc := by simp [opened]
      exact ⟨final, entries', by simp [unloadStep, present, ran, rest], represents', names⟩
    | exit =>
      obtain ⟨after, ran, represents, -⟩ := destroyList_spec held
      obtain ⟨final, entries', rest, represents', names⟩ :=
        open_run { state with heap := after, remaining := listExit.tail } actions
          represents opened rfl
      refine ⟨final, entries', ?_, represents', fun _ => names⟩
      simpa [unloadStep, shape, listExit, ran] using rest

/-- How many calls `list_exit` has made is decided by its own steps. -/
private theorem remaining_run {actions : List UnloadAction} {final : Unload}
    (ran : run unloadStep state actions = .ok final) :
    final.remaining = state.remaining.drop
      (actions.countP fun action => action matches .exit) := by
  induction actions generalizing state with
  | nil =>
    cases ran
    rfl
  | cons action actions ih =>
    obtain ⟨next, stepped, rest⟩ := bind_eq_ok.mp (run_cons.symm.trans ran)
    rw [ih rest]
    cases action with
    | write call =>
      simp only [unloadStep] at stepped
      split at stepped
      · obtain ⟨⟨after, ret⟩, -, same⟩ := bind_eq_ok.mp stepped
        cases same
        rfl
      · cases stepped
        rfl
    | exit =>
      simp only [unloadStep] at stepped
      split at stepped
      · rename_i shape
        cases stepped
        simp [shape]
      · rename_i shape
        obtain ⟨⟨after, ret⟩, -, same⟩ := bind_eq_ok.mp stepped
        cases same
        simp [shape]
      · rename_i shape
        cases stepped
        simp [shape]

/-- **Unload.** When `list_exit` has finished, nothing is allocated exactly when
the writes that arrived between `destroy_list` and the removal of `management`
leave no name behind. -/
theorem list_exit_frees_all_iff (held : Represents heap entries) (actions : List UnloadAction) :
    ∃ final, run unloadStep (unloading heap) actions = .ok final ∧
      (final.remaining = [] →
        ((∀ p, final.heap.entry p = none) ↔ ∀ name, leftover name (window actions) = 0)) := by
  obtain ⟨final, entries', ran, represents, names⟩ :=
    unload_run (unloading heap) actions held rfl rfl
  refine ⟨final, ran, fun finished => ?_⟩
  rw [← foldl_onNames_eq_nil, ← names finished, List.map_eq_nil_iff]
  have allocated := represents.ring.allocated
  constructor
  · intro free
    apply List.eq_nil_iff_forall_not_mem.mpr
    intro entry member
    have := (allocated entry.1).mpr (.inl (List.mem_map_of_mem member))
    simp [free] at this
  · rintro rfl p
    have := allocated p
    simpa using this

/-- An entry is added before the unload, and one in the window that is deleted again. -/
def deletedAgain : List UnloadAction :=
  [.write (sampleCall ['a', 'd', 'd', 'f', ' ', 'x']), .exit,
    .write (sampleCall ['a', 'd', 'd', 'f', ' ', 'y']), .write (sampleCall ['d', 'e', 'l', 'f', ' ', 'y']),
    .exit, .exit, .exit]

theorem list_exit_frees_all_deleted_again :
    ∃ final, run unloadStep (unloading loaded) deletedAgain = .ok final ∧ final.remaining = [] ∧
      ∀ p, final.heap.entry p = none := by
  obtain ⟨final, ran, exactly⟩ := list_exit_frees_all_iff loaded_represents deletedAgain
  have finished : final.remaining = [] := by
    rw [remaining_run ran]
    rfl
  have drained : ∀ name, leftover name (window deletedAgain) = 0 :=
    (foldl_onNames_eq_nil _).mp (by decide)
  exact ⟨final, ran, finished, (exactly finished).mpr drained⟩

/-- A command that arrives just after `destroy_list` leaves its entry allocated
when `list_exit` has finished. -/
theorem list_exit_leaks_late_entry :
    ∃ final, run unloadStep (unloading loaded)
        [.exit, .write (sampleCall ['a', 'd', 'd', 'f', ' ', 'x']), .exit, .exit, .exit] = .ok final ∧
      final.remaining = [] ∧ ∃ p, (final.heap.entry p).isSome := by
  obtain ⟨final, entries, ran, represents, names⟩ := unload_run (unloading loaded)
    [.exit, .write (sampleCall ['a', 'd', 'd', 'f', ' ', 'x']), .exit, .exit, .exit]
    loaded_represents rfl rfl
  have finished : final.remaining = [] := by
    rw [remaining_run ran]
    rfl
  have left : entries.map Prod.snd = [[0x78]] := (names finished).trans (by decide)
  obtain ⟨entry, rest, rfl, -⟩ := List.map_eq_cons_iff.mp left
  exact ⟨final, ran, finished, entry.1, (represents.ring.allocated entry.1).mpr (by simp)⟩

end KernelLabs.NameList
