import KernelLabs.ModuleCycles
import KernelLabs.NameListUnload

/-! Loading and unloading `list.c` again and again. `/proc` entries are numbered as
they are created, so that a pointer to a removed entry is told from a fresh one, and
removing what is not there is a fault. -/
namespace KernelLabs.NameList
open CBytes LinuxList Errno ModuleCycles

/-- `struct proc_dir_entry`. -/
structure ProcDirEntry where
  id : Nat
  name : ProcEntry
  /-- The directory it was created in; `none` is `/proc` itself. -/
  parent : Option Nat
  deriving DecidableEq, Repr

/-- The entries of the module in `/proc`. -/
structure ProcFs where
  entries : List ProcDirEntry
  /-- The number of entries created so far. -/
  created : Nat
  /-- The entries removed so far. -/
  removed : List Nat

/-- `proc_mkdir` and `proc_create`, which may fail. -/
def procCreate (proc : ProcFs) (name : ProcEntry) (parent : Option Nat) (succeeds : Bool) :
    ProcFs × Option Nat :=
  if succeeds then
    ({ proc with
        entries := ⟨proc.created, name, parent⟩ :: proc.entries
        created := proc.created + 1 }, some proc.created)
  else (proc, none)

/-- The entry, or something in it. -/
def ProcDirEntry.under (id : Nat) (entry : ProcDirEntry) : Bool :=
  entry.id = id ∨ entry.parent = some id

/-- `proc_remove`, which takes what is in a directory with it. -/
def procRemove (proc : ProcFs) (id : Nat) : Except Fault ProcFs :=
  if id ∈ proc.entries.map (·.id) then
    .ok { proc with
      entries := proc.entries.filter fun entry => !entry.under id
      removed := proc.removed ++ (proc.entries.filter (·.under id)).map (·.id) }
  else .error .badFree

/-- What the kernel holds for the module, and the module's three pointers. -/
structure ListModule where
  heap : Heap NameArray
  proc : ProcFs
  procList : Option Nat
  procListRead : Option Nat
  procListWrite : Option Nat

/-- Which of the calls of one load succeed. -/
structure LoadOutcomes where
  procMkdir : Bool
  procCreateRead : Bool
  procCreateWrite : Bool
  deriving DecidableEq, Repr

/-- All three creations succeed. -/
def LoadOutcomes.Succeed (outcomes : LoadOutcomes) : Prop :=
  outcomes.procMkdir = true ∧ outcomes.procCreateRead = true ∧ outcomes.procCreateWrite = true

/-- `proc_remove` of a pointer; nothing happens to `NULL`. -/
def ListModule.procRemove (state : ListModule) : Option Nat → Except Fault ListModule
  | none => .ok state
  | some id => do
    let proc ← NameList.procRemove state.proc id
    return { state with proc := proc }

/-- From the label `proc_list_cleanup` on. -/
def procListCleanup (state : ListModule) : Except Fault (ListModule × Int) := do
  let state ← state.procRemove state.procList
  return (state, -enomem)

/-- From the label `proc_list_read_cleanup` on. -/
def procListReadCleanup (state : ListModule) : Except Fault (ListModule × Int) := do
  let state ← state.procRemove state.procListRead
  procListCleanup state

def listInit (state : ListModule) (outcomes : LoadOutcomes) : Except Fault (ListModule × Int) := do
  let (proc, procList) := procCreate state.proc .list none outcomes.procMkdir
  let state := { state with proc := proc, procList := procList }
  if procList = none then return (state, -enomem)
  let (proc, procListRead) := procCreate state.proc .preview procList outcomes.procCreateRead
  let state := { state with proc := proc, procListRead := procListRead }
  if procListRead = none then procListCleanup state
  else
    let (proc, procListWrite) := procCreate state.proc .management procList outcomes.procCreateWrite
    let state := { state with proc := proc, procListWrite := procListWrite }
    if procListWrite = none then procListReadCleanup state
    else return (state, 0)

/-- The pointer to an entry. -/
def ListModule.pointer (state : ListModule) : ProcEntry → Option Nat
  | .list => state.procList
  | .preview => state.procListRead
  | .management => state.procListWrite

/-- A call of `list_exit`. -/
def exitCall (state : ListModule) : ExitCall → Except Fault ListModule
  | .destroyList => do
    let (heap, _) ← destroyList state.heap
    return { state with heap := heap }
  | .procRemove entry => state.procRemove (state.pointer entry)

/-- The module's data as it is loaded: `LIST_HEAD(name_list)`, and zeros. -/
def freshData (state : ListModule) : ListModule :=
  { state with
    heap := { state.heap with
      links := Function.update state.heap.links nameList (some ⟨nameList, nameList⟩) }
    procList := none
    procListRead := none
    procListWrite := none }

def listModule : KernelModule ListModule LoadOutcomes WriteCall where
  init state outcomes := listInit (freshData state) outcomes
  exit state := run exitCall state listExit
  serve state call := do
    let (heap, _) ← listWrite state.heap call
    return { state with heap := heap }

/-- Before the first load. -/
def uninstalled : ModuleState ListModule where
  held :=
    { heap := loaded
      proc := { entries := [], created := 0, removed := [] }
      procList := none
      procListRead := none
      procListWrite := none }
  loaded := false

/-- Every entry ever created is there, or has been removed once. -/
def Accounted (proc : ProcFs) : Prop :=
  ∀ id, proc.removed.count id + (proc.entries.map (·.id)).count id = if id < proc.created then 1 else 0

/-- Nothing is held for the module. -/
structure Uninstalled (state : ListModule) : Prop where
  entries : state.proc.entries = []
  names : Represents state.heap []
  accounted : Accounted state.proc

/-- The directory and its two files, newest first. -/
def installedEntries (list read write : Nat) : List ProcDirEntry :=
  [⟨write, .management, some list⟩, ⟨read, .preview, some list⟩, ⟨list, .list, none⟩]

/-- The module is loaded, with some list of names. -/
structure Installed (state : ListModule) : Prop where
  entries : ∃ list read write, state.proc.entries = installedEntries list read write ∧
    list ≠ read ∧ list ≠ write ∧ read ≠ write ∧ state.procList = some list ∧
    state.procListRead = some read ∧ state.procListWrite = some write
  names : ∃ names, Represents state.heap names
  accounted : Accounted state.proc

variable {proc after : ProcFs} {state : ListModule} {id : Nat}

/-! ## The books of `/proc` -/

theorem procCreate_accounted (name : ProcEntry) (parent : Option Nat) (succeeds : Bool)
    (held : Accounted proc) : Accounted (procCreate proc name parent succeeds).1 := by
  cases succeeds with
  | false => exact held
  | true =>
    intro id
    have before := held id
    simp only [procCreate, if_true, List.map_cons, List.count_cons, beq_iff_eq]
    by_cases new : proc.created = id
    · subst new
      simp only [lt_irrefl, if_false] at before
      simp only [if_true, Nat.lt_succ_self]
      omega
    · have same : id < proc.created + 1 ↔ id < proc.created := by omega
      simpa [new, same] using before

theorem procRemove_accounted (held : Accounted proc) (removed : procRemove proc id = .ok after) :
    Accounted after := by
  unfold procRemove at removed
  split at removed
  · cases removed
    intro other
    have split := (List.filter_append_perm (·.under id) proc.entries).map (·.id)
    have counted := split.count_eq other
    have before := held other
    simp only [List.map_append, List.count_append] at counted ⊢
    omega
  · cases removed

/-- The entries of `/proc` after `proc_remove` of one of them. -/
theorem procRemove_ok (present : id ∈ proc.entries.map (·.id)) :
    ∃ after, procRemove proc id = .ok after ∧
      after.entries = proc.entries.filter fun entry => !entry.under id := by
  unfold procRemove
  rw [if_pos present]
  exact ⟨_, rfl, rfl⟩

/-! ## The module -/

/-- `LIST_HEAD(name_list)` on an empty list changes nothing. -/
theorem freshData_heap (names : Represents state.heap []) : (freshData state).heap = state.heap := by
  obtain ⟨next, prev⟩ : state.heap.Linked nameList nameList :=
    List.isChain_pair.mp names.ring.chain
  obtain ⟨links, found, first⟩ := Option.map_eq_some_iff.mp next
  obtain ⟨links', found', last⟩ := Option.map_eq_some_iff.mp prev
  cases found.symm.trans found'
  have same : state.heap.links nameList = some ⟨nameList, nameList⟩ := by
    obtain ⟨after, before⟩ := links
    rw [found, show after = nameList from first, show before = nameList from last]
  simp only [freshData, ← same, Function.update_eq_self]

/-- Taking an entry off `/proc` leaves the names alone. -/
theorem listModule_procRemove (accounted : Accounted state.proc)
    (present : id ∈ state.proc.entries.map (·.id)) :
    ∃ proc, state.procRemove (some id) = .ok { state with proc := proc } ∧ Accounted proc ∧
      proc.entries = state.proc.entries.filter fun entry => !entry.under id := by
  obtain ⟨proc, removed, entries⟩ := procRemove_ok present
  refine ⟨proc, ?_, procRemove_accounted accounted removed, entries⟩
  simp [ListModule.procRemove, removed]

/-- From `proc_list_cleanup` on, with only the directory there. -/
theorem procListCleanup_spec {list : Nat} (names : Represents state.heap [])
    (accounted : Accounted state.proc) (pointer : state.procList = some list)
    (entries : state.proc.entries = [⟨list, .list, none⟩]) :
    ∃ after, procListCleanup state = .ok (after, -enomem) ∧ Uninstalled after := by
  obtain ⟨proc, removed, accounted', left⟩ :=
    @listModule_procRemove state list accounted (by simp [entries])
  refine ⟨{ state with proc := proc }, by simp [procListCleanup, pointer, removed], ?_, names, accounted'⟩
  rw [left, entries]
  simp [ProcDirEntry.under]

/-- From `proc_list_read_cleanup` on, with the directory and the first file there. -/
theorem procListReadCleanup_spec {list read : Nat} (names : Represents state.heap [])
    (accounted : Accounted state.proc) (pointer : state.procList = some list)
    (readPointer : state.procListRead = some read) (apart : list ≠ read)
    (entries : state.proc.entries = [⟨read, .preview, some list⟩, ⟨list, .list, none⟩]) :
    ∃ after, procListReadCleanup state = .ok (after, -enomem) ∧ Uninstalled after := by
  obtain ⟨proc, removed, accounted', left⟩ :=
    @listModule_procRemove state read accounted (by simp [entries])
  have directory : proc.entries = [⟨list, .list, none⟩] := by
    rw [left, entries]
    simp [ProcDirEntry.under, apart]
  obtain ⟨after, cleaned, uninstalled⟩ :=
    @procListCleanup_spec { state with proc := proc } list names accounted' pointer directory
  refine ⟨after, ?_, uninstalled⟩
  rw [procListReadCleanup, readPointer, removed, ok_bind]
  exact cleaned

theorem listInit_spec (held : Uninstalled state) (outcomes : LoadOutcomes) :
    ∃ after ret, listInit (freshData state) outcomes = .ok (after, ret) ∧ (ret = 0 ↔ outcomes.Succeed) ∧
      (0 ≤ ret → Installed after) ∧ (ret < 0 → Uninstalled after) := by
  have failed : ¬ (0 : Int) ≤ -enomem := Int.not_le.mpr neg_enomem
  have refused : -enomem ≠ 0 := by decide
  have names : Represents (freshData state).heap [] := by
    rw [freshData_heap held.names]
    exact held.names
  let made := state.proc.created
  -- `/proc` after one, two and three successful calls.
  let one := (procCreate state.proc .list none true).1
  let two := (procCreate one .preview (some made) true).1
  let three := (procCreate two .management (some made) true).1
  have books : Accounted one := procCreate_accounted .list none true held.accounted
  have books' : Accounted two := procCreate_accounted .preview (some made) true books
  have books'' : Accounted three := procCreate_accounted .management (some made) true books'
  have entries : one.entries = [⟨made, .list, none⟩] := by simp [one, procCreate, made, held.entries]
  have entries' : two.entries = [⟨made + 1, .preview, some made⟩, ⟨made, .list, none⟩] := by
    rw [← entries]
    rfl
  have entries'' : three.entries = installedEntries made (made + 1) (made + 2) := by
    rw [installedEntries, ← entries']
    rfl
  obtain ⟨mkdir, createRead, createWrite⟩ := outcomes
  cases mkdir with
  | false =>
    refine ⟨freshData state, -enomem, ?_, iff_of_false refused (by simp [LoadOutcomes.Succeed]),
      fun passed => absurd passed failed, fun _ => ⟨held.entries, names, held.accounted⟩⟩
    simp [listInit, procCreate, freshData]
  | true =>
    cases createRead with
    | false =>
      obtain ⟨after, cleaned, uninstalled⟩ := @procListCleanup_spec
        { freshData state with proc := one, procList := some made } made names books rfl entries
      exact ⟨after, -enomem, cleaned, iff_of_false refused (by simp [LoadOutcomes.Succeed]),
        fun passed => absurd passed failed, fun _ => uninstalled⟩
    | true =>
      cases createWrite with
      | false =>
        obtain ⟨after, cleaned, uninstalled⟩ := @procListReadCleanup_spec
          { freshData state with proc := two, procList := some made, procListRead := some (made + 1) }
          made (made + 1) names books' rfl rfl (by omega) entries'
        exact ⟨after, -enomem, cleaned, iff_of_false refused (by simp [LoadOutcomes.Succeed]),
          fun passed => absurd passed failed, fun _ => uninstalled⟩
      | true =>
        refine ⟨_, 0, rfl, iff_of_true rfl ⟨rfl, rfl, rfl⟩, fun _ => ⟨?_, ⟨[], names⟩, books''⟩, fun refused => absurd refused (by decide)⟩
        exact ⟨made, made + 1, made + 2, entries'', by omega, by omega, by omega, rfl, rfl, rfl⟩

theorem listExit_spec (held : Installed state) :
    ∃ after, run exitCall state listExit = .ok after ∧ Uninstalled after := by
  obtain ⟨⟨list, read, write, entries, apart, apart', apart'', pointer, readPointer, writePointer⟩,
    ⟨names, represents⟩, books⟩ := held
  obtain ⟨before, proc, procList, procListRead, procListWrite⟩ := state
  replace entries : proc.entries = installedEntries list read write := entries
  obtain rfl : procList = some list := pointer
  obtain rfl : procListRead = some read := readPointer
  obtain rfl : procListWrite = some write := writePointer
  obtain ⟨heap, destroyed, empty, -⟩ := destroyList_spec represents
  let state (proc : ProcFs) : ListModule := ⟨heap, proc, some list, some read, some write⟩
  -- The entries go in the reverse order of their creation, so each is still there.
  obtain ⟨two, removed, books', left⟩ :=
    @listModule_procRemove (state proc) write books (by simp [state, entries, installedEntries])
  have entries' : two.entries = [⟨read, .preview, some list⟩, ⟨list, .list, none⟩] := by
    rw [left, show (state proc).proc.entries = _ from entries]
    simp [installedEntries, ProcDirEntry.under, apart', apart'']
  obtain ⟨one, removed', books'', left'⟩ :=
    @listModule_procRemove (state two) read books' (by simp [state, entries'])
  have entries'' : one.entries = [⟨list, .list, none⟩] := by
    rw [left', show (state two).proc.entries = _ from entries']
    simp [ProcDirEntry.under, apart]
  obtain ⟨gone, removed'', settled, left''⟩ :=
    @listModule_procRemove (state one) list books'' (by simp [state, entries''])
  refine ⟨state gone, ?_, ?_, empty, settled⟩
  · have first : exitCall ⟨before, proc, some list, some read, some write⟩ .destroyList =
        .ok (state proc) := by
      simp only [exitCall] at destroyed ⊢
      rw [destroyed]
      rfl
    rw [listExit, run_cons, first, ok_bind, run_cons]
    exact bind_eq_ok.mpr ⟨state two, removed, bind_eq_ok.mpr ⟨state one, removed',
      bind_eq_ok.mpr ⟨state gone, removed'', rfl⟩⟩⟩
  · rw [show (state gone).proc.entries = _ from left'', show (state one).proc.entries = _ from entries'']
    simp [ProcDirEntry.under]

/-- A command keeps the module installed. -/
theorem serve_spec (held : Installed state) (call : WriteCall) :
    ∃ after, listModule.serve state call = .ok after ∧ Installed after := by
  obtain ⟨entries, ⟨names, represents⟩, books⟩ := held
  obtain ⟨heap, wrote, represents'⟩ := listWrite_spec call represents
  exact ⟨{ state with heap := heap }, by simp [listModule, wrote], entries, ⟨_, represents'⟩, books⟩

/-- An entry that is not there any more was removed once. -/
theorem Accounted.removed_once (books : Accounted proc) (created : id < proc.created)
    (gone : id ∉ proc.entries.map (·.id)) : proc.removed.count id = 1 := by
  have account := books id
  rwa [List.count_eq_zero.mpr gone, if_pos created] at account

/-- **Balance.** However loads, commands and unloads follow each other, and whichever
of their allocations fail: after a failed load and after an unload, `/proc` has no
entry of the module and no name is allocated, each entry and each name was removed
once, and the next load returns zero exactly if its three creations succeed; after a
load, there are the directory and its two files. No call of the module makes a fault. -/
theorem list_module_balanced (events : List (Event LoadOutcomes WriteCall)) :
    ∃ final, run (cycle listModule) uninstalled events = .ok final ∧
      (final.loaded = false →
        final.held.proc.entries = [] ∧
        (∀ id < final.held.proc.created, final.held.proc.removed.count id = 1) ∧
        (∀ p, final.held.heap.entry p = none) ∧
        (∀ number < final.held.heap.handedOut, final.held.heap.freed.count (.slab number) = 1) ∧
        ∀ outcomes, ∃ after ret, listModule.init final.held outcomes = .ok (after, ret) ∧
          (ret = 0 ↔ outcomes.Succeed)) ∧
      (final.loaded = true → ∃ list read write,
        final.held.proc.entries = installedEntries list read write ∧
        ∀ id < final.held.proc.created, id ∉ [list, read, write] →
          final.held.proc.removed.count id = 1) := by
  have start : Balanced Uninstalled Installed uninstalled :=
    ⟨fun _ => ⟨rfl, loaded_represents, fun id => rfl⟩, fun loaded => by cases loaded⟩
  obtain ⟨final, ran, idle, busy⟩ :=
    @balanced_run _ _ _ listModule _ _ _
      (fun _ outcomes held =>
        let ⟨after, ret, ran, _, loads, fails⟩ := listInit_spec held outcomes
        ⟨after, ret, ran, loads, fails⟩)
      (fun _ held => listExit_spec held) (fun _ call held => serve_spec held call) start events
  refine ⟨final, ran, fun unloaded => ?_, fun loaded => ?_⟩
  · have free := idle unloaded
    obtain ⟨entries, names, books⟩ := idle unloaded
    refine ⟨entries, fun id created => books.removed_once created (by simp [entries]), fun p => ?_,
      fun number issued => ?_, fun outcomes => ?_⟩
    · have allocated := names.ring.allocated p
      simpa using allocated
    · have freed := (names.ring.issued (.slab number)).mp ⟨number, issued, rfl⟩
      apply List.count_eq_one_of_mem names.ring.freedOnce
      simpa using freed
    · obtain ⟨after, ret, ran, zero, -⟩ := listInit_spec free outcomes
      exact ⟨after, ret, ran, zero⟩
  · obtain ⟨⟨list, read, write, entries, -⟩, -, books⟩ := busy loaded
    refine ⟨list, read, write, entries, fun id created others => ?_⟩
    apply books.removed_once created
    rw [entries]
    simpa [installedEntries, and_comm, and_assoc] using others

end KernelLabs.NameList
