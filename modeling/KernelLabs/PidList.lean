import KernelLabs.LinuxListProofs

/-! `labs/lab10/list_example/list_example.c`: a list of process numbers. The module's
functions work on the checked heap of `LinuxList`; the target is a plain list of numbers, to
which one is consed and from which the first occurrence is erased. -/
namespace KernelLabs.PidList
open LinuxList Errno

/-- `LIST_HEAD(my_list)`. -/
def myList : Ptr := .static 0

/-- The module's memory when it is loaded. The entry of a `struct pid_list` is its `pid`. -/
def loaded : Heap Int32 := Heap.init myList

/-- `add_pid`, with the block that `kmalloc` will return, if any. -/
def addPid (heap : Heap Int32) (memory : Option (Block Int32)) (pid : Int32) :
    Except Fault (Heap Int32 × Int) := do
  let (heap, ple) := kmalloc heap memory
  if ple = .null then return (heap, -enomem)
  let heap ← heap.store ple pid
  let heap ← listAdd heap ple myList
  return (heap, 0)

/-- The loop body of `del_pid`: it returns at the first match. -/
def delBody (pid : Int32) (heap : Heap Int32) (i : Ptr) : Except Fault (Flow (Heap Int32) Int) := do
  if (← heap.load i) = pid then
    let heap ← listDel heap i
    let heap ← kfree heap i
    return .done heap 0
  else return .next heap

/-- `del_pid`. Its `list_for_each_safe` runs over the nodes as `list_for_each_entry_safe`
runs over their entries. -/
def delPid (heap : Heap Int32) (pid : Int32) : Except Fault (Heap Int32 × Int) := do
  match ← listForEachEntrySafe id myList (delBody pid) heap with
  | .done heap ret => return (heap, ret)
  | .next heap => return (heap, -einval)

/-- The loop body of `destroy_list`. -/
def destroyBody (heap : Heap Int32) (i : Ptr) : Except Fault (Flow (Heap Int32) Unit) := do
  let heap ← listDel heap i
  let heap ← kfree heap i
  return .next heap

def destroyList (heap : Heap Int32) : Except Fault (Heap Int32) := do
  match ← listForEachEntrySafe id myList destroyBody heap with
  | .done heap () => return heap
  | .next heap => return heap

inductive Call
  | addPid (pid : Int32) (memory : Option (Block Int32))
  | delPid (pid : Int32)

namespace Call

def serve (heap : Heap Int32) : Call → Except Fault (Heap Int32 × Int)
  | .addPid pid memory => PidList.addPid heap memory pid
  | .delPid pid => PidList.delPid heap pid

/-- What a call makes of the list of numbers, and what it returns. -/
def onPids (pids : List Int32) : Call → List Int32 × Int
  | .addPid pid memory => if memory.isSome then (pid :: pids, 0) else (pids, -enomem)
  | .delPid pid => if pid ∈ pids then (pids.erase pid, 0) else (pids, -einval)

end Call

/-- The representation invariant: a well-formed list through exactly the allocated nodes,
which carry these numbers. -/
abbrev Listed (heap : Heap Int32) (entries : List (Ptr × Int32)) : Prop := Holds (· = ·) heap myList entries

variable {heap : Heap Int32} {entries : List (Ptr × Int32)}

theorem loaded_listed : Listed loaded [] := init_holds 0

/-! ## One call -/

/-- A fresh node goes first. -/
theorem addPid_allocated (held : Listed heap entries) (block : Block Int32) (pid : Int32) :
    ∃ after, addPid heap (some block) pid = .ok (after, 0) ∧
      Listed after ((.slab heap.handedOut, pid) :: entries) := by
  have fresh := kmalloc_ring held.ring block
  obtain ⟨stored, write, loose, written, -⟩ := store_ring fresh (.slab heap.handedOut) (by simp) pid
  obtain ⟨after, add, ring, same, -⟩ := listAdd_ring loose
  have nonnull : (kmalloc heap (some block)).2 = .slab heap.handedOut := rfl
  refine ⟨after, by simp [addPid, nonnull, write, add], holds_link [] entries held ring ?_ rfl⟩
  rw [same, written]
  simp [kmalloc]

theorem addPid_no_memory (pid : Int32) : addPid heap none pid = .ok (heap, -enomem) := by
  simp [addPid, kmalloc]

/-- The first node with the number is unlinked and freed; without one nothing changes. -/
theorem delPid_cases (held : Listed heap entries) (pid : Int32) :
    (pid ∈ entries.map Prod.snd ∧ ∃ after, delPid heap pid = .ok (after, 0) ∧
      Listed after (entries.eraseP (·.2 = pid))) ∨
    (pid ∉ entries.map Prod.snd ∧ delPid heap pid = .ok (heap, -einval)) := by
  have at_entry (current : Heap Int32) (front : List (Ptr × Int32)) (p : Ptr) (value : Int32)
      (back : List (Ptr × Int32)) (held : Listed current (front ++ (p, value) :: back)) :
      delBody pid current p = if decide (value = pid) then (do
        let current ← listDel current p
        let current ← kfree current p
        return .done current 0) else .ok (.next current) := by
    obtain ⟨content, load, rfl⟩ := holds_load held
    by_cases same : content = pid
    · simp [delBody, load, same]
    · simp [delBody, load, same]
  obtain ⟨flow, ran, ends⟩ := holds_eraseP (fun value => decide (value = pid)) at_entry held
  cases flow with
  | done after ret =>
    obtain ⟨rfl, ⟨entry, inside, same⟩, removed, -⟩ := ends
    exact .inl ⟨List.mem_map.mpr ⟨entry, inside, of_decide_eq_true same⟩, after, by simp [delPid, ran], removed⟩
  | next after =>
    obtain ⟨rfl, others⟩ := ends
    refine .inr ⟨fun member => ?_, by simp [delPid, ran]⟩
    obtain ⟨entry, inside, same⟩ := List.mem_map.mp member
    exact others entry inside (decide_eq_true same)

/-- Every call does to the nodes what it does to the numbers, and changes nothing if it fails. -/
theorem serve_spec (held : Listed heap entries) (call : Call) :
    ∃ after entries', call.serve heap = .ok (after, (call.onPids (entries.map Prod.snd)).2) ∧
      Listed after entries' ∧ entries'.map Prod.snd = (call.onPids (entries.map Prod.snd)).1 ∧
      ((call.onPids (entries.map Prod.snd)).2 < 0 → after = heap) := by
  cases call with
  | addPid pid memory =>
    cases memory with
    | none => exact ⟨heap, entries, addPid_no_memory pid, held, rfl, fun _ => rfl⟩
    | some block =>
      obtain ⟨after, ran, held'⟩ := addPid_allocated held block pid
      exact ⟨after, _, ran, held', rfl, fun failed => absurd failed (Int.lt_irrefl 0)⟩
  | delPid pid =>
    rcases delPid_cases held pid with ⟨member, after, ran, held'⟩ | ⟨absent, ran⟩
    · have served : Call.onPids (entries.map Prod.snd) (.delPid pid) =
          ((entries.map Prod.snd).erase pid, 0) := if_pos member
      rw [served]
      refine ⟨after, _, ran, held', ?_, fun failed => absurd failed (Int.lt_irrefl 0)⟩
      rw [List.erase_eq_eraseP', List.eraseP_map]
      simp only [Function.comp_def, beq_eq_decide]
    · have served : Call.onPids (entries.map Prod.snd) (.delPid pid) = (entries.map Prod.snd, -einval) :=
        if_neg absent
      rw [served]
      exact ⟨heap, entries, ran, held, rfl, fun _ => rfl⟩

/-- `destroy_list` frees each remaining node once and leaves the empty list. -/
theorem destroyList_spec (held : Listed heap entries) :
    ∃ after, destroyList heap = .ok after ∧ Listed after [] ∧ after.freed = heap.freed ++ entries.map Prod.fst := by
  obtain ⟨after, ran, empty, freed⟩ := holds_freeAll destroyBody (fun _ _ => rfl) held
  exact ⟨after, by simp [destroyList, ran], empty, freed⟩

/-! ## Whole histories -/

/-- The numbers after a sequence of calls, and what the calls return. -/
def history (pids : List Int32) : List Call → List Int32 × List Int
  | [] => (pids, [])
  | call :: calls =>
    let (pids, ret) := call.onPids pids
    let (pids, rets) := history pids calls
    (pids, ret :: rets)

/-- A run of calls, from any well-formed list. -/
theorem calls_run (held : Listed heap entries) (calls : List Call) :
    ∃ after entries', answers Call.serve heap calls = .ok (after, (history (entries.map Prod.snd) calls).2) ∧
      Listed after entries' ∧ entries'.map Prod.snd = (history (entries.map Prod.snd) calls).1 := by
  induction calls generalizing heap entries with
  | nil => exact ⟨heap, entries, rfl, held, rfl⟩
  | cons call calls ih =>
    obtain ⟨middle, entries', served, held', pids, -⟩ := serve_spec held call
    obtain ⟨after, entries'', ran, held'', pids'⟩ := ih held'
    rw [pids] at ran pids'
    exact ⟨after, entries'', by simp only [answers, served, ran, ok_bind, pure_eq_ok, history], held'', pids'⟩

/-- **Refinement.** In every history of `add_pid` and `del_pid` calls no access or free is
bad, the list is well formed and runs through exactly the allocated nodes, and the calls
return and leave what they do on the plain list of numbers. A call that fails after such a
history changes nothing, and `destroy_list` frees each node that is left once. -/
theorem pid_calls_refine (calls : List Call) :
    ∃ heap entries, answers Call.serve loaded calls = .ok (heap, (history [] calls).2) ∧
      Listed heap entries ∧ entries.map Prod.snd = (history [] calls).1 ∧
      (∀ call : Call, (call.onPids (history [] calls).1).2 < 0 →
        call.serve heap = .ok (heap, (call.onPids (history [] calls).1).2)) ∧
      ∃ final, destroyList heap = .ok final ∧ Listed final [] ∧
        final.freed = heap.freed ++ entries.map Prod.fst := by
  obtain ⟨heap, entries, ran, held, pids⟩ := calls_run loaded_listed calls
  refine ⟨heap, entries, ran, held, pids, fun call fails => ?_, destroyList_spec held⟩
  obtain ⟨after, -, served, -, -, same⟩ := serve_spec held call
  rw [pids] at served same
  obtain rfl := same fails
  exact served

end KernelLabs.PidList
