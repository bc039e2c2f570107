import KernelLabs.LinuxListLostAdds
import KernelLabs.NameListWrite
import Mathlib.Data.List.Perm.Basic

/-! Concurrent `addf` and `adde` commands of `list.c`. Nothing in the module keeps
two calls of `list_write` apart, so the stores of their `list_add`s interleave. Each
command prepares its own entry first, where no other one can see it; only the
steps of the two list functions are shared. -/
namespace KernelLabs.NameList
open CBytes LinuxList Errno

variable {heap : Heap NameArray} {entries : List (Ptr × Bytes)}

/-- The command that ends in a call of the function. -/
def instOf : AddFunction → Inst
  | .listAdd => .addf
  | .listAddTail => .adde

/-- An `addf` or `adde` that `list_write` accepts and `kmalloc` has memory for. -/
structure AddCommand where
  function : AddFunction
  /-- The name, as `list_write` passes it to `add_to_list`. -/
  name : CharArray (nameMaxSize + 1)
  block : Block NameArray
  terminated : 0 ∈ name.1
  short : (cString name.1).length < nameMaxSize

namespace AddCommand

/-- The argument of `add_to_list`. -/
def mode (command : AddCommand) : Char :=
  match command.function with
  | .listAdd => 'f'
  | .listAddTail => 'e'

/-- The name the user gave. -/
def text (command : AddCommand) : Bytes := cString command.name.1

end AddCommand

/-- What `add_to_list` does before its `switch`: an entry with the name and an
empty list of its own. -/
def prepareEntry (heap : Heap NameArray) (command : AddCommand) :
    Except Fault (Heap NameArray × AddCall) := do
  let (heap, entry) := kmalloc heap (some command.block)
  let copied ← strcpy (← heap.load entry) command.name
  let heap ← heap.store entry copied
  let heap ← initListHead heap entry
  return (heap, ⟨command.function, entry⟩)

/-- `add_to_list` prepares an entry and then calls one of the list functions. -/
theorem addToList_prepared (heap : Heap NameArray) (command : AddCommand) :
    addToList heap (some command.block) command.name command.mode = (do
      let (heap, call) ← prepareEntry heap command
      return (← call.apply heap nameList, 0)) := by
  have long : ¬ nameMaxSize ≤ (cString command.name.1).length := not_le.mpr command.short
  have nonnull : (kmalloc heap (some command.block)).2 = .slab heap.handedOut := rfl
  cases shape : command.function <;>
    simp [addToList, prepareEntry, AddCommand.mode, AddCall.apply, shape, long, nonnull,
      strlen_ok command.terminated]

/-- Every accepted `addf` or `adde` that gets memory is such a command. -/
theorem accepted_add {call : WriteCall} {inst : Inst} {text : Bytes} {block : Block NameArray}
    (accepted : call.command = some (inst, text)) (adds : inst = .addf ∨ inst = .adde)
    (memory : call.memory = some block) :
    ∃ command : AddCommand, instOf command.function = inst ∧ command.text = text ∧
      ∀ heap, listWrite heap call = (do
        let (heap, call') ← prepareEntry heap command
        let heap ← call'.apply heap nameList
        return (heap, call.count.toNat)) := by
  obtain ⟨copied, ⟨low, high, word⟩, rfl⟩ := WriteCall.command_eq_some_iff.mp accepted
  obtain ⟨name, terminated, spelled, write⟩ := write_good_length copied low high
  have short : (cString name.1).length < nameMaxSize := spelled ▸ argument_short high
  obtain ⟨function, rfl⟩ : ∃ function, inst = instOf function := by
    rcases adds with rfl | rfl
    · exact ⟨.listAdd, rfl⟩
    · exact ⟨.listAddTail, rfl⟩
  refine ⟨⟨function, name, block, terminated, short⟩, rfl, spelled, fun heap => ?_⟩
  have prepared := addToList_prepared heap ⟨function, name, block, terminated, short⟩
  have helped : (instOf function).helper heap call.memory name = (do
      let (heap, call') ← prepareEntry heap ⟨function, name, block, terminated, short⟩
      return (← call'.apply heap nameList, 0)) := by
    rw [memory, ← prepared]
    cases function <;> rfl
  rw [(write heap).1 _ word, helped]
  simp

/-- The entries the commands add, with their names. -/
def added (commands : List AddCommand) (calls : List AddCall) : List (Ptr × Bytes) :=
  (calls.map AddCall.new).zip (commands.map AddCommand.text)

theorem prepareEntry_ok {nodes loose : List Ptr} (ring : Ring heap nameList nodes loose)
    (command : AddCommand) :
    ∃ ready copied, prepareEntry heap command =
        .ok (ready, ⟨command.function, .slab heap.handedOut⟩) ∧
      Ring ready nameList nodes (.slab heap.handedOut :: loose) ∧ Named copied command.text ∧
      ready.entry = Function.update heap.entry (.slab heap.handedOut) (some copied) := by
  obtain ⟨array, copied, stored, ready, load, copy, named, write, init, prepared, written, -⟩ :=
    prepare_entry ring command.block command.terminated command.short
  refine ⟨ready, copied, ?_, prepared, named, written⟩
  have nonnull : (kmalloc heap (some command.block)).2 = .slab heap.handedOut := rfl
  simp [prepareEntry, nonnull, load, copy, write, init]

/-- Preparing entries leaves the list alone; each entry has its name. -/
theorem prepare_all {nodes loose : List Ptr} (ring : Ring heap nameList nodes loose)
    (commands : List AddCommand) :
    ∃ ready calls, answers prepareEntry heap commands = .ok (ready, calls) ∧
      calls.map AddCall.function = commands.map AddCommand.function ∧
      Ring ready nameList nodes (calls.map AddCall.new ++ loose) ∧
      (∀ entry ∈ added commands calls, ∃ array, ready.entry entry.1 = some array ∧
        Named array entry.2) ∧
      ∀ p ∈ nodes ++ loose, ready.entry p = heap.entry p := by
  induction commands generalizing heap loose with
  | nil => exact ⟨heap, [], rfl, rfl, ring, by simp [added], fun _ _ => rfl⟩
  | cons command commands ih =>
    obtain ⟨middle, copied, once, prepared, named, written⟩ := prepareEntry_ok ring command
    obtain ⟨ready, calls, ran, functions, all, stored, kept⟩ := ih prepared
    refine ⟨ready, ⟨command.function, .slab heap.handedOut⟩ :: calls, ?_, ?_, ?_, ?_, ?_⟩
    · simp [answers, once, ran]
    · simp [functions]
    · exact ring_perm all List.perm_middle
    · intro entry member
      rcases List.mem_cons.mp member with rfl | member
      · refine ⟨copied, ?_, named⟩
        rw [kept _ (by simp), written, Function.update_self]
      · exact stored entry member
    · intro p member
      have distinct := (List.nodup_cons.mp prepared.distinct).2
      rw [List.nodup_middle, List.nodup_cons] at distinct
      have other : p ≠ .slab heap.handedOut := fun same => distinct.1 (same ▸ member)
      rw [kept p (by simp at member ⊢; tauto), written, Function.update_of_ne other]

/-- **Concurrent additions.** From every list and for any commands, no interleaving
of the steps of `list_add` and `list_add_tail` faults. When all have returned, the
list is well formed and has every old and every added entry exactly once, if and
only if no step has read or stored a pointer that an insertion begun before it had
still to store. -/
theorem concurrent_adds_kept_iff (held : Represents heap entries) (commands : List AddCommand) :
    ∃ ready calls, answers prepareEntry heap commands = .ok (ready, calls) ∧
      calls.map AddCall.function = commands.map AddCommand.function ∧
      ∀ turns, ∃ final, run (addStep nameList) (Adds.start ready calls) turns = .ok final ∧
        (final.Finished →
          ((∃ list, Represents final.heap list ∧ list.Perm (entries ++ added commands calls)) ↔
            Along (Adds.Admitted nameList) (addStep nameList) (Adds.start ready calls) turns)) := by
  obtain ⟨ready, calls, ran, functions, ring, stored, kept⟩ := prepare_all held.ring commands
  rw [List.append_nil] at ring
  refine ⟨ready, calls, ran, functions, fun turns => ?_⟩
  obtain ⟨final, interleaved, same, exactly⟩ := Adds.adds_ring_iff ring turns
  refine ⟨final, interleaved, fun finished => ?_⟩
  have width : calls.length = commands.length := by simpa using congrArg List.length functions
  have nodes : (entries ++ added commands calls).map Prod.fst =
      entries.map Prod.fst ++ calls.map AddCall.new := by
    rw [List.map_append, added, List.map_fst_zip (by simp [width])]
  rw [← exactly finished]
  constructor
  · rintro ⟨list, ending, complete⟩
    exact ⟨list.map Prod.fst, ending.ring, nodes ▸ complete.map Prod.fst⟩
  · rintro ⟨order, ending, complete⟩
    rw [← nodes] at complete
    obtain ⟨list, rfl, all⟩ : ∃ list : List (Ptr × Bytes), order = list.map Prod.fst ∧
        list.Perm (entries ++ added commands calls) := by
      have lifted := List.eq_map_comp_perm (Prod.fst : Ptr × Bytes → Ptr)
      exact (congrFun₂ lifted order _).mpr complete
    refine ⟨list, ⟨ending, fun entry member => ?_⟩, all⟩
    rw [same]
    rcases List.mem_append.mp (all.mem_iff.mp member) with old | new
    · obtain ⟨array, found, named⟩ := held.stored entry old
      have here : entry.1 ∈ entries.map Prod.fst := List.mem_map_of_mem old
      exact ⟨array, by rw [kept entry.1 (by simpa using here), found], named⟩
    · exact stored entry new

/-- A command for the name `x`. -/
def sampleCommand (function : AddFunction) : AddCommand where
  function := function
  name := ⟨120 :: List.replicate nameMaxSize 0, by simp⟩
  block := ⟨⟨List.replicate nameMaxSize 9, by simp⟩, ⟨.null, .null⟩⟩
  terminated := by simp [nameMaxSize]
  short := by simp [cString, nameMaxSize]

theorem concurrent_adds_kept_iff_two :
    ∃ ready calls, answers prepareEntry loaded
        [sampleCommand .listAdd, sampleCommand .listAddTail] = .ok (ready, calls) ∧
      ∀ turns, ∃ final, run (addStep nameList) (Adds.start ready calls) turns = .ok final ∧
        (final.Finished →
          ((∃ list, Represents final.heap list ∧ list.Perm
              (added [sampleCommand .listAdd, sampleCommand .listAddTail] calls)) ↔
            Along (Adds.Admitted nameList) (addStep nameList) (Adds.start ready calls) turns)) := by
  obtain ⟨ready, calls, ran, -, exactly⟩ := concurrent_adds_kept_iff loaded_represents
    [sampleCommand .listAdd, sampleCommand .listAddTail]
  exact ⟨ready, calls, ran, exactly⟩

/-- Two `addf` commands whose `list_add`s both read the head before either of them
stores: when both have returned, no well-formed list has both entries. -/
theorem concurrent_addfs_lose_entry :
    ∃ ready calls turns final, answers prepareEntry loaded
        [sampleCommand .listAdd, sampleCommand .listAdd] = .ok (ready, calls) ∧
      run (addStep nameList) (Adds.start ready calls) turns = .ok final ∧ final.Finished ∧
      ¬ ∃ list, Represents final.heap list ∧ list.Perm
        (added [sampleCommand .listAdd, sampleCommand .listAdd] calls) := by
  obtain ⟨ready, calls, prepared, functions, ring, -⟩ := prepare_all loaded_represents.ring
    [sampleCommand .listAdd, sampleCommand .listAdd]
  rw [List.append_nil] at ring
  obtain ⟨first, second, rfl⟩ : ∃ first second : Ptr,
      calls = [⟨.listAdd, first⟩, ⟨.listAdd, second⟩] := by
    obtain ⟨first, calls, rfl, called, functions⟩ := List.map_eq_cons_iff.mp functions
    obtain ⟨second, calls, rfl, called', functions⟩ := List.map_eq_cons_iff.mp functions
    cases List.map_eq_nil_iff.mp functions
    exact ⟨first.new, second.new, by cases first; cases second; cases called; cases called'; rfl⟩
  obtain ⟨turns, final, ran, finished, lost⟩ := Adds.overlapping_reads_lose ring
  refine ⟨ready, _, turns, final, prepared, ran, finished, ?_⟩
  rintro ⟨list, ending, complete⟩
  refine lost ⟨list.map Prod.fst, ending.ring, ?_⟩
  simpa [added] using complete.map Prod.fst

end KernelLabs.NameList
