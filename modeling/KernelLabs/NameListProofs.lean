import KernelLabs.LinuxListProofs
import KernelLabs.NameList

/-! What each operation of `list.c` does to the list of names, and what a run of
`list_write` calls leaves behind. The target is a plain list of names, changed
by the accepted commands only. -/
namespace KernelLabs.NameList
open CBytes LinuxList Errno

variable {heap : Heap NameArray} {entries front back : List (Ptr × Bytes)} {size : Nat}
  {name : CharArray size}

/-- An entry's array holds this name, terminated. -/
def Named (array : NameArray) (name : Bytes) : Prop := 0 ∈ array.1 ∧ cString array.1 = name

/-- The representation invariant of the module: a well-formed list through
exactly the allocated entries, carrying these names. -/
abbrev Represents (heap : Heap NameArray) (entries : List (Ptr × Bytes)) : Prop :=
  Holds Named heap nameList entries

theorem loaded_represents : Represents loaded [] := init_holds 0

/-! ## Adding -/

theorem strlen_ok (ends : 0 ∈ name.1) : strlen name = .ok (cString name.1).length := by
  simp [strlen, ends]

/-- A name shorter than the array is copied whole, with its `NUL`. -/
theorem strcpy_ok (array : NameArray) (ends : 0 ∈ name.1)
    (short : (cString name.1).length < nameMaxSize) :
    ∃ copied, strcpy array name = .ok copied ∧ Named copied (cString name.1) := by
  obtain ⟨copied, ran, contents⟩ := write_ok array 0 (cString name.1 ++ [0])
    (by simp; omega)
  refine ⟨copied, by simp [strcpy, ends, ran], ?_, ?_⟩
  · simp [contents]
  · simpa [contents] using cString_append_zero (zero_not_mem_cString name.1) _

/-- Everything `add_to_list` does before linking the new entry in. -/
theorem prepare_entry {nodes loose : List Ptr} (ring : Ring heap nameList nodes loose)
    (block : Block NameArray) (ends : 0 ∈ name.1) (short : (cString name.1).length < nameMaxSize) :
    ∃ array copied stored ready,
      (kmalloc heap (some block)).1.load (.slab heap.handedOut) = .ok array ∧
      strcpy array name = .ok copied ∧ Named copied (cString name.1) ∧
      (kmalloc heap (some block)).1.store (.slab heap.handedOut) copied = .ok stored ∧
      initListHead stored (.slab heap.handedOut) = .ok ready ∧
      Ring ready nameList nodes (.slab heap.handedOut :: loose) ∧
      ready.entry = Function.update heap.entry (.slab heap.handedOut) (some copied) ∧
      ready.handedOut = heap.handedOut + 1 ∧ ready.freed = heap.freed := by
  have fresh := kmalloc_ring ring block
  have found : (kmalloc heap (some block)).1.entry (.slab heap.handedOut) = some block.entry := by
    simp [kmalloc]
  obtain ⟨copied, copy, named⟩ := strcpy_ok block.entry ends short
  obtain ⟨stored, write, ring, written, handed, freed⟩ := store_ring fresh
    (.slab heap.handedOut) (by simp) copied
  obtain ⟨ready, init, linked, same, handed', freed'⟩ := initListHead_ring
    (.slab heap.handedOut) ring (by simp)
  refine ⟨block.entry, copied, stored, ready, Heap.load_of_entry found, copy, named, write, init,
    linked, ?_, by rw [handed', handed]; rfl, by rw [freed', freed]; rfl⟩
  rw [same, written]
  simp [kmalloc]

/-- A failed allocation changes nothing. -/
theorem addToList_no_memory {mode : Char} (known : mode = 'f' ∨ mode = 'e') (ends : 0 ∈ name.1)
    (short : (cString name.1).length < nameMaxSize) :
    addToList heap none name mode = .ok (heap, -enomem) := by
  have long : ¬ nameMaxSize ≤ (cString name.1).length := by omega
  rcases known with rfl | rfl <;> simp [addToList, strlen_ok ends, long, kmalloc]

/-- `addf` puts the fresh entry first. -/
theorem addToList_front (held : Represents heap entries) (block : Block NameArray)
    (ends : 0 ∈ name.1) (short : (cString name.1).length < nameMaxSize) :
    ∃ result, addToList heap (some block) name 'f' = .ok (result, 0) ∧
      Represents result ((.slab heap.handedOut, cString name.1) :: entries) ∧
      result.handedOut = heap.handedOut + 1 ∧ result.freed = heap.freed := by
  obtain ⟨array, copied, stored, ready, load, copy, named, write, init, ring, written, handed,
    freed⟩ := prepare_entry held.ring block ends short
  obtain ⟨result, add, linked, same, handed', freed'⟩ := listAdd_ring ring
  refine ⟨result, ?_, ?_, handed'.trans handed, freed'.trans freed⟩
  · have long : ¬ nameMaxSize ≤ (cString name.1).length := by omega
    have nonnull : (kmalloc heap (some block)).2 = .slab heap.handedOut := rfl
    simp [addToList, strlen_ok ends, long, nonnull, load, copy, write, init, add]
  · exact holds_link [] _ held linked (same.trans written) named

/-- `adde` puts the fresh entry last. -/
theorem addToList_end (held : Represents heap entries) (block : Block NameArray)
    (ends : 0 ∈ name.1) (short : (cString name.1).length < nameMaxSize) :
    ∃ result, addToList heap (some block) name 'e' = .ok (result, 0) ∧
      Represents result (entries ++ [(.slab heap.handedOut, cString name.1)]) ∧
      result.handedOut = heap.handedOut + 1 ∧ result.freed = heap.freed := by
  obtain ⟨array, copied, stored, ready, load, copy, named, write, init, ring, written, handed,
    freed⟩ := prepare_entry held.ring block ends short
  obtain ⟨result, add, linked, same, handed', freed'⟩ := listAddTail_ring ring
  refine ⟨result, ?_, ?_, handed'.trans handed, freed'.trans freed⟩
  · have long : ¬ nameMaxSize ≤ (cString name.1).length := by omega
    have nonnull : (kmalloc heap (some block)).2 = .slab heap.handedOut := rfl
    simp [addToList, strlen_ok ends, long, nonnull, load, copy, write, init, add]
  · exact holds_link _ [] (by simpa using held) linked (same.trans written) named

/-! ## Deleting -/

/-- The comparison in the loop bodies, at any entry of the list. -/
private theorem compare_entry {p : Ptr} {text : Bytes}
    (held : Represents heap (front ++ (p, text) :: back)) (ends : 0 ∈ name.1) :
    ∃ array order, heap.load p = .ok array ∧ strcmp array.1 name.1 = .ok order ∧
      (order = 0 ↔ text = cString name.1) := by
  obtain ⟨array, load, terminated, spelled⟩ := holds_load held
  obtain ⟨order, compared, exactly⟩ := strcmp_spec terminated ends
  exact ⟨array, order, load, compared, by rw [exactly, spelled]⟩

/-- `delete_first_from_list` removes the first entry with the name, if any. -/
theorem deleteFirst_spec (held : Represents heap entries) (ends : 0 ∈ name.1) :
    ∃ result ret, deleteFirstFromList heap name = .ok (result, ret) ∧
      Represents result (entries.eraseP (·.2 = cString name.1)) ∧
      (ret = if cString name.1 ∈ entries.map Prod.snd then 0 else -1) ∧
      result.handedOut = heap.handedOut := by
  have at_entry (current : Heap NameArray) (front : List (Ptr × Bytes)) (p : Ptr) (text : Bytes)
      (back : List (Ptr × Bytes)) (held : Represents current (front ++ (p, text) :: back)) :
      deleteFirstBody name current p = if decide (text = cString name.1) then (do
        let current ← listDel current p
        let current ← kfree current p
        return .done current 0) else .ok (.next current) := by
    obtain ⟨array, order, load, compared, exactly⟩ := compare_entry held ends
    by_cases same : text = cString name.1
    · simp [deleteFirstBody, load, compared, exactly.mpr same, same]
    · simp [deleteFirstBody, load, compared, exactly, same]
  obtain ⟨flow, ran, ends⟩ := holds_eraseP (fun text => decide (text = cString name.1)) at_entry held
  cases flow with
  | done final ret =>
    obtain ⟨rfl, ⟨entry, inside, same⟩, removed, handed⟩ := ends
    refine ⟨final, 0, by simp [deleteFirstFromList, ran], removed, ?_, handed⟩
    rw [if_pos (List.mem_map.mpr ⟨entry, inside, of_decide_eq_true same⟩)]
  | next final =>
    obtain ⟨rfl, others⟩ := ends
    refine ⟨final, -1, by simp [deleteFirstFromList, ran], ?_, ?_, rfl⟩
    · rw [List.eraseP_of_forall_not others]
      exact held
    · rw [if_neg]
      intro member
      obtain ⟨entry, inside, same⟩ := List.mem_map.mp member
      exact others entry inside (decide_eq_true same)

/-- `delete_all_from_list` removes every entry with the name. -/
theorem deleteAll_spec (held : Represents heap entries) (ends : 0 ∈ name.1) :
    ∃ result, deleteAllFromList heap name = .ok (result, 0) ∧
      Represents result (entries.filter (·.2 ≠ cString name.1)) ∧
      result.handedOut = heap.handedOut := by
  have at_entry (current : Heap NameArray) (front : List (Ptr × Bytes)) (p : Ptr) (text : Bytes)
      (back : List (Ptr × Bytes)) (held : Represents current (front ++ (p, text) :: back)) :
      deleteAllBody name current p = if decide (text = cString name.1) then (do
        let current ← listDel current p
        let current ← kfree current p
        return .next current) else .ok (.next current) := by
    obtain ⟨array, order, load, compared, exactly⟩ := compare_entry held ends
    by_cases same : text = cString name.1
    · simp [deleteAllBody, load, compared, exactly.mpr same, same]
    · simp [deleteAllBody, load, compared, exactly, same]
  obtain ⟨final, ran, kept, -, handed⟩ :=
    holds_filter (fun text => decide (text = cString name.1)) at_entry held
  exact ⟨final, by simp [deleteAllFromList, ran], by simpa using kept, handed⟩

/-- `destroy_list` frees every entry, each once and in list order, and leaves
the empty list. -/
theorem destroyList_spec (held : Represents heap entries) :
    ∃ result, destroyList heap = .ok (result, 0) ∧ Represents result [] ∧
      result.freed = heap.freed ++ entries.map Prod.fst := by
  obtain ⟨final, ran, empty, freed⟩ := holds_freeAll destroyBody (fun _ _ => rfl) held
  exact ⟨final, by simp [destroyList, ran], empty, freed⟩

/-! ## Reading -/

/-- One `seq_printf` of a stored name. -/
theorem seqPrintf_ok {array : NameArray} {text : Bytes} (named : Named array text)
    (m : Bytes) : seqPrintf m array = .ok (m ++ text) := by
  obtain ⟨ends, rfl⟩ := named
  have cut : array.1.take (cString array.1).length = cString array.1 :=
    (List.prefix_iff_eq_take.mp (List.takeWhile_prefix _)).symm
  simp [seqPrintf, strlen_ok ends, cut]

/-- Printing an entry of the list prints its name. -/
theorem showBody_ok {p : Ptr} {text : Bytes} (held : Represents heap (front ++ (p, text) :: back))
    (m : Bytes) : showBody heap m p = .ok (m ++ text) := by
  obtain ⟨array, load, named⟩ := holds_load held
  simp [showBody, load, seqPrintf_ok named]

/-- The preview is the concatenation of the names, in list order. -/
theorem listProcShow_spec (held : Represents heap entries) :
    listProcShow heap = .ok (entries.map Prod.snd).flatten := by
  let Inv : List Ptr → Bytes → Prop := fun rest m =>
    ∃ front back, entries = front ++ back ∧ back.map Prod.fst = rest ∧
      m = (front.map Prod.snd).flatten
  have visit : ∀ p rest m, Inv (p :: rest) m → ∃ next, showBody heap m p = .ok next ∧ Inv rest next := by
    rintro p rest m ⟨front, back, whole, visited, rfl⟩
    obtain ⟨⟨p, text⟩, back, rfl, rfl, rfl⟩ := List.map_eq_cons_iff.mp visited
    subst whole
    exact ⟨_, showBody_ok held _, front ++ [(p, text)], back, by simp, rfl, by simp⟩
  have start : Inv (entries.map Prod.fst) [] := ⟨[], entries, rfl, rfl, rfl⟩
  obtain ⟨final, ran, front, back, whole, empty, printed⟩ :=
    listForEachEntry_ends held.ring visit start
  obtain rfl : back = [] := List.map_eq_nil_iff.mp empty
  rw [List.append_nil] at whole
  subst whole
  rw [listProcShow, ran, printed]

end KernelLabs.NameList
