import KernelLabs.SinglyLinked

/-! `labs/lab10/list_example/linked_list.c`: a list of numbers in user space. The search of
`remove_node` does not look for the end of the list, so it is right about the numbers that
are on it and reads through `NULL` for every other. -/
namespace KernelLabs.LinkedList
open SinglyLinked

/-- `make_node`, with what the block that `malloc` will return holds, if it will return one.
The node keeps the `next` that is found there. -/
def makeNode (heap : Heap Int32) (contents : Option (Node Int32)) (data : Int32) :
    Except Fault (Heap Int32 × Ptr) := do
  let (heap, newNode) := heap.malloc contents
  let heap ← heap.setData newNode data
  return (heap, newNode)

/-- The `while` loop of `remove_node`: the values of `prev` and `curr` when it ends. -/
def search (heap : Heap Int32) (data : Int32) : Nat → Ptr → Ptr → Except Fault (Ptr × Ptr)
  | 0, _, _ => .error .diverged
  | fuel + 1, prev, curr => do
    let node ← heap.load curr
    if node.data ≠ data then search heap data fuel curr node.next else return (prev, curr)

/-- `remove_node`, with `*head` before and after. The loop can meet each node once. -/
def removeNode (heap : Heap Int32) (head : Ptr) (data : Int32) : Except Fault (Heap Int32 × Ptr) := do
  let (prev, curr) ← search heap data (heap.handedOut + 1) none head
  match prev with
  -- removing first entry
  | none =>
    let first ← heap.load head
    let heap ← heap.free head
    return (heap, first.next)
  | some _ =>
    let node ← heap.load curr
    let heap ← heap.setNext prev node.next
    let heap ← heap.free curr
    return (heap, head)

/-- The nodes that `main` makes and links, with what `malloc` finds in memory. -/
def mainList (first second third : Option (Node Int32)) : Except Fault (Heap Int32 × Ptr) := do
  let (heap, head) ← makeNode Heap.empty first 3
  let (heap, a) ← makeNode heap second 4
  let (heap, b) ← makeNode heap third 5
  let heap ← heap.setNext head a
  let heap ← heap.setNext a b
  return (heap, head)

/-- `main`, with the number that it prints. -/
def main (first second third : Option (Node Int32)) : Except Fault Int32 := do
  let (heap, head) ← mainList first second third
  let (heap, head) ← removeNode heap head 4
  let node ← heap.load head
  return node.data

/-- What `remove_node` is for: the first node with the number leaves the list and is freed,
and where there is none everything stays. -/
def RemovesFirst (heap : Heap Int32) (head : Ptr) (entries : List (Nat × Int32)) (data : Int32) : Prop :=
  ∃ after head', removeNode heap head data = .ok (after, head') ∧
    Holds after head' (entries.eraseP (·.2 = data)) ∧
    after.freed = heap.freed ++ (entries.find? (·.2 = data)).toList.map Prod.fst ∧
    (∀ number ∉ entries.map Prod.fst, after.node number = heap.node number) ∧
    (data ∉ entries.map Prod.snd → after = heap ∧ head' = head)

variable {heap : Heap Int32} {head p q prev next : Ptr} {entries front back : List (Nat × Int32)}
  {number fuel : Nat} {data : Int32}

/-- With memory for every node and `NULL` found in the last one, `main` has a list of three. -/
theorem mainList_holds (first second third : Node Int32) (ended : third.next = none) :
    ∃ heap, mainList (some first) (some second) (some third) = .ok (heap, some 0) ∧
      Holds heap (some 0) [(0, 3), (1, 4), (2, 5)] := by
  refine ⟨_, rfl, ⟨rfl, some 1, rfl, rfl, some 2, rfl, rfl, none, ?_, rfl⟩, by decide⟩
  exact congrArg (fun next => some (Node.mk 5 next)) ended

/-! ## The search -/

/-- The search goes past the nodes with other numbers. -/
theorem search_skips (path : Path heap p front q) (others : ∀ entry ∈ front, entry.2 ≠ data) :
    search heap data (front.length + fuel) prev p =
      search heap data fuel (front.foldl (fun _ entry => some entry.1) prev) q := by
  induction front generalizing p prev with
  | nil =>
    cases path
    simp
  | cons entry front ih =>
    obtain ⟨rfl, next, found, rest⟩ := path
    have different := others entry List.mem_cons_self
    have unlike : ∀ other ∈ front, other.2 ≠ data := fun other inside =>
      others other (List.mem_cons_of_mem _ inside)
    rw [List.length_cons, Nat.add_right_comm, search, Heap.load_some found, ok_bind, if_pos different]
    exact ih rest unlike

/-- It stops at the first node with the number, and knows the node before. -/
theorem search_finds (path : Path heap p front (some number)) (others : ∀ entry ∈ front, entry.2 ≠ data)
    (found : heap.node number = some ⟨data, next⟩) (enough : front.length < fuel) :
    search heap data fuel prev p = .ok (front.foldl (fun _ entry => some entry.1) prev, some number) := by
  obtain ⟨more, rfl⟩ := Nat.exists_eq_add_of_lt enough
  rw [Nat.add_assoc, search_skips path others, search, Heap.load_some found, ok_bind, if_neg (not_not.mpr rfl),
    pure_eq_ok]

/-- Without one it comes to the end of the list and reads on. -/
theorem search_misses (path : Path heap p entries none) (others : ∀ entry ∈ entries, entry.2 ≠ data)
    (enough : entries.length < fuel) : search heap data fuel prev p = .error .badAccess := by
  obtain ⟨more, rfl⟩ := Nat.exists_eq_add_of_lt enough
  rw [Nat.add_assoc, search_skips path others, search]
  rfl

/-! ## The removal -/

/-- A number that is not on the list takes `remove_node` through `NULL`. -/
theorem removeNode_absent (held : Holds heap head entries) (absent : data ∉ entries.map Prod.snd) :
    removeNode heap head data = .error .badAccess ∧ ¬RemovesFirst heap head entries data := by
  have others : ∀ entry ∈ entries, entry.2 ≠ data := fun entry inside same =>
    absent (same ▸ List.mem_map_of_mem inside)
  have faults : removeNode heap head data = .error .badAccess := by
    rw [removeNode, search_misses held.path others (Nat.lt_succ_of_le (holds_length held)), error_bind]
  refine ⟨faults, fun ⟨after, head', ran, _⟩ => ?_⟩
  rw [faults] at ran
  cases ran

/-- The first node goes by moving `*head`. -/
theorem removeNode_first (held : Holds heap head ((number, data) :: back)) :
    ∃ head', removeNode heap head data = .ok (heap.without number, head') ∧
      Holds (heap.without number) head' back := by
  obtain ⟨next, rfl, found, rest⟩ := holds_free_first held
  have path : Path heap (some number) [] (some number) := rfl
  have searched : search heap data (heap.handedOut + 1) none (some number) = .ok (none, some number) :=
    search_finds path (by simp) found (Nat.succ_pos _)
  refine ⟨next, ?_, rest⟩
  rw [removeNode, searched, ok_bind]
  simp only [Heap.load_some found, Heap.free_some found, ok_bind, pure_eq_ok]

/-- A later node goes by moving the `next` of the node before it. -/
theorem removeNode_after {before : Nat} {value : Int32}
    (held : Holds heap head (front ++ (before, value) :: (number, data) :: back))
    (others : ∀ entry ∈ front ++ [(before, value)], entry.2 ≠ data) :
    ∃ next, removeNode heap head data =
        .ok ((heap.change before fun node => { node with next := next }).without number, head) ∧
      Holds ((heap.change before fun node => { node with next := next }).without number) head
        (front ++ (before, value) :: back) := by
  obtain ⟨next, different, foundBefore, found, rest⟩ := holds_free_after held
  have path : Path heap head (front ++ [(before, value)]) (some number) := by
    obtain ⟨middle, left, rfl, follows, foundBefore', rfl, -⟩ := path_append.mp held.path
    exact path_append.mpr ⟨_, left, rfl, _, foundBefore', rfl⟩
  have enough : (front ++ [(before, value)]).length < heap.handedOut + 1 := by
    have bound := holds_length held
    simp only [List.length_append, List.length_cons, List.length_nil] at bound ⊢
    omega
  have searched : search heap data (heap.handedOut + 1) none head = .ok (some before, some number) := by
    rw [search_finds path others found enough, List.foldl_append]
    rfl
  have still : (heap.change before fun node => { node with next := next }).node number = some ⟨data, next⟩ :=
    (Heap.change_other different.symm _).trans found
  refine ⟨next, ?_, rest⟩
  rw [removeNode, searched, ok_bind]
  simp only [Heap.load_some found, Heap.setNext, Heap.modify_some foundBefore, Heap.free_some still, ok_bind,
    pure_eq_ok]

/-- On a number of the list `remove_node` does what it is for. -/
theorem removeNode_present (held : Holds heap head entries) (present : data ∈ entries.map Prod.snd) :
    RemovesFirst heap head entries data := by
  obtain ⟨entry, inside, same⟩ := List.mem_map.mp present
  obtain ⟨⟨number, value⟩, front, back, others, here, rfl, erased⟩ :=
    List.exists_of_eraseP (p := fun entry => decide (entry.2 = data)) inside (decide_eq_true same)
  obtain rfl : value = data := of_decide_eq_true here
  have unlike : ∀ entry ∈ front, entry.2 ≠ value := by simpa using others
  have first : (front ++ (number, value) :: back).find? (·.2 = value) = some (number, value) :=
    List.find?_eq_some_iff_append.mpr ⟨here, front, back, rfl, by simpa using unlike⟩
  have stays (absent : value ∉ (front ++ (number, value) :: back).map Prod.snd) {P : Prop} : P :=
    absurd present absent
  rcases List.eq_nil_or_concat' front with rfl | ⟨front, ⟨before, other⟩, rfl⟩
  · obtain ⟨head', ran, rest⟩ := removeNode_first held
    refine ⟨_, head', ran, erased ▸ rest, by rw [first]; rfl, fun other outside => ?_, (stays ·)⟩
    exact Heap.without_other fun same => outside (by simp [same])
  · simp only [List.append_assoc, List.singleton_append] at held first erased stays ⊢
    obtain ⟨next, ran, rest⟩ := removeNode_after held unlike
    refine ⟨_, head, ran, erased ▸ rest, by rw [first]; rfl, fun other outside => ?_, (stays ·)⟩
    rw [Heap.without_other fun same => outside (by simp [same]),
      Heap.change_other fun same => outside (by simp [same])]

/-- **Removal.** For every list that is ended by `NULL`, the empty one included, `remove_node`
takes the first node with a number off the list exactly when the number is on it. -/
theorem remove_node_iff (held : Holds heap head entries) (data : Int32) :
    RemovesFirst heap head entries data ↔ data ∈ entries.map Prod.snd := by
  constructor
  · intro removes
    by_contra absent
    exact (removeNode_absent held absent).2 removes
  · exact removeNode_present held

/-- The removal that `main` makes. -/
theorem remove_node_iff_main : ∃ heap,
    mainList (some ⟨0, none⟩) (some ⟨0, none⟩) (some ⟨0, none⟩) = .ok (heap, some 0) ∧
    RemovesFirst heap (some 0) [(0, 3), (1, 4), (2, 5)] 4 := by
  obtain ⟨heap, made, held⟩ := mainList_holds ⟨0, none⟩ ⟨0, none⟩ ⟨0, none⟩ rfl
  exact ⟨heap, made, (remove_node_iff held 4).mpr (by decide)⟩

/-- From the empty list, and for a number that the list of `main` does not have, `remove_node`
reads through `NULL`. -/
theorem absent_number_faults :
    (Holds (Heap.empty : Heap Int32) none [] ∧ removeNode Heap.empty none 4 = .error .badAccess ∧
      ¬RemovesFirst Heap.empty none [] 4) ∧
    ∃ heap, mainList (some ⟨0, none⟩) (some ⟨0, none⟩) (some ⟨0, none⟩) = .ok (heap, some 0) ∧
      Holds heap (some 0) [(0, 3), (1, 4), (2, 5)] ∧ removeNode heap (some 0) 7 = .error .badAccess ∧
      ¬RemovesFirst heap (some 0) [(0, 3), (1, 4), (2, 5)] 7 := by
  have empty : Holds (Heap.empty : Heap Int32) none [] := ⟨rfl, List.nodup_nil⟩
  obtain ⟨heap, made, held⟩ := mainList_holds ⟨0, none⟩ ⟨0, none⟩ ⟨0, none⟩ rfl
  refine ⟨⟨empty, ?_⟩, heap, made, held, ?_⟩
  · exact removeNode_absent empty (by decide)
  · exact removeNode_absent held (by decide)

/-- With memory for its nodes `main` prints the number of the first, whatever the last
leaves behind it; without, it writes through `NULL`. -/
theorem main_prints (first second third : Option (Node Int32)) :
    main first second third =
      if first.isSome ∧ second.isSome ∧ third.isSome then .ok 3 else .error .badAccess := by
  cases first <;> cases second <;> cases third <;> rfl

end KernelLabs.LinkedList
