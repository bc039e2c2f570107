import KernelLabs.Checked
import Mathlib.Algebra.Order.Group.Nat
import Mathlib.Data.List.Perm.Subperm
import Mathlib.Logic.Function.Basic

/-! Singly linked lists of nodes from `malloc`. Every access is checked: reading or writing
through `NULL` or a freed node, and freeing what is not allocated, is a fault. No node is
handed out twice. -/
namespace KernelLabs.SinglyLinked

/-- `NULL`, or a node. -/
abbrev Ptr := Option Nat

structure Node (α : Type) where
  data : α
  next : Ptr

structure Heap (α : Type) where
  /-- The nodes that are allocated. -/
  node : Nat → Option (Node α)
  /-- The number of nodes handed out so far. -/
  handedOut : Nat
  /-- The nodes freed so far, in order. -/
  freed : List Nat
  fresh : ∀ number, handedOut ≤ number → node number = none

variable {α : Type}

namespace Heap

/-- Memory before the first `malloc`. -/
def empty : Heap α where
  node _ := none
  handedOut := 0
  freed := []
  fresh _ _ := rfl

/-- Memory in which a node was changed. -/
def change (heap : Heap α) (number : Nat) (after : Node α → Node α) : Heap α where
  node := Function.update heap.node number ((heap.node number).map after)
  handedOut := heap.handedOut
  freed := heap.freed
  fresh other unissued := by
    by_cases same : other = number
    · subst same
      rw [Function.update_self, heap.fresh other unissued, Option.map_none]
    · rw [Function.update_of_ne same, heap.fresh other unissued]

/-- Memory in which a node was freed. -/
def without (heap : Heap α) (number : Nat) : Heap α where
  node := Function.update heap.node number none
  handedOut := heap.handedOut
  freed := heap.freed ++ [number]
  fresh other unissued := by
    by_cases same : other = number
    · rw [same, Function.update_self]
    · rw [Function.update_of_ne same, heap.fresh other unissued]

/-- `malloc(sizeof(node))`, with the contents of the memory it finds, if it finds any. -/
def malloc (heap : Heap α) : Option (Node α) → Heap α × Ptr
  | none => (heap, none)
  | some contents =>
    ({ node := Function.update heap.node heap.handedOut (some contents)
       handedOut := heap.handedOut + 1
       freed := heap.freed
       fresh := fun number unissued => by
        rw [Function.update_of_ne (by omega), heap.fresh number (by omega)] }, some heap.handedOut)

/-- `free(p)`. -/
def free (heap : Heap α) : Ptr → Except Fault (Heap α)
  | none => .ok heap
  | some number => if (heap.node number).isSome then .ok (heap.without number) else .error .badFree

/-- A read of the node at `p`. -/
def load (heap : Heap α) (p : Ptr) : Except Fault (Node α) :=
  match p.bind heap.node with
  | some node => .ok node
  | none => .error .badAccess

/-- A write of the node at `p`. -/
def modify (heap : Heap α) (p : Ptr) (after : Node α → Node α) : Except Fault (Heap α) :=
  match p with
  | some number => if (heap.node number).isSome then .ok (heap.change number after) else .error .badAccess
  | none => .error .badAccess

/-- `p->data = data`. -/
def setData (heap : Heap α) (p : Ptr) (data : α) : Except Fault (Heap α) :=
  heap.modify p fun node => { node with data := data }

/-- `p->next = next`. -/
def setNext (heap : Heap α) (p next : Ptr) : Except Fault (Heap α) :=
  heap.modify p fun node => { node with next := next }

variable {heap : Heap α} {number other : Nat} {node : Node α}

theorem change_self (found : heap.node number = some node) (after : Node α → Node α) :
    (heap.change number after).node number = some (after node) := by
  simp [change, found]

theorem change_other (different : other ≠ number) (after : Node α → Node α) :
    (heap.change number after).node other = heap.node other := Function.update_of_ne different ..

theorem without_other (different : other ≠ number) : (heap.without number).node other = heap.node other :=
  Function.update_of_ne different ..

theorem load_some (found : heap.node number = some node) : heap.load (some number) = .ok node := by
  simp [load, found]

theorem free_some (found : heap.node number = some node) : heap.free (some number) = .ok (heap.without number) := by
  simp [free, found]

theorem modify_some (found : heap.node number = some node) (after : Node α → Node α) :
    heap.modify (some number) after = .ok (heap.change number after) := by
  simp [modify, found]

end Heap

/-! ## Lists -/

/-- Following `next` from `p` visits these nodes with these data, and comes to `q`. -/
def Path (heap : Heap α) : Ptr → List (Nat × α) → Ptr → Prop
  | p, [], q => p = q
  | p, (number, data) :: entries, q =>
    p = some number ∧ ∃ next, heap.node number = some ⟨data, next⟩ ∧ Path heap next entries q

/-- A list that is ended by `NULL`, of distinct nodes. -/
structure Holds (heap : Heap α) (head : Ptr) (entries : List (Nat × α)) : Prop where
  path : Path heap head entries none
  distinct : (entries.map Prod.fst).Nodup

section Lists
variable {heap after : Heap α} {head p q next : Ptr} {entries front back : List (Nat × α)}
  {number prev : Nat} {data data' : α}

theorem path_append :
    Path heap p (front ++ back) q ↔ ∃ middle, Path heap p front middle ∧ Path heap middle back q := by
  induction front generalizing p with
  | nil => simp [Path]
  | cons entry front ih =>
    simp only [List.cons_append, Path, ih]
    constructor
    · rintro ⟨here, next, found, middle, left, right⟩
      exact ⟨middle, ⟨here, next, found, left⟩, right⟩
    · rintro ⟨middle, ⟨here, next, found, left⟩, right⟩
      exact ⟨here, next, found, middle, left, right⟩

/-- A path depends on its own nodes only. -/
theorem path_congr (path : Path heap p entries q)
    (same : ∀ entry ∈ entries, after.node entry.1 = heap.node entry.1) : Path after p entries q := by
  induction entries generalizing p with
  | nil => exact path
  | cons entry entries ih =>
    obtain ⟨here, next, found, rest⟩ := path
    refine ⟨here, next, (same entry List.mem_cons_self).trans found, ih rest fun other inside => ?_⟩
    exact same other (List.mem_cons_of_mem _ inside)

theorem path_allocated (path : Path heap p entries q) : ∀ entry ∈ entries, ∃ next,
    heap.node entry.1 = some ⟨entry.2, next⟩ := by
  induction entries generalizing p with
  | nil => exact fun entry none => absurd none List.not_mem_nil
  | cons first entries ih =>
    obtain ⟨-, next, found, rest⟩ := path
    intro entry inside
    rcases List.mem_cons.mp inside with rfl | inside
    · exact ⟨next, found⟩
    · exact ih rest entry inside

/-- A list has no more nodes than were handed out. -/
theorem holds_length (held : Holds heap head entries) : entries.length ≤ heap.handedOut := by
  have issued : entries.map Prod.fst ⊆ List.range heap.handedOut := by
    intro number inside
    obtain ⟨entry, member, rfl⟩ := List.mem_map.mp inside
    obtain ⟨next, found⟩ := path_allocated held.path entry member
    by_contra beyond
    rw [heap.fresh entry.1 (by simpa using beyond)] at found
    cases found
  simpa using (List.subperm_of_subset held.distinct issued).length_le

/-- The first node of a list can be freed. -/
theorem holds_free_first (held : Holds heap head ((number, data) :: entries)) :
    ∃ next, head = some number ∧ heap.node number = some ⟨data, next⟩ ∧
      Holds (heap.without number) next entries := by
  obtain ⟨here, next, found, rest⟩ := held.path
  obtain ⟨outside, distinct⟩ : number ∉ entries.map Prod.fst ∧ (entries.map Prod.fst).Nodup :=
    List.nodup_cons.mp held.distinct
  refine ⟨next, here, found, path_congr rest fun entry inside => ?_, distinct⟩
  refine Heap.without_other fun same => outside ?_
  rw [← same]
  exact List.mem_map_of_mem inside

/-- A node behind another one can be unlinked and freed. -/
theorem holds_free_after (held : Holds heap head (front ++ (prev, data') :: (number, data) :: back)) :
    ∃ next, prev ≠ number ∧ heap.node prev = some ⟨data', some number⟩ ∧ heap.node number = some ⟨data, next⟩ ∧
      Holds ((heap.change prev fun node => { node with next := next }).without number) head
        (front ++ (prev, data') :: back) := by
  obtain ⟨middle, before, rfl, follows, foundPrev, rfl, next, found, rest⟩ := path_append.mp held.path
  have distinct := held.distinct
  simp only [List.map_append, List.map_cons] at distinct
  obtain ⟨frontDistinct, backDistinct, apart⟩ := List.nodup_append.mp distinct
  obtain ⟨prevOutside, numberDistinct⟩ := List.nodup_cons.mp backDistinct
  obtain ⟨numberOutside, backDistinct⟩ := List.nodup_cons.mp numberDistinct
  have different : prev ≠ number := fun same => prevOutside (same ▸ List.mem_cons_self)
  let result := (heap.change prev fun node => { node with next := next }).without number
  have others (other : Nat) (notPrev : other ≠ prev) (notNumber : other ≠ number) :
      result.node other = heap.node other :=
    (Heap.without_other notNumber).trans (Heap.change_other notPrev _)
  refine ⟨next, different, foundPrev, found, path_append.mpr ?_, held.distinct.sublist (by simp)⟩
  refine ⟨some prev, path_congr before ?_, rfl, next, ?_, path_congr rest ?_⟩
  · intro entry inside
    have member := List.mem_map_of_mem (f := Prod.fst) inside
    exact others entry.1 (apart _ member _ List.mem_cons_self)
      (apart _ member _ (List.mem_cons_of_mem _ List.mem_cons_self))
  · exact (Heap.without_other different).trans (Heap.change_self foundPrev _)
  · intro entry inside
    have member := List.mem_map_of_mem (f := Prod.fst) inside
    refine others entry.1 (fun same => prevOutside ?_) (fun same => numberOutside ?_)
    · exact List.mem_cons_of_mem _ (same ▸ member)
    · exact same ▸ member

end Lists

end KernelLabs.SinglyLinked
