import KernelLabs.Checked
import Mathlib.Data.List.Chain
import Mathlib.Data.List.Nodup
import Mathlib.Logic.Function.Basic

/-! The slab allocator and the intrusive circular lists of `linux/list.h`, as
far as a module with one list head uses them. Every access is checked: reading
or writing a node that is not live, and freeing what is not allocated, is a
fault. Freed addresses are never handed out again, so a stale pointer can
always be told from a fresh one. -/
namespace KernelLabs

namespace LinuxList

/-- Pointers to list nodes: a static list head, an object of the slab
allocator, the two values `list_del` leaves behind, `NULL` and `ERR_PTR`. -/
inductive Ptr
  | null
  | err (errno : Nat)
  | poison1
  | poison2
  | static (index : Nat)
  | slab (number : Nat)
  deriving DecidableEq, Repr

/-- `struct list_head`. -/
structure ListHead where
  next : Ptr
  prev : Ptr
  deriving DecidableEq, Repr

/-- A block of memory as `kmalloc` finds it: an entry and its `list_head`,
both with arbitrary contents. -/
structure Block (α : Type) where
  entry : α
  list : ListHead

/-- Kernel memory holding list nodes whose entries carry an `α`. -/
structure Heap (α : Type) where
  /-- The live `list_head`s: static heads, and those inside allocated entries. -/
  links : Ptr → Option ListHead
  /-- The allocated entries. -/
  entry : Ptr → Option α
  /-- The number of blocks handed out so far. -/
  handedOut : Nat
  /-- The blocks freed so far, in order. -/
  freed : List Ptr

variable {α : Type}

namespace Heap

/-- Memory when the module is loaded: `LIST_HEAD(head)` and nothing allocated. -/
def init (head : Ptr) : Heap α where
  links p := if p = head then some ⟨head, head⟩ else none
  entry _ := none
  handedOut := 0
  freed := []

/-- A `list_head` that may be read and written. -/
def Live (heap : Heap α) (p : Ptr) : Prop := (heap.links p).isSome

instance (heap : Heap α) (p : Ptr) : Decidable (heap.Live p) :=
  inferInstanceAs (Decidable ((heap.links p).isSome = true))

def next? (heap : Heap α) (p : Ptr) : Option Ptr := (heap.links p).map ListHead.next

def prev? (heap : Heap α) (p : Ptr) : Option Ptr := (heap.links p).map ListHead.prev

/-- The memory after `p->next = q`. -/
def withNext (heap : Heap α) (p q : Ptr) : Heap α :=
  let links := (heap.links p).map fun links => { links with next := q }
  { heap with links := Function.update heap.links p links }

/-- The memory after `p->prev = q`. -/
def withPrev (heap : Heap α) (p q : Ptr) : Heap α :=
  let links := (heap.links p).map fun links => { links with prev := q }
  { heap with links := Function.update heap.links p links }

/-- A read of `p->next`. -/
def next (heap : Heap α) (p : Ptr) : Except Fault Ptr :=
  match heap.next? p with
  | some q => .ok q
  | none => .error .badAccess

/-- A read of `p->prev`. -/
def prev (heap : Heap α) (p : Ptr) : Except Fault Ptr :=
  match heap.prev? p with
  | some q => .ok q
  | none => .error .badAccess

/-- `p->next = q`. -/
def setNext (heap : Heap α) (p q : Ptr) : Except Fault (Heap α) :=
  if heap.Live p then .ok (heap.withNext p q) else .error .badAccess

/-- `p->prev = q`. -/
def setPrev (heap : Heap α) (p q : Ptr) : Except Fault (Heap α) :=
  if heap.Live p then .ok (heap.withPrev p q) else .error .badAccess

/-- A read of the entry at `p`. -/
def load (heap : Heap α) (p : Ptr) : Except Fault α :=
  match heap.entry p with
  | some entry => .ok entry
  | none => .error .badAccess

/-- A write of the entry at `p`. -/
def store (heap : Heap α) (p : Ptr) (entry : α) : Except Fault (Heap α) :=
  match heap.entry p with
  | some _ => .ok { heap with entry := Function.update heap.entry p (some entry) }
  | none => .error .badAccess

end Heap

/-- `kmalloc`: `NULL`, or a block never handed out before. -/
def kmalloc (heap : Heap α) : Option (Block α) → Heap α × Ptr
  | none => (heap, .null)
  | some block =>
    let p := Ptr.slab heap.handedOut
    ({ links := Function.update heap.links p (some block.list)
       entry := Function.update heap.entry p (some block.entry)
       handedOut := heap.handedOut + 1
       freed := heap.freed }, p)

/-- `kfree` of an entry. -/
def kfree (heap : Heap α) (p : Ptr) : Except Fault (Heap α) :=
  match heap.entry p with
  | some _ => .ok
    { heap with
      links := Function.update heap.links p none
      entry := Function.update heap.entry p none
      freed := heap.freed ++ [p] }
  | none => .error .badFree

/-- `INIT_LIST_HEAD(list)`. -/
def initListHead (heap : Heap α) (list : Ptr) : Except Fault (Heap α) := do
  let heap ← heap.setNext list list
  heap.setPrev list list

/-- `__list_add(new, prev, next)`, one store after the other. -/
def listAddBetween (heap : Heap α) (new prev next : Ptr) : Except Fault (Heap α) := do
  let heap ← heap.setPrev next new
  let heap ← heap.setNext new next
  let heap ← heap.setPrev new prev
  heap.setNext prev new

/-- `list_add(new, head)`. -/
def listAdd (heap : Heap α) (new head : Ptr) : Except Fault (Heap α) := do
  let next ← heap.next head
  listAddBetween heap new head next

/-- `list_add_tail(new, head)`. -/
def listAddTail (heap : Heap α) (new head : Ptr) : Except Fault (Heap α) := do
  let prev ← heap.prev head
  listAddBetween heap new prev head

/-- `list_del(entry)`: unlink the entry, then poison its pointers. -/
def listDel (heap : Heap α) (entry : Ptr) : Except Fault (Heap α) := do
  let prev ← heap.prev entry
  let next ← heap.next entry
  let heap ← heap.setPrev next prev
  let heap ← heap.setNext prev next
  let heap ← heap.setNext entry .poison1
  heap.setPrev entry .poison2

/-- How the body of a loop ends: with the next iteration, or by returning. -/
inductive Flow (σ ρ : Type)
  | next (state : σ)
  | done (state : σ) (value : ρ)

/-- The loop of `list_for_each_entry_safe`, from the test `&pos->member != head`
on. The successor `n` was read before the body runs, and is advanced after it.
The fuel stands for the visits that are left before the loop counts as
diverged. -/
def forEachEntrySafe {σ ρ : Type} (heap : σ → Heap α) (head : Ptr)
    (body : σ → Ptr → Except Fault (Flow σ ρ)) :
    Nat → σ → Ptr → Ptr → Except Fault (Flow σ ρ)
  | 0, _, _, _ => .error .diverged
  | fuel + 1, state, pos, n =>
    if pos = head then .ok (.next state)
    else do
      match ← body state pos with
      | .done state value => .ok (.done state value)
      | .next state =>
        let after ← (heap state).next n
        forEachEntrySafe heap head body fuel state n after

/-- `list_for_each_entry_safe(pos, n, head, member)`. A list has no more entries
than blocks were handed out. -/
def listForEachEntrySafe {σ ρ : Type} (heap : σ → Heap α) (head : Ptr)
    (body : σ → Ptr → Except Fault (Flow σ ρ)) (state : σ) : Except Fault (Flow σ ρ) := do
  let pos ← (heap state).next head
  let n ← (heap state).next pos
  forEachEntrySafe heap head body ((heap state).handedOut + 1) state pos n

/-- The loop of `list_for_each_entry`, whose body does not change the list. -/
def forEachEntry {σ : Type} (heap : Heap α) (head : Ptr) (body : σ → Ptr → Except Fault σ) :
    Nat → σ → Ptr → Except Fault σ
  | 0, _, _ => .error .diverged
  | fuel + 1, state, pos =>
    if pos = head then .ok state
    else do
      let state ← body state pos
      let after ← heap.next pos
      forEachEntry heap head body fuel state after

/-- `list_for_each_entry(pos, head, member)`. -/
def listForEachEntry {σ : Type} (heap : Heap α) (head : Ptr)
    (body : σ → Ptr → Except Fault σ) (state : σ) : Except Fault σ := do
  let pos ← heap.next head
  forEachEntry heap head body (heap.handedOut + 1) state pos

end LinuxList

end KernelLabs
