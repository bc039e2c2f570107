import KernelLabs.LinuxListProofs

/-! Insertions into one list that nothing excludes from one another. Each runs
as a process that first reads the head's pointer and then makes the four stores
of `__list_add` one at a time. An interleaving keeps the list well formed when no
step touches a pointer that an insertion begun before it has still to store: the
steps then commute to whole insertions, one after the other. -/
namespace KernelLabs.LinuxList

variable {α : Type} {heap : Heap α} {head p q : Ptr} {old nodes loose : List Ptr}

/-! ## Single reads and stores -/

/-- The two pointers in a `list_head`. -/
inductive Field
  | next
  | prev
  deriving DecidableEq, Repr

/-- A pointer in memory, by the node it is in. -/
structure Place where
  node : Ptr
  field : Field
  deriving DecidableEq, Repr

/-- The store `place = value`. -/
structure Store where
  place : Place
  value : Ptr
  deriving DecidableEq, Repr

namespace Heap

def get? (heap : Heap α) (place : Place) : Option Ptr :=
  match place.field with
  | .next => heap.next? place.node
  | .prev => heap.prev? place.node

/-- A read of one pointer. -/
def read (heap : Heap α) (place : Place) : Except Fault Ptr :=
  match place.field with
  | .next => heap.next place.node
  | .prev => heap.prev place.node

/-- One store. -/
def perform (heap : Heap α) (store : Store) : Except Fault (Heap α) :=
  match store.place.field with
  | .next => heap.setNext store.place.node store.value
  | .prev => heap.setPrev store.place.node store.value

/-- The memory after a store. -/
def stored (heap : Heap α) (store : Store) : Heap α :=
  match store.place.field with
  | .next => heap.withNext store.place.node store.value
  | .prev => heap.withPrev store.place.node store.value

variable {place : Place} {store other : Store}

theorem read_of_get? (found : heap.get? place = some q) : heap.read place = .ok q := by
  obtain ⟨node, field⟩ := place
  cases field with
  | next => exact next_of_next? found
  | prev => exact prev_of_prev? found

theorem get?_of_read (read : heap.read place = .ok q) : heap.get? place = some q := by
  obtain ⟨node, field⟩ := place
  cases field with
  | next =>
    simp only [Heap.read, next] at read
    split at read
    · rename_i found
      cases read
      exact found
    · cases read
  | prev =>
    simp only [Heap.read, prev] at read
    split at read
    · rename_i found
      cases read
      exact found
    · cases read

theorem live_iff_get? : heap.Live place.node ↔ ∃ q, heap.get? place = some q := by
  obtain ⟨node, field⟩ := place
  cases field with
  | next => exact live_iff_next?
  | prev => exact live_iff_prev?

@[simp] theorem live_stored (a : Ptr) : (heap.stored store).Live a ↔ heap.Live a := by
  obtain ⟨⟨node, field⟩, value⟩ := store
  cases field <;> simp [stored]

@[simp] theorem entry_stored : (heap.stored store).entry = heap.entry := by
  obtain ⟨⟨node, field⟩, value⟩ := store
  cases field <;> rfl

theorem perform_ok (live : heap.Live store.place.node) :
    heap.perform store = .ok (heap.stored store) := by
  obtain ⟨⟨node, field⟩, value⟩ := store
  cases field with
  | next => exact if_pos live
  | prev => exact if_pos live

theorem stored_of_perform {result : Heap α} (performed : heap.perform store = .ok result) :
    result = heap.stored store := by
  obtain ⟨⟨node, field⟩, value⟩ := store
  cases field with
  | next =>
    simp only [perform, setNext] at performed
    split at performed
    · exact (Except.ok.inj performed).symm
    · cases performed
  | prev =>
    simp only [perform, setPrev] at performed
    split at performed
    · exact (Except.ok.inj performed).symm
    · cases performed

/-- A store changes the pointer it is made to, and no other. -/
theorem get?_stored (live : heap.Live store.place.node) :
    (heap.stored store).get? place =
      if place = store.place then some store.value else heap.get? place := by
  obtain ⟨⟨node, field⟩, value⟩ := store
  obtain ⟨node', field'⟩ := place
  cases field <;> cases field' <;>
    simp [stored, get?, map_next?_live live, map_prev?_live live]

theorem get?_stored_of_ne (other : place ≠ store.place) :
    (heap.stored store).get? place = heap.get? place := by
  obtain ⟨⟨node, field⟩, value⟩ := store
  obtain ⟨node', field'⟩ := place
  cases field <;> cases field' <;> simp_all [stored, get?]

/-- Stores to different pointers commute. -/
theorem stored_comm (apart : store.place ≠ other.place) :
    (heap.stored store).stored other = (heap.stored other).stored store := by
  obtain ⟨⟨node, field⟩, value⟩ := store
  obtain ⟨⟨node', field'⟩, value'⟩ := other
  by_cases same : node' = node
  · subst same
    cases field <;> cases field' <;>
      simp_all [stored, withNext, withPrev, Function.comp_def]
  · have different : node ≠ node' := fun equal => same equal.symm
    cases field <;> cases field' <;>
      simp [stored, withNext, withPrev, same, different, Function.update_comm different]

/-- A store may be made before others that leave its pointer alone. -/
theorem stored_first {earlier later : List Store} (apart : store.place ∉ earlier.map Store.place) :
    (earlier ++ store :: later).foldl Heap.stored heap =
      (earlier ++ later).foldl Heap.stored (heap.stored store) := by
  induction earlier generalizing heap with
  | nil => rfl
  | cons first earlier ih =>
    simp only [List.map_cons, List.mem_cons, not_or] at apart
    simp only [List.cons_append, List.foldl_cons]
    rw [ih apart.2, stored_comm (Ne.symm apart.1)]

theorem get?_foldl_stored {stores : List Store} (apart : place ∉ stores.map Store.place) :
    (stores.foldl Heap.stored heap).get? place = heap.get? place := by
  induction stores generalizing heap with
  | nil => rfl
  | cons first stores ih =>
    simp only [List.map_cons, List.mem_cons, not_or] at apart
    rw [List.foldl_cons, ih apart.2, get?_stored_of_ne apart.1]

theorem foldl_of_foldlM_perform {stores : List Store} {result : Heap α}
    (performed : stores.foldlM Heap.perform heap = .ok result) :
    result = stores.foldl Heap.stored heap := by
  induction stores generalizing heap with
  | nil => exact (Except.ok.inj performed).symm
  | cons first stores ih =>
    rw [List.foldlM_cons] at performed
    obtain ⟨middle, once, rest⟩ := bind_eq_ok.mp performed
    rw [List.foldl_cons, ← stored_of_perform once]
    exact ih rest

end Heap

/-! ## Insertions as processes -/

/-- The stores of `__list_add(new, prev, next)`, in order. -/
def listAddStores (new prev next : Ptr) : List Store :=
  [⟨⟨next, .prev⟩, new⟩, ⟨⟨new, .next⟩, next⟩, ⟨⟨new, .prev⟩, prev⟩, ⟨⟨prev, .next⟩, new⟩]

theorem listAddBetween_stores (heap : Heap α) (new prev next : Ptr) :
    listAddBetween heap new prev next = (listAddStores new prev next).foldlM Heap.perform heap := by
  simp only [listAddBetween, listAddStores, List.foldlM_cons, List.foldlM_nil, Heap.perform, bind_pure]

/-- Which of the two functions is called. -/
inductive AddFunction
  | listAdd
  | listAddTail
  deriving DecidableEq, Repr

/-- A call that has not begun, for an entry that is ready to be linked in. -/
structure AddCall where
  function : AddFunction
  new : Ptr
  deriving DecidableEq, Repr

/-- A call that has read its neighbour. -/
structure Insertion where
  new : Ptr
  prev : Ptr
  next : Ptr
  deriving DecidableEq, Repr

def Insertion.stores (insertion : Insertion) : List Store :=
  listAddStores insertion.new insertion.prev insertion.next

namespace AddCall

/-- The call made at once. -/
def apply (heap : Heap α) (head : Ptr) (call : AddCall) : Except Fault (Heap α) :=
  match call.function with
  | .listAdd => LinuxList.listAdd heap call.new head
  | .listAddTail => LinuxList.listAddTail heap call.new head

/-- The pointer a call reads first: `head->next` or `head->prev`. -/
def reads (head : Ptr) (call : AddCall) : Place :=
  match call.function with
  | .listAdd => ⟨head, .next⟩
  | .listAddTail => ⟨head, .prev⟩

/-- The arguments it then passes to `__list_add`. -/
def insertion (head : Ptr) (call : AddCall) (value : Ptr) : Insertion :=
  match call.function with
  | .listAdd => ⟨call.new, head, value⟩
  | .listAddTail => ⟨call.new, value, head⟩

@[simp] theorem new_insertion (call : AddCall) (value : Ptr) :
    (call.insertion head value).new = call.new := by
  cases call with | mk function new => cases function <;> rfl

/-- A call is its read followed by its stores. -/
theorem apply_steps (call : AddCall) :
    call.apply heap head = (do
      let value ← heap.read (call.reads head)
      (call.insertion head value).stores.foldlM Heap.perform heap) := by
  cases call with
  | mk function new =>
    cases function <;>
      simp only [apply, listAdd, listAddTail, listAddBetween_stores, reads, insertion,
        Insertion.stores, Heap.read]

end AddCall

/-- Insertions into one list, each at some point of its code. -/
structure Adds (α : Type) where
  heap : Heap α
  /-- The calls that have not begun. -/
  waiting : List AddCall
  /-- Those that have, in the order of their reads. -/
  begun : List Insertion
  /-- How many of its stores the insertion of an entry has made. -/
  made : Ptr → Nat

namespace Adds

/-- Nobody has begun. -/
def start (heap : Heap α) (calls : List AddCall) : Adds α where
  heap := heap
  waiting := calls
  begun := []
  made _ := 0

/-- The stores an insertion has still to make. -/
def left (state : Adds α) (insertion : Insertion) : List Store :=
  insertion.stores.drop (state.made insertion.new)

/-- Every call has returned. -/
def Finished (state : Adds α) : Prop :=
  state.waiting = [] ∧ ∀ insertion ∈ state.begun, state.left insertion = []

/-- The memory once everything that has begun has finished, in that order. -/
def completed (state : Adds α) : Heap α :=
  (state.begun.flatMap state.left).foldl Heap.stored state.heap

/-- A call has read its neighbour and has begun. -/
def hasRead (state : Adds α) (insertion : Insertion) (waiting : List AddCall) : Adds α where
  heap := state.heap
  waiting := waiting
  begun := state.begun ++ [insertion]
  made := Function.update state.made insertion.new 0

/-- An insertion has made one more store. -/
def hasStored (state : Adds α) (insertion : Insertion) (heap : Heap α) : Adds α where
  heap := heap
  waiting := state.waiting
  begun := state.begun
  made := Function.update state.made insertion.new (state.made insertion.new + 1)

end Adds

/-- Whose step is next. -/
inductive Turn
  /-- A waiting call reads its neighbour. -/
  | begin (number : Nat)
  /-- An insertion makes its next store. -/
  | store (number : Nat)
  deriving DecidableEq, Repr

/-- One step of one insertion; one that has returned makes none. -/
def addStep (head : Ptr) (state : Adds α) : Turn → Except Fault (Adds α)
  | .begin number =>
    match state.waiting[number]? with
    | none => .ok state
    | some call => do
      let value ← state.heap.read (call.reads head)
      return state.hasRead (call.insertion head value) (state.waiting.eraseIdx number)
  | .store number =>
    match state.begun[number]? with
    | none => .ok state
    | some insertion =>
      match state.left insertion with
      | [] => .ok state
      | store :: _ => do
        let heap ← state.heap.perform store
        return state.hasStored insertion heap

namespace Adds

/-- The pointer the next step reads or stores. -/
def touches (head : Ptr) (state : Adds α) : Turn → Option Place
  | .begin number => state.waiting[number]?.map (AddCall.reads head)
  | .store number => state.begun[number]?.bind fun insertion =>
    (state.left insertion).head?.map Store.place

/-- The insertions begun before the one whose turn it is. -/
def before (state : Adds α) : Turn → List Insertion
  | .begin _ => state.begun
  | .store number => state.begun.take number

/-- The step touches no pointer that an insertion begun before it has still to
store. -/
def Admitted (head : Ptr) (state : Adds α) (turn : Turn) : Prop :=
  ∀ place ∈ state.touches head turn, ∀ insertion ∈ state.before turn,
    place ∉ (state.left insertion).map Store.place

instance (head : Ptr) (state : Adds α) (turn : Turn) : Decidable (state.Admitted head turn) :=
  match touched : state.touches head turn with
  | none => isTrue (by simp [Admitted, touched])
  | some place => decidable_of_iff
      (∀ insertion ∈ state.before turn, place ∉ (state.left insertion).map Store.place)
      (by simp [Admitted, touched])

/-! ## What a step does -/

section Fields
variable {state : Adds α} {insertion : Insertion} {waiting : List AddCall}

@[simp] theorem heap_hasRead : (state.hasRead insertion waiting).heap = state.heap := rfl
@[simp] theorem waiting_hasRead : (state.hasRead insertion waiting).waiting = waiting := rfl
@[simp] theorem begun_hasRead :
    (state.hasRead insertion waiting).begun = state.begun ++ [insertion] := rfl
@[simp] theorem heap_hasStored : (state.hasStored insertion heap).heap = heap := rfl
@[simp] theorem waiting_hasStored :
    (state.hasStored insertion heap).waiting = state.waiting := rfl
@[simp] theorem begun_hasStored : (state.hasStored insertion heap).begun = state.begun := rfl

theorem made_hasRead (other : p ≠ insertion.new) :
    (state.hasRead insertion waiting).made p = state.made p :=
  Function.update_of_ne other _ _

@[simp] theorem made_hasRead_self :
    (state.hasRead insertion waiting).made insertion.new = 0 :=
  Function.update_self _ _ _

theorem made_hasStored (other : p ≠ insertion.new) :
    (state.hasStored insertion heap).made p = state.made p :=
  Function.update_of_ne other _ _

@[simp] theorem made_hasStored_self :
    (state.hasStored insertion heap).made insertion.new = state.made insertion.new + 1 :=
  Function.update_self _ _ _

end Fields

variable {state next : Adds α} {turn : Turn} {insertion other : Insertion} {store : Store}
  {rest : List Store}

theorem left_eq_cons (left : state.left insertion = store :: rest) :
    (state.made insertion.new = 0 ∧ store = ⟨⟨insertion.next, .prev⟩, insertion.new⟩) ∨
    (state.made insertion.new = 1 ∧ store = ⟨⟨insertion.new, .next⟩, insertion.next⟩) ∨
    (state.made insertion.new = 2 ∧ store = ⟨⟨insertion.new, .prev⟩, insertion.prev⟩) ∨
    (state.made insertion.new = 3 ∧ store = ⟨⟨insertion.prev, .next⟩, insertion.new⟩) := by
  unfold Adds.left Insertion.stores listAddStores at left
  match made : state.made insertion.new with
  | 0 | 1 | 2 | 3 => simp_all
  | count + 4 => simp_all

theorem mem_left_places {place : Place} :
    place ∈ (state.left insertion).map Store.place ↔
      (state.made insertion.new = 0 ∧ place = ⟨insertion.next, .prev⟩) ∨
      (state.made insertion.new ≤ 1 ∧ place = ⟨insertion.new, .next⟩) ∨
      (state.made insertion.new ≤ 2 ∧ place = ⟨insertion.new, .prev⟩) ∨
      (state.made insertion.new ≤ 3 ∧ place = ⟨insertion.prev, .next⟩) := by
  unfold Adds.left Insertion.stores listAddStores
  match state.made insertion.new with
  | 0 | 1 | 2 | 3 => simp
  | count + 4 => simp

theorem left_eq_nil : state.left insertion = [] ↔ 4 ≤ state.made insertion.new := by
  simp [left, Insertion.stores, listAddStores]

/-- A step is idle, the read of a call, or a store of an insertion. -/
theorem addStep_cases (stepped : addStep head state turn = .ok next) :
    (next = state ∧ state.touches head turn = none) ∨
    (∃ call rest value, state.waiting.Perm (call :: rest) ∧
      state.heap.get? (call.reads head) = some value ∧
      state.touches head turn = some (call.reads head) ∧ state.before turn = state.begun ∧
      next = state.hasRead (call.insertion head value) rest) ∨
    (∃ front insertion back store rest, state.begun = front ++ insertion :: back ∧
      state.left insertion = store :: rest ∧
      state.touches head turn = some store.place ∧ state.before turn = front ∧
      next = state.hasStored insertion (state.heap.stored store)) := by
  cases turn with
  | begin number =>
    simp only [addStep] at stepped
    split at stepped
    · rename_i idle
      cases stepped
      exact .inl ⟨rfl, by simp [touches, idle]⟩
    · rename_i call found
      obtain ⟨value, read, same⟩ := bind_eq_ok.mp stepped
      cases same
      obtain ⟨bound, rfl⟩ := List.getElem?_eq_some_iff.mp found
      exact .inr (.inl ⟨_, _, value, (List.getElem_cons_eraseIdx_perm bound).symm,
        Heap.get?_of_read read, by simp [touches, found], rfl, rfl⟩)
  | store number =>
    simp only [addStep] at stepped
    split at stepped
    · rename_i idle
      cases stepped
      exact .inl ⟨rfl, by simp [touches, idle]⟩
    · rename_i insertion found
      split at stepped
      · rename_i returned
        cases stepped
        exact .inl ⟨rfl, by simp [touches, found, returned]⟩
      · rename_i store rest left
        obtain ⟨heap, performed, same⟩ := bind_eq_ok.mp stepped
        cases same
        cases Heap.stored_of_perform performed
        obtain ⟨bound, rfl⟩ := List.getElem?_eq_some_iff.mp found
        refine .inr (.inr ⟨state.begun.take number, state.begun[number],
          state.begun.drop (number + 1), store, rest, ?_, left, ?_, rfl, rfl⟩)
        · rw [← List.drop_eq_getElem_cons bound, List.take_append_drop]
        · simp [touches, found, left]

/-! ## What holds in every interleaving -/

/-- Where a pointer of the head can lead: to the head of an empty list, to an old
entry, or to a new one at that end whose insertion has come so far. -/
def AtEnd (side : Insertion → Ptr) (count : Nat) (head : Ptr) (old : List Ptr) (state : Adds α)
    (p : Ptr) : Prop :=
  (p = head ∧ old = []) ∨ p ∈ old ∨
    ∃ insertion ∈ state.begun, insertion.new = p ∧ side insertion = head ∧ count ≤ state.made p

/-- Where `head->next` can lead; the store to it is the last one. -/
abbrev AtFront (head : Ptr) (old : List Ptr) (state : Adds α) (p : Ptr) : Prop :=
  AtEnd Insertion.prev 4 head old state p

/-- Where `head->prev` can lead; the store to it is the first one. -/
abbrev AtBack (head : Ptr) (old : List Ptr) (state : Adds α) (p : Ptr) : Prop :=
  AtEnd Insertion.next 1 head old state p

theorem AtEnd.known {side : Insertion → Ptr} {count : Nat}
    (here : AtEnd side count head old state p) :
    p ∈ head :: (old ++ state.begun.map Insertion.new) := by
  rcases here with ⟨rfl, -⟩ | before | ⟨insertion, member, rfl, -⟩
  · exact List.mem_cons_self
  · exact List.mem_cons_of_mem _ (List.mem_append_left _ before)
  · exact List.mem_cons_of_mem _ (List.mem_append_right _ (List.mem_map_of_mem member))

/-- What every step keeps, whether or not it is admitted: the entries, which
pointers may be used, and between which neighbours each insertion takes place. -/
structure Sound (head : Ptr) (old : List Ptr) (state : Adds α) : Prop where
  distinct : (head :: (old ++ (state.waiting.map AddCall.new ++
    state.begun.map Insertion.new))).Nodup
  live : ∀ p, state.heap.Live p ↔ p = head ∨ p ∈ old ∨ p ∈ state.waiting.map AddCall.new ∨
    p ∈ state.begun.map Insertion.new
  first : ∃ p, state.heap.get? ⟨head, .next⟩ = some p ∧ state.AtFront head old p
  last : ∃ p, state.heap.get? ⟨head, .prev⟩ = some p ∧ state.AtBack head old p
  placed : ∀ insertion ∈ state.begun,
    (insertion.prev = head ∧ state.AtFront head old insertion.next) ∨
    (insertion.next = head ∧ state.AtBack head old insertion.prev)

/-- A step keeps what has been linked in where it is. -/
structure Grows (state next : Adds α) : Prop where
  begun : state.begun <+: next.begun
  made : ∀ insertion ∈ state.begun, state.made insertion.new ≤ next.made insertion.new

theorem AtEnd.mono {side : Insertion → Ptr} {count : Nat}
    (here : AtEnd side count head old state p) (grows : Grows state next) :
    AtEnd side count head old next p := by
  rcases here with empty | before | ⟨insertion, member, rfl, outside, made⟩
  · exact .inl empty
  · exact .inr (.inl before)
  · exact .inr (.inr ⟨insertion, grows.begun.subset member, rfl, outside,
      made.trans (grows.made insertion member)⟩)

namespace Sound

variable (sound : Sound head old state)
include sound

theorem new_ne_head (member : insertion ∈ state.begun) : insertion.new ≠ head := by
  intro same
  have distinct := (List.nodup_cons.mp sound.distinct).1
  apply distinct
  rw [← same]
  simp only [List.mem_append]
  exact .inr (.inr (List.mem_map_of_mem member))

theorem call_ne_head {call : AddCall} (member : call ∈ state.waiting) : call.new ≠ head := by
  intro same
  have distinct := (List.nodup_cons.mp sound.distinct).1
  apply distinct
  rw [← same]
  simp only [List.mem_append]
  exact .inr (.inl (List.mem_map_of_mem member))

theorem new_not_old (member : insertion ∈ state.begun) : insertion.new ∉ old := by
  intro inside
  have distinct := (List.nodup_append.mp (List.nodup_cons.mp sound.distinct).2).2.2
  exact distinct _ inside _ (List.mem_append_right _ (List.mem_map_of_mem member)) rfl

theorem call_ne_new {call : AddCall} (waits : call ∈ state.waiting)
    (member : insertion ∈ state.begun) : insertion.new ≠ call.new := by
  intro same
  have distinct := (List.nodup_append.mp (List.nodup_cons.mp sound.distinct).2).2.1
  exact (List.nodup_append.mp distinct).2.2 _ (List.mem_map_of_mem waits) _
    (List.mem_map_of_mem member) same.symm

theorem new_injective (member : insertion ∈ state.begun) (member' : other ∈ state.begun)
    (same : insertion.new = other.new) : insertion = other := by
  have distinct := (List.nodup_append.mp (List.nodup_cons.mp sound.distinct).2).2.1
  exact List.inj_on_of_nodup_map (List.nodup_append.mp distinct).2.1 member member' same

theorem known_live (known : p ∈ head :: (old ++ state.begun.map Insertion.new)) :
    state.heap.Live p := by
  rw [sound.live]
  simp only [List.mem_cons, List.mem_append] at known
  tauto

/-- A call that waits is not known to any other one. -/
theorem known_ne_call {call : AddCall} (waits : call ∈ state.waiting)
    (known : p ∈ head :: (old ++ state.begun.map Insertion.new)) : p ≠ call.new := by
  rintro rfl
  simp only [List.mem_cons, List.mem_append, List.mem_map] at known
  rcases known with same | before | ⟨insertion, member, same⟩
  · exact sound.call_ne_head waits same
  · have distinct := (List.nodup_append.mp (List.nodup_cons.mp sound.distinct).2).2.2
    exact distinct _ before _ (List.mem_append_left _ (List.mem_map_of_mem waits)) rfl
  · exact sound.call_ne_new waits member same

/-- An insertion takes place between the head, old entries and others that have begun. -/
theorem known_around (member : insertion ∈ state.begun) :
    insertion.prev ∈ head :: (old ++ state.begun.map Insertion.new) ∧
      insertion.next ∈ head :: (old ++ state.begun.map Insertion.new) := by
  rcases sound.placed insertion member with ⟨prev, next⟩ | ⟨next, prev⟩
  · exact ⟨prev ▸ List.mem_cons_self, next.known⟩
  · exact ⟨prev.known, next ▸ List.mem_cons_self⟩

/-- Every store of an insertion is to live memory. -/
theorem store_live (member : insertion ∈ state.begun)
    (left : state.left insertion = store :: rest) : state.heap.Live store.place.node := by
  have new : state.heap.Live insertion.new :=
    (sound.live _).mpr (.inr (.inr (.inr (List.mem_map_of_mem member))))
  obtain ⟨prev, next⟩ := sound.known_around member
  rcases left_eq_cons left with ⟨-, rfl⟩ | ⟨-, rfl⟩ | ⟨-, rfl⟩ | ⟨-, rfl⟩
  · exact sound.known_live next
  · exact new
  · exact new
  · exact sound.known_live prev

/-- No step faults. -/
theorem total (turn : Turn) : ∃ next, addStep head state turn = .ok next := by
  cases turn with
  | begin number =>
    simp only [addStep]
    split
    · exact ⟨state, rfl⟩
    · rename_i call found
      obtain ⟨value, read⟩ : ∃ value, state.heap.get? (call.reads head) = some value := by
        apply Heap.live_iff_get?.mp
        cases call with
        | mk function new => cases function <;> exact sound.known_live List.mem_cons_self
      simp [Heap.read_of_get? read]
  | store number =>
    simp only [addStep]
    split
    · exact ⟨state, rfl⟩
    · rename_i insertion found
      split
      · exact ⟨state, rfl⟩
      · rename_i store rest left
        simp [Heap.perform_ok (sound.store_live (List.mem_of_getElem? found) left)]

/-- A read adds the insertion that made it, and moves no other one on. -/
theorem grows_read {call : AddCall} {calls : List AddCall} (value : Ptr)
    (waits : call ∈ state.waiting) :
    Grows state (state.hasRead (call.insertion head value) calls) where
  begun := List.prefix_append _ _
  made insertion member := by
    have other : insertion.new ≠ (call.insertion head value).new := by
      rw [AddCall.new_insertion]
      exact sound.call_ne_new waits member
    rw [made_hasRead other]

omit sound in
/-- A store moves one insertion on. -/
theorem grows_store (heap : Heap α) (insertion : Insertion) :
    Grows state (state.hasStored insertion heap) where
  begun := List.prefix_rfl
  made other _ := by
    by_cases same : other.new = insertion.new
    · rw [same, made_hasStored_self]
      exact Nat.le_succ _
    · rw [made_hasStored same]

theorem grows (stepped : addStep head state turn = .ok next) : Grows state next := by
  rcases addStep_cases stepped with ⟨rfl, -⟩ | ⟨call, rest, value, waiting, -, -, -, rfl⟩ |
    ⟨front, insertion, back, store, rest, -, -, -, -, rfl⟩
  · exact ⟨List.prefix_rfl, fun _ _ => le_rfl⟩
  · exact sound.grows_read value (waiting.mem_iff.mpr List.mem_cons_self)
  · exact grows_store _ insertion

/-- The head's two pointers change by the last store of an insertion behind it
and by the first store of one ahead of it. -/
theorem get?_head {field : Field} (member : insertion ∈ state.begun)
    (left : state.left insertion = store :: rest) :
    (state.heap.stored store).get? ⟨head, field⟩ =
      if field = .next ∧ insertion.prev = head ∧ state.made insertion.new = 3 ∨
          field = .prev ∧ insertion.next = head ∧ state.made insertion.new = 0
      then some insertion.new else state.heap.get? ⟨head, field⟩ := by
  rw [Heap.get?_stored (sound.store_live member left)]
  have new := (sound.new_ne_head member).symm
  rcases left_eq_cons left with ⟨made, rfl⟩ | ⟨made, rfl⟩ | ⟨made, rfl⟩ | ⟨made, rfl⟩ <;>
    cases field <;> simp [made, new, eq_comm]

/-- A call is placed where its read found the end of the list. -/
theorem placed_call {call : AddCall} {value : Ptr}
    (read : state.heap.get? (call.reads head) = some value) :
    ((call.insertion head value).prev = head ∧
      state.AtFront head old (call.insertion head value).next) ∨
    ((call.insertion head value).next = head ∧
      state.AtBack head old (call.insertion head value).prev) := by
  obtain ⟨first, atFirst, front⟩ := sound.first
  obtain ⟨last, atLast, back⟩ := sound.last
  cases call with
  | mk function new =>
    cases function with
    | listAdd =>
      cases atFirst.symm.trans read
      exact .inl ⟨rfl, front⟩
    | listAddTail =>
      cases atLast.symm.trans read
      exact .inr ⟨rfl, back⟩

omit sound in
/-- Nobody appears, and nobody is forgotten. -/
theorem entries_step (stepped : addStep head state turn = .ok next) :
    (next.waiting.map AddCall.new ++ next.begun.map Insertion.new).Perm
      (state.waiting.map AddCall.new ++ state.begun.map Insertion.new) := by
  rcases addStep_cases stepped with ⟨rfl, -⟩ | ⟨call, rest, value, waiting, -, -, -, rfl⟩ |
    ⟨front, insertion, back, store, rest, -, -, -, -, rfl⟩
  · exact List.Perm.refl _
  · rw [begun_hasRead, List.map_append, List.map_singleton, AddCall.new_insertion,
      ← List.append_assoc]
    exact (List.perm_append_singleton _ _).trans
      ((waiting.map AddCall.new).symm.append_right _)
  · exact List.Perm.refl _

theorem step (stepped : addStep head state turn = .ok next) : Sound head old next := by
  have grows := sound.grows stepped
  rcases addStep_cases stepped with ⟨rfl, -⟩ | ⟨call, rest, value, waiting, read, -, -, rfl⟩ |
    ⟨front, insertion, back, store, rest, shape, left, -, -, rfl⟩
  · exact sound
  · have moved := entries_step stepped
    exact
      { distinct := ((moved.append_left old).cons head).nodup_iff.mpr sound.distinct
        live := fun p => by
          have same := moved.mem_iff (a := p)
          rw [List.mem_append, List.mem_append] at same
          rw [heap_hasRead, sound.live p]
          exact or_congr_right (or_congr_right same.symm)
        first := by
          obtain ⟨p, found, here⟩ := sound.first
          exact ⟨p, found, here.mono grows⟩
        last := by
          obtain ⟨p, found, here⟩ := sound.last
          exact ⟨p, found, here.mono grows⟩
        placed := fun insertion member => by
          rcases List.mem_append.mp member with member | member
          · exact (sound.placed insertion member).imp (And.imp_right (·.mono grows))
              (And.imp_right (·.mono grows))
          · cases List.mem_singleton.mp member
            exact (sound.placed_call read).imp (And.imp_right (·.mono grows))
              (And.imp_right (·.mono grows)) }
  · have member : insertion ∈ state.begun := by simp [shape]
    exact
      { distinct := sound.distinct
        live := fun p => by simpa using sound.live p
        first := by
          obtain ⟨p, found, here⟩ := sound.first
          rw [heap_hasStored, sound.get?_head member left]
          split
          · rename_i hit
            simp only [true_and, reduceCtorEq, false_and, or_false] at hit
            refine ⟨_, rfl, .inr (.inr ⟨insertion, member, rfl, hit.1, ?_⟩)⟩
            rw [made_hasStored_self, hit.2]
          · exact ⟨p, found, here.mono grows⟩
        last := by
          obtain ⟨p, found, here⟩ := sound.last
          rw [heap_hasStored, sound.get?_head member left]
          split
          · rename_i hit
            simp only [true_and, reduceCtorEq, false_and, false_or] at hit
            refine ⟨_, rfl, .inr (.inr ⟨insertion, member, rfl, hit.1, ?_⟩)⟩
            rw [made_hasStored_self, hit.2]
          · exact ⟨p, found, here.mono grows⟩
        placed := fun other member => (sound.placed other member).imp
          (And.imp_right (·.mono grows)) (And.imp_right (·.mono grows)) }

end Sound

theorem start_sound {calls : List AddCall} (ring : Ring heap head old (calls.map AddCall.new)) :
    Sound head old (start heap calls) where
  distinct := by simpa [start] using ring.distinct
  live p := by simpa [start] using ring.live p
  first := by
    refine ⟨_, ring_first ring, ?_⟩
    cases old with
    | nil => exact .inl ⟨rfl, rfl⟩
    | cons first rest => exact .inr (.inl List.mem_cons_self)
  last := by
    refine ⟨_, ring_last ring, ?_⟩
    cases shape : old.getLast? with
    | none => exact .inl ⟨by simp, List.getLast?_eq_none_iff.mp shape⟩
    | some last => exact .inr (.inl (List.mem_of_getLast? shape))
  placed := by simp [start]

/-! ## Admitted interleavings -/

/-- Finishing what has begun leaves a well-formed list of all that was linked in. -/
def Serial (head : Ptr) (old : List Ptr) (state : Adds α) : Prop :=
  ∃ nodes, Ring state.completed head nodes (state.waiting.map AddCall.new) ∧
    nodes.Perm (old ++ state.begun.map Insertion.new)

theorem apply_ring {call : AddCall} (ring : Ring heap head nodes (call.new :: loose)) :
    ∃ result nodes', call.apply heap head = .ok result ∧ Ring result head nodes' loose ∧
      nodes'.Perm (nodes ++ [call.new]) := by
  cases call with
  | mk function new =>
    cases function with
    | listAdd =>
      obtain ⟨result, added, linked, -⟩ := listAdd_ring ring
      exact ⟨result, _, added, linked, (List.perm_append_singleton new nodes).symm⟩
    | listAddTail =>
      obtain ⟨result, added, linked, -⟩ := listAddTail_ring ring
      exact ⟨result, _, added, linked, List.Perm.refl _⟩

theorem left_congr {state next : Adds α}
    (same : next.made insertion.new = state.made insertion.new) :
    next.left insertion = state.left insertion := by
  simp [left, same]

theorem serial_read {call : AddCall} {calls : List AddCall} {value : Ptr}
    (sound : Sound head old state) (serial : Serial head old state)
    (waiting : state.waiting.Perm (call :: calls))
    (read : state.heap.get? (call.reads head) = some value)
    (apart : ∀ insertion ∈ state.begun,
      call.reads head ∉ (state.left insertion).map Store.place) :
    Serial head old (state.hasRead (call.insertion head value) calls) := by
  obtain ⟨nodes, ring, all⟩ := serial
  have waits : call ∈ state.waiting := waiting.mem_iff.mpr List.mem_cons_self
  have ready : Ring state.completed head nodes (call.new :: calls.map AddCall.new) :=
    ring_perm ring (waiting.map AddCall.new)
  obtain ⟨result, nodes', applied, linked, same⟩ := apply_ring ready
  -- The read is the one the call would make after all the others.
  have later : state.completed.get? (call.reads head) = some value := by
    rw [completed, Heap.get?_foldl_stored, read]
    intro touched
    obtain ⟨store, member, place⟩ := List.mem_map.mp touched
    obtain ⟨insertion, begun, left⟩ := List.mem_flatMap.mp member
    exact apart insertion begun (place ▸ List.mem_map_of_mem left)
  rw [AddCall.apply_steps, Heap.read_of_get? later, ok_bind] at applied
  have final := Heap.foldl_of_foldlM_perform applied
  have unmoved : state.begun.flatMap (state.hasRead (call.insertion head value) calls).left =
      state.begun.flatMap state.left := by
    apply List.flatMap_congr
    intro insertion member
    apply left_congr
    apply made_hasRead
    rw [AddCall.new_insertion]
    exact sound.call_ne_new waits member
  have fresh : (state.hasRead (call.insertion head value) calls).left (call.insertion head value) =
      (call.insertion head value).stores := by
    rw [left, made_hasRead_self, List.drop_zero]
  refine ⟨nodes', ?_, ?_⟩
  · rw [completed, begun_hasRead, List.flatMap_append, List.foldl_append, unmoved,
      List.flatMap_singleton, fresh, heap_hasRead, ← completed, ← final]
    exact linked
  · rw [begun_hasRead, List.map_append, List.map_singleton, AddCall.new_insertion,
      ← List.append_assoc]
    exact same.trans (all.append_right _)

theorem serial_store {front back : List Insertion} (sound : Sound head old state)
    (serial : Serial head old state) (shape : state.begun = front ++ insertion :: back)
    (left : state.left insertion = store :: rest)
    (apart : ∀ other ∈ front, store.place ∉ (state.left other).map Store.place) :
    Serial head old (state.hasStored insertion (state.heap.stored store)) := by
  obtain ⟨nodes, ring, all⟩ := serial
  let next := state.hasStored insertion (state.heap.stored store)
  have distinct := (List.nodup_append.mp (List.nodup_append.mp
    (List.nodup_cons.mp sound.distinct).2).2.1).2.1
  rw [shape, List.map_append, List.map_cons, List.nodup_middle, List.nodup_cons] at distinct
  have others : ∀ other ∈ front ++ back, next.left other = state.left other := by
    intro other member
    apply left_congr
    apply made_hasStored
    intro same
    apply distinct.1
    rw [← List.map_append, ← same]
    exact List.mem_map_of_mem member
  have moved : next.left insertion = rest := by
    rw [Adds.left, made_hasStored_self, ← List.tail_drop]
    unfold Adds.left at left
    rw [left, List.tail_cons]
  have inFront : front.flatMap next.left = front.flatMap state.left :=
    List.flatMap_congr fun other member => others other (List.mem_append_left _ member)
  have inBack : back.flatMap next.left = back.flatMap state.left :=
    List.flatMap_congr fun other member => others other (List.mem_append_right _ member)
  have same : next.completed = state.completed := by
    have away : store.place ∉ (front.flatMap state.left).map Store.place := by
      intro touched
      obtain ⟨entry, member, place⟩ := List.mem_map.mp touched
      obtain ⟨other, begun, remaining⟩ := List.mem_flatMap.mp member
      exact apart other begun (place ▸ List.mem_map_of_mem remaining)
    have begun : next.begun = front ++ insertion :: back := shape
    rw [completed, completed, begun, shape, List.flatMap_append, List.flatMap_cons,
      List.flatMap_append, List.flatMap_cons, inFront, inBack, moved, left, List.cons_append,
      Heap.stored_first away]
    rfl
  exact ⟨nodes, same ▸ ring, all⟩

theorem serial_step (sound : Sound head old state) (serial : Serial head old state)
    (admitted : state.Admitted head turn) (stepped : addStep head state turn = .ok next) :
    Serial head old next := by
  rcases addStep_cases stepped with ⟨rfl, -⟩ | ⟨call, rest, value, waiting, read, touched, begun,
    rfl⟩ | ⟨front, insertion, back, store, rest, shape, left, touched, begun, rfl⟩
  · exact serial
  · apply serial_read sound serial waiting read
    rw [← begun]
    exact admitted _ touched
  · apply serial_store sound serial shape left
    rw [← begun]
    exact admitted _ touched

theorem start_serial {calls : List AddCall} (ring : Ring heap head old (calls.map AddCall.new)) :
    Serial head old (start heap calls) :=
  ⟨old, ring, by simp [start]⟩

end Adds

end KernelLabs.LinuxList
