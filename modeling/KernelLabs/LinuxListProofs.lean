import KernelLabs.LinuxList
import Mathlib.Data.List.Perm.Subperm

/-! What the list operations do to a well-formed list, and the rules for the
two traversal loops. Everything is stated about `Ring`: a circular doubly
linked list together with the blocks that are allocated but not on it. -/
namespace KernelLabs.LinuxList

variable {α : Type} {heap before after : Heap α} {head p q : Ptr} {nodes loose : List Ptr}

namespace Heap

@[simp] theorem next?_withNext (a : Ptr) :
    (heap.withNext p q).next? a = if a = p then (heap.next? p).map fun _ => q else heap.next? a := by
  by_cases same : a = p
  · subst same
    simp [withNext, next?, Function.comp_def]
  · simp [withNext, next?, same]

@[simp] theorem prev?_withNext (a : Ptr) : (heap.withNext p q).prev? a = heap.prev? a := by
  by_cases same : a = p
  · subst same
    simp [withNext, prev?, Function.comp_def]
  · simp [withNext, prev?, same]

@[simp] theorem prev?_withPrev (a : Ptr) :
    (heap.withPrev p q).prev? a = if a = p then (heap.prev? p).map fun _ => q else heap.prev? a := by
  by_cases same : a = p
  · subst same
    simp [withPrev, prev?, Function.comp_def]
  · simp [withPrev, prev?, same]

@[simp] theorem next?_withPrev (a : Ptr) : (heap.withPrev p q).next? a = heap.next? a := by
  by_cases same : a = p
  · subst same
    simp [withPrev, next?, Function.comp_def]
  · simp [withPrev, next?, same]

@[simp] theorem live_withNext (a : Ptr) : (heap.withNext p q).Live a ↔ heap.Live a := by
  by_cases same : a = p
  · subst same
    simp [withNext, Live]
  · simp [withNext, Live, same]

@[simp] theorem live_withPrev (a : Ptr) : (heap.withPrev p q).Live a ↔ heap.Live a := by
  by_cases same : a = p
  · subst same
    simp [withPrev, Live]
  · simp [withPrev, Live, same]

@[simp] theorem entry_withNext : (heap.withNext p q).entry = heap.entry := rfl
@[simp] theorem entry_withPrev : (heap.withPrev p q).entry = heap.entry := rfl
@[simp] theorem handedOut_withNext : (heap.withNext p q).handedOut = heap.handedOut := rfl
@[simp] theorem handedOut_withPrev : (heap.withPrev p q).handedOut = heap.handedOut := rfl
@[simp] theorem freed_withNext : (heap.withNext p q).freed = heap.freed := rfl
@[simp] theorem freed_withPrev : (heap.withPrev p q).freed = heap.freed := rfl

theorem live_iff_next? : heap.Live p ↔ ∃ q, heap.next? p = some q := by
  simp [Live, next?, Option.isSome_iff_exists]

theorem live_iff_prev? : heap.Live p ↔ ∃ q, heap.prev? p = some q := by
  simp [Live, prev?, Option.isSome_iff_exists]

theorem map_next?_live (live : heap.Live p) : (heap.next? p).map (fun _ => q) = some q := by
  obtain ⟨_, found⟩ := live_iff_next?.mp live
  simp [found]

theorem map_prev?_live (live : heap.Live p) : (heap.prev? p).map (fun _ => q) = some q := by
  obtain ⟨_, found⟩ := live_iff_prev?.mp live
  simp [found]

theorem next_of_next? (found : heap.next? p = some q) : heap.next p = .ok q := by
  simp [next, found]

theorem prev_of_prev? (found : heap.prev? p = some q) : heap.prev p = .ok q := by
  simp [prev, found]

theorem load_of_entry {entry : α} (found : heap.entry p = some entry) :
    heap.load p = .ok entry := by
  simp [load, found]

/-- The two nodes are neighbours, in both directions. -/
def Linked (heap : Heap α) (first second : Ptr) : Prop :=
  heap.next? first = some second ∧ heap.prev? second = some first

end Heap

/-- A well-formed circular list through `nodes`. The blocks in `loose` are
allocated without being on the list, nothing else is allocated, and every block
ever handed out is on the list, loose, or freed once. -/
structure Ring (heap : Heap α) (head : Ptr) (nodes loose : List Ptr) : Prop where
  chain : (head :: nodes ++ [head]).IsChain heap.Linked
  distinct : (head :: (nodes ++ loose)).Nodup
  live : ∀ p, heap.Live p ↔ p = head ∨ p ∈ nodes ∨ p ∈ loose
  allocated : ∀ p, (heap.entry p).isSome ↔ p ∈ nodes ∨ p ∈ loose
  issued : ∀ p, (∃ number < heap.handedOut, p = .slab number) ↔
    p ∈ nodes ∨ p ∈ loose ∨ p ∈ heap.freed
  freedOnce : heap.freed.Nodup
  freedGone : ∀ p ∈ heap.freed, p ∉ nodes ∧ p ∉ loose
  static : ∃ index, head = .static index

theorem init_ring (index : Nat) :
    Ring (Heap.init (α := α) (.static index)) (.static index) [] [] where
  chain := by simp [Heap.init, Heap.Linked, Heap.next?, Heap.prev?]
  distinct := by simp
  live p := by simp [Heap.init, Heap.Live]
  allocated p := by simp [Heap.init]
  issued p := by simp [Heap.init]
  freedOnce := by simp [Heap.init]
  freedGone := by simp [Heap.init]
  static := ⟨index, rfl⟩

/-- A chain keeps its links when its inner pointers are not overwritten. -/
theorem chain_unchanged {path : List Ptr} (chain : path.IsChain before.Linked)
    (nexts : ∀ p ∈ path.dropLast, after.next? p = before.next? p)
    (prevs : ∀ p ∈ path.tail, after.prev? p = before.prev? p) : path.IsChain after.Linked := by
  rw [List.isChain_iff_forall_rel_of_append_cons_cons] at chain ⊢
  intro first second front back shape
  have linked := chain shape
  have inFront : first ∈ path.dropLast := by
    subst shape
    simp [List.dropLast_append_of_ne_nil]
  have inBack : second ∈ path.tail := by
    subst shape
    cases front <;> simp
  exact ⟨(nexts first inFront).trans linked.1, (prevs second inBack).trans linked.2⟩

section Relink
variable {front back : List Ptr} {prev next : Ptr}

/-- Between two neighbouring parts of a ring, only the last `next` of the first
part and the first `prev` of the second part can be overwritten. -/
private theorem parts_unchanged (after : Heap α) (distinct : (head :: (front ++ back)).Nodup)
    (last : (head :: front).getLast? = some prev) (first : (back ++ [head]).head? = some next)
    (left : (head :: front).IsChain before.Linked) (right : (back ++ [head]).IsChain before.Linked)
    (nexts : ∀ p ∈ head :: (front ++ back), p ≠ prev → after.next? p = before.next? p)
    (prevs : ∀ p ∈ head :: (front ++ back), p ≠ next → after.prev? p = before.prev? p) :
    (head :: front).IsChain after.Linked ∧ (back ++ [head]).IsChain after.Linked := by
  obtain ⟨headAway, apart⟩ := List.nodup_cons.mp distinct
  obtain ⟨frontDistinct, backDistinct, disjoint⟩ := List.nodup_append.mp apart
  rw [List.mem_append, not_or] at headAway
  have prevMember : prev ∈ head :: front := List.mem_of_getLast? last
  have nextMember : next ∈ back ++ [head] := List.mem_of_head? first
  constructor
  · apply chain_unchanged left
    · intro p inside
      refine nexts p (by have := List.dropLast_subset _ inside; simp at this ⊢; tauto) ?_
      rintro rfl
      have whole : (head :: front).dropLast ++ [p] = head :: front :=
        List.dropLast_append_getLast? p last
      have unique : ((head :: front).dropLast ++ [p]).Nodup := by
        rw [whole]
        exact List.nodup_cons.mpr ⟨headAway.1, frontDistinct⟩
      exact (List.nodup_append.mp unique).2.2 p inside p (by simp) rfl
    · intro p inside
      simp only [List.tail_cons] at inside
      refine prevs p (by simp [inside]) ?_
      rintro rfl
      rcases List.mem_append.mp nextMember with shared | isHead
      · exact disjoint p inside p shared rfl
      · simp only [List.mem_singleton] at isHead
        exact headAway.1 (isHead ▸ inside)
  · apply chain_unchanged right
    · intro p inside
      simp only [List.dropLast_concat] at inside
      refine nexts p (by simp [inside]) ?_
      rintro rfl
      rcases List.mem_cons.mp prevMember with rfl | shared
      · exact headAway.2 inside
      · exact disjoint p shared p inside rfl
    · intro p inside
      refine prevs p (by have := List.mem_of_mem_tail inside; simp at this ⊢; tauto) ?_
      rintro rfl
      have unique : (back ++ [head]).Nodup := by
        rw [List.nodup_append_comm]
        exact List.nodup_cons.mpr ⟨headAway.2, backDistinct⟩
      cases shape : back ++ [head] with
      | nil => simp [shape] at inside
      | cons second rest =>
        simp only [shape, List.head?_cons, Option.some.injEq, List.tail_cons] at first inside
        subst first
        rw [shape] at unique
        exact (List.nodup_cons.mp unique).1 inside

/-- Both halves of a ring, and the neighbours where they meet. -/
private theorem ring_halves (ring : Ring heap head (front ++ back) loose) :
    (head :: front).IsChain heap.Linked ∧ (back ++ [head]).IsChain heap.Linked ∧
      ∃ prev next, (head :: front).getLast? = some prev ∧ (back ++ [head]).head? = some next ∧
        heap.Linked prev next := by
  have chain := ring.chain
  rw [← List.cons_append, List.append_assoc, List.isChain_append] at chain
  obtain ⟨left, right, meet⟩ := chain
  obtain ⟨prev, last⟩ : ∃ prev, (head :: front).getLast? = some prev := ⟨_, List.getLast?_cons⟩
  obtain ⟨next, first⟩ := Option.isSome_iff_exists.mp
    (List.isSome_head?.mpr (List.append_ne_nil_of_right_ne_nil back (List.cons_ne_nil head [])))
  exact ⟨left, right, prev, next, last, first, meet prev last next first⟩

/-- A heap in which only links were changed has a ring of the blocks that are now linked,
if their chain is right; the others are loose. -/
theorem relinked_ring {result : Heap α} {nodes' loose' : List Ptr} (ring : Ring heap head nodes loose)
    (same : (nodes ++ loose).Perm (nodes' ++ loose'))
    (chain : (head :: nodes' ++ [head]).IsChain result.Linked)
    (live : ∀ p, result.Live p ↔ heap.Live p) (entry : result.entry = heap.entry)
    (handedOut : result.handedOut = heap.handedOut) (freed : result.freed = heap.freed) :
    Ring result head nodes' loose' := by
  have moved (p : Ptr) : p ∈ nodes ∨ p ∈ loose ↔ p ∈ nodes' ∨ p ∈ loose' := by
    simpa only [List.mem_append] using same.mem_iff (a := p)
  exact
    { chain := chain
      distinct := (List.Perm.cons head same).nodup_iff.mp ring.distinct
      live := fun p => by rw [live, ring.live, moved]
      allocated := fun p => by rw [entry, ring.allocated, moved]
      issued := fun p => by rw [handedOut, freed, ring.issued, ← or_assoc, moved, or_assoc]
      freedOnce := by
        rw [freed]
        exact ring.freedOnce
      freedGone := fun p gone => by
        rw [freed] at gone
        rw [← not_or, ← moved, not_or]
        exact ring.freedGone p gone
      static := ring.static }

/-- `__list_add` links a loose block in between two neighbours. -/
theorem listAddBetween_ring {new : Ptr} (ring : Ring heap head (front ++ back) (new :: loose))
    (last : (head :: front).getLast? = some prev) (first : (back ++ [head]).head? = some next) :
    ∃ result, listAddBetween heap new prev next = .ok result ∧
      Ring result head (front ++ new :: back) loose ∧
      result.entry = heap.entry ∧ result.handedOut = heap.handedOut ∧ result.freed = heap.freed := by
  have prevMember : prev ∈ head :: front := List.mem_of_getLast? last
  have nextMember : next ∈ back ++ [head] := List.mem_of_head? first
  have newLive : heap.Live new := (ring.live new).mpr (by simp)
  have prevLive : heap.Live prev := (ring.live prev).mpr (by simp at prevMember ⊢; tauto)
  have nextLive : heap.Live next := (ring.live next).mpr (by simp at nextMember ⊢; tauto)
  have distinct := ring.distinct
  have apart : new ∉ head :: (front ++ back) := by
    intro inside
    rw [← List.cons_append, List.nodup_append] at distinct
    exact distinct.2.2 new inside new (by simp) rfl
  have newPrev : new ≠ prev := by rintro rfl; simp at prevMember apart; tauto
  have newNext : new ≠ next := by rintro rfl; simp at nextMember apart; tauto
  obtain ⟨left, right, -⟩ := ring_halves ring
  let result := (((heap.withPrev next new).withNext new next).withPrev new prev).withNext prev new
  have nexts : ∀ p, result.next? p =
      if p = prev then some new else if p = new then some next else heap.next? p := by
    intro p
    by_cases samePrev : p = prev
    · subst samePrev
      simp [result, newPrev.symm, Heap.map_next?_live prevLive]
    · simp [result, samePrev, Heap.map_next?_live newLive]
  have prevs : ∀ p, result.prev? p =
      if p = new then some prev else if p = next then some new else heap.prev? p := by
    intro p
    by_cases sameNew : p = new
    · subst sameNew
      simp [result, newNext, Heap.map_prev?_live newLive]
    · simp [result, sameNew, Heap.map_prev?_live nextLive]
  have parted : (head :: (front ++ back)).Nodup :=
    distinct.sublist (by simp)
  obtain ⟨leftAfter, rightAfter⟩ := parts_unchanged result parted last first left right
    (fun p inside other => by
      have notNew : p ≠ new := fun same => apart (same ▸ inside)
      simp [nexts, other, notNew])
    (fun p inside other => by
      have notNew : p ≠ new := fun same => apart (same ▸ inside)
      simp [prevs, other, notNew])
  refine ⟨result, ?_, ?_, rfl, rfl, rfl⟩
  · simp [listAddBetween, Heap.setPrev, Heap.setNext, newLive, prevLive, nextLive, result]
  · have rearranged : (front ++ back ++ new :: loose).Perm (front ++ new :: back ++ loose) := by
      simp only [List.append_assoc, List.cons_append]
      exact (List.perm_append_left_iff front).mpr List.perm_middle
    refine relinked_ring ring rearranged ?_ (fun p => by simp [result]) rfl rfl rfl
    rw [← List.cons_append, List.append_assoc, List.isChain_append]
    refine ⟨leftAfter, ?_, ?_⟩
    · rw [List.cons_append, List.isChain_cons]
      refine ⟨fun y found => ?_, rightAfter⟩
      rw [first] at found
      cases found
      exact ⟨by simp [nexts, newPrev], by simp [prevs, newNext.symm]⟩
    · intro x foundLast y foundFirst
      rw [last] at foundLast
      cases foundLast
      simp only [List.cons_append, List.head?_cons, Option.mem_some_iff] at foundFirst
      subst foundFirst
      exact ⟨by simp [nexts], by simp [prevs]⟩

/-- `list_del` takes one entry out, wherever it stands, and leaves it loose. -/
theorem listDel_ring {entry : Ptr} (ring : Ring heap head (front ++ entry :: back) loose) :
    ∃ result, listDel heap entry = .ok result ∧ Ring result head (front ++ back) (entry :: loose) ∧
      result.entry = heap.entry ∧ result.handedOut = heap.handedOut ∧ result.freed = heap.freed := by
  have distinct := ring.distinct
  have rearranged : (front ++ back ++ entry :: loose).Perm (front ++ entry :: back ++ loose) := by
    simp only [List.append_assoc, List.cons_append]
    exact (List.perm_append_left_iff front).mpr List.perm_middle
  have shifted : (head :: (front ++ back ++ entry :: loose)).Nodup :=
    (List.Perm.cons head rearranged).nodup_iff.mpr distinct
  have apart : entry ∉ head :: (front ++ back) := by
    intro inside
    rw [← List.cons_append, List.nodup_append] at shifted
    exact shifted.2.2 entry inside entry (by simp) rfl
  obtain ⟨left, right, prev, _, last, first, linkedPrev⟩ := ring_halves ring
  simp only [List.cons_append, List.head?_cons, Option.some.injEq] at first
  subst first
  rw [List.cons_append, List.isChain_cons] at right
  obtain ⟨next, first⟩ := Option.isSome_iff_exists.mp
    (List.isSome_head?.mpr (List.append_ne_nil_of_right_ne_nil back (List.cons_ne_nil head [])))
  have linkedNext := right.1 next first
  have prevMember : prev ∈ head :: front := List.mem_of_getLast? last
  have nextMember : next ∈ back ++ [head] := List.mem_of_head? first
  have entryLive : heap.Live entry := (ring.live entry).mpr (by simp)
  have prevLive : heap.Live prev := (ring.live prev).mpr (by simp at prevMember ⊢; tauto)
  have nextLive : heap.Live next := (ring.live next).mpr (by simp at nextMember ⊢; tauto)
  have entryPrev : entry ≠ prev := by rintro rfl; simp at prevMember apart; tauto
  have entryNext : entry ≠ next := by rintro rfl; simp at nextMember apart; tauto
  let result := (((heap.withPrev next prev).withNext prev next).withNext entry .poison1).withPrev
    entry .poison2
  have nexts : ∀ p, p ≠ entry → result.next? p = if p = prev then some next else heap.next? p := by
    intro p other
    simp [result, other, Heap.map_next?_live prevLive]
  have prevs : ∀ p, p ≠ entry → result.prev? p = if p = next then some prev else heap.prev? p := by
    intro p other
    simp [result, other, Heap.map_prev?_live nextLive]
  have parted : (head :: (front ++ back)).Nodup := shifted.sublist (by simp)
  obtain ⟨leftAfter, rightAfter⟩ := parts_unchanged result parted last first left right.2
    (fun p inside other => by
      have notEntry : p ≠ entry := fun same => apart (same ▸ inside)
      simp [nexts p notEntry, other])
    (fun p inside other => by
      have notEntry : p ≠ entry := fun same => apart (same ▸ inside)
      simp [prevs p notEntry, other])
  refine ⟨result, ?_, ?_, rfl, rfl, rfl⟩
  · simp [listDel, Heap.prev_of_prev? linkedPrev.2, Heap.next_of_next? linkedNext.1,
      Heap.setPrev, Heap.setNext, entryLive, prevLive, nextLive, result]
  · refine relinked_ring ring rearranged.symm ?_ (fun p => by simp [result]) rfl rfl rfl
    rw [← List.cons_append, List.append_assoc, List.isChain_append]
    refine ⟨leftAfter, rightAfter, fun x foundLast y foundFirst => ?_⟩
    rw [last] at foundLast
    rw [first] at foundFirst
    cases foundLast
    cases foundFirst
    exact ⟨by simp [nexts prev entryPrev.symm], by simp [prevs next entryNext.symm]⟩

end Relink

/-- `list_add` puts a loose block at the front. -/
theorem listAdd_ring {new : Ptr} (ring : Ring heap head nodes (new :: loose)) :
    ∃ result, listAdd heap new head = .ok result ∧ Ring result head (new :: nodes) loose ∧
      result.entry = heap.entry ∧ result.handedOut = heap.handedOut ∧ result.freed = heap.freed := by
  obtain ⟨-, -, prev, next, last, first, linked⟩ := ring_halves (show Ring heap head ([] ++ nodes) (new :: loose) from ring)
  simp only [List.getLast?_singleton, Option.some.injEq] at last
  subst last
  simpa [listAdd, Heap.next_of_next? linked.1] using
    listAddBetween_ring (show Ring heap head ([] ++ nodes) (new :: loose) from ring) (by simp) first

/-- An error pointer is no node of a list. -/
theorem ring_err (ring : Ring heap head nodes loose) (errno : Nat) : heap.links (.err errno) = none := by
  by_contra found
  have live : heap.Live (.err errno) := Option.isSome_iff_ne_none.mpr found
  rcases (ring.live _).mp live with same | inside
  · obtain ⟨index, static⟩ := ring.static
    rw [static] at same
    cases same
  · have known := inside.imp_right fun loose => Or.inl (b := .err errno ∈ heap.freed) loose
    obtain ⟨number, -, same⟩ := (ring.issued _).mpr known
    cases same

theorem setNext_blocks (ran : heap.setNext p q = .ok after) :
    after.entry = heap.entry ∧ after.handedOut = heap.handedOut := by
  unfold Heap.setNext at ran
  split at ran <;> cases ran
  exact ⟨rfl, rfl⟩

theorem setPrev_blocks (ran : heap.setPrev p q = .ok after) :
    after.entry = heap.entry ∧ after.handedOut = heap.handedOut := by
  unfold Heap.setPrev at ran
  split at ran <;> cases ran
  exact ⟨rfl, rfl⟩

/-- Linking touches no entry. -/
theorem listAdd_blocks (ran : listAdd heap p head = .ok after) :
    after.entry = heap.entry ∧ after.handedOut = heap.handedOut := by
  obtain ⟨next, -, ran⟩ := bind_eq_ok.mp ran
  obtain ⟨first, set, ran⟩ := bind_eq_ok.mp ran
  obtain ⟨second, set', ran⟩ := bind_eq_ok.mp ran
  obtain ⟨third, set'', last⟩ := bind_eq_ok.mp ran
  rw [(setNext_blocks last).1, (setNext_blocks last).2, (setPrev_blocks set'').1, (setPrev_blocks set'').2,
    (setNext_blocks set').1, (setNext_blocks set').2]
  exact setPrev_blocks set

/-- Unlinking touches no entry either. -/
theorem listDel_blocks (ran : listDel heap p = .ok after) :
    after.entry = heap.entry ∧ after.handedOut = heap.handedOut := by
  obtain ⟨prev, -, ran⟩ := bind_eq_ok.mp ran
  obtain ⟨next, -, ran⟩ := bind_eq_ok.mp ran
  obtain ⟨first, set, ran⟩ := bind_eq_ok.mp ran
  obtain ⟨second, set', ran⟩ := bind_eq_ok.mp ran
  obtain ⟨third, set'', last⟩ := bind_eq_ok.mp ran
  rw [(setPrev_blocks last).1, (setPrev_blocks last).2, (setNext_blocks set'').1, (setNext_blocks set'').2,
    (setNext_blocks set').1, (setNext_blocks set').2]
  exact setPrev_blocks set

theorem setNext_dead (dead : heap.links r = none) (ran : heap.setNext p q = .ok after) :
    after.links r = none := by
  unfold Heap.setNext at ran
  split at ran <;> cases ran
  by_cases same : r = p
  · simp [Heap.withNext, ← same, dead]
  · simp [Heap.withNext, Function.update_of_ne same, dead]

theorem setPrev_dead (dead : heap.links r = none) (ran : heap.setPrev p q = .ok after) :
    after.links r = none := by
  unfold Heap.setPrev at ran
  split at ran <;> cases ran
  by_cases same : r = p
  · simp [Heap.withPrev, ← same, dead]
  · simp [Heap.withPrev, Function.update_of_ne same, dead]

/-- What is no node does not become one by linking. -/
theorem listAdd_dead (dead : heap.links r = none) (ran : listAdd heap p head = .ok after) :
    after.links r = none := by
  obtain ⟨next, -, ran⟩ := bind_eq_ok.mp ran
  obtain ⟨first, set, ran⟩ := bind_eq_ok.mp ran
  obtain ⟨second, set', ran⟩ := bind_eq_ok.mp ran
  obtain ⟨third, set'', last⟩ := bind_eq_ok.mp ran
  exact setNext_dead (setPrev_dead (setNext_dead (setPrev_dead dead set) set') set'') last

theorem listDel_dead (dead : heap.links r = none) (ran : listDel heap p = .ok after) :
    after.links r = none := by
  obtain ⟨prev, -, ran⟩ := bind_eq_ok.mp ran
  obtain ⟨next, -, ran⟩ := bind_eq_ok.mp ran
  obtain ⟨first, set, ran⟩ := bind_eq_ok.mp ran
  obtain ⟨second, set', ran⟩ := bind_eq_ok.mp ran
  obtain ⟨third, set'', last⟩ := bind_eq_ok.mp ran
  exact setPrev_dead (setNext_dead (setNext_dead (setPrev_dead dead set) set') set'') last

theorem kfree_dead (dead : heap.links r = none) (ran : kfree heap p = .ok after) :
    after.links r = none := by
  unfold kfree at ran
  split at ran <;> cases ran
  by_cases same : r = p
  · simp [same]
  · simp [Function.update_of_ne same, dead]

/-- What is no node cannot be added to a list. -/
theorem listAdd_of_dead {new : Ptr} (dead : heap.links new = none) :
    listAdd heap new head = .error .badAccess := by
  unfold listAdd
  cases read : heap.next head with
  | error fault =>
    unfold Heap.next at read
    split at read
    · cases read
    · cases read
      rfl
  | ok next =>
    by_cases live : heap.Live next
    · have still : (heap.withPrev next new).links new = none := by
        by_cases same : new = next
        · simp [Heap.withPrev, ← same, dead]
        · simp [Heap.withPrev, Function.update_of_ne same, dead]
      have absent : ¬(heap.withPrev next new).Live new := by simp [Heap.Live, still]
      simp [listAddBetween, Heap.setPrev, Heap.setNext, live, absent]
    · simp [listAddBetween, Heap.setPrev, live]

/-- `list_add_tail` puts a loose block at the end. -/
theorem listAddTail_ring {new : Ptr} (ring : Ring heap head nodes (new :: loose)) :
    ∃ result, listAddTail heap new head = .ok result ∧ Ring result head (nodes ++ [new]) loose ∧
      result.entry = heap.entry ∧ result.handedOut = heap.handedOut ∧ result.freed = heap.freed := by
  have whole : Ring heap head (nodes ++ []) (new :: loose) := by simpa using ring
  obtain ⟨-, -, prev, next, last, first, linked⟩ := ring_halves whole
  simp only [List.nil_append, List.head?_cons, Option.some.injEq] at first
  subst first
  simpa [listAddTail, Heap.prev_of_prev? linked.2] using
    listAddBetween_ring whole last (by simp)

/-- `INIT_LIST_HEAD` on a loose block changes nothing that a list reads. -/
theorem initListHead_ring (list : Ptr) (ring : Ring heap head nodes loose) (member : list ∈ loose) :
    ∃ result, initListHead heap list = .ok result ∧ Ring result head nodes loose ∧
      result.entry = heap.entry ∧ result.handedOut = heap.handedOut ∧ result.freed = heap.freed := by
  have live : heap.Live list := (ring.live list).mpr (by simp [member])
  have apart : ∀ p ∈ head :: nodes ++ [head], p ≠ list := by
    rintro p inside rfl
    have distinct := ring.distinct
    rw [← List.cons_append, List.nodup_append] at distinct
    exact distinct.2.2 p (by simp at inside ⊢; tauto) p member rfl
  refine ⟨(heap.withNext list list).withPrev list list, ?_, ?_, rfl, rfl, rfl⟩
  · simp [initListHead, Heap.setNext, Heap.setPrev, live]
  · exact
      { ring with
        chain := chain_unchanged ring.chain
          (fun p inside => by simp [apart p (List.dropLast_subset _ inside)])
          (fun p inside => by simp [apart p (List.mem_of_mem_tail inside)])
        live := fun p => by simpa using ring.live p }

/-- A fresh block is loose. -/
theorem kmalloc_ring (ring : Ring heap head nodes loose) (block : Block α) :
    Ring (kmalloc heap (some block)).1 head nodes (.slab heap.handedOut :: loose) := by
  have fresh : ∀ p, p ∈ nodes ∨ p ∈ loose ∨ p ∈ heap.freed → p ≠ .slab heap.handedOut := by
    rintro p known rfl
    obtain ⟨number, bound, same⟩ := (ring.issued _).mpr known
    cases same
    omega
  have headOld : head ≠ .slab heap.handedOut := by
    obtain ⟨index, rfl⟩ := ring.static
    simp
  have links : ∀ p ∈ head :: nodes ++ [head], p ≠ .slab heap.handedOut := by
    intro p inside
    simp only [List.cons_append, List.mem_cons, List.mem_append, List.not_mem_nil, or_false] at inside
    rcases inside with rfl | inside | rfl
    · exact headOld
    · exact fresh p (.inl inside)
    · exact headOld
  exact
    { chain := chain_unchanged ring.chain
        (fun p inside => by
          simp [kmalloc, Heap.next?, links p (List.dropLast_subset _ inside)])
        (fun p inside => by
          simp [kmalloc, Heap.prev?, links p (List.mem_of_mem_tail inside)])
      distinct := by
        rw [(List.Perm.cons head List.perm_middle).nodup_iff,
          (List.Perm.swap (.slab heap.handedOut) head _).nodup_iff, List.nodup_cons]
        refine ⟨?_, ring.distinct⟩
        simp only [List.mem_cons, List.mem_append, not_or]
        exact ⟨headOld.symm, fun inside => fresh _ (.inl inside) rfl,
          fun inside => fresh _ (.inr (.inl inside)) rfl⟩
      live := fun p => by
        have old := ring.live p
        by_cases same : p = .slab heap.handedOut
        · simp [kmalloc, Heap.Live, same]
        · simpa [kmalloc, Heap.Live, same] using old
      allocated := fun p => by
        have old := ring.allocated p
        by_cases same : p = .slab heap.handedOut
        · simp [kmalloc, same]
        · simpa [kmalloc, same] using old
      issued := fun p => by
        have old := ring.issued p
        simp only [kmalloc, List.mem_cons]
        constructor
        · rintro ⟨number, bound, rfl⟩
          by_cases last : number = heap.handedOut
          · simp [last]
          · have := old.mp ⟨number, by omega, rfl⟩
            tauto
        · rintro (known | (rfl | known) | known)
          · obtain ⟨number, bound, same⟩ := old.mpr (.inl known)
            exact ⟨number, by omega, same⟩
          · exact ⟨heap.handedOut, by omega, rfl⟩
          · obtain ⟨number, bound, same⟩ := old.mpr (.inr (.inl known))
            exact ⟨number, by omega, same⟩
          · obtain ⟨number, bound, same⟩ := old.mpr (.inr (.inr known))
            exact ⟨number, by omega, same⟩
      freedOnce := ring.freedOnce
      freedGone := fun p gone => by
        have old := ring.freedGone p gone
        simp only [List.mem_cons, not_or]
        exact ⟨old.1, fresh p (.inr (.inr gone)), old.2⟩
      static := ring.static }

/-- `kfree` of a loose block retires it. -/
theorem kfree_ring (ring : Ring heap head nodes (p :: loose)) :
    ∃ result, kfree heap p = .ok result ∧ Ring result head nodes loose ∧
      result.entry = Function.update heap.entry p none ∧ result.handedOut = heap.handedOut ∧
      result.freed = heap.freed ++ [p] := by
  obtain ⟨entry, found⟩ := Option.isSome_iff_exists.mp ((ring.allocated p).mpr (by simp))
  have distinct := ring.distinct
  rw [(List.Perm.cons head List.perm_middle).nodup_iff,
    (List.Perm.swap p head _).nodup_iff, List.nodup_cons] at distinct
  obtain ⟨apart, distinct⟩ := distinct
  have links : ∀ q ∈ head :: nodes ++ [head], q ≠ p := by
    rintro q inside rfl
    apply apart
    simp at inside ⊢
    tauto
  have unfreed : p ∉ heap.freed := fun gone => by
    have := (ring.freedGone p gone).2
    simp at this
  let result : Heap α :=
    { links := Function.update heap.links p none
      entry := Function.update heap.entry p none
      handedOut := heap.handedOut
      freed := heap.freed ++ [p] }
  refine ⟨result, by simp [kfree, found, result], ?_, rfl, rfl, rfl⟩
  exact
    { chain := chain_unchanged ring.chain
        (fun q inside => by simp [result, Heap.next?, links q (List.dropLast_subset _ inside)])
        (fun q inside => by simp [result, Heap.prev?, links q (List.mem_of_mem_tail inside)])
      distinct := distinct
      live := fun q => by
        have old := ring.live q
        by_cases same : q = p
        · subst same
          simp only [List.mem_cons, List.mem_append, not_or] at apart
          simp [result, Heap.Live, apart]
        · simpa [result, Heap.Live, same] using old
      allocated := fun q => by
        have old := ring.allocated q
        by_cases same : q = p
        · subst same
          simp only [List.mem_cons, List.mem_append, not_or] at apart
          simp [result, apart]
        · simpa [result, same] using old
      issued := fun q => by
        rw [show result.handedOut = heap.handedOut from rfl, ring.issued q]
        simp [result]
        tauto
      freedOnce := by
        rw [List.nodup_append]
        refine ⟨ring.freedOnce, List.nodup_singleton p, ?_⟩
        rintro a gone b last rfl
        rw [List.mem_singleton] at last
        exact unfreed (last ▸ gone)
      freedGone := fun q gone => by
        rcases List.mem_append.mp gone with gone | last
        · have old := ring.freedGone q gone
          simp at old
          exact ⟨old.1, old.2.2⟩
        · rw [List.mem_singleton] at last
          subst last
          simp only [List.mem_cons, List.mem_append, not_or] at apart
          exact apart.2
      static := ring.static }

/-- A write to an allocated entry leaves the list as it is. -/
theorem store_ring (ring : Ring heap head nodes loose) (p : Ptr) (member : p ∈ loose) (entry : α) :
    ∃ result, heap.store p entry = .ok result ∧ Ring result head nodes loose ∧
      result.entry = Function.update heap.entry p (some entry) ∧
      result.handedOut = heap.handedOut ∧ result.freed = heap.freed := by
  obtain ⟨old, found⟩ := Option.isSome_iff_exists.mp ((ring.allocated p).mpr (.inr member))
  let result : Heap α := { heap with entry := Function.update heap.entry p (some entry) }
  refine ⟨result, by simp [Heap.store, found, result], ?_, rfl, rfl, rfl⟩
  exact
    { ring with
      allocated := fun q => by
        by_cases same : q = p
        · subst same
          simp [result, member]
        · simpa [result, same] using ring.allocated q }

/-! ## Traversal -/

section Traversal
variable {kept rest : List Ptr}

theorem ring_next (kept : List Ptr) (ring : Ring heap head (kept ++ p :: rest) loose) :
    heap.next? p = some (rest.head?.getD head) := by
  obtain ⟨-, right, -⟩ := ring_halves ring
  rw [List.cons_append, List.isChain_cons] at right
  refine (right.1 (rest.head?.getD head) ?_).1
  cases rest <;> simp

/-- The order of the loose blocks does not matter. -/
theorem ring_perm {loose' : List Ptr} (ring : Ring heap head nodes loose)
    (same : loose.Perm loose') : Ring heap head nodes loose' :=
  relinked_ring ring (same.append_left nodes) ring.chain (fun _ => Iff.rfl) rfl rfl rfl

theorem ring_first (ring : Ring heap head nodes loose) :
    heap.next? head = some (nodes.head?.getD head) := by
  have chain := ring.chain
  rw [List.cons_append, List.isChain_cons] at chain
  refine (chain.1 (nodes.head?.getD head) ?_).1
  cases nodes <;> simp

theorem ring_last (ring : Ring heap head nodes loose) :
    heap.prev? head = some (nodes.getLast?.getD head) := by
  obtain ⟨-, -, prev, next, last, first, linked⟩ :=
    ring_halves (show Ring heap head (nodes ++ []) loose by simpa using ring)
  simp only [List.nil_append, List.head?_cons, Option.some.injEq] at first
  subst first
  rw [linked.2, ← last, List.getLast?_cons]

/-- Whatever a node points to points back. -/
theorem ring_linked (ring : Ring heap head nodes loose) (member : p ∈ head :: nodes)
    (follows : heap.next? p = some q) : heap.prev? q = some p := by
  obtain ⟨front, back, shape⟩ := List.append_of_mem member
  have chain := ring.chain
  rw [List.isChain_iff_forall_rel_of_append_cons_cons] at chain
  have whole : head :: nodes ++ [head] = front ++ p :: (back ++ [head]) := by simp [shape]
  obtain ⟨next, rest, split⟩ := List.exists_cons_of_ne_nil
    (List.append_ne_nil_of_right_ne_nil back (List.cons_ne_nil head []))
  rw [split] at whole
  have linked := chain whole
  cases linked.1.symm.trans follows
  exact linked.2

/-- Whatever points back to a node is the one it points to. -/
theorem ring_linked_back (ring : Ring heap head nodes loose) (member : q ∈ head :: nodes)
    (precedes : heap.prev? q = some p) : heap.next? p = some q := by
  have inside : q ∈ nodes ++ [head] := by simp at member ⊢; tauto
  obtain ⟨front, back, shape⟩ := List.append_of_mem inside
  have chain := ring.chain
  rw [List.isChain_iff_forall_rel_of_append_cons_cons] at chain
  obtain ⟨rest, prev, split⟩ : ∃ rest prev, head :: front = rest ++ [prev] :=
    ⟨_, _, (List.dropLast_append_getLast (List.cons_ne_nil head front)).symm⟩
  have whole : head :: nodes ++ [head] = rest ++ prev :: q :: back := by
    rw [List.cons_append, shape, ← List.cons_append, split]
    simp
  have linked := chain whole
  cases linked.2.symm.trans precedes
  exact linked.1

theorem ring_head_not_mem (ring : Ring heap head nodes loose) : head ∉ nodes := by
  have distinct := (List.nodup_cons.mp ring.distinct).1
  simp only [List.mem_append, not_or] at distinct
  exact distinct.1

/-- A list is no longer than the number of blocks handed out. -/
theorem ring_length (ring : Ring heap head nodes loose) : nodes.length ≤ heap.handedOut := by
  have distinct : nodes.Nodup := (List.nodup_append.mp (List.nodup_cons.mp ring.distinct).2).1
  have bounded : nodes ⊆ (List.range heap.handedOut).map Ptr.slab := by
    intro p member
    obtain ⟨number, bound, rfl⟩ := (ring.issued p).mpr (.inl member)
    exact List.mem_map_of_mem (List.mem_range.mpr bound)
  simpa using (List.subperm_of_subset distinct bounded).length_le

variable {σ ρ : Type}

/-- What holds of the way a loop body, or a whole loop, ends. -/
def Flow.Ends (onNext : σ → Prop) (onDone : σ → ρ → Prop) : Flow σ ρ → Prop
  | .next state => onNext state
  | .done state value => onDone state value

section Safe
variable {view : σ → Heap α} {body : σ → Ptr → Except Fault (Flow σ ρ)}
  {Inv : List Ptr → σ → Prop} {Post : σ → ρ → Prop}

private theorem forEachEntrySafe_ends
    (ring : ∀ rest state, Inv rest state → ∃ kept loose, Ring (view state) head (kept ++ rest) loose)
    (visit : ∀ p rest state, Inv (p :: rest) state →
      ∃ flow, body state p = .ok flow ∧ flow.Ends (Inv rest) Post)
    (fuel : Nat) (rest : List Ptr) (state : σ) (n : Ptr) (inv : Inv rest state)
    (enough : rest.length < fuel) (successor : rest ≠ [] → n = rest.tail.head?.getD head) :
    ∃ flow, forEachEntrySafe view head body fuel state (rest.head?.getD head) n = .ok flow ∧
      flow.Ends (Inv []) Post := by
  induction fuel generalizing rest state n with
  | zero => omega
  | succ fuel ih =>
    cases rest with
    | nil => exact ⟨.next state, by simp [forEachEntrySafe], inv⟩
    | cons p rest =>
      obtain ⟨kept, loose, held⟩ := ring (p :: rest) state inv
      have inside : p ≠ head := fun same => ring_head_not_mem held (by simp [same])
      obtain ⟨flow, ran, ends⟩ := visit p rest state inv
      obtain rfl : n = rest.head?.getD head := successor (by simp)
      cases flow with
      | done final value => exact ⟨.done final value, by simp [forEachEntrySafe, inside, ran], ends⟩
      | next middle =>
        obtain ⟨kept, loose, held⟩ := ring rest middle ends
        have advance : ∃ after, (view middle).next (rest.head?.getD head) = .ok after ∧
            (rest ≠ [] → after = rest.tail.head?.getD head) := by
          cases rest with
          | nil => exact ⟨_, Heap.next_of_next? (ring_first held), by simp⟩
          | cons q rest => exact ⟨_, Heap.next_of_next? (ring_next _ held), by simp⟩
        obtain ⟨after, read, right⟩ := advance
        obtain ⟨flow, rec, ends⟩ := ih rest middle after ends (by simpa using enough) right
        exact ⟨flow, by simp [forEachEntrySafe, inside, ran, read, rec], ends⟩

/-- The rule for `list_for_each_entry_safe`. The invariant speaks of the entries
still to be visited; the body may unlink and free the entry it is given. The
loop ends after one visit to each entry, at the head or where the body
returns. -/
theorem listForEachEntrySafe_ends {state : σ}
    (ring : ∀ rest state, Inv rest state → ∃ kept loose, Ring (view state) head (kept ++ rest) loose)
    (visit : ∀ p rest state, Inv (p :: rest) state →
      ∃ flow, body state p = .ok flow ∧ flow.Ends (Inv rest) Post)
    (held : Ring (view state) head nodes loose) (inv : Inv nodes state) :
    ∃ flow, listForEachEntrySafe view head body state = .ok flow ∧ flow.Ends (Inv []) Post := by
  have start := Heap.next_of_next? (ring_first held)
  have second : ∃ n, (view state).next (nodes.head?.getD head) = .ok n ∧
      (nodes ≠ [] → n = nodes.tail.head?.getD head) := by
    cases nodes with
    | nil => exact ⟨_, start, by simp⟩
    | cons p rest => exact ⟨_, Heap.next_of_next? (ring_next [] held), by simp⟩
  obtain ⟨n, read, successor⟩ := second
  obtain ⟨flow, ran, ends⟩ := forEachEntrySafe_ends ring visit ((view state).handedOut + 1) nodes
    state n inv (Nat.lt_succ_of_le (ring_length held)) successor
  exact ⟨flow, by simp [listForEachEntrySafe, start, read, ran], ends⟩

end Safe

section ReadOnly
variable {body : σ → Ptr → Except Fault σ} {Inv : List Ptr → σ → Prop}

private theorem forEachEntry_ends (held : Ring heap head nodes loose)
    (visit : ∀ p rest state, Inv (p :: rest) state → ∃ next, body state p = .ok next ∧ Inv rest next)
    (fuel : Nat) (kept rest : List Ptr) (state : σ) (whole : nodes = kept ++ rest)
    (inv : Inv rest state) (enough : rest.length < fuel) :
    ∃ final, forEachEntry heap head body fuel state (rest.head?.getD head) = .ok final ∧ Inv [] final := by
  induction fuel generalizing kept rest state with
  | zero => omega
  | succ fuel ih =>
    cases rest with
    | nil => exact ⟨state, by simp [forEachEntry], inv⟩
    | cons p rest =>
      subst whole
      have inside : p ≠ head := fun same => ring_head_not_mem held (by simp [same])
      obtain ⟨next, ran, inv⟩ := visit p rest state inv
      obtain ⟨final, rec, done⟩ :=
        ih (kept ++ [p]) rest next (by simp) inv (by simpa using enough)
      have read := Heap.next_of_next? (ring_next _ held)
      exact ⟨final, by simp [forEachEntry, inside, ran, read, rec], done⟩

/-- The rule for `list_for_each_entry`: one visit to each entry, in order. -/
theorem listForEachEntry_ends {state : σ} (held : Ring heap head nodes loose)
    (visit : ∀ p rest state, Inv (p :: rest) state → ∃ next, body state p = .ok next ∧ Inv rest next)
    (inv : Inv nodes state) :
    ∃ final, listForEachEntry heap head body state = .ok final ∧ Inv [] final := by
  obtain ⟨final, ran, done⟩ := forEachEntry_ends held visit (heap.handedOut + 1) [] nodes state rfl
    inv (Nat.lt_succ_of_le (ring_length held))
  exact ⟨final, by simp [listForEachEntry, Heap.next_of_next? (ring_first held), ran], done⟩

end ReadOnly

end Traversal

/-! ## Lists of entries -/

section Entries
variable {β : Type} {reads : α → β → Prop} {entries front back : List (Ptr × β)} {value : β}

/-- The list runs through exactly the allocated entries, and reading them gives
these values. -/
structure Holds (reads : α → β → Prop) (heap : Heap α) (head : Ptr) (entries : List (Ptr × β)) :
    Prop where
  ring : Ring heap head (entries.map Prod.fst) []
  stored : ∀ entry ∈ entries, ∃ content, heap.entry entry.1 = some content ∧ reads content entry.2

theorem init_holds (index : Nat) :
    Holds reads (Heap.init (.static index)) (.static index) [] where
  ring := init_ring index
  stored := by simp

/-- Following `next` from an entry leads to the entry after it, or to the head. -/
theorem holds_next (held : Holds reads heap head (front ++ (p, value) :: back)) :
    heap.next p = .ok ((back.map Prod.fst).head?.getD head) :=
  Heap.next_of_next? (ring_next (front.map Prod.fst) (show Ring heap head
    (front.map Prod.fst ++ p :: back.map Prod.fst) [] by simpa using held.ring))

theorem holds_load (held : Holds reads heap head (front ++ (p, value) :: back)) :
    ∃ content, heap.load p = .ok content ∧ reads content value := by
  obtain ⟨content, found, read⟩ := held.stored (p, value) (by simp)
  exact ⟨content, Heap.load_of_entry found, read⟩

/-- The links of a list determine its nodes. -/
theorem chain_unique {start : Ptr} {nodes nodes' : List Ptr}
    (chain : (start :: nodes ++ [head]).IsChain heap.Linked)
    (chain' : (start :: nodes' ++ [head]).IsChain heap.Linked)
    (outside : head ∉ nodes) (outside' : head ∉ nodes') : nodes = nodes' := by
  have follows {first second third : Ptr} (linked : heap.Linked first second)
      (linked' : heap.Linked first third) : second = third :=
    Option.some.inj (linked.1.symm.trans linked'.1)
  induction nodes generalizing start nodes' with
  | nil =>
    cases nodes' with
    | nil => rfl
    | cons next rest =>
      have last := (List.isChain_cons_cons.mp chain).1
      have more := (List.isChain_cons_cons.mp chain').1
      exact absurd (by simp [follows last more]) outside'
  | cons next nodes ih =>
    cases nodes' with
    | nil =>
      have more := (List.isChain_cons_cons.mp chain).1
      have last := (List.isChain_cons_cons.mp chain').1
      exact absurd (by simp [follows last more]) outside
    | cons next' nodes' =>
      obtain ⟨linked, rest⟩ := List.isChain_cons_cons.mp chain
      obtain ⟨linked', rest'⟩ := List.isChain_cons_cons.mp chain'
      obtain rfl := follows linked linked'
      rw [ih rest rest' (fun inside => outside (List.mem_cons_of_mem _ inside))
        (fun inside => outside' (List.mem_cons_of_mem _ inside))]

/-- A heap holds one list of entries at most. -/
theorem holds_unique {entries' : List (Ptr × β)}
    (functional : ∀ content first second, reads content first → reads content second → first = second)
    (held : Holds reads heap head entries) (held' : Holds reads heap head entries') :
    entries = entries' := by
  have nodes := chain_unique held.ring.chain held'.ring.chain (ring_head_not_mem held.ring)
    (ring_head_not_mem held'.ring)
  have values (entry : Ptr × β) (inside : entry ∈ entries) (entry' : Ptr × β)
      (inside' : entry' ∈ entries') (same : entry.1 = entry'.1) : entry = entry' := by
    obtain ⟨content, found, read⟩ := held.stored entry inside
    obtain ⟨content', found', read'⟩ := held'.stored entry' inside'
    rw [same, found', Option.some.injEq] at found
    subst found
    exact Prod.ext same (functional _ _ _ read read')
  clear held held'
  induction entries generalizing entries' with
  | nil => exact (List.map_eq_nil_iff.mp nodes.symm).symm
  | cons entry entries ih =>
    obtain ⟨entry', rest, rfl, same, others⟩ := List.map_eq_cons_iff.mp nodes.symm
    rw [values entry (by simp) entry' (by simp) same.symm, ih others.symm fun entry inside entry' inside' =>
      values entry (by simp [inside]) entry' (by simp [inside'])]

/-- `list_del` and `kfree` of an entry remove exactly it. -/
theorem holds_remove (front : List (Ptr × β)) (held : Holds reads heap head (front ++ (p, value) :: back)) :
    ∃ unlinked result, listDel heap p = .ok unlinked ∧ kfree unlinked p = .ok result ∧
      Holds reads result head (front ++ back) ∧
      unlinked.entry = heap.entry ∧ result.handedOut = heap.handedOut ∧
      result.freed = heap.freed ++ [p] := by
  have ring : Ring heap head (front.map Prod.fst ++ p :: back.map Prod.fst) [] := by
    simpa using held.ring
  obtain ⟨unlinked, deleted, loose, same, handed, freed⟩ := listDel_ring ring
  obtain ⟨result, released, final, entries, handed', freed'⟩ := kfree_ring loose
  refine ⟨unlinked, result, deleted, released, ⟨by simpa using final, ?_⟩, same,
    handed'.trans handed, by rw [freed', freed]⟩
  intro entry member
  obtain ⟨content, found, read⟩ := held.stored entry (by simp at member ⊢; tauto)
  refine ⟨content, ?_, read⟩
  have other : entry.1 ≠ p := by
    intro clash
    have distinct := ring.distinct
    simp only [List.append_nil, List.nodup_cons, List.nodup_middle] at distinct
    apply distinct.2.1
    rw [← clash, ← List.map_append]
    exact List.mem_map_of_mem member
  rw [entries, same, Function.update_of_ne other, found]

/-- What a loose entry needs to be linked in: its contents are readable. -/
theorem holds_link (front back : List (Ptr × β)) {result : Heap α} {new : Ptr} {content : α}
    (held : Holds reads heap head (front ++ back))
    (ring : Ring result head (front.map Prod.fst ++ new :: back.map Prod.fst) [])
    (written : result.entry = Function.update heap.entry new (some content))
    (read : reads content value) :
    Holds reads result head (front ++ (new, value) :: back) := by
  refine ⟨by simpa using ring, ?_⟩
  intro entry member
  have distinct := ring.distinct
  simp only [List.append_nil, List.nodup_cons, List.nodup_middle] at distinct
  rcases (show entry = (new, value) ∨ entry ∈ front ++ back by simp at member ⊢; tauto) with
    rfl | member
  · exact ⟨content, by simp [written], read⟩
  · obtain ⟨old, found, reads'⟩ := held.stored entry member
    have other : entry.1 ≠ new := by
      intro clash
      apply distinct.2.1
      rw [← clash, ← List.map_append]
      exact List.mem_map_of_mem member
    exact ⟨old, by rw [written, Function.update_of_ne other, found], reads'⟩

/-- A `list_for_each_entry_safe` over a list of entries. The invariant speaks of the entries
that the loop has visited and of those before it, which must still be on the list. -/
theorem holds_forEachSafe {σ ρ : Type} (view : σ → Heap α) {body : σ → Ptr → Except Fault (Flow σ ρ)}
    {state : σ} {Post : σ → ρ → Prop} (Inv : List (Ptr × β) → List (Ptr × β) → σ → Prop)
    (listed : ∀ front back state, entries = front ++ back → Inv front back state →
      ∃ kept, Holds reads (view state) head (kept ++ back))
    (visit : ∀ front p value back state, entries = front ++ (p, value) :: back →
      Inv front ((p, value) :: back) state →
      ∃ flow, body state p = .ok flow ∧ flow.Ends (Inv (front ++ [(p, value)]) back) Post)
    (held : Holds reads (view state) head entries) (start : Inv [] entries state) :
    ∃ flow, listForEachEntrySafe view head body state = .ok flow ∧ flow.Ends (Inv entries []) Post := by
  let Ahead (rest : List Ptr) (state : σ) : Prop :=
    ∃ front back, entries = front ++ back ∧ back.map Prod.fst = rest ∧ Inv front back state
  have ring : ∀ rest state, Ahead rest state →
      ∃ kept loose, Ring (view state) head (kept ++ rest) loose := by
    rintro rest state ⟨front, back, whole, rfl, inv⟩
    obtain ⟨kept, held⟩ := listed front back state whole inv
    exact ⟨kept.map Prod.fst, [], by simpa using held.ring⟩
  have turn : ∀ p rest state, Ahead (p :: rest) state →
      ∃ flow, body state p = .ok flow ∧ flow.Ends (Ahead rest) Post := by
    rintro p rest state ⟨front, back, whole, visited, inv⟩
    obtain ⟨⟨p, value⟩, back, rfl, rfl, rfl⟩ := List.map_eq_cons_iff.mp visited
    obtain ⟨flow, ran, ends⟩ := visit front p value back state whole inv
    refine ⟨flow, ran, ?_⟩
    cases flow with
    | done final ret => exact ends
    | next final => exact ⟨front ++ [(p, value)], back, by simpa using whole, rfl, ends⟩
  obtain ⟨flow, ran, ends⟩ := listForEachEntrySafe_ends ring turn held.ring ⟨[], entries, rfl, rfl, start⟩
  refine ⟨flow, ran, ?_⟩
  cases flow with
  | done final ret => exact ends
  | next final =>
    obtain ⟨front, back, whole, empty, inv⟩ := ends
    obtain rfl : back = [] := List.map_eq_nil_iff.mp empty
    rw [List.append_nil] at whole
    exact whole ▸ inv

/-- The same for a loop that never returns from its body. -/
theorem holds_forEachSafe_all {σ ρ : Type} (view : σ → Heap α) {body : σ → Ptr → Except Fault (Flow σ ρ)}
    {state : σ} (Inv : List (Ptr × β) → List (Ptr × β) → σ → Prop)
    (listed : ∀ front back state, entries = front ++ back → Inv front back state →
      ∃ kept, Holds reads (view state) head (kept ++ back))
    (visit : ∀ front p value back state, entries = front ++ (p, value) :: back →
      Inv front ((p, value) :: back) state →
      ∃ next, body state p = .ok (.next next) ∧ Inv (front ++ [(p, value)]) back next)
    (held : Holds reads (view state) head entries) (start : Inv [] entries state) :
    ∃ after, listForEachEntrySafe view head body state = .ok (.next after) ∧ Inv entries [] after := by
  have turn : ∀ front p value back state, entries = front ++ (p, value) :: back →
      Inv front ((p, value) :: back) state →
      ∃ flow, body state p = .ok flow ∧ flow.Ends (Inv (front ++ [(p, value)]) back) fun _ _ => False := by
    intro front p value back state whole inv
    obtain ⟨next, ran, inv⟩ := visit front p value back state whole inv
    exact ⟨.next next, ran, inv⟩
  obtain ⟨flow, ran, ends⟩ := holds_forEachSafe view Inv listed turn held start
  cases flow with
  | done final ret => exact ends.elim
  | next final => exact ⟨final, ran, ends⟩

/-- A loop that unlinks and frees the first entry it is looking for, and returns there. -/
theorem holds_eraseP {ρ : Type} {body : Heap α → Ptr → Except Fault (Flow (Heap α) ρ)} {found : ρ}
    (test : β → Bool)
    (at_entry : ∀ current front p value back, Holds reads current head (front ++ (p, value) :: back) →
      body current p = if test value then (do
        let current ← listDel current p
        let current ← kfree current p
        return .done current found) else .ok (.next current))
    (held : Holds reads heap head entries) :
    ∃ flow, listForEachEntrySafe id head body heap = .ok flow ∧
      flow.Ends (fun after => after = heap ∧ ∀ entry ∈ entries, ¬ test entry.2) fun after ret =>
        ret = found ∧ (∃ entry ∈ entries, test entry.2) ∧
          Holds reads after head (entries.eraseP (test ·.2)) ∧ after.handedOut = heap.handedOut := by
  refine holds_forEachSafe id
    (fun front _ current => current = heap ∧ ∀ entry ∈ front, ¬ test entry.2) ?_ ?_ held ⟨rfl, by simp⟩
  · rintro front back current rfl ⟨rfl, -⟩
    exact ⟨front, held⟩
  rintro front p value back current whole ⟨rfl, others⟩
  have inside : (p, value) ∈ entries := by simp [whole]
  have here : Holds reads current head (front ++ (p, value) :: back) := whole ▸ held
  rw [at_entry current front p value back here]
  by_cases wanted : test value
  · obtain ⟨unlinked, after, deleted, released, removed, -, handed, -⟩ := holds_remove front here
    refine ⟨.done after found, by simp [wanted, deleted, released], rfl, ⟨_, inside, wanted⟩, ?_, handed⟩
    rw [whole, List.eraseP_append_right _ (by simpa using others), List.eraseP_cons_of_pos (by exact wanted)]
    exact removed
  · refine ⟨.next current, if_neg wanted, rfl, fun entry member => ?_⟩
    rcases List.mem_append.mp member with old | last
    · exact others entry old
    · rwa [List.mem_singleton.mp last]

/-- A loop that unlinks and frees the entries it is looking for frees each once, in list order. -/
theorem holds_filter {ρ : Type} {body : Heap α → Ptr → Except Fault (Flow (Heap α) ρ)} (test : β → Bool)
    (at_entry : ∀ current front p value back, Holds reads current head (front ++ (p, value) :: back) →
      body current p = if test value then (do
        let current ← listDel current p
        let current ← kfree current p
        return .next current) else .ok (.next current))
    (held : Holds reads heap head entries) :
    ∃ after, listForEachEntrySafe id head body heap = .ok (.next after) ∧
      Holds reads after head (entries.filter fun entry => !test entry.2) ∧
      after.freed = heap.freed ++ (entries.filter (test ·.2)).map Prod.fst ∧
      after.handedOut = heap.handedOut := by
  let Inv (front back : List (Ptr × β)) (current : Heap α) : Prop :=
    Holds reads current head ((front.filter fun entry => !test entry.2) ++ back) ∧
      current.freed = heap.freed ++ (front.filter (test ·.2)).map Prod.fst ∧ current.handedOut = heap.handedOut
  have visit : ∀ front p value back current, entries = front ++ (p, value) :: back →
      Inv front ((p, value) :: back) current →
      ∃ next, body current p = .ok (.next next) ∧ Inv (front ++ [(p, value)]) back next := by
    rintro front p value back current - ⟨held, freed, handed⟩
    rw [at_entry current _ p value back held]
    by_cases wanted : test value
    · obtain ⟨unlinked, after, deleted, released, removed, -, handed', freed'⟩ := holds_remove _ held
      refine ⟨after, by simp [wanted, deleted, released], ?_, ?_, handed'.trans handed⟩
      · simpa [List.filter_append, wanted] using removed
      · simp [List.filter_append, wanted, freed', freed]
    · refine ⟨current, if_neg wanted, ?_, ?_, handed⟩
      · simpa [List.filter_append, wanted] using held
      · simp [List.filter_append, wanted, freed]
  obtain ⟨after, ran, kept, freed, handed⟩ := holds_forEachSafe_all id Inv
    (fun front back current _ inv => ⟨_, inv.1⟩) visit held ⟨held, by simp, rfl⟩
  exact ⟨after, ran, by simpa using kept, freed, handed⟩

/-- A loop that unlinks and frees every entry. -/
theorem holds_freeAll {ρ : Type} (body : Heap α → Ptr → Except Fault (Flow (Heap α) ρ))
    (at_entry : ∀ current p, body current p = do
      let current ← listDel current p
      let current ← kfree current p
      return .next current)
    (held : Holds reads heap head entries) :
    ∃ after, listForEachEntrySafe id head body heap = .ok (.next after) ∧ Holds reads after head [] ∧
      after.freed = heap.freed ++ entries.map Prod.fst := by
  obtain ⟨after, ran, empty, freed, -⟩ := holds_filter (fun _ => true)
    (fun current _ p _ _ _ => (at_entry current p).trans (if_pos rfl).symm) held
  exact ⟨after, ran, by simpa using empty, by simpa using freed⟩

end Entries

end KernelLabs.LinuxList
