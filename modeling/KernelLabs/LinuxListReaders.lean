import KernelLabs.LinuxListLostAdds

/-! Traversals of a list that insertions are under way in. A traversal follows `next`
alone, and whatever the insertions do to one another, each node it comes to has been
linked in whole: it passes entries that were put in front, then every old node, then
entries that were put behind, each at most once. -/
namespace KernelLabs.LinuxList.Adds

variable {α : Type} {heap : Heap α} {head p q : Ptr} {old visited : List Ptr}
  {state next final : Adds α} {turn : Turn} {insertion other : Insertion}
  {store : Store} {rest : List Store}

/-! ## Where `next` leads -/

/-- What the head leads to: the first old node, or an entry put in front of it. -/
def First (head : Ptr) (old : List Ptr) (state : Adds α) (q : Ptr) : Prop :=
  q = old.head?.getD head ∨
    ∃ insertion ∈ state.begun, insertion.new = q ∧ insertion.prev = head ∧ 4 ≤ state.made q

/-- What leads to the head: the last old node, or an entry put behind it. -/
def Last (head : Ptr) (old : List Ptr) (state : Adds α) (p : Ptr) : Prop :=
  p = old.getLast?.getD head ∨
    ∃ insertion ∈ state.begun, insertion.new = p ∧ insertion.next = head ∧ 1 ≤ state.made p

/-- The node leads to the head, or to an entry that was put behind it. -/
def Ends (head : Ptr) (state : Adds α) (p : Ptr) : Prop :=
  state.heap.get? ⟨p, .next⟩ = some head ∨
    ∃ behind ∈ state.begun, behind.prev = p ∧ behind.next = head ∧ 4 ≤ state.made behind.new ∧
      state.heap.get? ⟨p, .next⟩ = some behind.new

/-- Where the `next` pointers lead, in every interleaving. -/
structure Threaded (head : Ptr) (old : List Ptr) (state : Adds α) : Prop where
  /-- An insertion takes place between the head, old nodes and entries of earlier insertions. -/
  order : ∀ front insertion back, state.begun = front ++ insertion :: back →
    insertion.prev ∈ head :: (old ++ front.map Insertion.new) ∧
      insertion.next ∈ head :: (old ++ front.map Insertion.new)
  first : ∃ q, state.heap.get? ⟨head, .next⟩ = some q ∧ First head old state q
  last : ∃ p, state.heap.get? ⟨head, .prev⟩ = some p ∧ Last head old state p
  placed : ∀ insertion ∈ state.begun,
    (insertion.prev = head ∧ First head old state insertion.next) ∨
    (insertion.next = head ∧ Last head old state insertion.prev)
  inside : ∀ before p q after, old = before ++ p :: q :: after → state.heap.get? ⟨p, .next⟩ = some q
  oldLast : ∀ before p, old = before ++ [p] → Ends head state p
  newLast : ∀ insertion ∈ state.begun, 2 ≤ state.made insertion.new → insertion.next = head →
    Ends head state insertion.new

theorem First.mono (here : First head old state q) (grows : Grows state next) : First head old next q :=
  here.imp_right fun ⟨insertion, member, same, front, made⟩ =>
    ⟨insertion, grows.begun.subset member, same, front, made.trans (same ▸ grows.made insertion member)⟩

theorem Last.mono (here : Last head old state p) (grows : Grows state next) : Last head old next p :=
  here.imp_right fun ⟨insertion, member, same, back, made⟩ =>
    ⟨insertion, grows.begun.subset member, same, back, made.trans (same ▸ grows.made insertion member)⟩

/-- A pointer that is not stored leads where it did. -/
theorem Ends.mono (here : Ends head state p) (grows : Grows state next)
    (same : next.heap.get? ⟨p, .next⟩ = state.heap.get? ⟨p, .next⟩) : Ends head next p := by
  unfold Ends
  rw [same]
  exact here.imp_right fun ⟨behind, member, prev, atHead, made, found⟩ =>
    ⟨behind, grows.begun.subset member, prev, atHead, made.trans (grows.made behind member), found⟩

/-- Who stores a `next`: the insertion of the node, and the one behind it. -/
theorem next_stored (left : state.left insertion = store :: rest) (hit : store.place = ⟨p, .next⟩) :
    (insertion.new = p ∧ store.value = insertion.next) ∨
    (insertion.prev = p ∧ state.made insertion.new = 3 ∧ store.value = insertion.new) := by
  rcases left_eq_cons left with ⟨-, rfl⟩ | ⟨-, rfl⟩ | ⟨-, rfl⟩ | ⟨made, rfl⟩
  · cases congrArg Place.field hit
  · exact .inl ⟨congrArg Place.node hit, rfl⟩
  · cases congrArg Place.field hit
  · exact .inr ⟨congrArg Place.node hit, made, rfl⟩

/-- A call is placed where its read found the end of the list. -/
theorem Threaded.placed_call (threaded : Threaded head old state) {call : AddCall} {value : Ptr}
    (read : state.heap.get? (call.reads head) = some value) :
    ((call.insertion head value).prev = head ∧ First head old state (call.insertion head value).next) ∨
    ((call.insertion head value).next = head ∧ Last head old state (call.insertion head value).prev) := by
  obtain ⟨first, atFirst, front⟩ := threaded.first
  obtain ⟨last, atLast, back⟩ := threaded.last
  cases call with
  | mk function new =>
    cases function with
    | listAdd =>
      cases atFirst.symm.trans read
      exact .inl ⟨rfl, front⟩
    | listAddTail =>
      cases atLast.symm.trans read
      exact .inr ⟨rfl, back⟩

theorem First.known (here : First head old state q) :
    q ∈ head :: (old ++ state.begun.map Insertion.new) := by
  rcases here with rfl | ⟨insertion, member, rfl, -⟩
  · cases old <;> simp
  · exact List.mem_cons_of_mem _ (List.mem_append_right _ (List.mem_map_of_mem member))

theorem Last.known (here : Last head old state p) :
    p ∈ head :: (old ++ state.begun.map Insertion.new) := by
  rcases here with rfl | ⟨insertion, member, rfl, -⟩
  · cases shape : old.getLast? with
    | none => simp
    | some last => simp [List.mem_of_getLast? shape]
  · exact List.mem_cons_of_mem _ (List.mem_append_right _ (List.mem_map_of_mem member))

theorem Sound.old_ne_head (sound : Sound head old state) (within : p ∈ old) : p ≠ head := by
  rintro rfl
  exact (List.nodup_cons.mp sound.distinct).1 (List.mem_append_left _ within)

/-- Only behind the last old node is anything put. -/
theorem Threaded.prev_last (threaded : Threaded head old state) (sound : Sound head old state)
    (member : insertion ∈ state.begun) (within : insertion.prev ∈ old) :
    old.getLast? = some insertion.prev := by
  have away := sound.old_ne_head within
  rcases threaded.placed insertion member with ⟨prev, -⟩ | ⟨-, last | ⟨other, begun, same, -⟩⟩
  · exact absurd prev away
  · cases shape : old.getLast? with
    | none => simp [List.getLast?_eq_none_iff.mp shape] at within
    | some p => rw [last, shape, Option.getD_some]
  · exact absurd (same ▸ within) (sound.new_not_old begun)

theorem threaded_read {call : AddCall} {calls : List AddCall} {value : Ptr} (sound : Sound head old state)
    (threaded : Threaded head old state) (waits : call ∈ state.waiting)
    (read : state.heap.get? (call.reads head) = some value) :
    Threaded head old (state.hasRead (call.insertion head value) calls) := by
  have grows : Grows state (state.hasRead (call.insertion head value) calls) := sound.grows_read value waits
  have placed := threaded.placed_call read
  exact
    { order := fun front insertion back shape => by
        rw [begun_hasRead] at shape
        rcases List.eq_nil_or_concat back with rfl | ⟨back, last, rfl⟩
        · obtain ⟨rfl, last⟩ := List.append_inj' shape rfl
          cases last
          rcases placed with ⟨prev, front⟩ | ⟨atHead, back⟩
          · exact ⟨by rw [prev]; exact List.mem_cons_self, front.known⟩
          · exact ⟨back.known, by rw [atHead]; exact List.mem_cons_self⟩
        · rw [List.concat_eq_append, ← List.cons_append, ← List.append_assoc] at shape
          exact threaded.order front insertion back (List.append_inj' shape rfl).1
      first := by
        obtain ⟨q, found, here⟩ := threaded.first
        exact ⟨q, found, here.mono grows⟩
      last := by
        obtain ⟨p, found, here⟩ := threaded.last
        exact ⟨p, found, here.mono grows⟩
      placed := fun insertion member => by
        rcases List.mem_append.mp member with member | member
        · exact (threaded.placed insertion member).imp (And.imp_right (·.mono grows))
            (And.imp_right (·.mono grows))
        · cases List.mem_singleton.mp member
          exact placed.imp (And.imp_right (·.mono grows)) (And.imp_right (·.mono grows))
      inside := threaded.inside
      oldLast := fun before p shape => (threaded.oldLast before p shape).mono grows rfl
      newLast := fun insertion member made atHead => by
        rcases List.mem_append.mp member with member | member
        · have other : insertion.new ≠ (call.insertion head value).new := by
            rw [AddCall.new_insertion]
            exact sound.call_ne_new waits member
          rw [made_hasRead other] at made
          exact (threaded.newLast insertion member made atHead).mono grows rfl
        · cases List.mem_singleton.mp member
          rw [made_hasRead_self] at made
          omega }

theorem threaded_store (sound : Sound head old state) (threaded : Threaded head old state)
    (member : insertion ∈ state.begun) (left : state.left insertion = store :: rest) :
    Threaded head old (state.hasStored insertion (state.heap.stored store)) := by
  have grows : Grows state (state.hasStored insertion (state.heap.stored store)) :=
    Sound.grows_store _ insertion
  have written (place : Place) : (state.heap.stored store).get? place =
      if place = store.place then some store.value else state.heap.get? place :=
    Heap.get?_stored (sound.store_live member left)
  have distinct := (List.nodup_cons.mp sound.distinct).2
  -- The last store of an insertion puts its entry behind an end.
  have linked (p : Ptr) (away : p ≠ head) (prev : insertion.prev = p) (made : state.made insertion.new = 3)
      (found : (state.heap.stored store).get? ⟨p, .next⟩ = some insertion.new) :
      Ends head (state.hasStored insertion (state.heap.stored store)) p := by
    refine .inr ⟨insertion, member, prev, ?_, by rw [made_hasStored_self, made], found⟩
    exact (sound.next_eq_head member (prev ▸ away)).1
  exact
    { order := threaded.order
      first := by
        obtain ⟨q, found, here⟩ := threaded.first
        rw [heap_hasStored, sound.get?_head member left]
        split
        · rename_i hit
          simp only [true_and, reduceCtorEq, false_and, or_false] at hit
          exact ⟨_, rfl, .inr ⟨insertion, member, rfl, hit.1, by rw [made_hasStored_self, hit.2]⟩⟩
        · exact ⟨q, found, here.mono grows⟩
      last := by
        obtain ⟨p, found, here⟩ := threaded.last
        rw [heap_hasStored, sound.get?_head member left]
        split
        · rename_i hit
          simp only [true_and, reduceCtorEq, false_and, false_or] at hit
          exact ⟨_, rfl, .inr ⟨insertion, member, rfl, hit.1, by rw [made_hasStored_self, hit.2]⟩⟩
        · exact ⟨p, found, here.mono grows⟩
      placed := fun other begun => (threaded.placed other begun).imp (And.imp_right (·.mono grows))
        (And.imp_right (·.mono grows))
      inside := fun before p q after shape => by
        rw [heap_hasStored, written]
        split
        · rename_i hit
          exfalso
          have within : p ∈ old := by simp [shape]
          rcases next_stored left hit.symm with ⟨rfl, -⟩ | ⟨rfl, -⟩
          · exact sound.new_not_old member within
          · have last := threaded.prev_last sound member within
            rw [shape, List.getLast?_append_of_ne_nil _ (List.cons_ne_nil _ _), List.getLast?_cons_cons] at last
            have once := (List.nodup_append.mp (shape ▸ (List.nodup_append.mp distinct).1)).2.1
            exact (List.nodup_cons.mp once).1 (List.mem_of_getLast? last)
        · exact threaded.inside before p q after shape
      oldLast := fun before p shape => by
        by_cases hit : (⟨p, .next⟩ : Place) = store.place
        · have within : p ∈ old := by simp [shape]
          rcases next_stored left hit.symm with ⟨rfl, -⟩ | ⟨prev, made, value⟩
          · exact absurd within (sound.new_not_old member)
          · exact linked p (sound.old_ne_head within) prev made (by rw [written, if_pos hit, value])
        · exact (threaded.oldLast before p shape).mono grows (by rw [heap_hasStored, written, if_neg hit])
      newLast := fun other begun made atHead => by
        by_cases hit : (⟨other.new, .next⟩ : Place) = store.place
        · rcases next_stored left hit.symm with ⟨own, value⟩ | ⟨prev, made, value⟩
          · cases sound.new_injective member begun own
            exact .inl (by rw [heap_hasStored, written, if_pos hit, value, atHead])
          · exact linked other.new (sound.new_ne_head begun) prev made (by rw [written, if_pos hit, value])
        · exact (threaded.newLast other begun (made_next left hit made) atHead).mono grows
            (by rw [heap_hasStored, written, if_neg hit]) }

theorem threaded_step (sound : Sound head old state) (threaded : Threaded head old state)
    (stepped : addStep head state turn = .ok next) : Threaded head old next := by
  rcases addStep_cases stepped with ⟨rfl, -⟩ | ⟨call, rest, value, waiting, read, -, -, rfl⟩ |
    ⟨front, insertion, back, store, rest, shape, left, -, -, rfl⟩
  · exact threaded
  · exact threaded_read sound threaded (waiting.mem_iff.mpr List.mem_cons_self) read
  · exact threaded_store sound threaded (by simp [shape]) left

theorem start_threaded {calls : List AddCall} (ring : Ring heap head old (calls.map AddCall.new)) :
    Threaded head old (start heap calls) where
  order front insertion back shape := by simp [start] at shape
  first := ⟨_, ring_first ring, .inl rfl⟩
  last := ⟨_, ring_last ring, .inl rfl⟩
  placed insertion member := by simp [start] at member
  inside before p q after shape :=
    ring_next before (show Ring heap head (before ++ p :: q :: after) _ from shape ▸ ring)
  oldLast before p shape := .inl (ring_next before (show Ring heap head (before ++ [p]) _ from shape ▸ ring))
  newLast insertion member := by simp [start] at member

/-! ## The way of a traversal -/

/-- What a traversal has visited, and where it stands: among the entries put in front, whose
insertions it meets from the last to the first, among the old nodes, among the entries put
behind, or back at the head. -/
inductive Way (head : Ptr) (old : List Ptr) (state : Adds α) : List Ptr → Ptr → Prop
  | front (fronts : List Insertion) (insertion : Insertion)
      (listed : (insertion :: fronts).Sublist state.begun)
      (sides : ∀ front ∈ insertion :: fronts, front.prev = head) (made : 4 ≤ state.made insertion.new) :
      Way head old state (fronts.reverse.map Insertion.new) insertion.new
  | inside (fronts : List Insertion) (before : List Ptr) (p : Ptr) (after : List Ptr)
      (listed : fronts.Sublist state.begun) (sides : ∀ front ∈ fronts, front.prev = head)
      (shape : old = before ++ p :: after) :
      Way head old state (fronts.reverse.map Insertion.new ++ before) p
  | back (fronts backs : List Insertion) (insertion : Insertion)
      (listed : fronts.Sublist state.begun) (sides : ∀ front ∈ fronts, front.prev = head)
      (listed' : (backs ++ [insertion]).Sublist state.begun)
      (sides' : ∀ back ∈ backs ++ [insertion], back.prev ≠ head) (made : 4 ≤ state.made insertion.new) :
      Way head old state (fronts.reverse.map Insertion.new ++ old ++ backs.map Insertion.new) insertion.new
  | done (fronts backs : List Insertion)
      (listed : fronts.Sublist state.begun) (sides : ∀ front ∈ fronts, front.prev = head)
      (listed' : backs.Sublist state.begun) (sides' : ∀ back ∈ backs, back.prev ≠ head) :
      Way head old state (fronts.reverse.map Insertion.new ++ old ++ backs.map Insertion.new) head

/-- The insertions go on, and the traversal is where it was. -/
theorem Way.mono (way : Way head old state visited p) (grows : Grows state next) :
    Way head old next visited p := by
  have more := grows.begun.sublist
  cases way with
  | front fronts insertion listed sides made =>
    exact .front fronts insertion (listed.trans more) sides
      (made.trans (grows.made insertion (listed.subset List.mem_cons_self)))
  | inside fronts before p after listed sides shape =>
    exact .inside fronts before p after (listed.trans more) sides shape
  | back fronts backs insertion listed sides listed' sides' made =>
    refine .back fronts backs insertion (listed.trans more) sides (listed'.trans more) sides' ?_
    exact made.trans (grows.made insertion (listed'.subset (by simp)))
  | done fronts backs listed sides listed' sides' =>
    exact .done fronts backs (listed.trans more) sides (listed'.trans more) sides'

/-- What an insertion is put in front of began before it. -/
theorem Threaded.ahead_earlier (threaded : Threaded head old state) (sound : Sound head old state)
    {front back : List Insertion} (shape : state.begun = front ++ insertion :: back)
    (member : other ∈ state.begun) (ahead : insertion.next = other.new ∨ insertion.prev = other.new) :
    other ∈ front := by
  obtain ⟨prev, next⟩ := threaded.order front insertion back shape
  have known : other.new ∈ head :: (old ++ front.map Insertion.new) := by
    rcases ahead with same | same
    · exact same ▸ next
    · exact same ▸ prev
  simp only [List.mem_cons, List.mem_append, sound.new_ne_head member, sound.new_not_old member, false_or,
    List.mem_map] at known
  obtain ⟨found, inside, same⟩ := known
  exact sound.new_injective (by simp [shape, inside]) member same ▸ inside

/-- The entries put in front are met from the last insertion to the first. -/
theorem Threaded.fronts_grow (threaded : Threaded head old state) (sound : Sound head old state)
    {fronts : List Insertion} (listed : (insertion :: fronts).Sublist state.begun)
    (member : other ∈ state.begun) (ahead : insertion.next = other.new) :
    (other :: insertion :: fronts).Sublist state.begun := by
  obtain ⟨first, second, shape, inside, later⟩ := List.cons_sublist_iff.mp listed
  obtain ⟨before, after, rfl⟩ := List.append_of_mem inside
  rw [List.append_assoc, List.cons_append] at shape
  have earlier := threaded.ahead_earlier sound shape member (.inl ahead)
  rw [shape]
  refine (List.singleton_sublist.mpr earlier).append (.cons_cons insertion ?_)
  exact later.trans (List.sublist_append_right after second)

/-- The entries put behind are met from the first insertion to the last. -/
theorem Threaded.backs_grow (threaded : Threaded head old state) (sound : Sound head old state)
    {backs : List Insertion} (listed : (backs ++ [insertion]).Sublist state.begun)
    (member : other ∈ state.begun) (behind : other.prev = insertion.new) :
    ((backs ++ [insertion]) ++ [other]).Sublist state.begun := by
  have once : (state.begun.map Insertion.new).Nodup :=
    (List.nodup_append.mp (List.nodup_append.mp (List.nodup_cons.mp sound.distinct).2).2.1).2.1
  have distinct : state.begun.Nodup := once.of_map _
  obtain ⟨front, back, shape⟩ := List.append_of_mem member
  have inFront := threaded.ahead_earlier sound shape (listed.subset (by simp)) (.inr behind)
  rw [shape] at listed distinct ⊢
  obtain ⟨earlier, later, same, inside, outside⟩ := List.sublist_append_iff.mp listed
  rcases List.eq_nil_or_concat later with rfl | ⟨later, last, rfl⟩
  · rw [List.append_nil] at same
    exact (same ▸ inside).append (List.singleton_sublist.mpr List.mem_cons_self)
  · rw [List.concat_eq_append, ← List.append_assoc] at same
    cases (List.append_inj' same rfl).2
    exact absurd rfl ((List.nodup_append.mp distinct).2.2 _ inFront _ (outside.subset (by simp)))

/-- A traversal starts at what the head leads to. -/
theorem way_start (threaded : Threaded head old state) (found : state.heap.get? ⟨head, .next⟩ = some q) :
    Way head old state [] q := by
  obtain ⟨q', found', here⟩ := threaded.first
  cases found.symm.trans found'
  rcases here with rfl | ⟨insertion, member, rfl, prev, made⟩
  · cases old with
    | nil => exact .done [] [] (List.nil_sublist _) (by simp) (List.nil_sublist _) (by simp)
    | cons first rest => exact .inside [] [] first rest (List.nil_sublist _) (by simp) rfl
  · exact .front [] insertion (List.singleton_sublist.mpr member) (by simpa using prev) made

/-- A traversal comes back to the head, or goes on to an entry that was put behind. -/
theorem way_ends (threaded : Threaded head old state) (sound : Sound head old state)
    {fronts backs : List Insertion} (listed : fronts.Sublist state.begun)
    (sides : ∀ front ∈ fronts, front.prev = head) (listed' : backs.Sublist state.begun)
    (sides' : ∀ back ∈ backs, back.prev ≠ head) (going : p ≠ head) (ends : Ends head state p)
    (last : backs = [] ∨ ∃ before insertion, backs = before ++ [insertion] ∧ insertion.new = p)
    (found : state.heap.get? ⟨p, .next⟩ = some q) :
    Way head old state (fronts.reverse.map Insertion.new ++ old ++ backs.map Insertion.new) q := by
  rcases ends with atHead | ⟨behind, member, prev, -, made, here⟩
  · cases atHead.symm.trans found
    exact .done fronts backs listed sides listed' sides'
  · cases here.symm.trans found
    refine .back fronts backs behind listed sides ?_ ?_ made
    · rcases last with rfl | ⟨before, insertion, rfl, rfl⟩
      · exact List.singleton_sublist.mpr member
      · exact threaded.backs_grow sound listed' member prev
    · intro back inside
      rcases List.mem_append.mp inside with inside | inside
      · exact sides' back inside
      · rw [List.mem_singleton.mp inside, prev]
        exact going

theorem first_head (sound : Sound head old state) (here : First head old state head) : old = [] := by
  rcases here with same | ⟨insertion, member, same, -⟩
  · cases old with
    | nil => rfl
    | cons node rest => exact absurd same.symm (sound.old_ne_head List.mem_cons_self)
  · exact absurd same (sound.new_ne_head member)

theorem last_head (sound : Sound head old state) (here : Last head old state head) : old = [] := by
  rcases here with same | ⟨insertion, member, same, -⟩
  · cases shape : old.getLast? with
    | none => exact List.getLast?_eq_none_iff.mp shape
    | some node =>
      rw [shape, Option.getD_some] at same
      exact absurd same.symm (sound.old_ne_head (List.mem_of_getLast? shape))
  · exact absurd same (sound.new_ne_head member)

/-- A traversal goes on to what its node leads to. -/
theorem way_step (sound : Sound head old state) (settled : Settled head state)
    (threaded : Threaded head old state) (way : Way head old state visited p) (going : p ≠ head)
    (found : state.heap.get? ⟨p, .next⟩ = some q) : Way head old state (visited ++ [p]) q := by
  cases way with
  | front fronts insertion listed sides made =>
    have member : insertion ∈ state.begun := listed.subset List.mem_cons_self
    have grown : (insertion :: fronts).reverse.map Insertion.new =
        fronts.reverse.map Insertion.new ++ [insertion.new] := by simp
    rw [← grown]
    by_cases atHead : insertion.next = head
    · -- The insertion was into the empty list.
      obtain rfl : old = [] := by
        rcases threaded.placed insertion member with ⟨-, here⟩ | ⟨-, here⟩
        · exact first_head sound (atHead ▸ here)
        · exact last_head sound (sides insertion List.mem_cons_self ▸ here)
      simpa using way_ends threaded sound listed sides (List.nil_sublist _) (by simp) going
        (threaded.newLast insertion member (by omega) atHead) (.inl rfl) found
    · rcases threaded.placed insertion member with ⟨-, here⟩ | ⟨same, -⟩
      · cases (settled.front insertion member (by omega) atHead).symm.trans found
        rcases here with first | ⟨other, begun, same, prev, made'⟩
        · cases old with
          | nil => exact absurd first atHead
          | cons node after =>
            have way : Way head (node :: after) state _ node :=
              .inside (insertion :: fronts) [] node after listed sides rfl
            rw [first]
            simpa using way
        · rw [← same] at made' ⊢
          refine .front (insertion :: fronts) other (threaded.fronts_grow sound listed begun same.symm) ?_ made'
          intro front inside
          rcases List.mem_cons.mp inside with rfl | inside
          · exact prev
          · exact sides front inside
      · exact absurd same atHead
  | inside fronts before p after listed sides shape =>
    cases after with
    | nil =>
      have way := way_ends threaded sound listed sides (List.nil_sublist _) (by simp) going
        (threaded.oldLast before p shape) (.inl rfl) found
      simpa [shape] using way
    | cons node after =>
      cases (threaded.inside before p node after shape).symm.trans found
      have way : Way head old state _ q := .inside fronts (before ++ [p]) q after listed sides (by simp [shape])
      simpa using way
  | back fronts backs insertion listed sides listed' sides' made =>
    have member : insertion ∈ state.begun := listed'.subset (by simp)
    have atHead := (sound.next_eq_head member (sides' insertion (by simp))).1
    have way := way_ends threaded sound listed sides listed' sides' going
      (threaded.newLast insertion member (by omega) atHead) (.inr ⟨backs, insertion, rfl, rfl⟩) found
    simpa using way
  | done fronts backs listed sides listed' sides' => exact absurd rfl going

/-- The entries on both sides of the old nodes are different new ones. -/
theorem sides_distinct (sound : Sound head old state) {fronts backs : List Insertion}
    (listed : fronts.Sublist state.begun) (sides : ∀ front ∈ fronts, front.prev = head)
    (listed' : backs.Sublist state.begun) (sides' : ∀ back ∈ backs, back.prev ≠ head) :
    (fronts.reverse.map Insertion.new ++ backs.map Insertion.new).Nodup := by
  have once : (state.begun.map Insertion.new).Nodup :=
    (List.nodup_append.mp (List.nodup_append.mp (List.nodup_cons.mp sound.distinct).2).2.1).2.1
  rw [List.map_reverse, List.nodup_append, List.nodup_reverse]
  refine ⟨once.sublist (listed.map _), once.sublist (listed'.map _), fun a front b back same => ?_⟩
  obtain ⟨insertion, inside, rfl⟩ := List.mem_map.mp (List.mem_reverse.mp front)
  obtain ⟨other, inside', rfl⟩ := List.mem_map.mp back
  cases sound.new_injective (listed.subset inside) (listed'.subset inside') same
  exact sides' insertion inside' (sides insertion inside)

/-- A traversal that has come back to the head has passed every old node, in order, between
different new entries. -/
theorem Way.whole (sound : Sound head old state) (way : Way head old state visited p) (atHead : p = head) :
    ∃ fronts backs, visited = fronts ++ old ++ backs ∧ (fronts ++ backs).Nodup ∧
      ∀ p ∈ fronts ++ backs, p ∈ state.begun.map Insertion.new := by
  cases way with
  | front fronts insertion listed sides made =>
    exact absurd atHead (sound.new_ne_head (listed.subset List.mem_cons_self))
  | inside fronts before p after listed sides shape =>
    exact absurd atHead (sound.old_ne_head (by simp [shape]))
  | back fronts backs insertion listed sides listed' sides' made =>
    exact absurd atHead (sound.new_ne_head (listed'.subset (by simp)))
  | done fronts backs listed sides listed' sides' =>
    refine ⟨_, _, rfl, sides_distinct sound listed sides listed' sides', fun p member => ?_⟩
    rcases List.mem_append.mp member with member | member
    · rw [List.map_reverse, List.mem_reverse] at member
      exact (listed.map _).subset member
    · exact (listed'.map _).subset member

/-- A traversal on its way stands on an old node or on a new entry. -/
theorem Way.stands (way : Way head old state visited p) (going : p ≠ head) :
    p ∈ old ++ state.begun.map Insertion.new := by
  rw [List.mem_append]
  cases way with
  | front fronts insertion listed sides made =>
    exact .inr (List.mem_map_of_mem (listed.subset List.mem_cons_self))
  | inside fronts before p after listed sides shape => exact .inl (by simp [shape])
  | back fronts backs insertion listed sides listed' sides' made =>
    exact .inr (List.mem_map_of_mem (listed'.subset (by simp)))
  | done fronts backs listed sides listed' sides' => exact absurd rfl going

/-- A traversal comes to no node twice. -/
theorem Way.bounded (sound : Sound head old state) (way : Way head old state visited p) (going : p ≠ head) :
    visited.length < old.length + state.begun.length := by
  cases way with
  | front fronts insertion listed sides made =>
    have fits := listed.length_le
    simp only [List.length_cons] at fits
    simp only [List.length_map, List.length_reverse]
    omega
  | inside fronts before p after listed sides shape =>
    have fits := listed.length_le
    simp only [shape, List.length_append, List.length_map, List.length_reverse, List.length_cons]
    omega
  | back fronts backs insertion listed sides listed' sides' made =>
    have apart := sides_distinct sound listed sides listed' sides'
    have within : fronts.reverse.map Insertion.new ++ (backs ++ [insertion]).map Insertion.new ⊆
        state.begun.map Insertion.new := by
      intro p member
      rcases List.mem_append.mp member with member | member
      · rw [List.map_reverse, List.mem_reverse] at member
        exact (listed.map _).subset member
      · exact (listed'.map _).subset member
    have fits := (List.subperm_of_subset apart within).length_le
    simp only [List.length_append, List.length_map, List.length_reverse, List.length_singleton] at fits ⊢
    omega
  | done fronts backs listed sides listed' sides' => exact absurd rfl going

end KernelLabs.LinuxList.Adds
