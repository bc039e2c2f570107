import KernelLabs.LinuxListAdds

/-! Interleavings of insertions that lose an entry. A step that touches a pointer
which an earlier insertion has still to store either reads the same two
neighbours as that insertion, or links an entry in behind one whose own `next` is
stored afterwards. Neither can be made good by any later step, so the
interleavings without such a step are exactly the ones that lose nothing. -/
namespace KernelLabs.LinuxList.Adds

variable {α : Type} {heap : Heap α} {head p q : Ptr} {old nodes loose : List Ptr}
  {state next final : Adds α} {turn : Turn} {turns : List Turn} {insertion other : Insertion}
  {store : Store} {rest : List Store}

/-! ## Where stores go -/

namespace Sound

variable (sound : Sound head old state)
include sound

theorem next_eq_head (member : insertion ∈ state.begun) (behind : insertion.prev ≠ head) :
    insertion.next = head ∧ state.AtBack head old insertion.prev := by
  rcases sound.placed insertion member with ⟨front, -⟩ | back
  · exact absurd front behind
  · exact back

theorem prev_eq_head (member : insertion ∈ state.begun) (ahead : insertion.next ≠ head) :
    insertion.prev = head ∧ state.AtFront head old insertion.next := by
  rcases sound.placed insertion member with front | ⟨back, -⟩
  · exact front
  · exact absurd back ahead

/-- A new entry that the head leads to was linked in at that end. -/
theorem end_new {side : Insertion → Ptr} {count : Nat} (member : insertion ∈ state.begun)
    (here : AtEnd side count head old state insertion.new) :
    side insertion = head ∧ count ≤ state.made insertion.new := by
  rcases here with ⟨isHead, -⟩ | before | ⟨found, begun, same, outside, made⟩
  · exact absurd isHead (sound.new_ne_head member)
  · exact absurd before (sound.new_not_old member)
  · exact ⟨sound.new_injective begun member same ▸ outside, made⟩

/-- The head leads to itself only where there was no old entry. -/
theorem end_head {side : Insertion → Ptr} {count : Nat}
    (here : AtEnd side count head old state head) : old = [] := by
  rcases here with ⟨-, empty⟩ | before | ⟨found, begun, same, -⟩
  · exact empty
  · exact absurd (List.mem_append_left _ before) (List.nodup_cons.mp sound.distinct).1
  · exact absurd same (sound.new_ne_head begun)

/-- Who stores the `next` of a new entry: its own insertion, and the insertions
behind it. -/
theorem stores_next (member : insertion ∈ state.begun) (left : state.left insertion = store :: rest)
    (begun : other ∈ state.begun) (hit : store.place = ⟨other.new, .next⟩) :
    (insertion = other ∧ state.made other.new = 1 ∧ store.value = other.next) ∨
    (insertion.prev = other.new ∧ insertion.next = head ∧ other.next = head ∧
      store.value = insertion.new) := by
  rcases left_eq_cons left with ⟨-, rfl⟩ | ⟨made, rfl⟩ | ⟨-, rfl⟩ | ⟨-, rfl⟩
  · cases congrArg Place.field hit
  · cases sound.new_injective member begun (congrArg Place.node hit)
    exact .inl ⟨rfl, made, rfl⟩
  · cases congrArg Place.field hit
  · have behind : insertion.prev = other.new := congrArg Place.node hit
    obtain ⟨ahead, back⟩ := sound.next_eq_head member (behind ▸ sound.new_ne_head begun)
    exact .inr ⟨behind, ahead, (sound.end_new begun (behind ▸ back)).1, rfl⟩

/-- Who stores its `prev`: its own insertion, and the insertions ahead of it. -/
theorem stores_prev (member : insertion ∈ state.begun) (left : state.left insertion = store :: rest)
    (begun : other ∈ state.begun) (hit : store.place = ⟨other.new, .prev⟩) :
    (insertion = other ∧ state.made other.new = 2 ∧ store.value = other.prev) ∨
    other.prev = head := by
  rcases left_eq_cons left with ⟨-, rfl⟩ | ⟨-, rfl⟩ | ⟨made, rfl⟩ | ⟨-, rfl⟩
  · have ahead : insertion.next = other.new := congrArg Place.node hit
    obtain ⟨-, front⟩ := sound.prev_eq_head member (ahead ▸ sound.new_ne_head begun)
    exact .inr (sound.end_new begun (ahead ▸ front)).1
  · cases congrArg Place.field hit
  · cases sound.new_injective member begun (congrArg Place.node hit)
    exact .inl ⟨rfl, made, rfl⟩
  · cases congrArg Place.field hit

end Sound

/-- An insertion has its `next` stored after a step only if it had before, or the
step stored it. -/
theorem made_next (left : state.left insertion = store :: rest)
    (missed : (⟨other.new, .next⟩ : Place) ≠ store.place)
    (made : 2 ≤ (state.hasStored insertion heap).made other.new) : 2 ≤ state.made other.new := by
  by_cases same : other.new = insertion.new
  · rw [same, made_hasStored_self] at made
    rw [same] at missed ⊢
    rcases left_eq_cons left with ⟨count, -⟩ | ⟨-, rfl⟩ | ⟨count, -⟩ | ⟨count, -⟩
    · omega
    · exact absurd rfl missed
    · omega
    · omega
  · rwa [made_hasStored same] at made

theorem made_prev (left : state.left insertion = store :: rest)
    (missed : (⟨other.new, .prev⟩ : Place) ≠ store.place)
    (made : 3 ≤ (state.hasStored insertion heap).made other.new) : 3 ≤ state.made other.new := by
  by_cases same : other.new = insertion.new
  · rw [same, made_hasStored_self] at made
    rw [same] at missed ⊢
    rcases left_eq_cons left with ⟨count, -⟩ | ⟨count, -⟩ | ⟨-, rfl⟩ | ⟨count, -⟩
    · omega
    · omega
    · exact absurd rfl missed
    · omega
  · rwa [made_hasStored same] at made

/-! ## What stays as an insertion has stored it -/

/-- The pointers of the new entries, in every interleaving. -/
structure Settled (head : Ptr) (state : Adds α) : Prop where
  /-- Nobody is placed next to an entry whose insertion begins later. -/
  order : state.begun.Pairwise fun earlier later =>
    earlier.prev ≠ later.new ∧ earlier.next ≠ later.new
  front : ∀ insertion ∈ state.begun, 2 ≤ state.made insertion.new → insertion.next ≠ head →
    state.heap.get? ⟨insertion.new, .next⟩ = some insertion.next
  back : ∀ insertion ∈ state.begun, 2 ≤ state.made insertion.new → insertion.next = head →
    state.heap.get? ⟨insertion.new, .next⟩ = some head ∨
      ∃ behind ∈ state.begun, behind.prev = insertion.new ∧ behind.next = head ∧
        state.heap.get? ⟨insertion.new, .next⟩ = some behind.new
  prev : ∀ insertion ∈ state.begun, 3 ≤ state.made insertion.new → insertion.prev ≠ head →
    state.heap.get? ⟨insertion.new, .prev⟩ = some insertion.prev

theorem settled_read {call : AddCall} {calls : List AddCall} (sound : Sound head old state)
    (settled : Settled head state) (value : Ptr) (waits : call ∈ state.waiting) :
    Settled head (state.hasRead (call.insertion head value) calls) := by
  -- The call that has just read has made no store, and the others stay as they were.
  have others : ∀ insertion ∈ state.begun ++ [call.insertion head value], ∀ count,
      count + 1 ≤ (state.hasRead (call.insertion head value) calls).made insertion.new →
      insertion ∈ state.begun ∧ count + 1 ≤ state.made insertion.new := by
    intro insertion member count made
    rcases List.mem_append.mp member with member | member
    · have other : insertion.new ≠ (call.insertion head value).new := by
        rw [AddCall.new_insertion]
        exact sound.call_ne_new waits member
      exact ⟨member, made_hasRead other ▸ made⟩
    · cases List.mem_singleton.mp member
      rw [made_hasRead_self] at made
      omega
  exact
    { order := by
        rw [begun_hasRead, List.pairwise_append]
        refine ⟨settled.order, List.pairwise_singleton _ _, fun insertion member later here => ?_⟩
        cases List.mem_singleton.mp here
        obtain ⟨prev, next⟩ := sound.known_around member
        rw [AddCall.new_insertion]
        exact ⟨sound.known_ne_call waits prev, sound.known_ne_call waits next⟩
      front := fun insertion member made ahead => by
        obtain ⟨begun, made⟩ := others insertion member 1 made
        exact settled.front insertion begun made ahead
      back := fun insertion member made atBack => by
        obtain ⟨begun, made⟩ := others insertion member 1 made
        refine (settled.back insertion begun made atBack).imp_right ?_
        rintro ⟨behind, member, facts⟩
        exact ⟨behind, List.mem_append_left _ member, facts⟩
      prev := fun insertion member made behind => by
        obtain ⟨begun, made⟩ := others insertion member 2 made
        exact settled.prev insertion begun made behind }

theorem settled_store (sound : Sound head old state) (settled : Settled head state)
    (member : insertion ∈ state.begun) (left : state.left insertion = store :: rest) :
    Settled head (state.hasStored insertion (state.heap.stored store)) := by
  have written : ∀ place, (state.heap.stored store).get? place =
      if place = store.place then some store.value else state.heap.get? place :=
    fun _ => Heap.get?_stored (sound.store_live member left)
  exact
    { order := settled.order
      front := fun other begun made ahead => by
        rw [heap_hasStored, written]
        split
        · rename_i hit
          rcases sound.stores_next member left begun hit.symm with ⟨-, -, value⟩ | ⟨-, -, back, -⟩
          · rw [value]
          · exact absurd back ahead
        · rename_i missed
          exact settled.front other begun (made_next left missed made) ahead
      back := fun other begun made atBack => by
        rw [heap_hasStored, written]
        split
        · rename_i hit
          rcases sound.stores_next member left begun hit.symm with
            ⟨-, -, value⟩ | ⟨behind, back, -, value⟩
          · exact .inl (by rw [value, atBack])
          · exact .inr ⟨insertion, member, behind, back, by rw [value]⟩
        · rename_i missed
          exact settled.back other begun (made_next left missed made) atBack
      prev := fun other begun made behind => by
        rw [heap_hasStored, written]
        split
        · rename_i hit
          rcases sound.stores_prev member left begun hit.symm with ⟨-, -, value⟩ | front
          · rw [value]
          · exact absurd front behind
        · rename_i missed
          exact settled.prev other begun (made_prev left missed made) behind }

theorem settled_step (sound : Sound head old state) (settled : Settled head state)
    (stepped : addStep head state turn = .ok next) : Settled head next := by
  rcases addStep_cases stepped with ⟨rfl, -⟩ | ⟨call, rest, value, waiting, -, -, -, rfl⟩ |
    ⟨front, insertion, back, store, rest, shape, left, -, -, rfl⟩
  · exact settled
  · exact settled_read sound settled value (waiting.mem_iff.mpr List.mem_cons_self)
  · exact settled_store sound settled (by simp [shape]) left

/-! ## What an insertion still relies on -/

/-- No two insertions take place between the same two neighbours. -/
def Unshared (state : Adds α) : Prop :=
  ∀ insertion ∈ state.begun, ∀ other ∈ state.begun,
    insertion.prev = other.prev → insertion.next = other.next → insertion = other

theorem Unshared.before (unshared : next.Unshared) (grows : Grows state next) :
    state.Unshared :=
  fun insertion member other begun =>
    unshared insertion (grows.begun.subset member) other (grows.begun.subset begun)

/-- An insertion into the empty list has made so many stores, or the list was
never empty. -/
def Seeded (old : List Ptr) (head : Ptr) (count : Nat) (state : Adds α) : Prop :=
  old ≠ [] ∨ ∃ insertion ∈ state.begun, insertion.prev = head ∧ insertion.next = head ∧
    count ≤ state.made insertion.new

theorem Seeded.mono {count : Nat} (seeded : Seeded old head count state)
    (grows : Grows state next) : Seeded old head count next := by
  rcases seeded with nonempty | ⟨insertion, member, prev, atHead, made⟩
  · exact .inl nonempty
  · exact .inr ⟨insertion, grows.begun.subset member, prev, atHead,
      made.trans (grows.made insertion member)⟩

/-- The head's pointers are as the insertions under way have read them. -/
structure Current (head : Ptr) (old : List Ptr) (state : Adds α) : Prop where
  next : ∀ insertion ∈ state.begun, state.made insertion.new ≤ 3 → insertion.prev = head →
    state.heap.get? ⟨head, .next⟩ = some insertion.next
  prev : ∀ insertion ∈ state.begun, state.made insertion.new = 0 → insertion.next = head →
    state.heap.get? ⟨head, .prev⟩ = some insertion.prev
  seededFront : ∀ insertion ∈ state.begun, insertion.next ≠ head → Seeded old head 4 state
  seededBack : ∀ insertion ∈ state.begun, insertion.prev ≠ head → Seeded old head 1 state

/-- What the head leads to goes back to an insertion into the empty list. -/
theorem seeded_of_end {side opposite : Insertion → Ptr} {count : Nat}
    (first : ∀ insertion, side insertion = head → opposite insertion = head →
      insertion.prev = head ∧ insertion.next = head)
    (later : ∀ insertion ∈ state.begun, opposite insertion ≠ head → Seeded old head count state)
    (here : AtEnd side count head old state p) (away : p ≠ head) : Seeded old head count state := by
  rcases here with ⟨same, -⟩ | before | ⟨insertion, member, rfl, outside, made⟩
  · exact absurd same away
  · exact .inl (List.ne_nil_of_mem before)
  · by_cases inside : opposite insertion = head
    · obtain ⟨prev, next⟩ := first insertion outside inside
      exact .inr ⟨insertion, member, prev, next, made⟩
    · exact later insertion member inside

theorem Current.front_seeded (current : Current head old state)
    (here : state.AtFront head old p) (away : p ≠ head) : Seeded old head 4 state :=
  seeded_of_end (fun _ prev next => ⟨prev, next⟩) current.seededFront here away

theorem Current.back_seeded (current : Current head old state)
    (here : state.AtBack head old p) (away : p ≠ head) : Seeded old head 1 state :=
  seeded_of_end (fun _ next prev => ⟨prev, next⟩) current.seededBack here away

theorem current_read {call : AddCall} {calls : List AddCall} {value : Ptr}
    (sound : Sound head old state) (current : Current head old state)
    (waits : call ∈ state.waiting) (read : state.heap.get? (call.reads head) = some value)
    (unshared : (state.hasRead (call.insertion head value) calls).Unshared) :
    Current head old (state.hasRead (call.insertion head value) calls) := by
  have grows : Grows state (state.hasRead (call.insertion head value) calls) :=
    sound.grows_read value waits
  have placed := sound.placed_call read
  generalize fresh : call.insertion head value = begins at *
  have new : begins.new = call.new := by rw [← fresh, AddCall.new_insertion]
  -- Two insertions into the empty list would have the head on both sides.
  have first : begins.prev = head → begins.next = head → ∀ count, ¬ Seeded old head count state := by
    rintro prev next count (nonempty | ⟨other, begun, prev', next', -⟩)
    · rcases placed with ⟨-, here⟩ | ⟨-, here⟩
      · exact nonempty (sound.end_head (next ▸ here))
      · exact nonempty (sound.end_head (prev ▸ here))
    · have same : other = begins := unshared other (List.mem_append_left _ begun) begins
        (List.mem_append_right _ (List.mem_singleton_self _)) (prev'.trans prev.symm)
        (next'.trans next.symm)
      exact sound.call_ne_new waits begun (same ▸ new)
  have others : ∀ insertion ∈ state.begun,
      (state.hasRead begins calls).made insertion.new = state.made insertion.new := by
    intro insertion member
    exact made_hasRead (new ▸ sound.call_ne_new waits member)
  exact
    { next := fun insertion member made prev => by
        rcases List.mem_append.mp member with member | member
        · exact current.next insertion member (others insertion member ▸ made) prev
        · cases List.mem_singleton.mp member
          obtain ⟨p, found, here⟩ := sound.first
          cases call with
          | mk function entry =>
            cases function with
            | listAdd =>
              subst fresh
              exact read
            | listAddTail =>
              subst fresh
              by_cases away : p = head
              · exact away ▸ found
              · exact absurd (current.front_seeded here away) (first prev rfl 4)
      prev := fun insertion member made atHead => by
        rcases List.mem_append.mp member with member | member
        · exact current.prev insertion member (others insertion member ▸ made) atHead
        · cases List.mem_singleton.mp member
          obtain ⟨p, found, here⟩ := sound.last
          cases call with
          | mk function entry =>
            cases function with
            | listAdd =>
              subst fresh
              by_cases away : p = head
              · exact away ▸ found
              · exact absurd (current.back_seeded here away) (first rfl atHead 1)
            | listAddTail =>
              subst fresh
              exact read
      seededFront := fun insertion member away => by
        rcases List.mem_append.mp member with member | member
        · exact (current.seededFront insertion member away).mono grows
        · cases List.mem_singleton.mp member
          rcases placed with ⟨-, here⟩ | ⟨atHead, -⟩
          · exact (current.front_seeded here away).mono grows
          · exact absurd atHead away
      seededBack := fun insertion member away => by
        rcases List.mem_append.mp member with member | member
        · exact (current.seededBack insertion member away).mono grows
        · cases List.mem_singleton.mp member
          rcases placed with ⟨atHead, -⟩ | ⟨-, here⟩
          · exact absurd atHead away
          · exact (current.back_seeded here away).mono grows }

theorem current_store (sound : Sound head old state) (current : Current head old state)
    (unshared : state.Unshared) (member : insertion ∈ state.begun)
    (left : state.left insertion = store :: rest) :
    Current head old (state.hasStored insertion (state.heap.stored store)) := by
  have grows : Grows state (state.hasStored insertion (state.heap.stored store)) :=
    Sound.grows_store _ insertion
  exact
    { next := fun other begun made prev => by
        rw [heap_hasStored, sound.get?_head member left]
        have before := current.next other begun ((grows.made other begun).trans made) prev
        split
        · rename_i hit
          simp only [true_and, reduceCtorEq, false_and, or_false] at hit
          have same := unshared insertion member other begun (hit.1.trans prev.symm)
            (Option.some.inj ((current.next insertion member hit.2.le hit.1).symm.trans before))
          rw [← same, made_hasStored_self, hit.2] at made
          omega
        · exact before
      prev := fun other begun made atHead => by
        rw [heap_hasStored, sound.get?_head member left]
        have unmade : state.made other.new = 0 := Nat.le_zero.mp (made ▸ grows.made other begun)
        have before := current.prev other begun unmade atHead
        split
        · rename_i hit
          simp only [true_and, reduceCtorEq, false_and, false_or] at hit
          have same := unshared insertion member other begun
            (Option.some.inj ((current.prev insertion member hit.2 hit.1).symm.trans before))
            (hit.1.trans atHead.symm)
          rw [← same, made_hasStored_self, hit.2] at made
          omega
        · exact before
      seededFront := fun other begun away => (current.seededFront other begun away).mono grows
      seededBack := fun other begun away => (current.seededBack other begun away).mono grows }

theorem current_step (sound : Sound head old state) (current : Current head old state)
    (unshared : next.Unshared) (stepped : addStep head state turn = .ok next) :
    Current head old next := by
  have before := unshared.before (sound.grows stepped)
  rcases addStep_cases stepped with ⟨rfl, -⟩ | ⟨call, rest, value, waiting, read, -, -, rfl⟩ |
    ⟨front, insertion, back, store, rest, shape, left, -, -, rfl⟩
  · exact current
  · exact current_read sound current (waiting.mem_iff.mpr List.mem_cons_self) read unshared
  · exact current_store sound current before (by simp [shape]) left

/-! ## Steps that are not admitted -/

/-- Reading a pointer that is still to be stored gives two insertions the same
neighbours. -/
theorem read_conflict {call : AddCall} {calls : List AddCall} {value : Ptr}
    (sound : Sound head old state) (current : Current head old state)
    (waits : call ∈ state.waiting) (read : state.heap.get? (call.reads head) = some value)
    (begun : other ∈ state.begun)
    (touched : call.reads head ∈ (state.left other).map Store.place) :
    ¬ (state.hasRead (call.insertion head value) calls).Unshared := by
  intro unshared
  have shares : ¬ (other.prev = (call.insertion head value).prev ∧
      other.next = (call.insertion head value).next) := by
    rintro ⟨prev, next⟩
    have same := unshared other (List.mem_append_left _ begun) _
      (List.mem_append_right _ (List.mem_singleton_self _)) prev next
    exact sound.call_ne_new waits begun (same ▸ AddCall.new_insertion call value)
  have new := sound.new_ne_head begun
  cases call with
  | mk function entry =>
    cases function with
    | listAdd =>
      rcases mem_left_places.mp touched with ⟨-, hit⟩ | ⟨-, hit⟩ | ⟨-, hit⟩ | ⟨made, hit⟩
      · cases congrArg Place.field hit
      · exact new (congrArg Place.node hit).symm
      · cases congrArg Place.field hit
      · have behind : other.prev = head := (congrArg Place.node hit).symm
        have found := current.next other begun made behind
        exact shares ⟨behind, Option.some.inj (found.symm.trans read)⟩
    | listAddTail =>
      rcases mem_left_places.mp touched with ⟨made, hit⟩ | ⟨-, hit⟩ | ⟨-, hit⟩ | ⟨-, hit⟩
      · have ahead : other.next = head := (congrArg Place.node hit).symm
        have found := current.prev other begun made ahead
        exact shares ⟨Option.some.inj (found.symm.trans read), ahead⟩
      · cases congrArg Place.field hit
      · exact new (congrArg Place.node hit).symm
      · cases congrArg Place.field hit

/-- A store to a pointer that an earlier insertion has still to store is the last
one of an insertion behind that entry. -/
theorem store_conflict {front back : List Insertion} (sound : Sound head old state)
    (settled : Settled head state) (current : Current head old state) (unshared : state.Unshared)
    (shape : state.begun = front ++ insertion :: back)
    (left : state.left insertion = store :: rest) (earlier : other ∈ front)
    (touched : store.place ∈ (state.left other).map Store.place) :
    insertion.prev = other.new ∧ state.made insertion.new = 3 ∧ state.made other.new ≤ 1 := by
  have member : insertion ∈ state.begun := by simp [shape]
  have begun : other ∈ state.begun := by simp [shape, earlier]
  have apart : other.new ≠ insertion.new := by
    have distinct := (List.nodup_append.mp (List.nodup_append.mp
      (List.nodup_cons.mp sound.distinct).2).2.1).2.1
    rw [shape, List.map_append, List.nodup_append] at distinct
    exact distinct.2.2 _ (List.mem_map_of_mem earlier) _ (by simp)
  obtain ⟨prev, next⟩ : other.prev ≠ insertion.new ∧ other.next ≠ insertion.new := by
    have order := settled.order
    rw [shape, List.pairwise_append] at order
    exact order.2.2 other earlier insertion List.mem_cons_self
  have clash : ¬ (insertion.prev = other.prev ∧ insertion.next = other.next) :=
    fun same => apart (unshared insertion member other begun same.1 same.2 ▸ rfl)
  rcases left_eq_cons left with ⟨made, rfl⟩ | ⟨made, rfl⟩ | ⟨made, rfl⟩ | ⟨made, rfl⟩
  · rcases mem_left_places.mp touched with ⟨made', hit⟩ | ⟨-, hit⟩ | ⟨-, hit⟩ | ⟨-, hit⟩
    · have same : insertion.next = other.next := congrArg Place.node hit
      by_cases atHead : insertion.next = head
      · have found := current.prev insertion member made atHead
        have found' := current.prev other begun made' (same ▸ atHead)
        exact absurd ⟨Option.some.inj (found.symm.trans found'), same⟩ clash
      · have front := (sound.prev_eq_head member atHead).1
        have front' := (sound.prev_eq_head begun (same ▸ atHead)).1
        exact absurd ⟨front.trans front'.symm, same⟩ clash
    · cases congrArg Place.field hit
    · have same : insertion.next = other.new := congrArg Place.node hit
      obtain ⟨-, here⟩ := sound.prev_eq_head member (same ▸ sound.new_ne_head begun)
      have finished := (sound.end_new begun (same ▸ here)).2
      rw [left_eq_nil.mpr finished] at touched
      cases touched
    · cases congrArg Place.field hit
  · rcases mem_left_places.mp touched with ⟨-, hit⟩ | ⟨-, hit⟩ | ⟨-, hit⟩ | ⟨-, hit⟩
    · cases congrArg Place.field hit
    · exact absurd (congrArg Place.node hit).symm apart
    · cases congrArg Place.field hit
    · exact absurd (congrArg Place.node hit).symm prev
  · rcases mem_left_places.mp touched with ⟨-, hit⟩ | ⟨-, hit⟩ | ⟨-, hit⟩ | ⟨-, hit⟩
    · exact absurd (congrArg Place.node hit).symm next
    · cases congrArg Place.field hit
    · exact absurd (congrArg Place.node hit).symm apart
    · cases congrArg Place.field hit
  · rcases mem_left_places.mp touched with ⟨-, hit⟩ | ⟨made', hit⟩ | ⟨-, hit⟩ | ⟨made', hit⟩
    · cases congrArg Place.field hit
    · exact ⟨congrArg Place.node hit, made, made'⟩
    · cases congrArg Place.field hit
    · have same : insertion.prev = other.prev := congrArg Place.node hit
      by_cases atHead : insertion.prev = head
      · have found := current.next insertion member made.le atHead
        have found' := current.next other begun made' (same ▸ atHead)
        exact absurd ⟨same, Option.some.inj (found.symm.trans found')⟩ clash
      · have back := (sound.next_eq_head member atHead).1
        have back' := (sound.next_eq_head begun (same ▸ atHead)).1
        exact absurd ⟨same, back.trans back'.symm⟩ clash

/-- An entry was linked in behind one whose own `next` was not stored yet, or has
been stored over the link since. -/
def Late (state : Adds α) : Prop :=
  ∃ insertion ∈ state.begun, ∃ other ∈ state.begun, insertion.prev = other.new ∧
    4 ≤ state.made insertion.new ∧
    (state.made other.new ≤ 1 ∨ state.heap.get? ⟨other.new, .next⟩ ≠ some insertion.new)

/-- No later step makes that good. -/
theorem late_step (sound : Sound head old state) (late : state.Late)
    (stepped : addStep head state turn = .ok next) : next.Late := by
  have grows := sound.grows stepped
  obtain ⟨late, member, other, begun, behind, made, lost⟩ := late
  refine ⟨late, grows.begun.subset member, other, grows.begun.subset begun, behind,
    made.trans (grows.made late member), ?_⟩
  rcases addStep_cases stepped with ⟨rfl, -⟩ | ⟨call, rest, value, waiting, -, -, -, rfl⟩ |
    ⟨front, insertion, back, store, rest, shape, left, -, -, rfl⟩
  · exact lost
  · have waits : call ∈ state.waiting := waiting.mem_iff.mpr List.mem_cons_self
    have apart : other.new ≠ (call.insertion head value).new := by
      rw [AddCall.new_insertion]
      exact sound.call_ne_new waits begun
    rwa [made_hasRead apart]
  · have storing : insertion ∈ state.begun := by simp [shape]
    rw [heap_hasStored, Heap.get?_stored (sound.store_live storing left)]
    by_cases hit : (⟨other.new, .next⟩ : Place) = store.place
    · rw [if_pos hit]
      right
      rcases sound.stores_next storing left begun hit.symm with ⟨-, -, value⟩ | ⟨-, -, -, value⟩
      · have atHead : other.next = head := (sound.end_new begun
          (behind ▸ (sound.next_eq_head member (behind ▸ sound.new_ne_head begun)).2)).1
        rw [value, atHead]
        exact fun same => sound.new_ne_head member (Option.some.inj same).symm
      · rw [value]
        intro same
        cases sound.new_injective storing member (Option.some.inj same)
        rw [left_eq_nil.mpr made] at left
        cases left
    · rw [if_neg hit]
      refine lost.imp_left fun early => ?_
      by_contra passed
      have := made_next left hit (Nat.lt_of_not_le passed)
      omega

/-! ## Well-formed endings -/

section Ending
variable (sound : Sound head old state) (settled : Settled head state)
  (finished : state.Finished) (ring : Ring state.heap head nodes loose)
  (all : ∀ insertion ∈ state.begun, insertion.new ∈ nodes)
include sound settled finished

/-- In a chain from an entry at the back, everything was linked in at the back. -/
private theorem chain_back (path : List Ptr) (member : insertion ∈ state.begun)
    (atHead : insertion.next = head) (chain : (insertion.new :: path).IsChain state.heap.Linked)
    (inside : head ∉ path) :
    ∀ p ∈ path, ∃ behind ∈ state.begun, behind.new = p ∧ behind.prev ≠ head := by
  induction path generalizing insertion with
  | nil => simp
  | cons q path ih =>
    rw [List.isChain_cons_cons] at chain
    have follows : state.heap.get? ⟨insertion.new, .next⟩ = some q := chain.1.1
    have made := left_eq_nil.mp (finished.2 insertion member)
    rcases settled.back insertion member (by omega) atHead with isHead | ⟨behind, begun, prev, next,
      found⟩
    · cases follows.symm.trans isHead
      exact absurd List.mem_cons_self inside
    · cases follows.symm.trans found
      intro p here
      rcases List.mem_cons.mp here with rfl | here
      · exact ⟨behind, begun, rfl, prev ▸ sound.new_ne_head member⟩
      · exact ih begun next chain.2 (fun later => inside (List.mem_cons_of_mem _ later)) p here

include ring

/-- An insertion into the empty list is not behind another one. -/
private theorem first_not_behind {front back : List Ptr} (member : insertion ∈ state.begun)
    (begun : other ∈ state.begun) (atHead : insertion.next = head) (prev : other.prev = head)
    (shape : nodes = front ++ insertion.new :: back) : other.new ∉ back := by
  intro behind
  have chain := ring.chain
  have whole : head :: nodes ++ [head] =
      (head :: front) ++ ((insertion.new :: back) ++ [head]) := by simp [shape]
  rw [whole] at chain
  have inside : head ∉ back := fun here => ring_head_not_mem ring (by simp [shape, here])
  obtain ⟨last, begun', same, away⟩ := chain_back sound settled finished back member atHead
    (chain.right_of_append.left_of_append) inside other.new behind
  exact away (sound.new_injective begun' begun same ▸ prev)

include all

/-- A list with all entries on it has none between the same two neighbours. -/
theorem unshared_of_ring : state.Unshared := by
  intro insertion member other begun prev next
  have made := left_eq_nil.mp (finished.2 insertion member)
  have made' := left_eq_nil.mp (finished.2 other begun)
  have inside := all insertion member
  have inside' := all other begun
  apply sound.new_injective member begun
  by_cases atHead : insertion.next = head
  · by_cases behind : insertion.prev = head
    · obtain ⟨front, back, shape⟩ := List.append_of_mem inside
      rw [shape] at inside'
      rcases List.mem_append.mp inside' with here | here
      · obtain ⟨before, after, split⟩ := List.append_of_mem here
        refine absurd ?_ (first_not_behind sound settled finished ring begun member
          (next ▸ atHead) behind (shape.trans (by rw [split, List.append_assoc]; rfl)))
        simp
      · rcases List.mem_cons.mp here with same | here
        · exact same.symm
        · exact absurd here (first_not_behind sound settled finished ring member begun atHead
            (prev ▸ behind) shape)
    · have back : state.heap.prev? insertion.new = some insertion.prev :=
        settled.prev insertion member (by omega) behind
      have back' : state.heap.prev? other.new = some other.prev :=
        settled.prev other begun (by omega) (prev ▸ behind)
      have follows := ring_linked_back ring (List.mem_cons_of_mem _ inside) back
      have follows' := ring_linked_back ring (List.mem_cons_of_mem _ inside') back'
      rw [prev] at follows
      exact Option.some.inj (follows.symm.trans follows')
  · have front : state.heap.next? insertion.new = some insertion.next :=
      settled.front insertion member (by omega) atHead
    have front' : state.heap.next? other.new = some other.next :=
      settled.front other begun (by omega) (next ▸ atHead)
    have precedes := ring_linked ring (List.mem_cons_of_mem _ inside) front
    have precedes' := ring_linked ring (List.mem_cons_of_mem _ inside') front'
    rw [next] at precedes
    exact Option.some.inj (precedes.symm.trans precedes')

/-- Nor has it an entry whose link was stored over. -/
theorem not_late_of_ring : ¬ state.Late := by
  rintro ⟨insertion, member, other, begun, behind, -, lost⟩
  have made := left_eq_nil.mp (finished.2 insertion member)
  have made' := left_eq_nil.mp (finished.2 other begun)
  have away : insertion.prev ≠ head := behind ▸ sound.new_ne_head begun
  have back : state.heap.prev? insertion.new = some insertion.prev :=
    settled.prev insertion member (by omega) away
  have follows := ring_linked_back ring (List.mem_cons_of_mem _ (all insertion member)) back
  rw [behind] at follows
  rcases lost with early | missing
  · omega
  · exact missing follows

end Ending

/-! ## Whole interleavings -/

theorem Grows.trans {last : Adds α} (first : Grows state next) (second : Grows next last) :
    Grows state last where
  begun := first.begun.trans second.begun
  made insertion member := (first.made insertion member).trans
    (second.made insertion (first.begun.subset member))

theorem run_sound (sound : Sound head old state) (ran : run (addStep head) state turns = .ok final) :
    Sound head old final :=
  run_invariant (Sound head old) (fun _ _ _ kept taken => kept.step taken) sound ran

theorem run_total (sound : Sound head old state) (turns : List Turn) :
    ∃ final, run (addStep head) state turns = .ok final := by
  induction turns generalizing state with
  | nil => exact ⟨state, rfl⟩
  | cons turn turns ih =>
    obtain ⟨next, taken⟩ := sound.total turn
    obtain ⟨final, ran⟩ := ih (sound.step taken)
    exact ⟨final, by rw [run_cons, taken, ok_bind, ran]⟩

/-- The entries and their contents stay the same. -/
theorem run_entries (ran : run (addStep head) state turns = .ok final) :
    final.heap.entry = state.heap.entry ∧
      (final.waiting.map AddCall.new ++ final.begun.map Insertion.new).Perm
        (state.waiting.map AddCall.new ++ state.begun.map Insertion.new) := by
  refine run_invariant (fun reached => reached.heap.entry = state.heap.entry ∧
    (reached.waiting.map AddCall.new ++ reached.begun.map Insertion.new).Perm
      (state.waiting.map AddCall.new ++ state.begun.map Insertion.new)) ?_
    ⟨rfl, List.Perm.refl _⟩ ran
  rintro middle turn next ⟨contents, all⟩ taken
  refine ⟨?_, (Sound.entries_step taken).trans all⟩
  rw [← contents]
  rcases addStep_cases taken with ⟨rfl, -⟩ | ⟨call, rest, value, -, -, -, -, rfl⟩ |
    ⟨front, insertion, back, store, rest, -, -, -, -, rfl⟩
  · rfl
  · rfl
  · exact Heap.entry_stored

theorem run_grows (sound : Sound head old state) (ran : run (addStep head) state turns = .ok final) :
    Grows state final := by
  have kept := run_invariant (fun reached => Sound head old reached ∧ Grows state reached)
    (fun _ _ _ ⟨sound, grows⟩ taken => ⟨sound.step taken, grows.trans (sound.grows taken)⟩)
    ⟨sound, List.prefix_rfl, fun _ _ => le_rfl⟩ ran
  exact kept.2

theorem run_settled (sound : Sound head old state) (settled : Settled head state)
    (ran : run (addStep head) state turns = .ok final) : Settled head final := by
  have kept := run_invariant (fun reached => Sound head old reached ∧ Settled head reached)
    (fun _ _ _ ⟨sound, settled⟩ taken => ⟨sound.step taken, settled_step sound settled taken⟩)
    ⟨sound, settled⟩ ran
  exact kept.2

theorem run_late (sound : Sound head old state) (late : state.Late)
    (ran : run (addStep head) state turns = .ok final) : final.Late := by
  have kept := run_invariant (fun reached => Sound head old reached ∧ reached.Late)
    (fun _ _ _ ⟨sound, late⟩ taken => ⟨sound.step taken, late_step sound late taken⟩)
    ⟨sound, late⟩ ran
  exact kept.2

/-- An insertion returns after at most four stores of its own. -/
theorem run_stores {number : Nat} (sound : Sound head old state)
    (found : state.begun[number]? = some insertion) (count : Nat) :
    ∃ next, run (addStep head) state (List.replicate count (.store number)) = .ok next ∧
      next.waiting = state.waiting ∧ next.begun = state.begun ∧
      min 4 (state.made insertion.new + count) ≤ next.made insertion.new := by
  induction count generalizing state with
  | zero => exact ⟨state, rfl, rfl, rfl, by omega⟩
  | succ count ih =>
    have once : ∃ middle, addStep head state (.store number) = .ok middle ∧
        middle.waiting = state.waiting ∧ middle.begun = state.begun ∧
        min 4 (state.made insertion.new + 1) ≤ middle.made insertion.new := by
      cases left : state.left insertion with
      | nil =>
        have returned := left_eq_nil.mp left
        exact ⟨state, by simp [addStep, found, left], rfl, rfl, by omega⟩
      | cons store rest =>
        have live := sound.store_live (List.mem_of_getElem? found) left
        refine ⟨state.hasStored insertion (state.heap.stored store), ?_, rfl, rfl, ?_⟩
        · simp [addStep, found, left, Heap.perform_ok live]
        · rw [made_hasStored_self]
          exact min_le_right _ _
    obtain ⟨middle, taken, waiting, begun, made⟩ := once
    obtain ⟨next, ran, waiting', begun', made'⟩ := ih (sound.step taken) (begun ▸ found)
    refine ⟨next, ?_, waiting'.trans waiting, begun'.trans begun, by omega⟩
    rw [List.replicate_succ, run_cons, taken, ok_bind, ran]

/-- Every step of an interleaving that ends well was admitted. -/
theorem admitted_of_ending (sound : Sound head old state) (settled : Settled head state)
    (current : Current head old state) (ran : run (addStep head) state turns = .ok final)
    (unshared : final.Unshared) (intact : ¬ final.Late) :
    Along (Admitted head) (addStep head) state turns := by
  induction turns generalizing state with
  | nil => trivial
  | cons turn turns ih =>
    obtain ⟨next, taken, rest⟩ := bind_eq_ok.mp (run_cons.symm.trans ran)
    have sound' := sound.step taken
    have before : next.Unshared := unshared.before (run_grows sound' rest)
    refine ⟨?_, fun other same => ?_⟩
    · intro place touched insertion earlier still
      rcases addStep_cases taken with ⟨-, idle⟩ | ⟨call, rest, value, waiting, read, here, begun,
        rfl⟩ | ⟨front, mover, back, store, rest, shape, left, here, begun, rfl⟩
      · rw [idle] at touched
        cases touched
      · cases Option.some.inj (here.symm.trans touched)
        exact read_conflict sound current (waiting.mem_iff.mpr List.mem_cons_self) read
          (begun ▸ earlier) still before
      · cases Option.some.inj (here.symm.trans touched)
        obtain ⟨behind, made, early⟩ := store_conflict sound settled current
          (unshared.before (run_grows sound ran)) shape left (begun ▸ earlier) still
        apply intact
        refine run_late sound' ?_ ‹_›
        have apart : insertion.new ≠ mover.new := by
          intro same
          rw [same, made] at early
          omega
        refine ⟨mover, by simp [shape], insertion, ?_, behind, ?_, .inl ?_⟩
        · rw [begun] at earlier
          simp [shape, earlier]
        · rw [made_hasStored_self, made]
        · rwa [made_hasStored apart]
    · cases taken.symm.trans same
      exact ih sound' (settled_step sound settled taken) (current_step sound current before taken)
        rest

/-- Insertions into a well-formed list never fault, however they interleave. When
all have returned, the list is well formed with every old and every new entry
exactly if no step has touched a pointer that an insertion begun before it had
still to store. -/
theorem adds_ring_iff {calls : List AddCall}
    (ring : Ring heap head old (calls.map AddCall.new)) (turns : List Turn) :
    ∃ final, run (addStep head) (start heap calls) turns = .ok final ∧
      final.heap.entry = heap.entry ∧
      (final.Finished → ((∃ nodes, Ring final.heap head nodes [] ∧
          nodes.Perm (old ++ calls.map AddCall.new)) ↔
        Along (Admitted head) (addStep head) (start heap calls) turns)) := by
  have sound := start_sound ring
  have settled : Settled head (start heap calls) := by constructor <;> simp [start]
  have current : Current head old (start heap calls) := by constructor <;> simp [start]
  obtain ⟨final, ran⟩ := run_total sound turns
  obtain ⟨unchanged, entries⟩ := run_entries ran
  refine ⟨final, ran, unchanged, fun finished => ⟨?_, fun along => ?_⟩⟩
  · rintro ⟨nodes, ending, complete⟩
    have all : ∀ insertion ∈ final.begun, insertion.new ∈ nodes := by
      intro insertion member
      rw [complete.mem_iff]
      apply List.mem_append_right
      rw [show calls = (start heap calls).waiting from rfl]
      have here := entries.mem_iff.mp
        (List.mem_append_right _ (List.mem_map_of_mem (f := Insertion.new) member))
      simpa [start] using here
    exact admitted_of_ending sound settled current ran
      (unshared_of_ring (run_sound sound ran) (run_settled sound settled ran) finished ending all)
      (not_late_of_ring (run_sound sound ran) (run_settled sound settled ran) finished ending all)
  · have kept : ∀ (state : Adds α) turn, Sound head old state ∧ Serial head old state →
        state.Admitted head turn → ∃ next, addStep head state turn = .ok next ∧
          Sound head old next ∧ Serial head old next := by
      rintro state turn ⟨sound, serial⟩ admitted
      obtain ⟨next, taken⟩ := sound.total turn
      exact ⟨next, taken, sound.step taken, serial_step sound serial admitted taken⟩
    obtain ⟨same, ran', -, nodes, ending, complete⟩ := run_keeps kept
      ⟨sound, start_serial ring⟩ along
    cases ran.symm.trans ran'
    have done : final.completed = final.heap := by
      rw [completed, List.flatMap_eq_nil_iff.mpr finished.2]
      rfl
    rw [done, finished.1] at ending
    refine ⟨nodes, ending, complete.trans (List.Perm.append_left _ ?_)⟩
    simpa [start, finished.1] using entries

/-- Two calls of `list_add` that both read before either of them stores lose one
of their entries. -/
theorem overlapping_reads_lose (ring : Ring heap head old [p, q]) :
    ∃ turns final, run (addStep head) (start heap [⟨.listAdd, p⟩, ⟨.listAdd, q⟩]) turns = .ok final ∧
      final.Finished ∧ ¬ ∃ nodes, Ring final.heap head nodes [] ∧ nodes.Perm (old ++ [p, q]) := by
  let calls : List AddCall := [⟨.listAdd, p⟩, ⟨.listAdd, q⟩]
  have sound : Sound head old (start heap calls) := start_sound ring
  have read := Heap.next_of_next? (ring_first ring)
  let first : Insertion := ⟨p, head, old.head?.getD head⟩
  let second : Insertion := ⟨q, head, old.head?.getD head⟩
  let one := (start heap calls).hasRead first [⟨.listAdd, q⟩]
  have began : addStep head (start heap calls) (.begin 0) = .ok one := by
    simp [addStep, calls, start, AddCall.reads, Heap.read, read, one, first, AddCall.insertion]
  have began' : addStep head one (.begin 0) = .ok (one.hasRead second []) := by
    simp [addStep, one, start, hasRead, AddCall.reads, Heap.read, read, second, AddCall.insertion]
  have sound' := (sound.step began).step began'
  obtain ⟨three, stored, waiting, begun, made⟩ := run_stores sound'
    (show (one.hasRead second []).begun[0]? = some first by simp [one, start]) 4
  have sound'' := run_sound sound' stored
  obtain ⟨final, stored', waiting', begun', made'⟩ := run_stores sound''
    (show three.begun[1]? = some second by rw [begun]; simp [one, start]) 4
  let turns : List Turn :=
    .begin 0 :: .begin 0 :: (List.replicate 4 (.store 0) ++ List.replicate 4 (.store 1))
  have ran : run (addStep head) (start heap calls) turns = .ok final := by
    rw [run_cons, began, ok_bind, run_cons, began', ok_bind, run_append, stored, ok_bind, stored']
  have finished : final.Finished := by
    refine ⟨waiting'.trans waiting, fun insertion member => left_eq_nil.mpr ?_⟩
    rw [begun', begun] at member
    rcases (show insertion = first ∨ insertion = second by
      simpa [one, start] using member) with rfl | rfl
    · have kept := (run_grows sound'' stored').made first (by rw [begun]; simp [one, start])
      omega
    · omega
  refine ⟨turns, final, ran, finished, fun ending => ?_⟩
  obtain ⟨final', ran', -, exactly⟩ := adds_ring_iff (show Ring heap head old (calls.map AddCall.new) from ring) turns
  cases ran.symm.trans ran'
  -- The second read finds `head->next` as the first call is going to change it.
  have admitted := (((exactly finished).mp ending).2 one began).1
  refine admitted ⟨head, .next⟩ (by simp [touches, one, start, AddCall.reads]) first
    (by simp [before, one, start]) ?_
  have unmade : one.made p = 0 := made_hasRead_self
  rw [mem_left_places]
  exact .inr (.inr (.inr ⟨unmade.le.trans (Nat.zero_le 3), rfl⟩))

end KernelLabs.LinuxList.Adds
