import KernelLabs.NameListWrite

/-! Readers of `/proc/list/preview` while others write. Nothing keeps an entry
in place while a reader stands on it; a reader is safe exactly as long as no
command deletes the entry under its cursor. -/
namespace KernelLabs.NameList
open CBytes LinuxList Errno

/-- One traversal of `list_proc_show`: the entry it looks at next, and what it has
printed. It has finished when the cursor is back at the head. -/
structure Reader where
  cursor : Ptr
  printed : Bytes
  deriving DecidableEq

structure Preview where
  heap : Heap NameArray
  readers : List Reader

inductive PreviewAction
  /-- Some process writes to `/proc/list/management`. -/
  | write (call : WriteCall)
  /-- A process reads `/proc/list/preview`: the traversal starts. -/
  | start
  /-- A traversal prints the entry at its cursor and follows its `next`. -/
  | advance (reader : Nat)

/-- One iteration of `list_proc_show`. -/
def showStep (heap : Heap NameArray) (reader : Reader) : Except Fault Reader :=
  if reader.cursor = nameList then .ok reader
  else do
    let printed ← showBody heap reader.printed reader.cursor
    let after ← heap.next reader.cursor
    return { cursor := after, printed := printed }

def previewStep (state : Preview) : PreviewAction → Except Fault Preview
  | .write call => do
    let (heap, _) ← listWrite state.heap call
    return { state with heap := heap }
  | .start => do
    let first ← state.heap.next nameList
    return { state with readers := state.readers ++ [{ cursor := first, printed := [] }] }
  | .advance index =>
    match state.readers[index]? with
    | none => .ok state
    | some reader => do
      let reader ← showStep state.heap reader
      return { state with readers := state.readers.set index reader }

/-- The state before anybody reads. -/
def unread (heap : Heap NameArray) : Preview where
  heap := heap
  readers := []

/-- The call deletes the entry at this address. -/
def WriteCall.Deletes (call : WriteCall) (entries : List (Ptr × Bytes)) (p : Ptr) : Prop :=
  match call.command with
  | some (.delf, name) => (entries.find? (·.2 = name)).map Prod.fst = some p
  | some (.dela, name) => (p, name) ∈ entries
  | some (.addf, _) | some (.adde, _) | none => False

/-- The command does not delete an entry that a reader stands on. -/
def Undisturbed (state : Preview) : PreviewAction → Prop
  | .write call => ∀ entries, Represents state.heap entries →
    ∀ reader ∈ state.readers, ¬ call.Deletes entries reader.cursor
  | .start | .advance _ => True

/-- Every cursor stands on an entry of the list or at its head. -/
def CursorsOn (state : Preview) : Prop :=
  ∃ entries, Represents state.heap entries ∧
    ∀ reader ∈ state.readers, reader.cursor = nameList ∨ reader.cursor ∈ entries.map Prod.fst

variable {heap : Heap NameArray} {entries : List (Ptr × Bytes)} {call : WriteCall} {p : Ptr}
  {state : Preview}

/-- An entry of the list is on the list after a command exactly when the command
does not delete it. -/
theorem mem_onEntries_iff (distinct : (entries.map Prod.fst).Nodup)
    (member : p ∈ entries.map Prod.fst) (handedOut : Nat) :
    p ∈ (call.onEntries handedOut entries).map Prod.fst ↔ ¬ call.Deletes entries p := by
  unfold WriteCall.onEntries WriteCall.Deletes
  cases call.command with
  | none => simpa using member
  | some command =>
    obtain ⟨inst, name⟩ := command
    cases inst with
    | addf => cases call.memory <;> simp_all [Inst.onEntries]
    | adde => cases call.memory <;> simp_all [Inst.onEntries]
    | delf =>
      simp only [Inst.onEntries]
      cases found : entries.find? (·.2 = name) with
      | none =>
        have others : ∀ entry ∈ entries, ¬ decide (entry.2 = name) = true :=
          List.find?_eq_none.mp found
        rw [List.eraseP_of_forall_not others]
        simpa using member
      | some entry =>
        obtain ⟨same, front, back, rfl, others⟩ := List.find?_eq_some_iff_append.mp found
        have erased : (front ++ entry :: back).eraseP (fun entry => decide (entry.2 = name)) =
            front ++ back := by
          rw [List.eraseP_append_right _ (by simpa using others)]
          simp only [List.eraseP_cons, same, cond_true]
        simp only [List.map_append, List.map_cons, List.nodup_middle, List.nodup_cons] at distinct
        rw [erased, List.map_append, Option.map_some, Option.some.injEq]
        constructor
        · rintro kept rfl
          exact distinct.1 kept
        · intro other
          simp only [List.map_append, List.map_cons, List.mem_append, List.mem_cons] at member ⊢
          rcases member with before | rfl | after
          · exact .inl before
          · exact absurd rfl other
          · exact .inr after
    | dela =>
      obtain ⟨entry, inside, rfl⟩ := List.mem_map.mp member
      simp only [Inst.onEntries]
      constructor
      · rintro kept deleted
        obtain ⟨other, survived, same⟩ := List.mem_map.mp kept
        obtain ⟨inside', differs⟩ := List.mem_filter.mp survived
        have : other = (entry.1, name) := List.inj_on_of_nodup_map distinct inside' deleted same
        simp [this] at differs
      · intro undeleted
        refine List.mem_map.mpr ⟨entry, List.mem_filter.mpr ⟨inside, ?_⟩, rfl⟩
        simp only [ne_eq, decide_eq_true_eq]
        rintro rfl
        exact undeleted inside

theorem represents_distinct (held : Represents heap entries) : (entries.map Prod.fst).Nodup := by
  have distinct := (List.nodup_cons.mp held.ring.distinct).2
  simpa using distinct

/-- One step of a reader whose cursor is on the list: it prints the name there
and moves to the next entry, or to the head. -/
theorem showStep_spec {front back : List (Ptr × Bytes)} {name : Bytes} {reader : Reader}
    (held : Represents heap (front ++ (reader.cursor, name) :: back)) :
    showStep heap reader = .ok
      { cursor := (back.map Prod.fst).head?.getD nameList, printed := reader.printed ++ name } := by
  have inside : reader.cursor ≠ nameList := fun same =>
    ring_head_not_mem held.ring (by simp [← same])
  simp [showStep, inside, showBody_ok held, holds_next held]

/-- Where a traversal of these entries starts or goes on. -/
def cursorAt (entries : List (Ptr × Bytes)) : Ptr := (entries.map Prod.fst).head?.getD nameList

theorem cursorAt_on (front back : List (Ptr × Bytes)) :
    cursorAt back = nameList ∨ cursorAt back ∈ (front ++ back).map Prod.fst := by
  cases back with
  | nil => exact .inl rfl
  | cons entry rest => exact .inr (by simp [cursorAt])

theorem previewStep_start (state : Preview) (held : Represents state.heap entries) :
    previewStep state .start =
      .ok { state with readers := state.readers ++ [⟨cursorAt entries, []⟩] } := by
  have first := Heap.next_of_next? (ring_first held.ring)
  simp only [previewStep, first, ok_bind, pure_eq_ok, cursorAt]

theorem previewStep_advance {front back : List (Ptr × Bytes)} {name : Bytes} {index : Nat}
    {reader : Reader} (held : Represents state.heap (front ++ (reader.cursor, name) :: back))
    (found : state.readers[index]? = some reader) :
    previewStep state (.advance index) = .ok
      { state with
        readers := state.readers.set index ⟨cursorAt back, reader.printed ++ name⟩ } := by
  simp only [previewStep, found, showStep_spec held, ok_bind, pure_eq_ok, cursorAt]

theorem previewStep_finished {index : Nat} {reader : Reader}
    (found : state.readers[index]? = some reader) (atHead : reader.cursor = nameList) :
    previewStep state (.advance index) = .ok state := by
  obtain ⟨inside, rfl⟩ := List.getElem?_eq_some_iff.mp found
  simp [previewStep, inside, showStep, atHead, List.set_getElem_self]

/-- An undisturbed step makes no bad access and keeps the cursors on the list. -/
theorem previewStep_keeps (state : Preview) (action : PreviewAction) (on : CursorsOn state)
    (undisturbed : Undisturbed state action) :
    ∃ next, previewStep state action = .ok next ∧ CursorsOn next := by
  obtain ⟨entries, held, cursors⟩ := on
  cases action with
  | write call =>
    obtain ⟨after, ran, represents⟩ := listWrite_spec call held
    refine ⟨{ state with heap := after }, by simp [previewStep, ran], _, represents, ?_⟩
    intro reader member
    rcases cursors reader member with atHead | onList
    · exact .inl atHead
    · exact .inr ((mem_onEntries_iff (represents_distinct held) onList _).mpr
        (undisturbed entries held reader member))
  | start =>
    refine ⟨_, previewStep_start state held, entries, held, fun reader member => ?_⟩
    rcases List.mem_append.mp member with old | new
    · exact cursors reader old
    · rw [List.mem_singleton.mp new]
      exact cursorAt_on [] entries
  | advance index =>
    cases found : state.readers[index]? with
    | none => exact ⟨state, by simp [previewStep, found], entries, held, cursors⟩
    | some reader =>
      rcases cursors reader (List.mem_of_getElem? found) with atHead | onList
      · exact ⟨state, previewStep_finished found atHead, entries, held, cursors⟩
      · obtain ⟨⟨cursor, name⟩, inside, rfl⟩ := List.mem_map.mp onList
        obtain ⟨front, back, rfl⟩ := List.append_of_mem inside
        refine ⟨_, previewStep_advance held found, _, held, fun other member => ?_⟩
        rcases List.mem_or_eq_of_mem_set member with old | rfl
        · exact cursors other old
        · simpa using cursorAt_on (front ++ [(reader.cursor, name)]) back

/-- A reader left alone prints the rest of the list and finishes at the head. -/
theorem reader_finishes (state : Preview) {index : Nat} {reader : Reader} (back front : List (Ptr × Bytes))
    (held : Represents state.heap (front ++ back)) (found : state.readers[index]? = some reader)
    (position : reader.cursor = cursorAt back) :
    ∃ final, run previewStep state (List.replicate back.length (.advance index)) = .ok final ∧
      final.readers[index]? = some ⟨nameList, reader.printed ++ (back.map Prod.snd).flatten⟩ := by
  induction back generalizing front state reader with
  | nil =>
    refine ⟨state, rfl, found.trans ?_⟩
    obtain ⟨cursor, printed⟩ := reader
    obtain rfl : cursor = nameList := position
    simp
  | cons entry back ih =>
    have here : entry.1 = reader.cursor := by simpa [cursorAt] using position.symm
    have stepped := previewStep_advance
      (show Represents state.heap (front ++ (reader.cursor, entry.2) :: back) by rwa [← here]) found
    obtain ⟨inside, -⟩ := List.getElem?_eq_some_iff.mp found
    let after : Preview :=
      { state with
        readers := state.readers.set index ⟨cursorAt back, reader.printed ++ entry.2⟩ }
    obtain ⟨final, ran, done⟩ := ih after (front ++ [entry]) (by simpa using held)
      (List.getElem?_set_self inside) rfl
    exact ⟨final, by simpa [List.replicate_succ, stepped] using ran, by simpa using done⟩

/-- A command that deletes the entry under a cursor makes that reader's next step
a read of freed memory. -/
theorem disturbed_reader_faults (state : Preview) (index : Nat) {reader : Reader} {after : Preview}
    (held : Represents state.heap entries) (found : state.readers[index]? = some reader)
    (onList : reader.cursor ∈ entries.map Prod.fst) (deletes : call.Deletes entries reader.cursor)
    (written : previewStep state (.write call) = .ok after) :
    previewStep after (.advance index) = .error .badAccess := by
  obtain ⟨heap, ran, represents⟩ := listWrite_spec call held
  have shape : after = { state with heap := heap } := by
    simp only [previewStep, ran, ok_bind, pure_eq_ok, Except.ok.injEq] at written
    exact written.symm
  subst shape
  have gone : reader.cursor ∉ (call.onEntries state.heap.handedOut entries).map Prod.fst :=
    fun kept => (mem_onEntries_iff (represents_distinct held) onList _).mp kept deletes
  have dead : heap.entry reader.cursor = none := by
    have := represents.ring.allocated reader.cursor
    rw [Option.eq_none_iff_forall_ne_some]
    rintro content found
    simp only [found, Option.isSome_some, List.not_mem_nil, or_false, true_iff] at this
    exact gone this
  have inside : reader.cursor ≠ nameList := fun same =>
    ring_head_not_mem held.ring (same ▸ onList)
  simp [previewStep, found, showStep, inside, showBody, Heap.load, dead]

/-- **Readers.** In every interleaving of commands and traversals in which no
command deletes the entry a cursor stands on, no freed entry is ever read, every
cursor stays on the list or at its head, and every reader left alone finishes at
the head. -/
theorem undisturbed_readers_are_safe (held : Represents heap entries) (actions : List PreviewAction)
    (undisturbed : Along Undisturbed previewStep (unread heap) actions) :
    ∃ final, run previewStep (unread heap) actions = .ok final ∧ CursorsOn final ∧
      ∀ index reader, final.readers[index]? = some reader →
        ∃ steps last printed,
          run previewStep final (List.replicate steps (.advance index)) = .ok last ∧
            last.readers[index]? = some ⟨nameList, printed⟩ := by
  have start : CursorsOn (unread heap) := ⟨entries, held, by simp [unread]⟩
  obtain ⟨final, ran, on⟩ := run_keeps previewStep_keeps start undisturbed
  refine ⟨final, ran, on, fun index reader found => ?_⟩
  obtain ⟨entries', held', cursors⟩ := on
  rcases cursors reader (List.mem_of_getElem? found) with atHead | onList
  · obtain ⟨last, finished, done⟩ := reader_finishes final [] entries' (by simpa using held') found atHead
    exact ⟨0, last, _, finished, done⟩
  · obtain ⟨⟨cursor, name⟩, inside, rfl⟩ := List.mem_map.mp onList
    obtain ⟨front, back, rfl⟩ := List.append_of_mem inside
    obtain ⟨last, finished, done⟩ := reader_finishes final ((reader.cursor, name) :: back) front held'
      found (by simp [cursorAt])
    exact ⟨_, last, _, finished, done⟩

/-- A reader stands on the only entry while another one is added. -/
theorem undisturbed_readers_are_safe_addition :
    ∃ final, run previewStep (unread loaded)
        [.write (sampleCall ['a', 'd', 'd', 'f', ' ', 'x']), .start,
          .write (sampleCall ['a', 'd', 'd', 'e', ' ', 'y']), .advance 0] = .ok final ∧
      CursorsOn final := by
  have adds : (sampleCall ['a', 'd', 'd', 'e', ' ', 'y']).command = some (.adde, [0x79]) := by decide
  obtain ⟨final, ran, on, -⟩ := undisturbed_readers_are_safe loaded_represents
    [.write (sampleCall ['a', 'd', 'd', 'f', ' ', 'x']), .start,
      .write (sampleCall ['a', 'd', 'd', 'e', ' ', 'y']), .advance 0]
    ⟨by simp [Undisturbed, unread], fun _ _ => ⟨trivial, fun _ _ =>
      ⟨by simp [Undisturbed, WriteCall.Deletes, adds], fun _ _ => ⟨trivial, fun _ _ => trivial⟩⟩⟩⟩
  exact ⟨final, ran, on⟩

/-- The only entry is deleted while a reader stands on it: the reader goes on
with a freed entry. -/
theorem preview_reads_freed_entry :
    run previewStep (unread loaded)
        [.write (sampleCall ['a', 'd', 'd', 'f', ' ', 'x']), .start,
          .write (sampleCall ['d', 'e', 'l', 'f', ' ', 'x']), .advance 0] = .error .badAccess := by
  obtain ⟨added, ran, one⟩ := listWrite_spec (sampleCall ['a', 'd', 'd', 'f', ' ', 'x'])
    loaded_represents
  have shape : (sampleCall ['a', 'd', 'd', 'f', ' ', 'x']).onEntries
      (loaded.handedOut) [] = [(.slab 0, [0x78])] := by decide
  rw [shape] at one
  obtain ⟨deleted, ran', -⟩ := listWrite_spec (sampleCall ['d', 'e', 'l', 'f', ' ', 'x']) one
  let reading : Preview := { heap := added, readers := [⟨.slab 0, []⟩] }
  have started : previewStep { heap := added, readers := [] } .start = .ok reading :=
    previewStep_start { heap := added, readers := [] } one
  have written : previewStep reading (.write (sampleCall ['d', 'e', 'l', 'f', ' ', 'x'])) =
      .ok { reading with heap := deleted } := by
    simp only [previewStep, reading, ran', ok_bind, pure_eq_ok]
  have deletes : (sampleCall ['d', 'e', 'l', 'f', ' ', 'x']).Deletes [(.slab 0, [0x78])]
      (.slab 0) := by
    have command : (sampleCall ['d', 'e', 'l', 'f', ' ', 'x']).command = some (.delf, [0x78]) := by
      decide
    simp [WriteCall.Deletes, command]
  have fault := disturbed_reader_faults reading 0 one rfl (by simp) deletes
    written
  have wrote : previewStep (unread loaded) (.write (sampleCall ['a', 'd', 'd', 'f', ' ', 'x'])) =
      .ok { heap := added, readers := [] } := by
    simp only [previewStep, unread, ran, ok_bind, pure_eq_ok]
  simp only [run_cons, wrote, started, written, ok_bind, fault, error_bind]

end KernelLabs.NameList
