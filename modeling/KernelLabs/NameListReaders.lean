import KernelLabs.LinuxListReaders
import KernelLabs.NameListAdds
import KernelLabs.NameListPreview

/-! Readers of `/proc/list/preview` while `addf` and `adde` commands are in the middle of
their stores. Entries can be lost to one another then, but what a reader prints is whole:
every name that was there before, in order, between names that are being added. -/
namespace KernelLabs.NameList
open CBytes LinuxList Errno

/-- Additions under way, and traversals of `list_proc_show` beside them. -/
structure Reading where
  adds : Adds NameArray
  readers : List Reader

inductive ReadTurn
  | add (turn : LinuxList.Turn)
  /-- A traversal reads the head's `next`. -/
  | start
  /-- A traversal prints the entry at its cursor and reads its `next`. -/
  | advance (reader : Nat)
  deriving DecidableEq

def readStep (state : Reading) : ReadTurn → Except Fault Reading
  | .add turn => do
    let adds ← addStep nameList state.adds turn
    return { state with adds := adds }
  | .start => do
    let first ← state.adds.heap.next nameList
    return { state with readers := state.readers ++ [{ cursor := first, printed := [] }] }
  | .advance index =>
    match state.readers[index]? with
    | none => .ok state
    | some reader => do
      let reader ← showStep state.adds.heap reader
      return { state with readers := state.readers.set index reader }

/-- Nobody has begun to add, and nobody reads. -/
def Reading.start (heap : Heap NameArray) (calls : List AddCall) : Reading where
  adds := .start heap calls
  readers := []

/-- The name in the entry at this address. -/
def nameAt (heap : Heap NameArray) (p : Ptr) : Bytes :=
  match heap.entry p with
  | some array => cString array.1
  | none => []

variable {heap ready : Heap NameArray} {entries : List (Ptr × Bytes)} {commands : List AddCommand}
  {calls : List AddCall} {old : List Ptr} {state next final : Reading} {turn : ReadTurn}

/-- A reader has printed the names on its way. -/
def Printed (ready : Heap NameArray) (old : List Ptr) (adds : Adds NameArray) (reader : Reader)
    (visited : List Ptr) : Prop :=
  adds.Way nameList old visited reader.cursor ∧ reader.printed = (visited.map (nameAt ready)).flatten

/-- What every turn keeps. -/
structure Beside (ready : Heap NameArray) (old : List Ptr) (calls : List AddCall) (state : Reading) : Prop where
  sound : state.adds.Sound nameList old
  settled : state.adds.Settled nameList
  threaded : state.adds.Threaded nameList old
  contents : state.adds.heap.entry = ready.entry
  all : (state.adds.waiting.map AddCall.new ++ state.adds.begun.map Insertion.new).Perm (calls.map AddCall.new)
  readers : ∀ reader ∈ state.readers, ∃ visited, Printed ready old state.adds reader visited

/-- Every entry there is has a name. -/
def AllNamed (ready : Heap NameArray) (old : List Ptr) (calls : List AddCall) : Prop :=
  ∀ p ∈ old ++ calls.map AddCall.new, ∃ array text, ready.entry p = some array ∧ Named array text

theorem nameAt_named {array : NameArray} {text : Bytes} {p : Ptr} (found : ready.entry p = some array)
    (named : Named array text) : nameAt ready p = text := by
  simp [nameAt, found, named.2]

/-- One step of a reader: it is finished, or it prints one more name. -/
theorem showStep_beside {reader : Reader} {visited : List Ptr} (beside : Beside ready old calls state)
    (named : AllNamed ready old calls) (printed : Printed ready old state.adds reader visited) :
    ∃ reader' visited', showStep state.adds.heap reader = .ok reader' ∧
      Printed ready old state.adds reader' visited' ∧
      (reader.cursor = nameList → reader'.cursor = nameList) ∧
      (reader.cursor ≠ nameList → visited'.length = visited.length + 1) := by
  by_cases finished : reader.cursor = nameList
  · exact ⟨reader, visited, by simp [showStep, finished], printed, id, fun going => absurd finished going⟩
  · obtain ⟨way, texts⟩ := printed
    have stands := way.stands finished
    obtain ⟨array, text, found, held⟩ := named reader.cursor (by
      rcases List.mem_append.mp stands with before | new
      · exact List.mem_append_left _ before
      · exact List.mem_append_right _ (beside.all.mem_iff.mp (List.mem_append_right _ new)))
    obtain ⟨after, leads⟩ : ∃ after, state.adds.heap.get? ⟨reader.cursor, .next⟩ = some after := by
      refine Heap.live_iff_get?.mp (beside.sound.known_live ?_)
      exact List.mem_cons_of_mem _ stands
    refine ⟨⟨after, reader.printed ++ text⟩, visited ++ [reader.cursor], ?_, ⟨?_, ?_⟩,
      fun done => absurd done finished, fun _ => List.length_append⟩
    · have load : state.adds.heap.load reader.cursor = .ok array := by
        simp [Heap.load, beside.contents, found]
      have next := Heap.next_of_next? leads
      simp [showStep, finished, showBody, load, seqPrintf_ok held, next]
    · exact Adds.way_step beside.sound beside.settled beside.threaded way finished leads
    · simp [texts, nameAt_named found held]

/-- A turn faults nowhere, and takes no reader back. -/
theorem readStep_beside (beside : Beside ready old calls state) (named : AllNamed ready old calls)
    (turn : ReadTurn) : ∃ next, readStep state turn = .ok next ∧ Beside ready old calls next ∧
      ∀ index reader visited, state.readers[index]? = some reader →
        Printed ready old state.adds reader visited → ∃ reader' visited',
          next.readers[index]? = some reader' ∧ Printed ready old next.adds reader' visited' ∧
          (reader.cursor = nameList → reader'.cursor = nameList) ∧
          (reader'.cursor = nameList ∨
            visited.length + (if turn = .advance index then 1 else 0) ≤ visited'.length) := by
  have shows {reader : Reader} {visited : List Ptr} (printed : Printed ready old state.adds reader visited) :=
    showStep_beside beside named printed
  obtain ⟨sound, settled, threaded, contents, all, readers⟩ := beside
  cases turn with
  | add turn =>
    obtain ⟨adds, taken⟩ := sound.total turn
    have grows := sound.grows taken
    obtain ⟨same, moved⟩ := Adds.run_entries
      (show run (addStep nameList) state.adds [turn] = .ok adds by simp [taken])
    have kept {reader : Reader} {visited : List Ptr} (printed : Printed ready old state.adds reader visited) :
        Printed ready old adds reader visited := printed.imp_left (·.mono grows)
    refine ⟨{ state with adds := adds }, by simp [readStep, taken],
      ⟨sound.step taken, Adds.settled_step sound settled taken, Adds.threaded_step sound threaded taken,
        same.trans contents, moved.trans all, fun reader member => ?_⟩, ?_⟩
    · obtain ⟨visited, printed⟩ := readers reader member
      exact ⟨visited, kept printed⟩
    · intro index reader visited found printed
      exact ⟨reader, visited, found, kept printed, id, .inr (by simp)⟩
  | start =>
    obtain ⟨first, found, -⟩ := threaded.first
    have read := Heap.next_of_next? found
    refine ⟨{ state with readers := state.readers ++ [⟨first, []⟩] }, by simp [readStep, read],
      ⟨sound, settled, threaded, contents, all, fun reader member => ?_⟩, ?_⟩
    · rcases List.mem_append.mp member with before | new
      · exact readers reader before
      · rw [List.mem_singleton.mp new]
        exact ⟨[], Adds.way_start threaded found, rfl⟩
    · intro index reader visited found printed
      refine ⟨reader, visited, ?_, printed, id, .inr (by simp)⟩
      rw [List.getElem?_append_left (List.getElem?_eq_some_iff.mp found).1, found]
  | advance index =>
    cases here : state.readers[index]? with
    | none =>
      refine ⟨state, by simp [readStep, here], ⟨sound, settled, threaded, contents, all, readers⟩, ?_⟩
      intro other reader visited found printed
      refine ⟨reader, visited, found, printed, id, .inr ?_⟩
      have apart : index ≠ other := by
        rintro rfl
        cases here.symm.trans found
      simp [apart]
    | some reader =>
      have member := List.mem_of_getElem? here
      obtain ⟨inside, -⟩ := List.getElem?_eq_some_iff.mp here
      obtain ⟨visited, printed⟩ := readers reader member
      obtain ⟨reader', visited', shown, printed', -⟩ := shows printed
      refine ⟨{ state with readers := state.readers.set index reader' }, by simp [readStep, here, shown],
        ⟨sound, settled, threaded, contents, all, fun other old => ?_⟩, ?_⟩
      · rcases List.mem_or_eq_of_mem_set old with before | rfl
        · exact readers other before
        · exact ⟨visited', printed'⟩
      · intro other one passed found printed
        by_cases mine : index = other
        · subst mine
          cases here.symm.trans found
          obtain ⟨reader'', passed', shown', printed'', rests, goes⟩ := shows printed
          cases shown.symm.trans shown'
          refine ⟨reader', passed', List.getElem?_set_self inside, printed'', rests, ?_⟩
          by_cases finished : reader.cursor = nameList
          · exact .inl (rests finished)
          · exact .inr (by simp [goes finished])
        · refine ⟨one, passed, ?_, printed, id, .inr (by simp [mine])⟩
          rw [List.getElem?_set_ne mine, found]

/-- A reader that gets a turn goes on, whatever happens in between. -/
theorem run_beside (beside : Beside ready old calls state) (named : AllNamed ready old calls)
    (turns : List ReadTurn) : ∃ final, run readStep state turns = .ok final ∧ Beside ready old calls final ∧
      ∀ index reader visited, state.readers[index]? = some reader →
        Printed ready old state.adds reader visited → ∃ reader' visited',
          final.readers[index]? = some reader' ∧ Printed ready old final.adds reader' visited' ∧
          (reader.cursor = nameList → reader'.cursor = nameList) ∧
          (reader'.cursor = nameList ∨ visited.length + turns.count (.advance index) ≤ visited'.length) := by
  induction turns generalizing state with
  | nil =>
    exact ⟨state, rfl, beside, fun index reader visited found printed =>
      ⟨reader, visited, found, printed, id, .inr (by simp)⟩⟩
  | cons turn turns ih =>
    obtain ⟨middle, taken, kept, once⟩ := readStep_beside beside named turn
    obtain ⟨final, ran, done, later⟩ := ih kept
    refine ⟨final, by simp [taken, ran], done, fun index reader visited found printed => ?_⟩
    obtain ⟨reader', visited', found', printed', rests, goes⟩ := once index reader visited found printed
    obtain ⟨reader'', visited'', found'', printed'', rests', goes'⟩ :=
      later index reader' visited' found' printed'
    refine ⟨reader'', visited'', found'', printed'', rests' ∘ rests, ?_⟩
    rcases goes with finished | goes
    · exact .inl (rests' finished)
    · refine goes'.imp_right fun goes' => ?_
      rw [List.count_cons]
      simp only [beq_iff_eq]
      omega

/-- **Previews beside additions.** However the stores of any `addf` and `adde` commands and the steps
of any number of previews interleave, nothing faults. A preview that gets as many turns as there
are entries, old and new, has finished, and one that has finished has printed every old name, in
order, between the names of different new entries. -/
theorem previews_beside_adds (held : Represents heap entries) (commands : List AddCommand) :
    ∃ ready calls, answers prepareEntry heap commands = .ok (ready, calls) ∧
      ∀ turns, ∃ state, run readStep (.start ready calls) turns = .ok state ∧
        ∀ index reader, state.readers[index]? = some reader →
          (∀ more, entries.length + commands.length ≤ more.count (.advance index) →
            ∃ final reader', run readStep state more = .ok final ∧
              final.readers[index]? = some reader' ∧ reader'.cursor = nameList) ∧
          (reader.cursor = nameList → ∃ fronts backs : List (Ptr × Bytes),
            reader.printed = ((fronts ++ entries ++ backs).map Prod.snd).flatten ∧
            (fronts ++ backs).Nodup ∧ ∀ entry ∈ fronts ++ backs, entry ∈ added commands calls) := by
  obtain ⟨ready, calls, ran, functions, ring, stored, kept⟩ := prepare_all held.ring commands
  rw [List.append_nil] at ring
  refine ⟨ready, calls, ran, fun turns => ?_⟩
  have width : calls.length = commands.length := by simpa using congrArg List.length functions
  have addresses : (added commands calls).map Prod.fst = calls.map AddCall.new := by
    rw [added, List.map_fst_zip (by simp [width])]
  have holds (entry : Ptr × Bytes) (member : entry ∈ entries ++ added commands calls) :
      ∃ array, ready.entry entry.1 = some array ∧ Named array entry.2 := by
    rcases List.mem_append.mp member with before | new
    · obtain ⟨array, found, named⟩ := held.stored entry before
      have here : entry.1 ∈ entries.map Prod.fst := List.mem_map_of_mem before
      exact ⟨array, by rw [kept entry.1 (by simpa using here), found], named⟩
    · exact stored entry new
  have spelled (entry : Ptr × Bytes) (member : entry ∈ entries ++ added commands calls) :
      nameAt ready entry.1 = entry.2 := by
    obtain ⟨array, found, named⟩ := holds entry member
    exact nameAt_named found named
  have named : AllNamed ready (entries.map Prod.fst) calls := by
    intro p member
    rw [← addresses, ← List.map_append] at member
    obtain ⟨entry, inside, rfl⟩ := List.mem_map.mp member
    obtain ⟨array, found, text⟩ := holds entry inside
    exact ⟨array, entry.2, found, text⟩
  have start : Beside ready (entries.map Prod.fst) calls (.start ready calls) :=
    ⟨Adds.start_sound ring, by constructor <;> simp [Reading.start, Adds.start], Adds.start_threaded ring, rfl,
      by simp [Reading.start, Adds.start], by simp [Reading.start]⟩
  obtain ⟨state, reached, beside, -⟩ := run_beside start named turns
  refine ⟨state, reached, fun index reader found => ?_⟩
  obtain ⟨visited, printed⟩ := beside.readers reader (List.mem_of_getElem? found)
  refine ⟨fun more enough => ?_, fun finished => ?_⟩
  · obtain ⟨final, ran', beside', later⟩ := run_beside beside named more
    obtain ⟨reader', visited', found', printed', -, goes⟩ := later index reader visited found printed
    refine ⟨final, reader', ran', found', goes.elim id fun goes => ?_⟩
    by_contra going
    have bounded := printed'.1.bounded beside'.sound going
    have begun := beside'.all.length_eq
    simp only [List.length_append, List.length_map] at bounded begun
    omega
  · obtain ⟨fronts, backs, whole, once, new⟩ := printed.1.whole beside.sound finished
    refine ⟨fronts.map fun p => (p, nameAt ready p), backs.map fun p => (p, nameAt ready p), ?_, ?_, ?_⟩
    · have texts : (entries.map Prod.fst).map (nameAt ready) = entries.map Prod.snd := by
        rw [List.map_map]
        exact List.map_congr_left fun entry member => spelled entry (List.mem_append_left _ member)
      rw [printed.2, whole]
      simp [texts, Function.comp_def]
    · rw [← List.map_append]
      exact once.map fun p q same => congrArg Prod.fst same
    · intro entry member
      rw [← List.map_append] at member
      obtain ⟨p, inside, rfl⟩ := List.mem_map.mp member
      have address : p ∈ (added commands calls).map Prod.fst := by
        rw [addresses]
        exact beside.all.mem_iff.mp (List.mem_append_right _ (new p inside))
      obtain ⟨entry, given, rfl⟩ := List.mem_map.mp address
      rw [spelled entry (List.mem_append_right _ given)]
      exact given

/-- A preview of the empty list beside an `addf` and an `adde` takes two turns at most. -/
theorem previews_beside_adds_two : ∃ ready calls,
    answers prepareEntry loaded [sampleCommand .listAdd, sampleCommand .listAddTail] = .ok (ready, calls) ∧
    ∀ turns, ∃ state, run readStep (.start ready calls) turns = .ok state ∧
      ∀ index reader, state.readers[index]? = some reader →
        ∃ final reader', run readStep state (List.replicate 2 (.advance index)) = .ok final ∧
          final.readers[index]? = some reader' ∧ reader'.cursor = nameList := by
  obtain ⟨ready, calls, ran, every⟩ := previews_beside_adds loaded_represents
    [sampleCommand .listAdd, sampleCommand .listAddTail]
  refine ⟨ready, calls, ran, fun turns => ?_⟩
  obtain ⟨state, reached, readers⟩ := every turns
  exact ⟨state, reached, fun index reader found => (readers index reader found).1 _ (by simp)⟩

end KernelLabs.NameList
