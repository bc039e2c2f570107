import KernelLabs.Chunks
import KernelLabs.NameListWrite

/-! Whether a reader of `/proc/list/preview` can tell the names. `list_proc_show` puts
nothing between them, so it depends on the names themselves: the newline that `echo`
sends along is all that separates them. -/
namespace KernelLabs.NameList
open CBytes LinuxList Errno Chunks InformationTheory

def newline : UInt8 := 0x0a

/-- A name the preview keeps apart: a line with its newline, or as many bytes as a name
can have without any. -/
abbrev IsLine (name : Bytes) : Prop := IsChunk newline (nameMaxSize - 1) name

/-- The names `list_write` lets in. -/
def Admitted (name : Bytes) : Prop := 0 ∉ name ∧ name.length < nameMaxSize

/-- These calls, from the loaded module on, lead to a list of these names. -/
def Reaches (calls : List WriteCall) (heap : Heap NameArray) (names : List Bytes) : Prop :=
  run writeStep loaded calls = .ok heap ∧
    ∃ entries, Represents heap entries ∧ entries.map Prod.snd = names

/-- `echo -n "adde <name>"`, with memory to spare. -/
def addeCall (name : Bytes) : WriteCall :=
  { sampleCall [] with
    buffer := ⟨fun i => (Inst.adde.text ++ 0x20 :: name).getD i 0, none⟩
    count := UInt64.ofNat (name.length + 5) }

variable {heap : Heap NameArray} {names names' : List Bytes} {name text : Bytes} {call : WriteCall}
  {calls : List WriteCall}

/-! ## The lists that can be reached -/

theorem argument_admitted (high : call.count.toNat ≤ 132) : Admitted call.argument :=
  ⟨zero_not_mem_cString _, argument_short high⟩

theorem onNames_admitted (held : ∀ name ∈ names, Admitted name) :
    ∀ name ∈ call.onNames names, Admitted name := by
  unfold WriteCall.onNames
  cases commanded : call.command with
  | none => exact held
  | some command =>
    obtain ⟨inst, added⟩ := command
    obtain ⟨-, ⟨-, high, -⟩, rfl⟩ := WriteCall.command_eq_some_iff.mp commanded
    have fits := argument_admitted high
    intro name member
    cases inst with
    | addf =>
      cases memory : call.memory.isSome <;> simp only [memory, Inst.onNames] at member
      · exact held name member
      · rcases List.mem_cons.mp member with rfl | old
        · exact fits
        · exact held name old
    | adde =>
      cases memory : call.memory.isSome <;> simp only [memory, Inst.onNames] at member
      · exact held name member
      · rcases List.mem_append.mp member with old | new
        · exact held name old
        · rw [List.mem_singleton.mp new]
          exact fits
    | delf => exact held name (List.mem_of_mem_erase member)
    | dela => exact held name (List.mem_filter.mp member).1

theorem foldl_admitted (calls : List WriteCall) (held : ∀ name ∈ names, Admitted name) :
    ∀ name ∈ calls.foldl (fun names call => call.onNames names) names, Admitted name := by
  induction calls generalizing names with
  | nil => exact held
  | cons call calls ih => exact ih (onNames_admitted held)

/-- What a run of calls reaches is decided by the calls. -/
theorem reaches_iff : Reaches calls heap names ↔ run writeStep loaded calls = .ok heap ∧
    names = calls.foldl (fun names call => call.onNames names) [] := by
  obtain ⟨after, entries, ran, held, left⟩ := write_run calls loaded_represents
  constructor
  · rintro ⟨ran', entries', held', rfl⟩
    cases ran.symm.trans ran'
    have same : entries' = entries := by
      refine holds_unique (fun content first second read read' => ?_) held' held
      exact read.2.symm.trans read'.2
    exact ⟨ran', by rw [same, left]; rfl⟩
  · rintro ⟨ran', rfl⟩
    cases ran.symm.trans ran'
    exact ⟨ran', entries, held, left⟩

theorem reaches_admitted (reached : Reaches calls heap names) : ∀ name ∈ names, Admitted name := by
  rw [(reaches_iff.mp reached).2]
  exact foldl_admitted calls (by simp)

/-- The preview of a list is its names, one after the other. -/
theorem reaches_preview (reached : Reaches calls heap names) :
    listProcShow heap = .ok names.flatten := by
  obtain ⟨-, entries, held, rfl⟩ := reached
  exact listProcShow_spec held

theorem addeCall_bytes (name : Bytes) (count : Nat) (within : count ≤ name.length + 5) :
    (addeCall name).buffer.bytes count = (Inst.adde.text ++ 0x20 :: name).take count := by
  have length : (Inst.adde.text ++ 0x20 :: name).length = name.length + 5 := by
    simp [Inst.length_text]
    omega
  apply List.ext_getElem
  · rw [length_bytes, List.length_take, length, Nat.min_eq_left within]
  · intro i below below'
    rw [length_bytes] at below
    simp only [UserBuffer.bytes, addeCall, List.getElem_map, List.getElem_range, List.getElem_take]
    exact (List.getElem_eq_getD 0).symm

/-- `adde` adds any admitted name. -/
theorem addeCall_command (fits : Admitted name) : (addeCall name).command = some (.adde, name) := by
  obtain ⟨clean, short⟩ := fits
  have count : (addeCall name).count.toNat = name.length + 5 := by
    unfold nameMaxSize at short
    simp [addeCall]
    omega
  refine WriteCall.command_eq_some_iff.mpr ⟨rfl, ⟨by omega, ?_, ?_⟩, ?_⟩
  · unfold nameMaxSize at short
    omega
  · rw [addeCall_bytes name 4 (by omega)]
    rfl
  · rw [WriteCall.argument, count, addeCall_bytes name _ le_rfl, List.take_of_length_le
      (by simp [Inst.length_text]; omega)]
    exact (cString_of_no_zero clean).symm

theorem addeCall_onNames (fits : Admitted name) : (addeCall name).onNames names = names ++ [name] := by
  rw [WriteCall.onNames, addeCall_command fits]
  rfl

/-- Every list of admitted names can be reached. -/
theorem addeCalls_reach (fits : ∀ name ∈ names, Admitted name) :
    ∃ heap, Reaches (names.map addeCall) heap names := by
  have folded : (names.map addeCall).foldl (fun names call => call.onNames names) [] = names := by
    suffices from_front : ∀ front : List Bytes,
        (names.map addeCall).foldl (fun names call => call.onNames names) front = front ++ names from
      from_front []
    induction names with
    | nil => simp
    | cons name names ih =>
      intro front
      have rest := ih (fun other member => fits other (List.mem_cons_of_mem _ member))
      rw [List.map_cons, List.foldl_cons, addeCall_onNames (fits name List.mem_cons_self), rest]
      simp
  obtain ⟨heap, entries, ran, held, left⟩ := write_run (names.map addeCall) loaded_represents
  exact ⟨heap, reaches_iff.mpr ⟨ran, folded.symm⟩⟩

/-! ## What can be told apart -/

/-- **Preview.** Two lists of lines always print different texts. No other name that
can come onto a list could be allowed besides: for each there are two different lists of
it and of lines, both within reach, that print the same text. -/
theorem preview_tells_lines_apart :
    (∀ calls calls' heap heap' names names' text text', Reaches calls heap names →
      Reaches calls' heap' names' → (∀ name ∈ names ++ names', IsLine name) → names ≠ names' →
      listProcShow heap = .ok text → listProcShow heap' = .ok text' → text ≠ text') ∧
    ∀ calls heap names name, Reaches calls heap names → name ∈ names → ¬ IsLine name →
      ∃ calls calls' heap heap' names names' text, Reaches calls heap names ∧
        Reaches calls' heap' names' ∧ (∀ other ∈ names ++ names', other = name ∨ IsLine other) ∧
        names ≠ names' ∧ listProcShow heap = .ok text ∧ listProcShow heap' = .ok text := by
  have positive : 0 < nameMaxSize - 1 := by decide
  constructor
  · intro calls calls' heap heap' names names' text text' reached reached' lines differ shown shown' same
    cases (reaches_preview reached).symm.trans shown
    cases (reaches_preview reached').symm.trans shown'
    have decodable : UniquelyDecodable {name | IsLine name} := chunks_uniquelyDecodable positive
    refine differ (decodable names names' ?_ ?_ same)
    · exact fun name member => lines name (List.mem_append_left _ member)
    · exact fun name member => lines name (List.mem_append_right _ member)
  · intro calls heap names name reached member unfit
    obtain ⟨clean, short⟩ := reaches_admitted reached name member
    obtain ⟨left, right, differ, same, kinds, symbols⟩ := confused_of_not_chunk positive unfit
    have fits (list : List Bytes) (flat : list.flatten = left.flatten)
        (kind : ∀ w ∈ list, w = name ∨ IsLine w) : ∀ w ∈ list, Admitted w := by
      intro w inside
      constructor
      · intro zero
        rcases symbols 0 (by rw [← flat]; exact List.mem_flatten_of_mem inside zero) with old | new
        · exact clean old
        · cases new
      · rcases kind w inside with rfl | line
        · exact short
        · have bound := line.length_le
          unfold nameMaxSize at bound ⊢
          omega
    obtain ⟨heap, reached⟩ := addeCalls_reach
      (fits left rfl fun w inside => kinds w (List.mem_append_left _ inside))
    obtain ⟨heap', reached'⟩ := addeCalls_reach
      (fits right same.symm fun w inside => kinds w (List.mem_append_right _ inside))
    refine ⟨_, _, heap, heap', left, right, left.flatten, reached, reached', kinds, differ,
      reaches_preview reached, ?_⟩
    rw [same]
    exact reaches_preview reached'

/-- `a` and then `b`, each with its newline, print another text than `a` alone. -/
theorem preview_tells_lines_apart_ab :
    ∃ heap heap', Reaches [addeCall [0x61, 0x0a], addeCall [0x62, 0x0a]] heap [[0x61, 0x0a], [0x62, 0x0a]] ∧
      Reaches [addeCall [0x61, 0x0a]] heap' [[0x61, 0x0a]] ∧ listProcShow heap ≠ listProcShow heap' := by
  obtain ⟨heap, reached⟩ := @addeCalls_reach [[0x61, 0x0a], [0x62, 0x0a]] (by simp [Admitted, nameMaxSize])
  obtain ⟨heap', reached'⟩ := @addeCalls_reach [[0x61, 0x0a]] (by simp [Admitted, nameMaxSize])
  refine ⟨heap, heap', reached, reached', ?_⟩
  rw [reaches_preview reached, reaches_preview reached']
  intro same
  have line (letter : UInt8) (plain : letter ≠ newline) : IsLine [letter, 0x0a] :=
    @IsChunk.marked _ newline _ [letter] (by simpa using plain.symm) (by simp [nameMaxSize])
  refine preview_tells_lines_apart.1 _ _ heap heap' _ _ _ _ reached reached' ?_ (by simp)
    (reaches_preview reached) (reaches_preview reached') (Except.ok.inj same)
  simp [line 0x61 (by decide), line 0x62 (by decide)]

/-- `ab` prints the same text as `a` and then `b`; an empty name prints nothing. -/
theorem preview_confuses_lists :
    (∃ heap heap', Reaches [addeCall [0x61, 0x62]] heap [[0x61, 0x62]] ∧
      Reaches [addeCall [0x61], addeCall [0x62]] heap' [[0x61], [0x62]] ∧
      listProcShow heap = .ok [0x61, 0x62] ∧ listProcShow heap' = .ok [0x61, 0x62]) ∧
    ∃ heap heap', Reaches [addeCall []] heap [[]] ∧ Reaches [] heap' [] ∧
      listProcShow heap = .ok [] ∧ listProcShow heap' = .ok [] := by
  obtain ⟨first, reached⟩ := @addeCalls_reach [[0x61, 0x62]] (by simp [Admitted, nameMaxSize])
  obtain ⟨second, reached'⟩ := @addeCalls_reach [[0x61], [0x62]] (by simp [Admitted, nameMaxSize])
  obtain ⟨third, empty⟩ := @addeCalls_reach [[]] (by simp [Admitted, nameMaxSize])
  obtain ⟨fourth, untouched⟩ := @addeCalls_reach [] (by simp)
  exact ⟨⟨first, second, reached, reached', reaches_preview reached, reaches_preview reached'⟩,
    third, fourth, empty, untouched, reaches_preview empty, reaches_preview untouched⟩

end KernelLabs.NameList
