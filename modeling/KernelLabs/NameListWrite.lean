import KernelLabs.NameListProofs

/-! Which user buffers `list_write` accepts, what it hands to its helpers, and
what a run of calls does to the list. Acceptance is defined on the user's bytes
and count alone, before any of the limits in the source apply to them. -/
namespace KernelLabs.NameList
open CBytes LinuxList Errno

/-- The four commands. -/
inductive Inst
  | addf
  | adde
  | delf
  | dela
  deriving DecidableEq, Repr

namespace Inst

def characters : Inst → List Char
  | .addf => ['a', 'd', 'd', 'f']
  | .adde => ['a', 'd', 'd', 'e']
  | .delf => ['d', 'e', 'l', 'f']
  | .dela => ['d', 'e', 'l', 'a']

/-- The command as the user writes it. -/
def text (inst : Inst) : Bytes := inst.characters.map (fun character => UInt8.ofNat character.toNat)

/-- The helper `list_write` calls for the command. -/
def helper {size : Nat} (inst : Inst) (heap : Heap NameArray) (memory : Option (Block NameArray))
    (name : CharArray size) : Except Fault (Heap NameArray × Int) :=
  match inst with
  | .addf => addToList heap memory name 'f'
  | .adde => addToList heap memory name 'e'
  | .delf => deleteFirstFromList heap name
  | .dela => deleteAllFromList heap name

theorem text_injective : Function.Injective text := by
  intro first second
  cases first <;> cases second <;> decide

theorem length_text (inst : Inst) : inst.text.length = 4 := by
  cases inst <;> rfl

theorem zero_not_mem_text (inst : Inst) : 0 ∉ inst.text := by
  cases inst <;> decide

end Inst

namespace WriteCall

/-- `copy_from_user` succeeds. -/
def Copied (call : WriteCall) : Prop :=
  call.buffer.reach call.localBufferSize.toNat = call.localBufferSize.toNat

instance (call : WriteCall) : Decidable call.Copied := inferInstanceAs (Decidable (_ = _))

/-- The command is well formed: its length, and its first four bytes. -/
def Accepted (call : WriteCall) (inst : Inst) : Prop :=
  5 ≤ call.count.toNat ∧ call.count.toNat ≤ 132 ∧ call.buffer.bytes 4 = inst.text

/-- The name in the command: the bytes from position 5 on, cut at a `NUL`. -/
def argument (call : WriteCall) : Bytes := cString ((call.buffer.bytes call.count.toNat).drop 5)

end WriteCall

variable {heap : Heap NameArray} {entries : List (Ptr × Bytes)} {call : WriteCall}

theorem localBufferSize_toNat (call : WriteCall) :
    call.localBufferSize.toNat = if 1024 < call.count.toNat then 1024 else call.count.toNat := by
  have limit : (UInt64.ofNat procfsMaxSize).toNat = 1024 := rfl
  unfold WriteCall.localBufferSize
  by_cases beyond : call.count > UInt64.ofNat procfsMaxSize
  · have above : 1024 < call.count.toNat := UInt64.lt_iff_toNat_lt.mp beyond
    rw [if_pos beyond, if_pos above, limit]
  · have below : ¬ 1024 < call.count.toNat := fun above => beyond (UInt64.lt_iff_toNat_lt.mpr above)
    rw [if_neg beyond, if_neg below]

/-- The length check, although its subtraction wraps around, keeps exactly the
counts from 5 to 132. -/
theorem nameSize_small :
    call.nameSize < UInt32.ofNat nameMaxSize ↔ 5 ≤ call.count.toNat ∧ call.count.toNat ≤ 132 := by
  have limit : (UInt32.ofNat nameMaxSize).toNat = 128 := rfl
  have five : (5 : UInt64).toNat = 5 := rfl
  have size := localBufferSize_toNat call
  rw [UInt32.lt_iff_toNat_lt, limit, WriteCall.nameSize, UInt64.toNat_toUInt32, UInt64.toNat_sub,
    five]
  split at size <;> omega

/-- An accepted call copies its whole buffer. -/
theorem accepted_size (low : 5 ≤ call.count.toNat) (high : call.count.toNat ≤ 132) :
    call.localBufferSize.toNat = call.count.toNat ∧ call.nameSize.toNat = call.count.toNat - 5 := by
  have five : (5 : UInt64).toNat = 5 := rfl
  have size := localBufferSize_toNat call
  rw [if_neg (by omega)] at size
  refine ⟨size, ?_⟩
  rw [WriteCall.nameSize, UInt64.toNat_toUInt32, UInt64.toNat_sub, five, size]
  omega

/-! ## The buffers -/

/-- A buffer that is zeroed, then filled from user space. -/
private theorem local_buffer (copied : call.Copied) :
    ∃ zeroed localBuffer, memset call.localBuffer 0 procfsMaxSize = .ok zeroed ∧
      copyFromUser zeroed 0 call.buffer call.localBufferSize.toNat = .ok (localBuffer, 0) ∧
      localBuffer.1 = call.buffer.bytes call.localBufferSize.toNat ++
        List.replicate (procfsMaxSize - call.localBufferSize.toNat) 0 := by
  have small : call.localBufferSize.toNat ≤ procfsMaxSize := by
    rw [localBufferSize_toNat]
    unfold procfsMaxSize
    split <;> omega
  obtain ⟨zeroed, cleared, zeros⟩ := write_ok call.localBuffer 0
    (List.replicate procfsMaxSize 0) (by simp)
  have whole : zeroed.1 = List.replicate procfsMaxSize 0 := by
    have length := call.localBuffer.2
    simp [zeros, List.drop_eq_nil_of_le length.le]
  obtain ⟨localBuffer, filled, contents⟩ := write_ok zeroed 0
    (call.buffer.bytes call.localBufferSize.toNat) (by simpa using small)
  refine ⟨zeroed, localBuffer, cleared, ?_, ?_⟩
  · have reached : call.buffer.reach call.localBufferSize.toNat = call.localBufferSize.toNat := copied
    simp [copyFromUser, reached, filled]
  · simp [contents, whole]

/-- `strncpy` of a field that lies inside the source, and the `NUL` stored after
it: the array then holds the string of the field. -/
private theorem copy_field {size size' : Nat} (dest : CharArray size) (src : CharArray size')
    (start count : Nat) (inside : start + count ≤ size') (room : count + 1 ≤ size) :
    ∃ copied ended, strncpy dest src start count = .ok copied ∧ copied.write count [0] = .ok ended ∧
      0 ∈ ended.1 ∧ cString ended.1 = cString ((src.1.drop start).take count) := by
  have length : ((src.1.drop start).take count).length = count := by
    have := src.2
    simp
    omega
  have width := length_padded length.le
  obtain ⟨copied, ran, contents⟩ := write_ok dest 0
    (padded ((src.1.drop start).take count) count) (by omega)
  obtain ⟨ended, stored, final⟩ := write_ok copied count [0]
    (by simpa using room)
  have shape : ended.1 = padded ((src.1.drop start).take count) count ++
      0 :: copied.1.drop (count + 1) := by
    rw [final, contents, List.take_zero, List.nil_append, List.take_append_of_le_length width.ge,
      List.take_of_length_le width.le]
    simp
  refine ⟨copied, ended, by simp only [strncpy, length, true_or, if_pos, ran], stored, ?_, ?_⟩
  · simp [shape]
  · rw [shape, cString_padded]

/-- The command word: `inst` holds the first four bytes of the buffer. -/
private theorem copy_inst (call : WriteCall) (localBuffer : CharArray procfsMaxSize) :
    ∃ copied inst, strncpy call.inst localBuffer 0 4 = .ok copied ∧
      copied.write 4 [0] = .ok inst ∧ 0 ∈ inst.1 ∧ cString inst.1 = cString (localBuffer.1.take 4) := by
  simpa using copy_field call.inst localBuffer 0 4 (by unfold procfsMaxSize; omega) (by omega)

/-- The name: `name` holds the rest of the buffer. -/
private theorem copy_name (localBuffer : CharArray procfsMaxSize) (low : 5 ≤ call.count.toNat)
    (high : call.count.toNat ≤ 132)
    (filled : localBuffer.1 = call.buffer.bytes call.localBufferSize.toNat ++
      List.replicate (procfsMaxSize - call.localBufferSize.toNat) 0) :
    ∃ copied name, strncpy call.name localBuffer 5 call.nameSize.toNat = .ok copied ∧
      copied.write call.nameSize.toNat [0] = .ok name ∧ 0 ∈ name.1 ∧
      cString name.1 = call.argument := by
  obtain ⟨size, nameSize⟩ := accepted_size low high
  obtain ⟨copied, name, ran, stored, ends, spelled⟩ := copy_field call.name localBuffer 5
    call.nameSize.toNat (by rw [nameSize]; unfold procfsMaxSize; omega)
    (by rw [nameSize]; unfold nameMaxSize; omega)
  refine ⟨copied, name, ran, stored, ends, ?_⟩
  have length : (call.buffer.bytes call.count.toNat).length = call.count.toNat := length_bytes _ _
  rw [spelled, filled, size, nameSize, WriteCall.argument,
    List.drop_append_of_le_length (by omega), List.take_append_of_le_length (by simp),
    List.take_of_length_le (by simp)]

/-- A name `list_write` passes on is always short enough for `add_to_list`. -/
theorem argument_short (high : call.count.toNat ≤ 132) :
    call.argument.length < nameMaxSize := by
  have := length_cString_le ((call.buffer.bytes call.count.toNat).drop 5)
  unfold WriteCall.argument nameMaxSize
  simp at this
  omega

/-- Comparing the command word with a literal tells the commands apart. -/
private theorem compare_inst {size : Nat} {inst : CharArray size} {field : Bytes}
    (ends : 0 ∈ inst.1) (spelled : cString inst.1 = cString field) (width : field.length = 4)
    (probe : Inst) : ∃ order, strcmp inst.1 (literal probe.characters) = .ok order ∧
      (order = 0 ↔ field = probe.text) := by
  obtain ⟨order, ran, exactly⟩ := strcmp_spec ends
    (show 0 ∈ literal probe.characters by simp [literal])
  refine ⟨order, ran, exactly.trans ?_⟩
  rw [spelled, show cString (literal probe.characters) = probe.text from
      cString_append_zero probe.zero_not_mem_text []]
  exact cString_eq_iff probe.zero_not_mem_text (by rw [width, probe.length_text])

/-! ## Acceptance -/

/-- A call whose length is out of range is refused, whatever it says. -/
private theorem write_bad_length (copied : call.Copied)
    (range : ¬ (5 ≤ call.count.toNat ∧ call.count.toNat ≤ 132)) :
    listWrite heap call = .ok (heap, -einval) := by
  obtain ⟨zeroed, localBuffer, cleared, filled, -⟩ := local_buffer copied
  obtain ⟨word, inst, cut, ended, -⟩ := copy_inst call localBuffer
  have large : UInt32.ofNat nameMaxSize ≤ call.nameSize := by
    rw [← nameSize_small] at range
    exact UInt32.not_lt.mp range
  simp [listWrite, cleared, filled, cut, ended, large]

/-- A call of acceptable length goes to the helper of its command word, or is
refused when that is none of the four. -/
theorem write_good_length (copied : call.Copied) (low : 5 ≤ call.count.toNat)
    (high : call.count.toNat ≤ 132) :
    ∃ name : CharArray (nameMaxSize + 1), 0 ∈ name.1 ∧ cString name.1 = call.argument ∧
      ∀ heap, (∀ inst : Inst, call.buffer.bytes 4 = inst.text → listWrite heap call = (do
        let (after, _) ← inst.helper heap call.memory name
        return (after, call.count.toNat))) ∧
      ((∀ inst : Inst, call.buffer.bytes 4 ≠ inst.text) →
        listWrite heap call = .ok (heap, -einval)) := by
  obtain ⟨zeroed, localBuffer, cleared, filled, contents⟩ := local_buffer copied
  obtain ⟨word', inst, cut, ended, terminated, spelled⟩ := copy_inst call localBuffer
  obtain ⟨name', name, tail, closed, ends, named⟩ := copy_name localBuffer low high contents
  obtain ⟨size, -⟩ := accepted_size low high
  have field : localBuffer.1.take 4 = call.buffer.bytes 4 := by
    have four : min 4 call.count.toNat = 4 := by omega
    rw [contents, size, List.take_append_of_le_length (by rw [length_bytes]; omega)]
    simp only [UserBuffer.bytes, ← List.map_take, List.take_range, four]
  rw [field] at spelled
  rw [size] at filled
  have small : ¬ UInt32.ofNat nameMaxSize ≤ call.nameSize :=
    UInt32.not_le.mpr (nameSize_small.mpr ⟨low, high⟩)
  have compared := compare_inst terminated spelled (length_bytes _ _)
  obtain ⟨first, isAddf, addf⟩ := compared .addf
  obtain ⟨second, isAdde, adde⟩ := compared .adde
  obtain ⟨third, isDelf, delf⟩ := compared .delf
  obtain ⟨fourth, isDela, dela⟩ := compared .dela
  simp only [Inst.characters] at isAddf isAdde isDelf isDela
  refine ⟨name, ends, named, fun heap => ⟨fun inst word => ?_, fun unknown => ?_⟩⟩
  · rw [word, Inst.text_injective.eq_iff] at addf adde delf dela
    cases inst <;>
      simp [listWrite, cleared, filled, cut, ended, small, tail, closed, isAddf, isAdde, isDelf,
        isDela, addf, adde, delf, dela, Inst.helper, size]
  · simp [listWrite, cleared, filled, cut, ended, small, tail, closed, isAddf, isAdde, isDelf,
      isDela, addf, adde, delf, dela, unknown, size]

/-- A failed copy is refused before anything is parsed. -/
private theorem write_not_copied (failed : ¬ call.Copied) :
    listWrite heap call = .ok (heap, -efault) := by
  have small : call.localBufferSize.toNat ≤ procfsMaxSize := by
    rw [localBufferSize_toNat]
    unfold procfsMaxSize
    split <;> omega
  obtain ⟨zeroed, cleared, -⟩ := write_ok call.localBuffer 0
    (List.replicate procfsMaxSize 0) (by simp)
  have reached := reach_le call.buffer call.localBufferSize.toNat
  obtain ⟨localBuffer, filled, -⟩ := write_ok zeroed 0
    (call.buffer.bytes (call.buffer.reach call.localBufferSize.toNat) ++
      List.replicate (call.localBufferSize.toNat - call.buffer.reach call.localBufferSize.toNat) 0)
    (by simp; omega)
  have left : call.localBufferSize.toNat - call.buffer.reach call.localBufferSize.toNat ≠ 0 := by
    unfold WriteCall.Copied at failed
    omega
  simp [listWrite, memset, cleared, copyFromUser, filled, left]

/-! ## Commands -/

/-- What a command makes of the entries; `new` is the entry that was allocated
for it, if any. -/
def Inst.onEntries (inst : Inst) (new : Option Ptr) (name : Bytes)
    (entries : List (Ptr × Bytes)) : List (Ptr × Bytes) :=
  match inst, new with
  | .addf, some p => (p, name) :: entries
  | .adde, some p => entries ++ [(p, name)]
  | .addf, none | .adde, none => entries
  | .delf, _ => entries.eraseP (·.2 = name)
  | .dela, _ => entries.filter (·.2 ≠ name)

/-- What a command makes of the list of names. -/
def Inst.onNames (inst : Inst) (allocated : Bool) (name : Bytes) (names : List Bytes) : List Bytes :=
  match inst, allocated with
  | .addf, true => name :: names
  | .adde, true => names ++ [name]
  | .addf, false | .adde, false => names
  | .delf, _ => names.erase name
  | .dela, _ => names.filter (· ≠ name)

/-- The names change as the entries do. -/
theorem onEntries_names (inst : Inst) (new : Option Ptr) (name : Bytes) :
    (inst.onEntries new name entries).map Prod.snd =
      inst.onNames new.isSome name (entries.map Prod.snd) := by
  have erased : (entries.eraseP (·.2 = name)).map Prod.snd = (entries.map Prod.snd).erase name := by
    rw [List.erase_eq_eraseP', List.eraseP_map]
    simp only [Function.comp_def, beq_eq_decide]
  cases inst <;> cases new <;>
    simp [Inst.onEntries, Inst.onNames, erased, List.filter_map, Function.comp_def]

/-- What a helper returns; `list_write` ignores it. -/
def Inst.helperResult (inst : Inst) (allocated : Bool) (name : Bytes) (names : List Bytes) : Int :=
  match inst, allocated with
  | .addf, true | .adde, true => 0
  | .addf, false | .adde, false => -enomem
  | .delf, _ => if name ∈ names then 0 else -1
  | .dela, _ => 0

/-- Each helper does what its command says, and never refuses a short name. -/
theorem helper_spec {size : Nat} {name : CharArray size} (inst : Inst)
    (memory : Option (Block NameArray)) (held : Represents heap entries) (ends : 0 ∈ name.1)
    (short : (cString name.1).length < nameMaxSize) :
    ∃ after, inst.helper heap memory name =
        .ok (after, inst.helperResult memory.isSome (cString name.1) (entries.map Prod.snd)) ∧
      Represents after (inst.onEntries (memory.map fun _ => .slab heap.handedOut)
        (cString name.1) entries) := by
  cases inst with
  | addf =>
    cases memory with
    | none => exact ⟨heap, addToList_no_memory (.inl rfl) ends short, held⟩
    | some block =>
      obtain ⟨after, ran, represents, -⟩ := addToList_front held block ends short
      exact ⟨after, ran, represents⟩
  | adde =>
    cases memory with
    | none => exact ⟨heap, addToList_no_memory (.inr rfl) ends short, held⟩
    | some block =>
      obtain ⟨after, ran, represents, -⟩ := addToList_end held block ends short
      exact ⟨after, ran, represents⟩
  | delf =>
    obtain ⟨after, ret, ran, represents, rfl, -⟩ := deleteFirst_spec held ends
    exact ⟨after, ran, represents⟩
  | dela =>
    obtain ⟨after, ran, represents, -⟩ := deleteAll_spec held ends
    exact ⟨after, ran, represents⟩

namespace WriteCall

/-- The command of a call and its name, if the call is accepted. -/
def command (call : WriteCall) : Option (Inst × Bytes) :=
  if call.Copied ∧ 5 ≤ call.count.toNat ∧ call.count.toNat ≤ 132 then
    ([.addf, .adde, .delf, .dela].find? fun inst : Inst => call.buffer.bytes 4 = inst.text).map
      fun inst => (inst, call.argument)
  else none

theorem command_eq_some_iff {inst : Inst} {name : Bytes} :
    call.command = some (inst, name) ↔
      call.Copied ∧ call.Accepted inst ∧ name = call.argument := by
  unfold command Accepted
  split
  · rename_i range
    simp only [range, true_and, Option.map_eq_some_iff, Prod.mk.injEq]
    constructor
    · rintro ⟨found, search, rfl, rfl⟩
      exact ⟨by simpa using List.find?_some search, rfl⟩
    · rintro ⟨text, rfl⟩
      refine ⟨inst, ?_, rfl, rfl⟩
      rw [text]
      cases inst <;> decide
  · rename_i range
    simp only [reduceCtorEq, false_iff]
    tauto

/-- What a call makes of the entries. -/
def onEntries (call : WriteCall) (handedOut : Nat) (entries : List (Ptr × Bytes)) :
    List (Ptr × Bytes) :=
  match call.command with
  | none => entries
  | some (inst, name) => inst.onEntries (call.memory.map fun _ => .slab handedOut) name entries

/-- What a call makes of the list of names. -/
def onNames (call : WriteCall) (names : List Bytes) : List Bytes :=
  match call.command with
  | none => names
  | some (inst, name) => inst.onNames call.memory.isSome name names

/-- What `list_write` returns. -/
def result (call : WriteCall) : Int :=
  if ¬ call.Copied then -efault
  else if call.command.isSome then call.count.toNat
  else -einval

end WriteCall

theorem call_onEntries_names (handedOut : Nat) :
    (call.onEntries handedOut entries).map Prod.snd = call.onNames (entries.map Prod.snd) := by
  unfold WriteCall.onEntries WriteCall.onNames
  cases call.command with
  | none => rfl
  | some command => simp [onEntries_names]

/-- An accepted command is carried out by its helper. -/
theorem listWrite_accepted {inst : Inst} (held : Represents heap entries) (copied : call.Copied)
    (accepted : call.Accepted inst) :
    ∃ name : CharArray (nameMaxSize + 1), ∃ after, 0 ∈ name.1 ∧ cString name.1 = call.argument ∧
      inst.helper heap call.memory name = .ok
        (after, inst.helperResult call.memory.isSome call.argument (entries.map Prod.snd)) ∧
      listWrite heap call = .ok (after, call.count.toNat) ∧
      Represents after (inst.onEntries (call.memory.map fun _ => .slab heap.handedOut)
        call.argument entries) := by
  obtain ⟨low, high, text⟩ := accepted
  obtain ⟨name, ends, spelled, write⟩ := write_good_length copied low high
  obtain ⟨after, ran, represents⟩ := helper_spec inst call.memory held ends
    (by rw [spelled]; exact argument_short high)
  rw [spelled] at ran represents
  exact ⟨name, after, ends, spelled, ran, by rw [(write heap).1 inst text, ran]; rfl, represents⟩

/-- Anything else is refused. -/
theorem listWrite_refused (copied : call.Copied) (refused : ∀ inst, ¬ call.Accepted inst) :
    listWrite heap call = .ok (heap, -einval) := by
  by_cases range : 5 ≤ call.count.toNat ∧ call.count.toNat ≤ 132
  · obtain ⟨_, -, -, write⟩ := write_good_length copied range.1 range.2
    exact (write heap).2 fun inst text => refused inst ⟨range.1, range.2, text⟩
  · exact write_bad_length copied range

/-- One call of `list_write`: no fault, the list changed as its command says,
and the return value. -/
theorem listWrite_spec (call : WriteCall) (held : Represents heap entries) :
    ∃ after, listWrite heap call = .ok (after, call.result) ∧
      Represents after (call.onEntries heap.handedOut entries) := by
  by_cases copied : call.Copied
  · cases commanded : call.command with
    | none =>
      refine ⟨heap, ?_, by simpa [WriteCall.onEntries, commanded] using held⟩
      simp only [WriteCall.result, copied, commanded]
      apply listWrite_refused copied
      intro inst accepted
      rw [WriteCall.command_eq_some_iff.mpr ⟨copied, accepted, rfl⟩] at commanded
      cases commanded
    | some command =>
      obtain ⟨inst, name⟩ := command
      obtain ⟨-, accepted, rfl⟩ := WriteCall.command_eq_some_iff.mp commanded
      obtain ⟨-, after, -, -, -, ran, represents⟩ := listWrite_accepted held copied accepted
      exact ⟨after, by simpa [WriteCall.result, copied, commanded] using ran,
        by simpa [WriteCall.onEntries, commanded] using represents⟩
  · have none : call.command = none := by
      simp [WriteCall.command, copied]
    exact ⟨heap, by simpa [WriteCall.result, copied] using write_not_copied copied,
      by simpa [WriteCall.onEntries, none] using held⟩

/-- **Acceptance.** With the copy from user space succeeding, a call is carried
out exactly when its count is from 5 to 132 and its first four bytes are a
command. The helper gets the rest of the bytes cut at a `NUL`, which is never too
long for it, and the whole count is returned. Every other call is refused and
leaves the list alone. No index is out of bounds in any case. -/
theorem list_write_acceptance (held : Represents heap entries) (copied : call.Copied) :
    (∀ inst, call.Accepted inst →
      ∃ name : CharArray (nameMaxSize + 1), ∃ after ret, 0 ∈ name.1 ∧
        cString name.1 = call.argument ∧ call.argument.length < nameMaxSize ∧
        inst.helper heap call.memory name = .ok (after, ret) ∧
        (inst = .addf ∨ inst = .adde → ret = if call.memory.isSome then 0 else -enomem) ∧
        listWrite heap call = .ok (after, call.count.toNat)) ∧
    ((∀ inst, ¬ call.Accepted inst) → listWrite heap call = .ok (heap, -einval)) := by
  refine ⟨fun inst accepted => ?_, listWrite_refused copied⟩
  obtain ⟨name, after, ends, spelled, helped, ran, -⟩ := listWrite_accepted held copied accepted
  refine ⟨name, after, _, ends, spelled, argument_short accepted.2.1, helped, ?_, ran⟩
  rintro (rfl | rfl) <;> cases call.memory <;> rfl

/-- A call that writes `characters`, in full, with memory to spare. -/
def sampleCall (characters : List Char) : WriteCall where
  buffer := ⟨fun i => (literal characters).getD i 0, none⟩
  count := UInt64.ofNat characters.length
  localBuffer := ⟨List.replicate procfsMaxSize 7, by simp⟩
  inst := ⟨List.replicate 5 7, by simp⟩
  name := ⟨List.replicate (nameMaxSize + 1) 7, by simp⟩
  memory := some ⟨⟨List.replicate nameMaxSize 7, by simp⟩, ⟨.null, .null⟩⟩

theorem list_write_acceptance_addf :
    ∃ after, listWrite loaded (sampleCall ['a', 'd', 'd', 'f', ' ', 'x']) = .ok (after, 6) := by
  obtain ⟨-, after, -, -, -, -, -, -, ran⟩ := (list_write_acceptance
    loaded_represents (show (sampleCall ['a', 'd', 'd', 'f', ' ', 'x']).Copied from rfl)).1 .addf
    ⟨by decide, by decide, by decide⟩
  exact ⟨after, ran⟩

/-! ## Runs -/

/-- One `write` to `/proc/list/management`. -/
def writeStep (heap : Heap NameArray) (call : WriteCall) : Except Fault (Heap NameArray) := do
  let (heap, _) ← listWrite heap call
  return heap

theorem writeStep_spec (call : WriteCall) (held : Represents heap entries) :
    ∃ after, writeStep heap call = .ok after ∧
      Represents after (call.onEntries heap.handedOut entries) := by
  obtain ⟨after, ran, represents⟩ := listWrite_spec call held
  exact ⟨after, by simp [writeStep, ran], represents⟩

/-- A run of calls, from any well-formed list. -/
theorem write_run (calls : List WriteCall) (held : Represents heap entries) :
    ∃ after entries', run writeStep heap calls = .ok after ∧ Represents after entries' ∧
      entries'.map Prod.snd =
        calls.foldl (fun names call => call.onNames names) (entries.map Prod.snd) := by
  induction calls generalizing heap entries with
  | nil => exact ⟨heap, entries, rfl, held, rfl⟩
  | cons call calls ih =>
    obtain ⟨middle, stepped, represents⟩ := writeStep_spec call held
    obtain ⟨after, entries', ran, represents', names⟩ := ih represents
    exact ⟨after, entries', by simp [stepped, ran], represents',
      by rw [names, call_onEntries_names]; rfl⟩

/-- **Refinement.** After every run of `list_write` calls, no bad access or free
has happened, the list is well formed and runs through exactly the allocated
entries, and its names are the ones the accepted commands leave. The preview
prints them in order, and `destroy_list` then frees each entry once. -/
theorem list_write_runs_refine_names (calls : List WriteCall) :
    ∃ heap entries, run writeStep loaded calls = .ok heap ∧ Represents heap entries ∧
      entries.map Prod.snd = calls.foldl (fun names call => call.onNames names) [] ∧
      listProcShow heap = .ok (calls.foldl (fun names call => call.onNames names) []).flatten ∧
      ∃ final, destroyList heap = .ok (final, 0) ∧ Represents final [] ∧
        final.freed = heap.freed ++ entries.map Prod.fst := by
  obtain ⟨heap, entries, ran, held, names⟩ := write_run calls loaded_represents
  exact ⟨heap, entries, ran, held, names, by rw [listProcShow_spec held, names]; rfl,
    destroyList_spec held⟩

end KernelLabs.NameList
