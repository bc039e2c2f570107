import KernelLabs.CharDeviceBuffer

/-! The devices as they lie in memory: an array of structures, each with its `cdev` in
front. A write that leaves its own structure goes on through the ones behind it. After
a `MY_IOCTL_SET_BUFFER` the ioctls and the calls with an offset see the same 256 bytes,
as long as no write elsewhere does that. -/
namespace KernelLabs.CharDevice
open CBytes Errno

/-! ## The array of devices -/

section Array
/- `sizeof(struct cdev)`, which lies in front of every `device_buffer`. -/
variable (gap : Nat)

/-- Where the `device_buffer` of a device lies, from that of the first on. -/
def place (minor : Fin myMaxMinors) : Nat := minor.val * (gap + dataSize)

/-- Where the array ends. -/
def arrayEnd : Nat := (myMaxMinors - 1) * (gap + dataSize) + dataSize

/-- A device after bytes were stored from some place on; those that fall on a `cdev`
change no device. -/
def struckBy (start : Nat) (bytes : Bytes) (minor : Fin myMaxMinors) (myData : MyDeviceData) :
    MyDeviceData :=
  ofDataBytes ⟨(List.range dataSize).map fun index =>
    copiedTo (fun address => (dataBytes myData).1.getD (address - place gap minor) 0) start bytes
      (place gap minor + index), by simp⟩

/-- `copy_from_user(devs[minor].device_buffer + start, user, count)`. -/
def devsFromUser (devs : Fin myMaxMinors → MyDeviceData) (minor : Fin myMaxMinors) (start : Nat)
    (user : UserBuffer) (count : Nat) : Except Fault ((Fin myMaxMinors → MyDeviceData) × Nat) :=
  match dataFromUser (devs minor) start user count with
  | .ok (myData, left) => .ok (Function.update devs minor myData, left)
  | .error _ =>
    let left := count - user.reach count
    let bytes := user.bytes (user.reach count) ++ List.replicate left 0
    if place gap minor + start + count ≤ arrayEnd gap then
      .ok (fun other => struckBy gap (place gap minor + start) bytes other (devs other), left)
    else .error .outOfBounds

/-- `my_write`, wherever in the array it copies to. -/
def arrayWrite (devs : Fin myMaxMinors → MyDeviceData) (minor : Fin myMaxMinors) (userBuffer : UserBuffer)
    (size offset : UInt64) : Except Fault ((Fin myMaxMinors → MyDeviceData) × UInt64 × Int) := do
  let len := min ((devs minor).size - offset) size
  if len ≤ 0 then return (devs, offset, 0)
  let (devs, left) ← devsFromUser gap devs minor offset.toNat userBuffer len.toNat
  if left ≠ 0 then return (devs, offset, -efault)
  return (devs, offset + len, ssize len)

variable (beyond : Fin myMaxMinors → Nat → UInt8)

/-- One system call, start to end. -/
def arrayServe (state : Cdev) : Call → Except Fault (Cdev × Reply)
  | .write fd user size => onFile state fd fun file =>
    if ssize file.pos < 0 then .ok (state, ⟨-einval, []⟩)
    else do
      let (devs, pos, ret) ← arrayWrite gap state.devs file.minor user (min size maxRwCount) file.pos
      return (({ state with devs := devs } : Cdev).setFile fd (some { file with pos := pos }), ⟨ret, []⟩)
  | .pwrite fd user size offset => onFile state fd fun file =>
    if ssize offset < 0 then .ok (state, ⟨-einval, []⟩)
    else do
      let (devs, _, ret) ← arrayWrite gap state.devs file.minor user (min size maxRwCount) offset
      return ({ state with devs := devs }, ⟨ret, []⟩)
  | .openFile fd minor => rawServe beyond state (.openFile fd minor)
  | .read fd user size => rawServe beyond state (.read fd user size)
  | .pread fd user size offset => rawServe beyond state (.pread fd user size offset)
  | .ioctl fd cmd arg => rawServe beyond state (.ioctl fd cmd arg)
  | .closeFile fd => rawServe beyond state (.closeFile fd)

/-- One system call, for its effect on the devices. -/
def arrayStep (state : Cdev) (call : Call) : Except Fault Cdev := do
  let (state, _) ← arrayServe gap beyond state call
  return state

end Array

/-! ## Both ways to one buffer -/

/-- The offset at which a transfer starts. -/
def startsAt (state : Cdev) : Call → Option UInt64
  | .read fd _ _ | .write fd _ _ => (state.files fd).map File.pos
  | .pread _ _ _ offset | .pwrite _ _ _ offset => some offset
  | .openFile _ _ | .ioctl _ _ _ | .closeFile _ => none

/-- The device's bytes after a call, by what the call reports as written. -/
def store (minor : Fin myMaxMinors) (state : Cdev) (call : Call) (reply : Reply) (contents : Bytes) :
    Bytes :=
  match call with
  | .write fd user _ =>
    match state.files fd with
    | some file =>
      if file.minor = minor then overwrite contents file.pos.toNat (user.bytes reply.ret.toNat)
      else contents
    | none => contents
  | .pwrite fd user _ offset =>
    match state.files fd with
    | some file =>
      if file.minor = minor then overwrite contents offset.toNat (user.bytes reply.ret.toNat)
      else contents
    | none => contents
  | _ => contents

/-- A transfer of `count` bytes at this offset stays in the structure of the device. -/
def FitsData (myData : MyDeviceData) (offset : UInt64) (count : Nat) : Prop :=
  (offset.toNat ≤ myData.size.toNat ∧ myData.size.toNat ≤ dataSize) ∨ count = 0 ∨
    offset.toNat + count ≤ dataSize

/-- The bytes the call writes to another device, if it writes any, stay in the structure
of that device. -/
def Spares (minor : Fin myMaxMinors) (state : Cdev) : Call → Prop
  | .write fd _ size => ∀ file, state.files fd = some file → file.minor ≠ minor →
    FitsData (state.devs file.minor) file.pos (min size maxRwCount).toNat
  | .pwrite fd _ size offset => ∀ file, state.files fd = some file → file.minor ≠ minor →
    FitsData (state.devs file.minor) offset (min size maxRwCount).toNat
  | .openFile _ _ | .read _ _ _ | .pread _ _ _ _ | .ioctl _ _ _ | .closeFile _ => True

section Array
variable (gap : Nat) (beyond : Fin myMaxMinors → Nat → UInt8)

/-- On this device, the call is no `MY_IOCTL_SET_BUFFER`, starts within its bytes, and
no user copy fails. -/
def Steady (minor : Fin myMaxMinors) (state : Cdev) (call : Call) : Prop :=
  OnDevice state minor call → ¬SetsBuffer state minor call ∧
    (∀ offset, startsAt state call = some offset → offset.toNat ≤ bufferSize) ∧
    ∀ next reply, arrayServe gap beyond state call = .ok (next, reply) → reply.ret ≠ -efault

/-- The same after a run. -/
def stores (minor : Fin myMaxMinors) (state : Cdev) : List Call → Bytes → Bytes
  | [], contents => contents
  | call :: calls, contents =>
    match arrayServe gap beyond state call with
    | .ok (next, reply) => stores minor next calls (store minor state call reply contents)
    | .error _ => contents

/-- `MY_IOCTL_GET_BUFFER`, reads from the start and the calls with an offset all give
these 256 bytes, and the reads nothing after them; behind them lies `tail`. -/
structure BothWays (state : Cdev) (minor : Fin myMaxMinors) (contents tail : Bytes) : Prop where
  length : contents.length = bufferSize
  gets : ∀ fd file user, state.files fd = some file → file.minor = minor →
    ∃ reply, arrayServe gap beyond state (.ioctl fd myIoctlGetBuffer user) = .ok (state, reply) ∧
      (user.fault = none → reply.ret ≠ -efault) ∧ (reply.ret ≠ -efault → reply = ⟨0, contents⟩)
  reads : ∀ fd reads, state.files fd = some ⟨minor, 0⟩ → bufferSize ≤ requested reads →
    ∃ last replies, answers (arrayServe gap beyond) state (readCalls fd reads) = .ok (last, replies) ∧
      ((∀ read ∈ reads, read.1.fault = none) → Copied replies) ∧
      (Copied replies → (replies.map Reply.received).flatten = contents ∧
        ∀ user size, arrayServe gap beyond last (.read fd user size) = .ok (last, ⟨0, []⟩))
  preads : ∀ fd file user size, state.files fd = some file → file.minor = minor →
    bufferSize ≤ size.toNat → ∃ whole rest,
      arrayServe gap beyond state (.pread fd user size 0) = .ok (state, whole) ∧
      arrayServe gap beyond state (.pread fd user size 256) = .ok (state, rest) ∧
      (user.fault = none → whole.ret ≠ -efault ∧ rest.ret ≠ -efault) ∧
      (whole.ret ≠ -efault → whole = ⟨bufferSize, contents⟩) ∧
      (rest.ret ≠ -efault → rest = ⟨0, []⟩)
  behind : (state.buffer minor).drop bufferSize = tail

end Array

variable {gap : Nat} {beyond : Fin myMaxMinors → Nat → UInt8} {state next : Cdev} {fd : Nat}
  {minor : Fin myMaxMinors} {file : File} {call : Call} {calls : List Call} {user : UserBuffer}
  {myData after : MyDeviceData} {size offset : UInt64} {contents tail : Bytes}

/-! ## Writes in their own structure -/

theorem dataFromUser_fits (myData : MyDeviceData) (user : UserBuffer) {start count : Nat}
    (fits : start + count ≤ dataSize) :
    ∃ after left, dataFromUser myData start user count = .ok (after, left) := by
  obtain ⟨⟨bytes, left⟩, copied⟩ :=
    (copyFromUser_ok_iff (dataBytes myData) start user count).mpr (.inr fits)
  unfold dataFromUser
  split
  · exact ⟨_, _, rfl⟩
  · exact ⟨ofDataBytes bytes, left, by rw [copied]; rfl⟩

/-- A write that stays in its structure completes. -/
theorem rawWrite_fits (user : UserBuffer) (fits : FitsData myData offset (min size maxRwCount).toNat) :
    ∃ after pos ret, rawWrite myData user (min size maxRwCount) offset = .ok (after, pos, ret) := by
  unfold rawWrite
  by_cases nothing : min (myData.size - offset) (min size maxRwCount) ≤ 0
  · exact ⟨_, _, _, by rw [if_pos nothing]; rfl⟩
  rw [if_neg nothing]
  have some : 0 < (min (myData.size - offset) (min size maxRwCount)).toNat :=
    UInt64.lt_iff_toNat_lt.mp (UInt64.not_le.mp nothing)
  have within : offset.toNat + (min (myData.size - offset) (min size maxRwCount)).toNat ≤ dataSize := by
    rcases fits with ⟨inside, small⟩ | none | short
    · rw [length_inside _ inside]
      omega
    · rw [toNat_min, none] at some
      omega
    · rw [toNat_min]
      omega
  obtain ⟨after, left, copied⟩ := dataFromUser_fits myData user within
  rw [copied, ok_bind]
  dsimp only
  by_cases whole : left = 0
  · exact ⟨after, _, _, by rw [if_neg (not_not.mpr whole)]; rfl⟩
  · exact ⟨after, _, _, by rw [if_pos whole]; rfl⟩

/-- Such a write changes its own device and no other. -/
theorem arrayWrite_of_rawWrite {devs : Fin myMaxMinors → MyDeviceData} {pos : UInt64} {ret : Int}
    (ran : rawWrite (devs minor) user size offset = .ok (after, pos, ret)) :
    arrayWrite gap devs minor user size offset = .ok (Function.update devs minor after, pos, ret) := by
  unfold rawWrite at ran
  unfold arrayWrite
  by_cases nothing : min ((devs minor).size - offset) size ≤ 0
  · rw [if_pos nothing] at ran ⊢
    cases ran
    rw [Function.update_eq_self]
    rfl
  rw [if_neg nothing] at ran ⊢
  obtain ⟨⟨myData, left⟩, copied, rest⟩ := bind_eq_ok.mp ran
  rw [devsFromUser, copied, ok_bind]
  dsimp only at rest ⊢
  by_cases whole : left = 0
  · rw [if_neg (not_not.mpr whole)] at rest ⊢
    cases rest
    rfl
  · rw [if_pos whole] at rest ⊢
    cases rest
    rfl

/-! ## The set buffer -/

/-- The device has the size of a set buffer, and these bytes in and behind it. -/
structure Contains (state : Cdev) (minor : Fin myMaxMinors) (contents tail : Bytes) : Prop where
  size : (state.devs minor).size.toNat = bufferSize
  buffer : state.buffer minor = contents ++ tail
  length : contents.length = bufferSize

namespace Contains

theorem of_same (held : Contains state minor contents tail)
    (size : (next.devs minor).size = (state.devs minor).size)
    (buffer : next.buffer minor = state.buffer minor) : Contains next minor contents tail where
  size := by rw [size, held.size]
  buffer := by rw [buffer, held.buffer]
  length := held.length

/-- A write that starts in the set buffer stores what it reports, in the buffer. -/
theorem wrote (gap : Nat) (held : Contains state minor contents tail)
    (inside : offset.toNat ≤ bufferSize) (user : UserBuffer) (size : UInt64) :
    ∃ after pos ret, arrayWrite gap state.devs minor user (min size maxRwCount) offset =
        .ok (Function.update state.devs minor after, pos, ret) ∧
      (user.fault = none → ret ≠ -efault) ∧
      (ret ≠ -efault → ret = (min (bufferSize - offset.toNat) size.toNat : Nat) ∧
        ∀ files, Contains ⟨Function.update state.devs minor after, files⟩ minor
          (overwrite contents offset.toNat (user.bytes ret.toNat)) tail) := by
  obtain ⟨after, pos, ret, ran, same, -, clear, exactly⟩ := myWrite_inside
    (show offset.toNat ≤ (state.devs minor).size.toNat by rw [held.size]; exact inside)
    (show (state.devs minor).size.toNat ≤ bufsiz by rw [held.size]; decide) user size
  refine ⟨after, pos, ret, arrayWrite_of_rawWrite (rawWrite_of_myWrite ran), clear, fun fine => ?_⟩
  obtain ⟨count, -, stored⟩ := exactly fine
  refine ⟨by rw [count, held.size], fun files => ?_⟩
  have whole : ret.toNat = min ((state.devs minor).size.toNat - offset.toNat) size.toNat := by
    rw [count, Int.toNat_natCast]
  have fits : offset.toNat + (user.bytes ret.toNat).length ≤ contents.length := by
    rw [length_bytes, whole, held.length, held.size]
    omega
  refine ⟨by simp [same, held.size], ?_, by rw [length_overwrite fits, held.length]⟩
  rw [← overwrite_append tail fits, ← held.buffer, whole]
  simpa [Cdev.buffer] using stored

theorem getBuffer (held : Contains state minor contents tail)
    (found : state.files fd = some file) (here : file.minor = minor) (user : UserBuffer) :
    ∃ reply, arrayServe gap beyond state (.ioctl fd myIoctlGetBuffer user) = .ok (state, reply) ∧
      (user.fault = none → reply.ret ≠ -efault) ∧ (reply.ret ≠ -efault → reply = ⟨0, contents⟩) := by
  subst here
  obtain ⟨ret, received, served, -, exactly⟩ := rawServe_getBuffer beyond found user
  obtain ⟨clear, given⟩ := exactly (by rw [held.size]; decide)
  refine ⟨⟨ret, received⟩, served, clear, fun fine => ?_⟩
  obtain ⟨rfl, rfl⟩ := given fine
  rw [held.buffer, held.size, ← held.length, List.take_left]

/-- A `pread` from the set buffer, which ends where the buffer does. -/
theorem pread (held : Contains state minor contents tail)
    (found : state.files fd = some file) (here : file.minor = minor) (user : UserBuffer) (size : UInt64)
    (inside : offset.toNat ≤ bufferSize) :
    ∃ reply, arrayServe gap beyond state (.pread fd user size offset) = .ok (state, reply) ∧
      (user.fault = none → reply.ret ≠ -efault) ∧
      (reply.ret ≠ -efault → reply = ⟨(min (bufferSize - offset.toNat) size.toNat : Nat),
        (contents.drop offset.toNat).take size.toNat⟩) := by
  subst here
  have bounded : bufferSize ≤ bufsiz := by decide
  obtain ⟨received, moved, ret, ran, -, clear, exactly⟩ := myRead_inside
    (show offset.toNat ≤ (state.devs file.minor).size.toNat by rw [held.size]; exact inside)
    (show (state.devs file.minor).size.toNat ≤ bufsiz by rw [held.size]; exact bounded) user size
  have positive : ¬ssize offset < 0 := ssize_low (Nat.le_trans inside bounded)
  refine ⟨⟨ret, received⟩, by simp [arrayServe, rawServe, onFile, found, positive, rawRead_of_myRead ran],
    clear, fun fine => ?_⟩
  obtain ⟨rfl, -, rfl⟩ := exactly fine
  have whole := held.length
  rw [held.size, show (state.devs file.minor).deviceBuffer.1 = contents ++ tail from held.buffer,
    List.drop_append_of_le_length (by omega), List.take_append_of_le_length (by simp; omega)]
  congr 1
  rw [← whole, ← List.length_drop, Nat.min_comm]
  exact List.take_eq_take_min.symm

end Contains

/-- A read from a position within the device's size is the checked one. -/
theorem arrayServe_read_of_serve {limit pos : Nat} {size : UInt64} {result : Cdev × Reply}
    (opened : OpenAt state fd minor limit pos) (served : serve state (.read fd user size) = .ok result) :
    arrayServe gap beyond state (.read fd user size) = .ok result := by
  obtain ⟨⟨position, found, rfl⟩, -, fits, inside⟩ := opened
  exact rawServe_read_of_serve found (ssize_low (Nat.le_trans inside fits)) served

theorem answers_reads {limit pos : Nat} (reads : List (UserBuffer × UInt64))
    (opened : OpenAt state fd minor limit pos) :
    answers (arrayServe gap beyond) state (readCalls fd reads) = answers serve state (readCalls fd reads) := by
  induction reads generalizing state pos with
  | nil => rfl
  | cons read reads ih =>
    obtain ⟨next, reply, moved, ran, still, -⟩ := serve_read opened read.1 read.2
    have same : arrayServe gap beyond state (.read fd read.1 read.2) = .ok (next, reply) :=
      arrayServe_read_of_serve opened ran
    have rest := ih still
    simp only [readCalls, List.map_cons, answers, ran, same, ok_bind] at rest ⊢
    rw [rest]

/-- At the end of the set buffer, reads give nothing. -/
theorem reads_nothing {limit pos : Nat} (opened : OpenAt state fd minor limit pos) (atEnd : limit = pos)
    (user : UserBuffer) (size : UInt64) :
    arrayServe gap beyond state (.read fd user size) = .ok (state, ⟨0, []⟩) :=
  arrayServe_read_of_serve opened (exhausted_at_end opened atEnd user size).1

theorem Contains.bothWays (held : Contains state minor contents tail) :
    BothWays gap beyond state minor contents tail where
  length := held.length
  gets fd file user found here := held.getBuffer found here user
  reads fd reads atStart all := by
    have opened : OpenAt state fd minor bufferSize 0 :=
      ⟨⟨0, atStart, rfl⟩, held.size, by decide, Nat.zero_le _⟩
    obtain ⟨last, replies, pos, answered, atEnd, -, clear, given⟩ := serve_reads reads opened
    refine ⟨last, replies, by rw [answers_reads reads opened, answered], clear, fun copied => ?_⟩
    obtain ⟨-, rfl, received⟩ := given copied
    refine ⟨?_, reads_nothing atEnd (by omega)⟩
    rw [received, held.buffer, List.drop_zero, Nat.sub_zero, Nat.min_eq_left all, ← held.length,
      List.take_left]
  preads fd file user size found here all := by
    obtain ⟨whole, served, clear, exactly⟩ := held.pread found here user size
      (show (0 : UInt64).toNat ≤ bufferSize from Nat.zero_le _)
    obtain ⟨rest, served', clear', exactly'⟩ := held.pread found here user size
      (show (256 : UInt64).toNat ≤ bufferSize from Nat.le_refl 256)
    refine ⟨whole, rest, served, served', fun fine => ⟨clear fine, clear' fine⟩, fun fine => ?_,
      fun fine => ?_⟩
    · have most : min (bufferSize - (0 : UInt64).toNat) size.toNat = bufferSize := Nat.min_eq_left all
      have every : (contents.drop (0 : UInt64).toNat).take size.toNat = contents :=
        List.take_of_length_le (by rw [← held.length] at all; exact all)
      rw [exactly fine, most, every]
    · have none : contents.drop (256 : UInt64).toNat = [] :=
        List.drop_eq_nil_of_le (Nat.le_of_eq held.length)
      rw [exactly' fine, none, List.take_nil]
      simp [bufferSize]
  behind := by rw [held.buffer, ← held.length, List.drop_left]

/-- A `MY_IOCTL_SET_BUFFER` that succeeds sets the buffer. -/
theorem arrayServe_set (gap : Nat) (beyond : Fin myMaxMinors → Nat → UInt8)
    (found : state.files fd = some file) (user : UserBuffer) :
    ∃ after ret, arrayServe gap beyond state (.ioctl fd myIoctlSetBuffer user) =
        .ok (state.setDevice file.minor after, ⟨ret, []⟩) ∧
      (user.fault = none → ret = 0) ∧
      (ret = 0 → Contains (state.setDevice file.minor after) file.minor (user.bytes bufferSize)
        ((state.buffer file.minor).drop bufferSize)) := by
  obtain ⟨after, ret, served, -, -, clear, exactly⟩ := rawServe_setBuffer beyond found user
  refine ⟨after, ret, served, clear, fun fine => ?_⟩
  obtain ⟨size, stored⟩ := exactly fine
  refine ⟨by simpa using size, ?_, length_bytes user bufferSize⟩
  rw [Cdev.buffer, Cdev.setDevice_devs, if_pos rfl, stored, overwrite, length_bytes]
  simp

/-! ## Steady calls -/

/-- A call elsewhere stores nothing here. -/
theorem store_away {reply : Reply} (away : ¬OnDevice state minor call) :
    store minor state call reply contents = contents := by
  cases call with
  | write fd user size =>
    cases found : state.files fd with
    | none => simp [store, found]
    | some file =>
      have other : file.minor ≠ minor := fun same => away ⟨file, found, same⟩
      simp [store, found, other]
  | pwrite fd user size offset =>
    cases found : state.files fd with
    | none => simp [store, found]
    | some file =>
      have other : file.minor ≠ minor := fun same => away ⟨file, found, same⟩
      simp [store, found, other]
  | openFile | read | pread | ioctl | closeFile => rfl

section Files
variable (found : state.files fd = some file)
include found

theorem arrayServe_read (gap : Nat) (beyond : Fin myMaxMinors → Nat → UInt8) (user : UserBuffer)
    (size : UInt64) :
    ∃ pos reply, arrayServe gap beyond state (.read fd user size) =
      .ok (state.setFile fd (some { file with pos := pos }), reply) := by
  by_cases negative : ssize file.pos < 0
  · refine ⟨file.pos, ⟨-einval, []⟩, ?_⟩
    rw [← found, Cdev.setFile_self]
    simp [arrayServe, rawServe, onFile, found, negative]
  · exact ⟨_, _, by simp only [arrayServe, rawServe, onFile, found, if_neg negative]; rfl⟩

theorem arrayServe_pread (gap : Nat) (beyond : Fin myMaxMinors → Nat → UInt8) (user : UserBuffer)
    (size offset : UInt64) :
    ∃ reply, arrayServe gap beyond state (.pread fd user size offset) = .ok (state, reply) := by
  by_cases negative : ssize offset < 0
  · exact ⟨_, by simp only [arrayServe, rawServe, onFile, found, if_pos negative]; rfl⟩
  · exact ⟨_, by simp only [arrayServe, rawServe, onFile, found, if_neg negative]; rfl⟩

variable {devs : Fin myMaxMinors → MyDeviceData} {pos : UInt64} {ret : Int}

theorem arrayServe_write (positive : ¬ssize file.pos < 0)
    (ran : arrayWrite gap state.devs file.minor user (min size maxRwCount) file.pos = .ok (devs, pos, ret)) :
    arrayServe gap beyond state (.write fd user size) =
      .ok (({ state with devs := devs } : Cdev).setFile fd (some { file with pos := pos }), ⟨ret, []⟩) := by
  simp only [arrayServe, onFile, found, if_neg positive, ran, ok_bind]
  rfl

theorem arrayServe_pwrite (positive : ¬ssize offset < 0)
    (ran : arrayWrite gap state.devs file.minor user (min size maxRwCount) offset = .ok (devs, pos, ret)) :
    arrayServe gap beyond state (.pwrite fd user size offset) =
      .ok ({ state with devs := devs }, ⟨ret, []⟩) := by
  simp only [arrayServe, onFile, found, if_neg positive, ran, ok_bind]
  rfl

end Files

/-- A call elsewhere that spares this device completes, and leaves it. -/
theorem arrayServe_away (spares : Spares minor state call) (away : ¬OnDevice state minor call) :
    ∃ next reply, arrayServe gap beyond state call = .ok (next, reply) ∧
      next.devs minor = state.devs minor := by
  have elsewhere : ∀ fd file, state.files fd = some file →
      (OnDevice state minor call ↔ ∃ file, state.files fd = some file ∧ file.minor = minor) →
      minor ≠ file.minor := fun fd file found on same => away (on.mpr ⟨file, found, same.symm⟩)
  cases call with
  | openFile fd other =>
    have apart : minor ≠ other := fun same => away same.symm
    simp only [arrayServe, rawServe, serve]
    split
    · exact ⟨_, _, rfl, rfl⟩
    · split
      · exact ⟨_, _, rfl, by simp [apart]⟩
      · exact ⟨_, _, rfl, by simp [apart]⟩
  | closeFile fd =>
    cases found : state.files fd with
    | none => exact ⟨_, _, by simp [arrayServe, rawServe, serve, onFile, found]; rfl, rfl⟩
    | some file =>
      have apart := elsewhere fd file found Iff.rfl
      exact ⟨_, _, by simp only [arrayServe, rawServe, serve, onFile, found]; rfl, by simp [apart]⟩
  | read fd user size =>
    cases found : state.files fd with
    | none => exact ⟨_, _, by simp [arrayServe, rawServe, onFile, found]; rfl, rfl⟩
    | some file =>
      obtain ⟨pos, reply, served⟩ := arrayServe_read found gap beyond user size
      exact ⟨_, reply, served, rfl⟩
  | pread fd user size offset =>
    cases found : state.files fd with
    | none => exact ⟨_, _, by simp [arrayServe, rawServe, onFile, found]; rfl, rfl⟩
    | some file =>
      obtain ⟨reply, served⟩ := arrayServe_pread found gap beyond user size offset
      exact ⟨_, reply, served, rfl⟩
  | write fd user size =>
    cases found : state.files fd with
    | none => exact ⟨_, _, by simp [arrayServe, onFile, found]; rfl, rfl⟩
    | some file =>
      have apart := elsewhere fd file found Iff.rfl
      by_cases negative : ssize file.pos < 0
      · exact ⟨_, _, by simp [arrayServe, onFile, found, negative]; rfl, rfl⟩
      · obtain ⟨after, pos, ret, ran⟩ := rawWrite_fits user (spares file found apart.symm)
        exact ⟨_, _, arrayServe_write found negative (arrayWrite_of_rawWrite ran), by simp [apart]⟩
  | pwrite fd user size offset =>
    cases found : state.files fd with
    | none => exact ⟨_, _, by simp [arrayServe, onFile, found]; rfl, rfl⟩
    | some file =>
      have apart := elsewhere fd file found Iff.rfl
      by_cases negative : ssize offset < 0
      · exact ⟨_, _, by simp [arrayServe, onFile, found, negative]; rfl, rfl⟩
      · obtain ⟨after, pos, ret, ran⟩ := rawWrite_fits user (spares file found apart.symm)
        exact ⟨_, _, arrayServe_pwrite found negative (arrayWrite_of_rawWrite ran), by simp [apart]⟩
  | ioctl fd cmd user =>
    cases found : state.files fd with
    | none => exact ⟨_, _, by simp [arrayServe, rawServe, onFile, found]; rfl, rfl⟩
    | some file =>
      have apart := elsewhere fd file found Iff.rfl
      by_cases set : cmd = myIoctlSetBuffer
      · subst set
        obtain ⟨after, ret, served, -⟩ := rawServe_setBuffer beyond found user
        exact ⟨_, _, served, by simp [apart]⟩
      · obtain ⟨reply, served⟩ := rawServe_otherIoctl beyond set user
        exact ⟨state, reply, served, rfl⟩

/-- A steady call on the device completes, and keeps its bytes up to date, and those
behind them. -/
theorem arrayServe_here (held : Contains state minor contents tail)
    (steady : Steady gap beyond minor state call) (here : OnDevice state minor call) :
    ∃ next reply, arrayServe gap beyond state call = .ok (next, reply) ∧
      Contains next minor (store minor state call reply contents) tail := by
  obtain ⟨keeps, starts, fine⟩ := steady here
  have positive {offset : UInt64} (inside : offset.toNat ≤ bufferSize) : ¬ssize offset < 0 :=
    ssize_low (Nat.le_trans inside (by decide))
  cases call with
  | openFile fd other =>
    obtain rfl : other = minor := here
    simp only [arrayServe, rawServe, serve]
    split
    · exact ⟨_, _, rfl, held⟩
    · by_cases idle : (state.devs other).access = 0
      · refine ⟨_, _, by simp only [myOpen, atomicCmpxchg, idle]; rfl, ?_⟩
        exact held.of_same (by simp) (by simp [Cdev.buffer])
      · exact ⟨state, _, by simp [myOpen, atomicCmpxchg, idle, ebusy]; rfl, held⟩
  | closeFile fd =>
    obtain ⟨file, found, rfl⟩ := here
    refine ⟨_, _, by simp only [arrayServe, rawServe, serve, onFile, found]; rfl, ?_⟩
    exact held.of_same (by simp [myRelease]) (by simp [Cdev.buffer, myRelease])
  | read fd user size =>
    obtain ⟨file, found, rfl⟩ := here
    obtain ⟨pos, reply, served⟩ := arrayServe_read found gap beyond user size
    exact ⟨_, reply, served, held.of_same rfl rfl⟩
  | pread fd user size offset =>
    obtain ⟨file, found, rfl⟩ := here
    obtain ⟨reply, served⟩ := arrayServe_pread found gap beyond user size offset
    exact ⟨_, reply, served, held⟩
  | write fd user size =>
    obtain ⟨file, found, rfl⟩ := here
    have inside : file.pos.toNat ≤ bufferSize := starts file.pos (by simp [startsAt, found])
    obtain ⟨after, pos, ret, ran, -, stored⟩ := held.wrote gap inside user size
    refine ⟨_, _, arrayServe_write found (positive inside) ran, ?_⟩
    simp only [store, found, if_true]
    exact (stored (fine _ _ (arrayServe_write found (positive inside) ran))).2 _
  | pwrite fd user size offset =>
    obtain ⟨file, found, rfl⟩ := here
    have inside : offset.toNat ≤ bufferSize := starts offset rfl
    obtain ⟨after, pos, ret, ran, -, stored⟩ := held.wrote gap inside user size
    refine ⟨_, _, arrayServe_pwrite found (positive inside) ran, ?_⟩
    simp only [store, found, if_true]
    exact (stored (fine _ _ (arrayServe_pwrite found (positive inside) ran))).2 _
  | ioctl fd cmd user =>
    obtain ⟨file, found, same⟩ := here
    have other : cmd ≠ myIoctlSetBuffer := by
      rintro rfl
      exact keeps ⟨fd, user, rfl, file, found, same⟩
    obtain ⟨reply, served⟩ := rawServe_otherIoctl beyond other user
    exact ⟨state, reply, served, held⟩

theorem arrayStep_of_serve {reply : Reply} (served : arrayServe gap beyond state call = .ok (next, reply)) :
    arrayStep gap beyond state call = .ok next := by
  rw [arrayStep, served]
  rfl

/-- A steady call that spares the device completes. -/
theorem arrayServe_steady (held : Contains state minor contents tail)
    (steady : Steady gap beyond minor state call) (spares : Spares minor state call) :
    ∃ next reply, arrayServe gap beyond state call = .ok (next, reply) ∧
      Contains next minor (store minor state call reply contents) tail := by
  by_cases here : OnDevice state minor call
  · exact arrayServe_here held steady here
  · obtain ⟨next, reply, served, same⟩ := arrayServe_away spares here
    refine ⟨next, reply, served, ?_⟩
    rw [store_away here]
    exact held.of_same (by rw [same]) (by rw [Cdev.buffer, Cdev.buffer, same])

theorem run_steady (held : Contains state minor contents tail)
    (steady : Along (fun state call => Steady gap beyond minor state call ∧ Spares minor state call)
      (arrayStep gap beyond) state calls) :
    ∃ final, run (arrayStep gap beyond) state calls = .ok final ∧
      Contains final minor (stores gap beyond minor state calls contents) tail := by
  induction calls generalizing state contents with
  | nil => exact ⟨state, rfl, held⟩
  | cons call calls ih =>
    obtain ⟨next, reply, served, kept⟩ := arrayServe_steady held steady.1.1 steady.1.2
    have taken := arrayStep_of_serve served
    obtain ⟨final, ran, last⟩ := ih kept (steady.2 next taken)
    refine ⟨final, by rw [run_cons, taken, ok_bind, ran], ?_⟩
    rw [stores, served]
    exact last

/-- **Both ways to one buffer.** From any state, after a `MY_IOCTL_SET_BUFFER` of 256
bytes and any run that is steady on the device and in which the writes to the others
stay in their structures, both ways give these bytes overwritten by what the writes
reported, and the bytes behind them are the old ones. -/
theorem set_get_round_trip {middle : Cdev} {b : Bytes} (found : state.files fd = some file)
    (passed : user.bytes bufferSize = b)
    (set : arrayServe gap beyond state (.ioctl fd myIoctlSetBuffer user) = .ok (middle, ⟨0, []⟩))
    (steady : Along (fun state call => Steady gap beyond file.minor state call ∧ Spares file.minor state call)
      (arrayStep gap beyond) middle calls) :
    ∃ final, run (arrayStep gap beyond) middle calls = .ok final ∧
      BothWays gap beyond final file.minor (stores gap beyond file.minor middle calls b)
        ((state.buffer file.minor).drop bufferSize) := by
  obtain ⟨after, ret, served, -, start⟩ := arrayServe_set gap beyond found user
  rw [served] at set
  cases set
  subst passed
  obtain ⟨final, ran, held⟩ := run_steady (start rfl) steady
  exact ⟨final, ran, held.bothWays⟩

/-- A byte written over a buffer of zeros, and one behind the set buffer of another
device. -/
def writtenBeside : List Call := [.write 3 (holding [0x48]) 1, .pwrite 4 (holding [7]) 1 4095]

theorem set_get_round_trip_written :
    ∃ opened middle final,
      run (arrayStep 104 fun _ _ => 0) loaded [.openFile 3 0, .openFile 4 1] = .ok opened ∧
      arrayServe 104 (fun _ _ => 0) opened (.ioctl 3 myIoctlSetBuffer (holding [])) =
        .ok (middle, ⟨0, []⟩) ∧
      run (arrayStep 104 fun _ _ => 0) middle writtenBeside = .ok final ∧
      BothWays 104 (fun _ _ => 0) final 0 (0x48 :: List.replicate 255 0)
        ((opened.buffer 0).drop bufferSize) := by
  obtain ⟨opened, ran, found, found'⟩ : ∃ opened,
      run (arrayStep 104 fun _ _ => 0) loaded [.openFile 3 0, .openFile 4 1] = .ok opened ∧
      opened.files 3 = some ⟨0, 0⟩ ∧ opened.files 4 = some ⟨1, 0⟩ := ⟨_, rfl, rfl, rfl⟩
  obtain ⟨after, ret, set, clear, start⟩ := arrayServe_set 104 (fun _ _ => 0) found (holding [])
  obtain rfl : ret = 0 := clear rfl
  have held := start rfl
  obtain ⟨stored, pos, ret, first, fine, given⟩ := held.wrote 104
    (show (0 : UInt64).toNat ≤ bufferSize from Nat.zero_le _) (holding [0x48]) 1
  obtain ⟨one, -⟩ := given (fine rfl)
  obtain rfl : ret = 1 := one
  let second : Cdev := ⟨Function.update (opened.setDevice 0 after).devs 0 stored,
    Function.update opened.files 3 (some ⟨0, pos⟩)⟩
  have wrote : arrayServe 104 (fun _ _ => 0) (opened.setDevice 0 after) (.write 3 (holding [0x48]) 1) =
      .ok (second, ⟨1, []⟩) := by
    have here : (opened.setDevice 0 after).files 3 = some ⟨0, 0⟩ := found
    have positive : ¬ssize 0 < 0 := by decide
    rw [arrayServe_write here positive first]
    rfl
  have apart : ¬OnDevice second 0 (.pwrite 4 (holding [7]) 1 4095) := by
    rintro ⟨file, here, same⟩
    have beside : second.files 4 = some ⟨1, 0⟩ := found'
    rw [beside] at here
    cases here
    cases same
  have steady : Along (fun state call => Steady 104 (fun _ _ => 0) 0 state call ∧ Spares 0 state call)
      (arrayStep 104 fun _ _ => 0) (opened.setDevice 0 after) writtenBeside := by
    refine ⟨⟨fun _ => ⟨not_setsBuffer (by simp), fun offset starts => ?_, fun next reply served => ?_⟩,
      fun file here other => ?_⟩,
      fun next taken => ⟨⟨fun on => ?_, fun file here _ => ?_⟩, fun _ _ => trivial⟩⟩
    · rw [startsAt, Cdev.setDevice_files, found] at starts
      cases starts
      exact Nat.zero_le _
    · rw [wrote] at served
      cases served
      decide
    · obtain rfl : (⟨0, 0⟩ : File) = file := Option.some.inj (found.symm.trans here)
      exact absurd rfl other
    · rw [arrayStep, wrote] at taken
      cases taken
      exact absurd on apart
    · exact .inr (.inr (by decide))
  have stored : stores 104 (fun _ _ => 0) 0 (opened.setDevice 0 after) writtenBeside
      ((holding []).bytes bufferSize) = 0x48 :: List.replicate 255 0 := by
    have once : store 0 (opened.setDevice 0 after) (.write 3 (holding [0x48]) 1) ⟨1, []⟩
        ((holding []).bytes bufferSize) = 0x48 :: List.replicate 255 0 := by
      simp only [store, Cdev.setDevice_files, found, if_true]
      decide +kernel
    simp only [writtenBeside, stores, wrote, once]
    split
    · exact store_away apart
    · rfl
  obtain ⟨final, ran', both⟩ := set_get_round_trip found rfl set steady
  rw [stored] at both
  exact ⟨opened, _, final, ran, set, ran', both⟩

/-! ## Writes into the next structure -/

/-- A number is read back from its bytes. -/
theorem ofLeBytes_leBytes (width : Nat) {value : Nat} (small : value < 256 ^ width) :
    ofLeBytes (leBytes width value) = value := by
  induction width generalizing value with
  | zero =>
    obtain rfl : value = 0 := by simpa using small
    rfl
  | succ width ih =>
    have rest : value / 256 < 256 ^ width := by
      rw [Nat.pow_succ] at small
      exact Nat.div_lt_of_lt_mul (by omega)
    have split : leBytes (width + 1) value = UInt8.ofNat value :: leBytes width (value / 256) := by
      simp only [leBytes, List.range_succ_eq_map, List.map_cons, List.map_map, Nat.pow_zero, Nat.div_one]
      refine congrArg _ (List.map_congr_left fun index _ => ?_)
      simp only [Function.comp_apply, Nat.pow_succ, Nat.div_div_eq_div_mul, Nat.mul_comm]
    have joined : ofLeBytes (leBytes (width + 1) value) =
        (UInt8.ofNat value).toNat + 256 * ofLeBytes (leBytes width (value / 256)) := by
      rw [split]
      rfl
    rw [joined, ih rest, UInt8.toNat_ofNat']
    omega

/-- A store that ends before a device's `size` leaves it. -/
theorem struckBy_size {start : Nat} {bytes : Bytes} (before : start + bytes.length ≤ place gap minor + 4104) :
    (struckBy gap start bytes minor myData).size = myData.size := by
  have kept : ((List.range dataSize).map fun index =>
      copiedTo (fun address => (dataBytes myData).1.getD (address - place gap minor) 0) start bytes
        (place gap minor + index)).drop 4104 = (dataBytes myData).1.drop 4104 := by
    refine List.ext_getElem? fun index => ?_
    rw [List.getElem?_drop, List.getElem?_drop, List.getElem?_map]
    by_cases inside : 4104 + index < dataSize
    · have low : 4104 + index < (dataBytes myData).1.length := by
        rw [(dataBytes myData).2]
        exact inside
      rw [List.getElem?_range inside, Option.map_some, copiedTo_outside (.inr (by omega)),
        Nat.add_sub_cancel_left, List.getD_eq_getElem?_getD, List.getElem?_eq_getElem low, Option.getD_some]
    · rw [List.getElem?_eq_none (by simpa using inside), Option.map_none,
        List.getElem?_eq_none (by rw [(dataBytes myData).2]; omega)]
  have last : (dataBytes myData).1.drop 4104 = leBytes 8 myData.size.toNat := by
    refine List.drop_left' ?_
    simp [leBytes, myData.deviceBuffer.2, bufsiz]
  have whole : (leBytes 8 myData.size.toNat).take 8 = leBytes 8 myData.size.toNat :=
    List.take_of_length_le (by simp [leBytes])
  simp only [struckBy, ofDataBytes, kept, last, whole]
  rw [ofLeBytes_leBytes 8 myData.size.toNat_lt, UInt64.ofNat_toNat]

/-- The bytes of a `device_buffer` that a store reaches. -/
theorem struckBy_byte {start index : Nat} {bytes : Bytes} (low : index < bufsiz)
    (reached : start ≤ place gap minor + index) :
    (struckBy gap start bytes minor myData).deviceBuffer.1[index]? =
      some (bytes.getD (place gap minor + index - start) ((dataBytes myData).1.getD index 0)) := by
  have inside : index < dataSize := by
    unfold bufsiz at low
    unfold dataSize
    omega
  simp only [struckBy, ofDataBytes]
  rw [List.getElem?_take_of_lt low, List.getElem?_map, List.getElem?_range inside, Option.map_some, copiedTo,
    if_pos reached, Nat.add_sub_cancel_left]

/-- A write that leaves its structure goes on into the others. -/
theorem arrayWrite_leaves {devs : Fin myMaxMinors → MyDeviceData} {count : Nat}
    (len : (min ((devs minor).size - offset) size).toNat = count) (fine : user.fault = none)
    (outside : dataSize < offset.toNat + count) (some : 0 < count)
    (within : place gap minor + offset.toNat + count ≤ arrayEnd gap) :
    ∃ pos, arrayWrite gap devs minor user size offset =
      .ok (fun other => struckBy gap (place gap minor + offset.toNat) (user.bytes count) other (devs other),
        pos, ssize (min ((devs minor).size - offset) size)) := by
  have refused {width : Nat} (dest : CharArray width) (narrow : width ≤ dataSize) :
      ∃ fault, copyFromUser dest offset.toNat user count = .error fault := by
    cases copied : copyFromUser dest offset.toNat user count with
    | error fault => exact ⟨fault, rfl⟩
    | ok result =>
      have inside := (copyFromUser_ok_iff dest offset.toNat user count).mp ⟨result, copied⟩
      omega
  obtain ⟨fault, first⟩ := refused (devs minor).deviceBuffer (by decide)
  obtain ⟨fault', second⟩ := refused (dataBytes (devs minor)) (Nat.le_refl _)
  have faulted : dataFromUser (devs minor) offset.toNat user count = .error fault' := by
    rw [dataFromUser, first, second]
    rfl
  have more : ¬min ((devs minor).size - offset) size ≤ 0 := by
    intro nothing
    have := UInt64.le_iff_toNat_le.mp nothing
    rw [len] at this
    exact Nat.lt_irrefl _ (Nat.lt_of_lt_of_le some this)
  refine ⟨offset + min ((devs minor).size - offset) size, ?_⟩
  rw [arrayWrite, if_neg more, len, devsFromUser, faulted]
  simp only [reach_of_no_fault fine, Nat.sub_self, List.replicate_zero, List.append_nil, if_pos within,
    ok_bind]
  rfl

/-- A partly failed `MY_IOCTL_SET_BUFFER` leaves a device with a size of 100; another is
open. -/
def partlySet (minor beside : Fin myMaxMinors) : List Call :=
  [.openFile 3 minor, .ioctl 3 myIoctlSetBuffer ⟨fun _ => 0, some 100⟩, .openFile 4 beside]

theorem partlySet_reached :
    ∃ state, run (arrayStep 104 fun _ _ => 0) loaded (partlySet 0 1) = .ok state ∧
      state.files 3 = some ⟨0, 0⟩ ∧ state.files 4 = some ⟨1, 0⟩ ∧ (state.devs 0).size = 100 := by
  obtain ⟨opened, first, found, free, idle⟩ : ∃ opened,
      arrayStep 104 (fun _ _ => 0) loaded (.openFile 3 0) = .ok opened ∧
      opened.files 3 = some ⟨0, 0⟩ ∧ opened.files 4 = none ∧ (opened.devs 1).access = 0 :=
    ⟨_, rfl, rfl, rfl, rfl⟩
  obtain ⟨low, ret, served, size, -⟩ :=
    rawServe_setBuffer (fun _ _ => 0) found ⟨fun _ => 0, some 100⟩
  have second : arrayStep 104 (fun _ _ => 0) opened (.ioctl 3 myIoctlSetBuffer ⟨fun _ => 0, some 100⟩) =
      .ok (opened.setDevice 0 low) := arrayStep_of_serve served
  let state : Cdev := ((opened.setDevice 0 low).setDevice 1 { opened.devs 1 with access := 1 }).setFile 4
    (some ⟨1, 0⟩)
  have third : arrayStep 104 (fun _ _ => 0) (opened.setDevice 0 low) (.openFile 4 1) = .ok state := by
    have opens : myOpen (opened.devs 1) = ({ opened.devs 1 with access := 1 }, 0) := myOpen_of_free idle
    simp [arrayStep, arrayServe, rawServe, serve, free, opens, state]
  refine ⟨state, ?_, found, rfl, UInt64.toNat_inj.mp size⟩
  rw [partlySet, run_cons, first, ok_bind, run_cons, second, ok_bind, run_cons, third, ok_bind, run_nil]

/-- 4316 ones written at offset 200, behind that size. -/
def intoNext : Call := .pwrite 3 ⟨fun _ => 1, none⟩ 4316 200

/-- They go on into the buffer of the next device. -/
theorem intoNext_reaches (found : state.files 3 = some ⟨0, 0⟩) (small : (state.devs 0).size = 100) :
    ∃ next reply, arrayServe 104 (fun _ _ => 0) state intoNext = .ok (next, reply) ∧ reply.ret = 4316 ∧
      next.files = state.files ∧ (next.devs 1).size = (state.devs 1).size ∧
      (next.buffer 1)[0]? = some 1 := by
  have length : min ((state.devs 0).size - 200) (min 4316 maxRwCount) = 4316 := by
    rw [small]
    decide
  have count : (min ((state.devs 0).size - 200) (min 4316 maxRwCount)).toNat = 4316 :=
    congrArg UInt64.toNat length
  have reaches : dataSize < (200 : UInt64).toNat + 4316 := by decide
  have within : place 104 0 + (200 : UInt64).toNat + 4316 ≤ arrayEnd 104 := by decide
  have all : (⟨fun _ => 1, none⟩ : UserBuffer).fault = none := rfl
  obtain ⟨pos, wrote⟩ := arrayWrite_leaves count all reaches (by omega) within
  have positive : ¬ssize 200 < 0 := by decide
  refine ⟨_, _, arrayServe_pwrite found positive wrote, by rw [length]; decide, rfl, ?_, ?_⟩
  · refine struckBy_size ?_
    rw [length_bytes]
    decide
  · have one : (UserBuffer.bytes ⟨fun _ => 1, none⟩ 4316)[4016]? = some 1 := by
      rw [UserBuffer.bytes, List.getElem?_map, List.getElem?_range (by decide), Option.map_some]
    have index : place 104 1 + 0 - (place 104 0 + (200 : UInt64).toNat) = 4016 := by decide
    rw [Cdev.buffer, struckBy_byte (by decide) (by decide), List.getD_eq_getElem?_getD, index, one,
      Option.getD_some]

/-- A write that starts behind a partly set device goes on into the buffer of the next
one, which was just set. -/
theorem overrun_reaches_next_device :
    ∃ state middle final, run (arrayStep 104 fun _ _ => 0) loaded (partlySet 0 1) = .ok state ∧
      state.files 4 = some ⟨1, 0⟩ ∧
      arrayServe 104 (fun _ _ => 0) state (.ioctl 4 myIoctlSetBuffer (holding [])) = .ok (middle, ⟨0, []⟩) ∧
      (∀ minor, Along (Steady 104 (fun _ _ => 0) minor) (arrayStep 104 fun _ _ => 0) middle [intoNext]) ∧
      run (arrayStep 104 fun _ _ => 0) middle [intoNext] = .ok final ∧
      ¬BothWays 104 (fun _ _ => 0) final 1
        (stores 104 (fun _ _ => 0) 1 middle [intoNext] ((holding []).bytes bufferSize))
        ((state.buffer 1).drop bufferSize) := by
  obtain ⟨state, ran, found, other, small⟩ := partlySet_reached
  obtain ⟨after, ret, set, clear, start⟩ := arrayServe_set 104 (fun _ _ => 0) other (holding [])
  obtain rfl : ret = 0 := clear rfl
  have held := start rfl
  obtain ⟨final, reply, struck, whole, files, size, first⟩ := intoNext_reaches
    (show (state.setDevice 1 after).files 3 = some ⟨0, 0⟩ from found)
    (show ((state.setDevice 1 after).devs 0).size = 100 from small)
  have apart : ¬OnDevice (state.setDevice 1 after) 1 intoNext := by
    rintro ⟨file, here, same⟩
    obtain rfl : (⟨0, 0⟩ : File) = file := Option.some.inj (found.symm.trans here)
    cases same
  refine ⟨state, _, final, ran, other, set, fun minor => ⟨fun _ => ?_, fun _ _ => trivial⟩,
    by rw [run_cons, arrayStep_of_serve struck, ok_bind, run_nil], fun both => ?_⟩
  · refine ⟨not_setsBuffer (by simp [intoNext]), fun offset starts => ?_, fun next reply' served => ?_⟩
    · cases starts
      decide
    · rw [struck] at served
      cases served
      rw [whole]
      decide
  have kept : stores 104 (fun _ _ => 0) 1 (state.setDevice 1 after) [intoNext]
      ((holding []).bytes bufferSize) = (holding []).bytes bufferSize := by
    rw [stores, struck]
    exact store_away apart
  rw [kept] at both
  have still : final.files 4 = some ⟨1, 0⟩ := by rw [files, Cdev.setDevice_files, other]
  obtain ⟨got, served, fine, given⟩ := both.gets 4 ⟨1, 0⟩ (holding []) still rfl
  obtain ⟨ret, received, served', -, exactly⟩ := rawServe_getBuffer (fun _ _ => 0) still (holding [])
  rw [arrayServe, served'] at served
  cases served
  -- The reply has the zeros that were set, and the ones that were written.
  have size' : (final.devs 1).size.toNat = 256 := by rw [size, held.size, bufferSize]
  have zeros := given (fine rfl)
  obtain ⟨-, ones⟩ := (exactly (by rw [size']; decide)).2 (fine rfl)
  have head : received[0]? = some 0 := by
    rw [(Reply.mk.inj zeros).2]
    rfl
  rw [ones, size', List.getElem?_take_of_lt (by decide), first] at head
  cases head

end KernelLabs.CharDevice
