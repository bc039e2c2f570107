import KernelLabs.CharDeviceBounds

/-! What a failed call leaves behind. The copies go straight to and from
`device_buffer`, so a copy from user memory that stops early has already
overwritten the bytes it was meant for: the ones that arrived, then zeros. -/
namespace KernelLabs.CharDevice
open CBytes Errno

/-- An array after `copy_from_user` of `count` bytes, however many arrived. -/
def spoiled (array : Bytes) (start : Nat) (user : UserBuffer) (count : Nat) : Bytes :=
  overwrite array start
    (user.bytes (user.reach count) ++ List.replicate (count - user.reach count) 0)

/-- A failed write at this offset: nothing but the bytes it was to write differs. -/
def FailedWrite (state next : Cdev) (file : File) (user : UserBuffer) (size offset : UInt64) : Prop :=
  ∃ array : CharArray bufsiz,
    array.1 = spoiled (state.devs file.minor).deviceBuffer.1 offset.toNat user
      (min ((state.devs file.minor).size - offset) (min size maxRwCount)).toNat ∧
    next = state.setDevice file.minor { state.devs file.minor with deviceBuffer := array }

/-- A failed `MY_IOCTL_SET_BUFFER`: nothing but its part of the buffer and the
device's size differs. -/
def FailedSetBuffer (state next : Cdev) (file : File) (arg : UserBuffer) : Prop :=
  ∃ (array : CharArray bufsiz) (size : UInt64),
    array.1 = spoiled (state.devs file.minor).deviceBuffer.1 0 arg bufferSize ∧
    next = state.setDevice file.minor
      { state.devs file.minor with deviceBuffer := array, size := size }

/-- What a call that failed has left. A call on a file that is not open, and one at a
negative offset, do not get to the driver. -/
def FailureLeaves (state next : Cdev) : Call → Prop
  | .write fd user size =>
    match state.files fd with
    | some file => FailedWrite state next file user size file.pos
    | none => next = state
  | .pwrite fd user size offset =>
    match state.files fd with
    | some file => if ssize offset < 0 then next = state else FailedWrite state next file user size offset
    | none => next = state
  | .ioctl fd cmd arg =>
    match state.files fd with
    | some file => if cmd = myIoctlSetBuffer then FailedSetBuffer state next file arg else next = state
    | none => next = state
  | .openFile _ _ | .read _ _ _ | .pread _ _ _ _ | .closeFile _ => next = state

variable {state next : Cdev} {myData after : MyDeviceData} {user : UserBuffer}
  {size offset pos : UInt64} {ret : Int} {received : Bytes} {reply : Reply}

theorem copyFromUser_contents {width : Nat} {dest result : CharArray width} {start count left : Nat}
    (ran : copyFromUser dest start user count = .ok (result, left)) :
    result.1 = spoiled dest.1 start user count := by
  obtain ⟨array, stored, same⟩ := bind_eq_ok.mp ran
  cases same
  exact write_contents stored

/-! ## The file operations -/

/-- A length that stays in the buffer is not negative. -/
private theorem ssize_inside {length : UInt64} {start : Nat}
    (inside : length.toNat = 0 ∨ start + length.toNat ≤ bufsiz) : 0 ≤ ssize length := by
  unfold bufsiz at inside
  rw [ssize_of_lt (by omega)]
  exact Int.natCast_nonneg _

theorem myRead_failed (ran : myRead myData user size offset = .ok (received, pos, ret))
    (failed : ret < 0) : pos = offset := by
  rcases myRead_cases ran with ⟨-, rfl, -⟩ | ⟨left, -, ⟨-, -, -, positive⟩ | ⟨-, rfl, -⟩⟩
  · rfl
  · exact absurd failed (Int.not_lt.mpr (Int.le_of_lt positive))
  · rfl

theorem myWrite_failed (ran : myWrite myData user size offset = .ok (after, pos, ret))
    (failed : ret < 0) : pos = offset ∧ ∃ array : CharArray bufsiz,
      array.1 = spoiled myData.deviceBuffer.1 offset.toNat user
        (min (myData.size - offset) size).toNat ∧
      after = { myData with deviceBuffer := array } := by
  rcases myWrite_cases ran with ⟨-, -, rfl⟩ | ⟨array, left, copied, rfl, ⟨-, -, rfl⟩ | ⟨-, rfl, -⟩⟩
  · exact absurd failed (by decide)
  · have inside := ssize_inside ((copyFromUser_ok_iff _ _ _ _).mp ⟨_, copied⟩)
    exact absurd failed (Int.not_lt.mpr inside)
  · exact ⟨rfl, array, copyFromUser_contents copied, rfl⟩

/-- What an ioctl changes: `MY_IOCTL_SET_BUFFER` its part of the buffer and the size, every
other one nothing. -/
theorem myIoctl_changes {cmd : UInt32} (ran : myIoctl myData cmd user = .ok (after, received, ret)) :
    if cmd = myIoctlSetBuffer then ∃ (array : CharArray bufsiz) (size : UInt64),
      array.1 = spoiled myData.deviceBuffer.1 0 user bufferSize ∧
      after = { myData with deviceBuffer := array, size := size }
    else after = myData := by
  unfold myIoctl at ran
  split at ran
  · rename_i print
    cases ran
    rw [print, if_neg (by decide)]
  split at ran
  · rename_i get
    obtain ⟨_, -, rest⟩ := bind_eq_ok.mp ran
    cases rest
    rw [get, if_neg (by decide)]
  split at ran
  · rename_i set
    obtain ⟨⟨array, remains⟩, copied, rest⟩ := bind_eq_ok.mp ran
    cases rest
    rw [if_pos set]
    exact ⟨array, _, copyFromUser_contents copied, rfl⟩
  · rename_i unknown
    cases ran
    rw [if_neg unknown]

/-- An open that fails leaves the flag as it found it. -/
theorem myOpen_failed (failed : (myOpen myData).2 ≠ 0) : (myOpen myData).1 = myData := by
  by_cases found : myData.access = 0
  · simp [myOpen, atomicCmpxchg, found] at failed
  · simp [myOpen, atomicCmpxchg, found]

/-! ## System calls -/

/-- **Failures.** Whatever prefix of the copy succeeded, a failed call changes no flag, no
file position and no other device. A failed write leaves what it was to write as the copied
prefix and zeros behind it, and nothing else changed; so does a failed `MY_IOCTL_SET_BUFFER`
with its part of the buffer, but for the size; any other failed call changes nothing at
all. -/
theorem failed_calls_leave (state next : Cdev) (call : Call) (reply : Reply)
    (served : serve state call = .ok (next, reply)) (failed : reply.ret < 0) :
    FailureLeaves state next call := by
  cases call with
  | openFile fd minor =>
    simp only [serve] at served
    split at served
    · cases served
      rfl
    · split at served
      · rename_i refused
        cases served
        simp only [FailureLeaves, myOpen_failed refused, Cdev.setDevice_self]
      · rename_i granted
        cases served
        exact absurd (not_not.mp granted) (Int.ne_of_lt failed)
  | read fd user size =>
    obtain rfl | ⟨file, received, moved, found, read, rfl⟩ := read_cases served
    · rfl
    · have unmoved := myRead_failed read failed
      subst unmoved
      simp [FailureLeaves, ← found]
  | write fd user size =>
    cases found : state.files fd with
    | none =>
      simp only [serve, onFile, found] at served
      cases served
      simp only [FailureLeaves, found]
    | some file =>
      simp only [serve, onFile, found] at served
      obtain ⟨_, transferred, same⟩ := bind_eq_ok.mp served
      obtain ⟨⟨after, moved, ret⟩, wrote, same'⟩ := bind_eq_ok.mp transferred
      cases same'
      cases same
      obtain ⟨rfl, array, contents, rfl⟩ := myWrite_failed wrote failed
      simp only [FailureLeaves, found]
      refine ⟨array, contents, ?_⟩
      rw [← found]
      exact Cdev.setFile_self (state.setDevice file.minor _) fd
  | pread fd user size offset => exact pread_state served
  | pwrite fd user size offset =>
    cases found : state.files fd with
    | none =>
      simp only [serve, onFile, found] at served
      cases served
      simp only [FailureLeaves, found]
    | some file =>
      simp only [FailureLeaves, found]
      simp only [serve, onFile, found] at served
      by_cases negative : ssize offset < 0
      · rw [if_pos negative] at served ⊢
        cases served
        rfl
      · rw [if_neg negative] at served ⊢
        obtain ⟨_, transferred, same⟩ := bind_eq_ok.mp served
        obtain ⟨⟨after, moved, ret⟩, wrote, same'⟩ := bind_eq_ok.mp transferred
        cases same'
        cases same
        obtain ⟨-, array, contents, rfl⟩ := myWrite_failed wrote failed
        exact ⟨array, contents, rfl⟩
  | ioctl fd cmd arg =>
    cases found : state.files fd with
    | none =>
      simp only [serve, onFile, found] at served
      cases served
      simp only [FailureLeaves, found]
    | some file =>
      simp only [FailureLeaves, found]
      simp only [serve, onFile, found] at served
      obtain ⟨⟨after, received, ret⟩, controlled, same⟩ := bind_eq_ok.mp served
      cases same
      have changes := myIoctl_changes controlled
      by_cases set : cmd = myIoctlSetBuffer
      · rw [if_pos set] at changes ⊢
        obtain ⟨array, size, contents, rfl⟩ := changes
        exact ⟨array, size, contents, rfl⟩
      · rw [if_neg set] at changes ⊢
        rw [changes, Cdev.setDevice_self]
  | closeFile fd =>
    obtain rfl | ⟨file, found, closed⟩ := onFile_cases served
    · rfl
    · cases closed
      exact absurd failed (by decide)

/-- Of two bytes that are to be written, one can be read. -/
theorem failed_calls_leave_write :
    ∃ state next, run cdevStep loaded [.openFile 0 0] = .ok state ∧
      serve state (.write 0 ⟨fun _ => 1, some 1⟩ 2) = .ok (next, ⟨-efault, []⟩) ∧
      FailureLeaves state next (.write 0 ⟨fun _ => 1, some 1⟩ 2) :=
  ⟨_, _, rfl, rfl, failed_calls_leave _ _ _ ⟨-efault, []⟩ rfl (by decide)⟩

/-- A write of two bytes of which one can be read fails, with that byte already
in the buffer. -/
theorem failed_write_spoils :
    ∃ state next, run cdevStep loaded [.openFile 0 0] = .ok state ∧
      serve state (.write 0 ⟨fun _ => 1, some 1⟩ 2) = .ok (next, ⟨-efault, []⟩) ∧
      (state.devs 0).deviceBuffer.1[0]? = some 0 ∧ (next.devs 0).deviceBuffer.1[0]? = some 1 :=
  ⟨_, _, rfl, rfl, rfl, rfl⟩

end KernelLabs.CharDevice
