import KernelLabs.CharDevice

/-! Which runs of system calls keep every copy inside the device's buffer. The
difference `size - *offset` bounds a transfer only up to the device's size, and
`MY_IOCTL_SET_BUFFER` lowers that size under open files. -/
namespace KernelLabs.CharDevice
open CBytes Errno

/-- A transfer of `count` bytes at this offset stays in the buffer: it starts
within the device's size, moves nothing, or happens to end in time. -/
def Fits (myData : MyDeviceData) (offset : UInt64) (count : Nat) : Prop :=
  offset.toNat ≤ myData.size.toNat ∨ count = 0 ∨ offset.toNat + count ≤ bufsiz

instance (myData : MyDeviceData) (offset : UInt64) (count : Nat) :
    Decidable (Fits myData offset count) :=
  inferInstanceAs (Decidable (_ ∨ _))

/-- The call's transfer, if it makes one, stays in the buffer. A write fills all
of its range, a read stops where user memory does. -/
def InBounds (state : Cdev) : Call → Prop
  | .read fd user size => ∀ file, state.files fd = some file →
    Fits (state.devs file.minor) file.pos (user.reach (min size maxRwCount).toNat)
  | .write fd _ size => ∀ file, state.files fd = some file →
    Fits (state.devs file.minor) file.pos (min size maxRwCount).toNat
  | .pread fd user size offset => ∀ file, state.files fd = some file → 0 ≤ ssize offset →
    Fits (state.devs file.minor) offset (user.reach (min size maxRwCount).toNat)
  | .pwrite fd _ size offset => ∀ file, state.files fd = some file → 0 ≤ ssize offset →
    Fits (state.devs file.minor) offset (min size maxRwCount).toNat
  | .openFile _ _ | .ioctl _ _ _ | .closeFile _ => True

/-- The call works on this device. -/
def OnDevice (state : Cdev) (minor : Fin myMaxMinors) : Call → Prop
  | .openFile _ other => other = minor
  | .read fd _ _ | .write fd _ _ | .pread fd _ _ _ | .pwrite fd _ _ _ | .ioctl fd _ _
  | .closeFile fd => ∃ file, state.files fd = some file ∧ file.minor = minor

/-- One system call, for its effect on the devices. -/
def cdevStep (state : Cdev) (call : Call) : Except Fault Cdev := do
  let (state, _) ← serve state call
  return state

/-- No device claims to be larger than its buffer, and no file position has left
the buffer. -/
structure InRange (state : Cdev) : Prop where
  sizes : ∀ minor, (state.devs minor).size.toNat ≤ bufsiz
  positions : ∀ fd file, state.files fd = some file → file.pos.toNat ≤ bufsiz

theorem loaded_inRange : InRange loaded where
  sizes _ := Nat.le_refl _
  positions fd file found := by simp [loaded] at found

variable {state next : Cdev} {fd : Nat} {file : File} {minor : Fin myMaxMinors}
  {myData after : MyDeviceData} {user : UserBuffer} {size offset pos : UInt64} {ret : Int}
  {received : Bytes}

/-! ## Transfers -/

section Transfers

/-- No requested length is negative as an `ssize_t`. -/
theorem ssize_length (request : size.toNat ≤ maxRwCount.toNat) (room : UInt64) :
    ssize (min room size) = (min room size).toNat := by
  have most : maxRwCount.toNat = 0x7ffff000 := rfl
  refine ssize_of_lt ?_
  rw [toNat_min]
  omega

variable (bounded : myData.size.toNat ≤ bufsiz) (request : size.toNat ≤ maxRwCount.toNat)
  (positive : offset.toNat < 2 ^ 63)
include bounded request positive

/-- What a transfer of the length the source computes needs, in terms of the
length that was asked for. -/
private theorem fits_iff (moved : Nat → Nat) (short : ∀ count, moved count ≤ count) :
    (moved (min (myData.size - offset) size).toNat = 0 ∨
        offset.toNat + moved (min (myData.size - offset) size).toNat ≤ bufsiz) ↔
      Fits myData offset (moved size.toNat) := by
  unfold Fits
  by_cases inside : offset.toNat ≤ myData.size.toNat
  · have := length_inside size inside
    have := short (min (myData.size - offset) size).toNat
    simp only [inside, true_or, iff_true]
    omega
  · rw [length_beyond bounded positive request (by omega)]
    simp [inside]

theorem myRead_ok_iff :
    (∃ result, myRead myData user size offset = .ok result) ↔
      Fits myData offset (user.reach size.toNat) := by
  rw [← fits_iff bounded request positive user.reach (reach_le user),
    ← copyToUser_ok_iff myData.deviceBuffer]
  have signed := ssize_length request (myData.size - offset)
  by_cases nothing : ssize (min (myData.size - offset) size) ≤ 0
  · have short := reach_le user (min (myData.size - offset) size).toNat
    have none := (copyToUser_ok_iff myData.deviceBuffer offset.toNat user
      (min (myData.size - offset) size).toNat).mpr (.inl (by omega))
    simp only [none, iff_true]
    exact ⟨_, by rw [myRead, if_pos nothing]; rfl⟩
  · rw [myRead, if_neg nothing]
    apply exists_bind_ok
    intro copied
    by_cases whole : copied.2 = 0 <;> simp [whole]

theorem myWrite_ok_iff :
    (∃ result, myWrite myData user size offset = .ok result) ↔ Fits myData offset size.toNat := by
  refine Iff.trans ?_ (fits_iff bounded request positive id Nat.le_refl)
  rw [id_eq, ← copyFromUser_ok_iff myData.deviceBuffer _ user]
  by_cases nothing : min (myData.size - offset) size ≤ 0
  · have none := (copyFromUser_ok_iff myData.deviceBuffer offset.toNat user
      (min (myData.size - offset) size).toNat).mpr
      (.inl (Nat.le_zero.mp (UInt64.le_iff_toNat_le.mp nothing)))
    simp only [none, iff_true]
    exact ⟨_, by rw [myWrite, if_pos nothing]; rfl⟩
  · rw [myWrite, if_neg nothing]
    apply exists_bind_ok
    intro copied
    by_cases whole : copied.2 = 0 <;> simp [whole]

end Transfers

/-- A position moves only behind bytes of the buffer. -/
private theorem pos_moves {length : UInt64} (start : offset.toNat ≤ bufsiz)
    (inside : length.toNat = 0 ∨ offset.toNat + length.toNat ≤ bufsiz) :
    (offset + length).toNat ≤ bufsiz := by
  unfold bufsiz at start inside ⊢
  rw [UInt64.toNat_add]
  omega

/-- What a read did: it moved nothing, or it copied and its copy was whole or not. -/
theorem myRead_cases (ran : myRead myData user size offset = .ok (received, pos, ret)) :
    received = [] ∧ pos = offset ∧ ret = 0 ∨
    ∃ left, copyToUser myData.deviceBuffer offset.toNat user (min (myData.size - offset) size).toNat =
        .ok (received, left) ∧
      (left = 0 ∧ pos = offset + min (myData.size - offset) size ∧
          ret = ssize (min (myData.size - offset) size) ∧ 0 < ret ∨
        left ≠ 0 ∧ pos = offset ∧ ret = -efault) := by
  unfold myRead at ran
  by_cases nothing : ssize (min (myData.size - offset) size) ≤ 0
  · rw [if_pos nothing] at ran
    cases ran
    exact .inl ⟨rfl, rfl, rfl⟩
  · rw [if_neg nothing] at ran
    obtain ⟨⟨bytes, left⟩, copied, rest⟩ := bind_eq_ok.mp ran
    dsimp only at rest
    by_cases whole : left = 0
    · rw [if_neg (not_not.mpr whole)] at rest
      cases rest
      exact .inr ⟨left, copied, .inl ⟨whole, rfl, rfl, Int.not_le.mp nothing⟩⟩
    · rw [if_pos whole] at rest
      cases rest
      exact .inr ⟨left, copied, .inr ⟨whole, rfl, rfl⟩⟩

/-- What a write did; only the buffer of the device can change. -/
theorem myWrite_cases (ran : myWrite myData user size offset = .ok (after, pos, ret)) :
    after = myData ∧ pos = offset ∧ ret = 0 ∨
    ∃ array left, copyFromUser myData.deviceBuffer offset.toNat user
        (min (myData.size - offset) size).toNat = .ok (array, left) ∧
      after = { myData with deviceBuffer := array } ∧
      (left = 0 ∧ pos = offset + min (myData.size - offset) size ∧
          ret = ssize (min (myData.size - offset) size) ∨
        left ≠ 0 ∧ pos = offset ∧ ret = -efault) := by
  unfold myWrite at ran
  by_cases nothing : min (myData.size - offset) size ≤ 0
  · rw [if_pos nothing] at ran
    cases ran
    exact .inl ⟨rfl, rfl, rfl⟩
  · rw [if_neg nothing] at ran
    obtain ⟨⟨array, left⟩, copied, rest⟩ := bind_eq_ok.mp ran
    dsimp only at rest
    by_cases whole : left = 0
    · rw [if_neg (not_not.mpr whole)] at rest
      cases rest
      exact .inr ⟨array, left, copied, rfl, .inl ⟨whole, rfl, rfl⟩⟩
    · rw [if_pos whole] at rest
      cases rest
      exact .inr ⟨array, left, copied, rfl, .inr ⟨whole, rfl, rfl⟩⟩

theorem myRead_pos (ran : myRead myData user size offset = .ok (received, pos, ret))
    (start : offset.toNat ≤ bufsiz) : pos.toNat ≤ bufsiz := by
  rcases myRead_cases ran with ⟨-, rfl, -⟩ | ⟨left, copied, ⟨whole, rfl, -⟩ | ⟨-, rfl, -⟩⟩
  · exact start
  · have inside := (copyToUser_ok_iff _ _ _ _).mp ⟨_, copied⟩
    have short := reach_le user (min (myData.size - offset) size).toNat
    have all : user.reach (min (myData.size - offset) size).toNat =
        (min (myData.size - offset) size).toNat := by
      have := copyToUser_left copied
      omega
    rw [all] at inside
    exact pos_moves start inside
  · exact start

theorem myWrite_pos (ran : myWrite myData user size offset = .ok (after, pos, ret))
    (start : offset.toNat ≤ bufsiz) : pos.toNat ≤ bufsiz := by
  rcases myWrite_cases ran with ⟨-, rfl, -⟩ | ⟨array, left, copied, -, ⟨-, rfl, -⟩ | ⟨-, rfl, -⟩⟩
  · exact start
  · exact pos_moves start ((copyFromUser_ok_iff _ _ _ _).mp ⟨_, copied⟩)
  · exact start

/-- A write leaves everything but the buffer. -/
theorem myWrite_keeps (ran : myWrite myData user size offset = .ok (after, pos, ret)) :
    after.size = myData.size ∧ after.access = myData.access := by
  rcases myWrite_cases ran with ⟨rfl, -⟩ | ⟨array, left, -, rfl, -⟩
  · exact ⟨rfl, rfl⟩
  · exact ⟨rfl, rfl⟩

/-- The ioctls copy within the buffer and leave a size within it. -/
theorem myIoctl_ok (cmd : UInt32) (bounded : myData.size.toNat ≤ bufsiz) (arg : UserBuffer) :
    ∃ after received ret, myIoctl myData cmd arg = .ok (after, received, ret) ∧
      after.size.toNat ≤ bufsiz := by
  unfold myIoctl
  by_cases print : cmd = myIoctlPrint
  · exact ⟨_, _, _, by rw [if_pos print]; rfl, bounded⟩
  rw [if_neg print]
  by_cases get : cmd = myIoctlGetBuffer
  · have short := reach_le arg myData.size.toNat
    obtain ⟨⟨bytes, left⟩, copied⟩ := (copyToUser_ok_iff myData.deviceBuffer 0 arg
      myData.size.toNat).mpr (.inr (by omega))
    exact ⟨_, _, _, by rw [if_pos get, copied]; rfl, bounded⟩
  rw [if_neg get]
  by_cases set : cmd = myIoctlSetBuffer
  · obtain ⟨⟨array, remains⟩, copied⟩ := (copyFromUser_ok_iff myData.deviceBuffer 0 arg
      bufferSize).mpr (.inr (by decide))
    refine ⟨_, _, _, by rw [if_pos set, copied]; rfl, ?_⟩
    simp only [UInt64.toNat_ofNat']
    unfold bufferSize bufsiz
    omega
  · exact ⟨_, _, _, by rw [if_neg set]; rfl, bounded⟩

/-! ## Runs -/

theorem request_le (size : UInt64) : (min size maxRwCount).toNat ≤ maxRwCount.toNat := by
  rw [toNat_min]
  exact Nat.min_le_right _ _

theorem myOpen_size : (myOpen myData).1.size = myData.size := by
  by_cases found : myData.access = 0 <;> simp [myOpen, atomicCmpxchg, found]

section Served
variable {reply : Reply}

/-- A call without its file does nothing. -/
theorem onFile_cases {call : File → Except Fault (Cdev × Reply)}
    (served : onFile state fd call = .ok (next, reply)) :
    next = state ∨ ∃ file, state.files fd = some file ∧ call file = .ok (next, reply) := by
  unfold onFile at served
  split at served
  · cases served
    exact .inl rfl
  · rename_i file found
    exact .inr ⟨file, found, served⟩

theorem read_cases (served : serve state (.read fd user size) = .ok (next, reply)) :
    next = state ∨ ∃ file received pos, state.files fd = some file ∧
      myRead (state.devs file.minor) user (min size maxRwCount) file.pos =
        .ok (received, pos, reply.ret) ∧
      next = state.setFile fd (some { file with pos := pos }) := by
  refine (onFile_cases served).imp_right ?_
  rintro ⟨file, found, transferred⟩
  obtain ⟨_, transfer, same⟩ := bind_eq_ok.mp transferred
  obtain ⟨⟨received, pos, ret⟩, read, same'⟩ := bind_eq_ok.mp transfer
  cases same'
  cases same
  exact ⟨file, received, pos, found, read, rfl⟩

theorem write_cases (served : serve state (.write fd user size) = .ok (next, reply)) :
    next = state ∨ ∃ file after pos, state.files fd = some file ∧
      myWrite (state.devs file.minor) user (min size maxRwCount) file.pos =
        .ok (after, pos, reply.ret) ∧
      next = (state.setDevice file.minor after).setFile fd (some { file with pos := pos }) := by
  refine (onFile_cases served).imp_right ?_
  rintro ⟨file, found, transferred⟩
  obtain ⟨_, transfer, same⟩ := bind_eq_ok.mp transferred
  obtain ⟨⟨after, pos, ret⟩, wrote, same'⟩ := bind_eq_ok.mp transfer
  cases same'
  cases same
  exact ⟨file, after, pos, found, wrote, rfl⟩

/-- A `pread` has no effect. -/
theorem pread_state (served : serve state (.pread fd user size offset) = .ok (next, reply)) :
    next = state := by
  rcases onFile_cases served with same | ⟨file, found, transferred⟩
  · exact same
  · split at transferred
    · cases transferred
      rfl
    · obtain ⟨_, -, same⟩ := bind_eq_ok.mp transferred
      cases same
      rfl

theorem pwrite_cases (served : serve state (.pwrite fd user size offset) = .ok (next, reply)) :
    next = state ∨ ∃ file after pos, state.files fd = some file ∧
      myWrite (state.devs file.minor) user (min size maxRwCount) offset =
        .ok (after, pos, reply.ret) ∧
      next = state.setDevice file.minor after := by
  rcases onFile_cases served with same | ⟨file, found, transferred⟩
  · exact .inl same
  · split at transferred
    · cases transferred
      exact .inl rfl
    · obtain ⟨_, transfer, same⟩ := bind_eq_ok.mp transferred
      obtain ⟨⟨after, pos, ret⟩, wrote, same'⟩ := bind_eq_ok.mp transfer
      cases same'
      cases same
      exact .inr ⟨file, after, pos, found, wrote, rfl⟩

theorem ioctl_cases {cmd : UInt32} (served : serve state (.ioctl fd cmd user) = .ok (next, reply)) :
    next = state ∨ ∃ file after, state.files fd = some file ∧
      myIoctl (state.devs file.minor) cmd user = .ok (after, reply.received, reply.ret) ∧
      next = state.setDevice file.minor after := by
  refine (onFile_cases served).imp_right ?_
  rintro ⟨file, found, controlled⟩
  obtain ⟨⟨after, received, ret⟩, ran, same⟩ := bind_eq_ok.mp controlled
  cases same
  exact ⟨file, after, found, ran, rfl⟩

end Served

/-- What a completed call can do: nothing, or set the device it works on and one
file, with a size and a position that stay in range. -/
theorem cdevStep_cases {call : Call} (ran : cdevStep state call = .ok next) :
    next = state ∨ ∃ minor myData fd file, OnDevice state minor call ∧
      next = (state.setDevice minor myData).setFile fd file ∧
      (InRange state → myData.size.toNat ≤ bufsiz ∧
        ∀ opened, file = some opened → opened.pos.toNat ≤ bufsiz) := by
  obtain ⟨⟨_, reply⟩, served, same⟩ := bind_eq_ok.mp ran
  cases same
  cases call with
  | openFile fd minor =>
    simp only [serve] at served
    split at served
    · cases served
      exact .inl rfl
    · split at served
      · cases served
        refine .inr ⟨minor, _, fd, _, rfl, (Cdev.setFile_self _ fd).symm, fun held => ⟨?_, ?_⟩⟩
        · rw [myOpen_size]
          exact held.sizes minor
        · exact fun opened found => held.positions fd opened found
      · cases served
        refine .inr ⟨minor, _, fd, _, rfl, rfl, fun held => ⟨?_, ?_⟩⟩
        · rw [myOpen_size]
          exact held.sizes minor
        · rintro opened ⟨⟩
          exact Nat.zero_le _
  | read fd user size =>
    obtain rfl | ⟨file, received, moved, found, read, rfl⟩ := read_cases served
    · exact .inl rfl
    · refine .inr ⟨file.minor, state.devs file.minor, fd, _, ⟨file, found, rfl⟩,
        by rw [Cdev.setDevice_self], fun held => ⟨held.sizes _, ?_⟩⟩
      rintro opened ⟨⟩
      exact myRead_pos read (held.positions fd _ found)
  | write fd user size =>
    obtain rfl | ⟨file, after, moved, found, wrote, rfl⟩ := write_cases served
    · exact .inl rfl
    · refine .inr ⟨file.minor, after, fd, _, ⟨file, found, rfl⟩, rfl, fun held => ⟨?_, ?_⟩⟩
      · rw [(myWrite_keeps wrote).1]
        exact held.sizes _
      · rintro opened ⟨⟩
        exact myWrite_pos wrote (held.positions fd _ found)
  | pread fd user size offset => exact .inl (pread_state served)
  | pwrite fd user size offset =>
    obtain rfl | ⟨file, after, moved, found, wrote, rfl⟩ := pwrite_cases served
    · exact .inl rfl
    · refine .inr ⟨file.minor, after, fd, _, ⟨file, found, rfl⟩, (Cdev.setFile_self _ fd).symm,
        fun held => ⟨?_, fun opened found => held.positions fd opened found⟩⟩
      rw [(myWrite_keeps wrote).1]
      exact held.sizes _
  | ioctl fd cmd arg =>
    obtain rfl | ⟨file, after, found, controlled, rfl⟩ := ioctl_cases served
    · exact .inl rfl
    · refine .inr ⟨file.minor, after, fd, _, ⟨file, found, rfl⟩, (Cdev.setFile_self _ fd).symm,
        fun held => ⟨?_, fun opened found => held.positions fd opened found⟩⟩
      obtain ⟨_, _, _, ran, small⟩ := myIoctl_ok cmd (held.sizes file.minor) arg
      rw [ran] at controlled
      cases controlled
      exact small
  | closeFile fd =>
    obtain rfl | ⟨file, found, closed⟩ := onFile_cases served
    · exact .inl rfl
    · cases closed
      exact .inr ⟨file.minor, _, fd, none, ⟨file, found, rfl⟩, rfl,
        fun held => ⟨held.sizes file.minor, nofun⟩⟩

/-- A call that completes leaves sizes and positions in range. -/
theorem cdevStep_keeps (state : Cdev) (call : Call) (next : Cdev) (held : InRange state)
    (ran : cdevStep state call = .ok next) : InRange next := by
  obtain rfl | ⟨minor, myData, fd, file, -, rfl, stays⟩ := cdevStep_cases ran
  · exact held
  · obtain ⟨small, near⟩ := stays held
    constructor
    · intro other
      by_cases same : other = minor
      · simpa [same] using small
      · simpa [same] using held.sizes other
    · intro other opened found
      by_cases same : other = fd
      · exact near opened (by simpa [same] using found)
      · exact held.positions other opened (by simpa [same] using found)

/-- A call changes no device but the one it works on. -/
theorem cdevStep_frame {call : Call} (ran : cdevStep state call = .ok next)
    (away : ¬ OnDevice state minor call) : next.devs minor = state.devs minor := by
  obtain rfl | ⟨other, myData, fd, file, on, rfl, -⟩ := cdevStep_cases ran
  · rfl
  · have different : minor ≠ other := by
      rintro rfl
      exact away on
    simp [different]

private theorem vfsRead_ok_iff :
    (∃ result, vfsRead state file user size offset = .ok result) ↔
      ∃ result, myRead (state.devs file.minor) user (min size maxRwCount) offset = .ok result :=
  exists_bind_ok fun _ => ⟨_, rfl⟩

private theorem vfsWrite_ok_iff :
    (∃ result, vfsWrite state file user size offset = .ok result) ↔
      ∃ result, myWrite (state.devs file.minor) user (min size maxRwCount) offset = .ok result :=
  exists_bind_ok fun _ => ⟨_, rfl⟩

private theorem onFile_ok_iff {call : File → Except Fault (Cdev × Reply)} :
    (∃ result, onFile state fd call = .ok result) ↔
      ∀ file, state.files fd = some file → ∃ result, call file = .ok result := by
  cases found : state.files fd <;> simp [onFile, found]

/-- A call completes exactly when its transfer stays in the buffer. -/
theorem cdevStep_ok_iff (state : Cdev) (call : Call) (held : InRange state) :
    InBounds state call ↔ ∃ next, cdevStep state call = .ok next := by
  refine Iff.trans ?_ (exists_bind_ok fun _ => ⟨_, rfl⟩).symm
  have inFile : ∀ fd file, state.files fd = some file → file.pos.toNat < 2 ^ 63 := by
    intro fd file found
    exact Nat.lt_of_le_of_lt (held.positions fd file found) (by decide)
  have seekable : ∀ offset, ¬ ssize offset < 0 → offset.toNat < 2 ^ 63 := by
    intro offset positive
    rwa [ssize_neg, Nat.not_le] at positive
  cases call with
  | openFile fd minor =>
    simp only [InBounds, serve, true_iff]
    split
    · exact ⟨_, rfl⟩
    · split <;> exact ⟨_, rfl⟩
  | read fd user size =>
    refine Iff.trans (forall₂_congr fun file found => ?_) onFile_ok_iff.symm
    refine Iff.trans ?_ (exists_bind_ok fun _ => ⟨_, rfl⟩).symm
    rw [vfsRead_ok_iff]
    exact (myRead_ok_iff (held.sizes _) (request_le size) (inFile fd file found)).symm
  | write fd user size =>
    refine Iff.trans (forall₂_congr fun file found => ?_) onFile_ok_iff.symm
    refine Iff.trans ?_ (exists_bind_ok fun _ => ⟨_, rfl⟩).symm
    rw [vfsWrite_ok_iff]
    exact (myWrite_ok_iff (held.sizes _) (request_le size) (inFile fd file found)).symm
  | pread fd user size offset =>
    refine Iff.trans (forall₂_congr fun file found => ?_) onFile_ok_iff.symm
    by_cases negative : ssize offset < 0
    · simp [negative, show ¬ 0 ≤ ssize offset by omega]
    · simp only [negative, show 0 ≤ ssize offset by omega, if_false, forall_const]
      refine Iff.trans ?_ (exists_bind_ok fun _ => ⟨_, rfl⟩).symm
      rw [vfsRead_ok_iff]
      exact (myRead_ok_iff (held.sizes _) (request_le size) (seekable offset negative)).symm
  | pwrite fd user size offset =>
    refine Iff.trans (forall₂_congr fun file found => ?_) onFile_ok_iff.symm
    by_cases negative : ssize offset < 0
    · simp [negative, show ¬ 0 ≤ ssize offset by omega]
    · simp only [negative, show 0 ≤ ssize offset by omega, if_false, forall_const]
      refine Iff.trans ?_ (exists_bind_ok fun _ => ⟨_, rfl⟩).symm
      rw [vfsWrite_ok_iff]
      exact (myWrite_ok_iff (held.sizes _) (request_le size) (seekable offset negative)).symm
  | ioctl fd cmd arg =>
    refine Iff.trans ?_ onFile_ok_iff.symm
    simp only [InBounds, true_iff]
    intro file found
    obtain ⟨after, received, ret, ran, -⟩ := myIoctl_ok cmd (held.sizes file.minor) arg
    exact ⟨_, by rw [ran]; rfl⟩
  | closeFile fd =>
    refine Iff.trans ?_ onFile_ok_iff.symm
    simp [InBounds]

/-- **Bounds.** A run of system calls stays inside the device buffers exactly
when every transfer in it starts within its device's size, moves nothing, or
ends within the buffer; and no call changes another device. -/
theorem copies_in_bounds_iff (calls : List Call) :
    ((∃ final, run cdevStep loaded calls = .ok final) ↔ Along InBounds cdevStep loaded calls) ∧
      ∀ state call next minor, cdevStep state call = .ok next → ¬ OnDevice state minor call →
        next.devs minor = state.devs minor :=
  ⟨run_ok_iff cdevStep_keeps cdevStep_ok_iff loaded_inRange, fun _ _ _ _ => cdevStep_frame⟩

/-- A byte written at the very end of the device stays inside. -/
theorem copies_in_bounds_last_byte :
    ∃ final, run cdevStep loaded [.openFile 0 0, .pwrite 0 ⟨fun _ => 0, none⟩ 1 4095] = .ok final := by
  refine (copies_in_bounds_iff [.openFile 0 0, .pwrite 0 ⟨fun _ => 0, none⟩ 1 4095]).1.mpr
    ⟨trivial, fun next ran => ⟨?_, fun _ _ => trivial⟩⟩
  cases ran
  rintro file ⟨⟩ -
  exact .inl (by decide)

/-- One byte written just behind the device's size lands outside the buffer. -/
theorem pwrite_leaves_buffer :
    run cdevStep loaded [.openFile 0 0, .pwrite 0 ⟨fun _ => 0, none⟩ 1 4097] =
      .error .outOfBounds := by
  rfl

end KernelLabs.CharDevice
