import KernelLabs.CharDeviceBounds

/-! Exclusive open. `device_buffer` is followed by `access` and `size` in the same
structure, so a store that leaves the buffer can rewrite the flag that keeps a
second open out. Here such a copy goes on through the structure; past its end
stores are a fault, and loads find what memory holds there. -/
namespace KernelLabs.CharDevice
open CBytes Errno

/-! ## Copies that leave the buffer -/

/-- `sizeof(struct my_device_data)` without the `cdev` in front: the buffer, four
bytes of `access`, four of padding, eight of `size`. -/
def dataSize : Nat := 4112

/-- A value in the byte order of memory. -/
def leBytes (width value : Nat) : Bytes :=
  (List.range width).map fun index => UInt8.ofNat (value / 256 ^ index)

def ofLeBytes (bytes : Bytes) : Nat := bytes.foldr (fun byte value => byte.toNat + 256 * value) 0

/-- The bytes of the structure from `device_buffer` on. -/
def dataBytes (myData : MyDeviceData) : CharArray dataSize :=
  ⟨myData.deviceBuffer.1 ++ leBytes 4 (myData.access % 2 ^ 32).toNat ++ List.replicate 4 0 ++
    leBytes 8 myData.size.toNat, by simp [leBytes, myData.deviceBuffer.2, bufsiz, dataSize]⟩

/-- The members those bytes hold. -/
def ofDataBytes (bytes : CharArray dataSize) : MyDeviceData where
  deviceBuffer := ⟨bytes.1.take bufsiz, by rw [List.length_take, bytes.2]; rfl⟩
  access := Int.bmod (ofLeBytes ((bytes.1.drop 4096).take 4)) (2 ^ 32)
  size := UInt64.ofNat (ofLeBytes ((bytes.1.drop 4104).take 8))

/-- `copy_from_user(my_data->device_buffer + start, user, count)`. -/
def dataFromUser (myData : MyDeviceData) (start : Nat) (user : UserBuffer) (count : Nat) :
    Except Fault (MyDeviceData × Nat) :=
  match copyFromUser myData.deviceBuffer start user count with
  | .ok (deviceBuffer, left) => .ok ({ myData with deviceBuffer := deviceBuffer }, left)
  | .error _ => do
    let (bytes, left) ← copyFromUser (dataBytes myData) start user count
    return (ofDataBytes bytes, left)

/-- `copy_to_user(user, my_data->device_buffer + start, count)`, where memory
holds `beyond` behind the structure. -/
def dataToUser (beyond : Nat → UInt8) (myData : MyDeviceData) (start : Nat) (user : UserBuffer)
    (count : Nat) : Bytes × Nat :=
  match copyToUser myData.deviceBuffer start user count with
  | .ok copied => copied
  | .error _ => ((List.range (user.reach count)).map fun index =>
      (dataBytes myData).1.getD (start + index) (beyond (start + index)),
    count - user.reach count)

/-- `my_read`, wherever it copies from. -/
def rawRead (beyond : Nat → UInt8) (myData : MyDeviceData) (userBuffer : UserBuffer)
    (size offset : UInt64) : Bytes × UInt64 × Int :=
  let len := min (myData.size - offset) size
  if ssize len ≤ 0 then ([], offset, 0)
  else
    let (received, left) := dataToUser beyond myData offset.toNat userBuffer len.toNat
    if left ≠ 0 then (received, offset, -efault) else (received, offset + len, ssize len)

/-- `my_write`, wherever it copies to. -/
def rawWrite (myData : MyDeviceData) (userBuffer : UserBuffer) (size offset : UInt64) :
    Except Fault (MyDeviceData × UInt64 × Int) := do
  let len := min (myData.size - offset) size
  if len ≤ 0 then return (myData, offset, 0)
  let (myData, left) ← dataFromUser myData offset.toNat userBuffer len.toNat
  if left ≠ 0 then return (myData, offset, -efault)
  return (myData, offset + len, ssize len)

/-- `my_ioctl`, with a `size` that may be larger than the buffer. -/
def rawIoctl (beyond : Nat → UInt8) (myData : MyDeviceData) (cmd : UInt32) (arg : UserBuffer) :
    Except Fault (MyDeviceData × Bytes × Int) :=
  if cmd = myIoctlGetBuffer then
    let (received, left) := dataToUser beyond myData 0 arg myData.size.toNat
    .ok (myData, received, if left ≠ 0 then -efault else 0)
  else myIoctl myData cmd arg

section Calls
variable (beyond : Fin myMaxMinors → Nat → UInt8)

/-- One system call, start to end. The kernel turns away a negative position. -/
def rawServe (state : Cdev) : Call → Except Fault (Cdev × Reply)
  | .openFile fd minor => serve state (.openFile fd minor)
  | .read fd user size => onFile state fd fun file =>
    if ssize file.pos < 0 then .ok (state, ⟨-einval, []⟩)
    else
      let (received, pos, ret) :=
        rawRead (beyond file.minor) (state.devs file.minor) user (min size maxRwCount) file.pos
      .ok (state.setFile fd (some { file with pos := pos }), ⟨ret, received⟩)
  | .write fd user size => onFile state fd fun file =>
    if ssize file.pos < 0 then .ok (state, ⟨-einval, []⟩)
    else do
      let (myData, pos, ret) ←
        rawWrite (state.devs file.minor) user (min size maxRwCount) file.pos
      return ((state.setDevice file.minor myData).setFile fd (some { file with pos := pos }),
        ⟨ret, []⟩)
  | .pread fd user size offset => onFile state fd fun file =>
    if ssize offset < 0 then .ok (state, ⟨-einval, []⟩)
    else
      let (received, _, ret) :=
        rawRead (beyond file.minor) (state.devs file.minor) user (min size maxRwCount) offset
      .ok (state, ⟨ret, received⟩)
  | .pwrite fd user size offset => onFile state fd fun file =>
    if ssize offset < 0 then .ok (state, ⟨-einval, []⟩)
    else do
      let (myData, _, ret) ← rawWrite (state.devs file.minor) user (min size maxRwCount) offset
      return (state.setDevice file.minor myData, ⟨ret, []⟩)
  | .ioctl fd cmd arg => onFile state fd fun file => do
    let (myData, received, ret) ← rawIoctl (beyond file.minor) (state.devs file.minor) cmd arg
    return (state.setDevice file.minor myData, ⟨ret, received⟩)
  | .closeFile fd => serve state (.closeFile fd)

/-- One system call, for its effect on the devices. -/
def rawStep (state : Cdev) (call : Call) : Except Fault Cdev := do
  let (state, _) ← rawServe beyond state call
  return state

end Calls

/-- The bytes the call writes, if it writes any, stay in the buffer. -/
def WritesInBounds (state : Cdev) : Call → Prop
  | .write fd user size => InBounds state (.write fd user size)
  | .pwrite fd user size offset => InBounds state (.pwrite fd user size offset)
  | .openFile _ _ | .read _ _ _ | .pread _ _ _ _ | .ioctl _ _ _ | .closeFile _ => True

/-- Some file is open on the device. -/
def Opened (state : Cdev) (minor : Fin myMaxMinors) : Prop :=
  ∃ fd file, state.files fd = some file ∧ file.minor = minor

/-- No device has two files, and its flag says whether it has one. -/
structure Exclusive (state : Cdev) : Prop where
  alone : ∀ fd fd' file file', state.files fd = some file → state.files fd' = some file' →
    file.minor = file'.minor → fd = fd'
  taken : ∀ minor, Opened state minor → (state.devs minor).access = 1
  free : ∀ minor, ¬ Opened state minor → (state.devs minor).access = 0

variable {beyond : Fin myMaxMinors → Nat → UInt8} {state next : Cdev} {fd : Nat} {file : File}
  {minor : Fin myMaxMinors} {myData after : MyDeviceData} {user : UserBuffer}
  {size offset pos : UInt64} {ret : Int} {received : Bytes}

/-! ## Where the checked calls complete -/

section Agreement
variable {hole : Nat → UInt8}

theorem dataFromUser_inside {start count : Nat} {copied : CharArray bufsiz × Nat}
    (ran : copyFromUser myData.deviceBuffer start user count = .ok copied) :
    dataFromUser myData start user count =
      .ok ({ myData with deviceBuffer := copied.1 }, copied.2) := by
  rw [dataFromUser, ran]

theorem dataToUser_inside {start count : Nat} {copied : Bytes × Nat}
    (ran : copyToUser myData.deviceBuffer start user count = .ok copied) :
    dataToUser hole myData start user count = copied := by
  rw [dataToUser, ran]

theorem rawRead_of_myRead (ran : myRead myData user size offset = .ok (received, pos, ret)) :
    rawRead hole myData user size offset = (received, pos, ret) := by
  unfold myRead at ran
  unfold rawRead
  by_cases nothing : ssize (min (myData.size - offset) size) ≤ 0
  · rw [if_pos nothing] at ran ⊢
    exact Except.ok.inj ran
  · rw [if_neg nothing] at ran ⊢
    obtain ⟨⟨bytes, left⟩, copied, rest⟩ := bind_eq_ok.mp ran
    simp only [dataToUser_inside copied]
    by_cases whole : left = 0
    · simpa [whole] using rest
    · simpa [whole] using rest

theorem rawWrite_of_myWrite (ran : myWrite myData user size offset = .ok (after, pos, ret)) :
    rawWrite myData user size offset = .ok (after, pos, ret) := by
  unfold myWrite at ran
  unfold rawWrite
  by_cases nothing : min (myData.size - offset) size ≤ 0
  · rw [if_pos nothing] at ran ⊢
    exact ran
  · rw [if_neg nothing] at ran ⊢
    obtain ⟨⟨bytes, left⟩, copied, rest⟩ := bind_eq_ok.mp ran
    rw [dataFromUser_inside copied]
    exact rest

theorem rawIoctl_of_myIoctl {cmd : UInt32} (hole : Nat → UInt8)
    (ran : myIoctl myData cmd user = .ok (after, received, ret)) :
    rawIoctl hole myData cmd user = .ok (after, received, ret) := by
  unfold rawIoctl
  by_cases get : cmd = myIoctlGetBuffer
  · subst get
    unfold myIoctl at ran
    rw [if_neg (by decide), if_pos rfl] at ran
    obtain ⟨⟨bytes, left⟩, copied, rest⟩ := bind_eq_ok.mp ran
    rw [if_pos rfl]
    simp only [dataToUser_inside copied]
    exact rest
  · rw [if_neg get]
    exact ran

end Agreement

/-- A read that completes is the checked one. -/
theorem rawServe_read_of_serve {result : Cdev × Reply} (found : state.files fd = some file)
    (positive : ¬ ssize file.pos < 0) (served : serve state (.read fd user size) = .ok result) :
    rawServe beyond state (.read fd user size) = .ok result := by
  simp only [serve, onFile, found, vfsRead] at served
  obtain ⟨_, transferred, same⟩ := bind_eq_ok.mp served
  obtain ⟨⟨received, moved, ret⟩, read, same'⟩ := bind_eq_ok.mp transferred
  cases same'
  simpa [rawServe, onFile, found, positive, rawRead_of_myRead read] using same

/-- Where a checked call completes, it is what the device really does. -/
theorem rawServe_of_serve {call : Call} {result : Cdev × Reply} (held : InRange state)
    (served : serve state call = .ok result) : rawServe beyond state call = .ok result := by
  have inFile : ∀ fd file, state.files fd = some file → ¬ssize file.pos < 0 :=
    fun fd file found => ssize_low (held.positions fd file found)
  cases call with
  | openFile fd minor => exact served
  | closeFile fd => exact served
  | read fd user size =>
    cases found : state.files fd with
    | none => simpa [serve, rawServe, onFile, found] using served
    | some file => exact rawServe_read_of_serve found (inFile fd file found) served
  | write fd user size =>
    cases found : state.files fd with
    | none => simpa [serve, rawServe, onFile, found] using served
    | some file =>
      simp only [serve, onFile, found, vfsWrite] at served
      obtain ⟨_, transferred, same⟩ := bind_eq_ok.mp served
      obtain ⟨⟨after, moved, ret⟩, wrote, same'⟩ := bind_eq_ok.mp transferred
      cases same'
      simpa [rawServe, onFile, found, inFile fd file found, rawWrite_of_myWrite wrote] using same
  | pread fd user size offset =>
    cases found : state.files fd with
    | none => simpa [serve, rawServe, onFile, found] using served
    | some file =>
      simp only [serve, onFile, found, vfsRead] at served
      by_cases negative : ssize offset < 0
      · simpa [rawServe, onFile, found, negative] using served
      · rw [if_neg negative] at served
        obtain ⟨_, transferred, same⟩ := bind_eq_ok.mp served
        obtain ⟨⟨received, moved, ret⟩, read, same'⟩ := bind_eq_ok.mp transferred
        cases same'
        simpa [rawServe, onFile, found, negative, rawRead_of_myRead read] using same
  | pwrite fd user size offset =>
    cases found : state.files fd with
    | none => simpa [serve, rawServe, onFile, found] using served
    | some file =>
      simp only [serve, onFile, found, vfsWrite] at served
      by_cases negative : ssize offset < 0
      · simpa [rawServe, onFile, found, negative] using served
      · rw [if_neg negative] at served
        obtain ⟨_, transferred, same⟩ := bind_eq_ok.mp served
        obtain ⟨⟨after, moved, ret⟩, wrote, same'⟩ := bind_eq_ok.mp transferred
        cases same'
        simpa [rawServe, onFile, found, negative, rawWrite_of_myWrite wrote] using same
  | ioctl fd cmd arg =>
    cases found : state.files fd with
    | none => simpa [serve, rawServe, onFile, found] using served
    | some file =>
      simp only [serve, onFile, found] at served
      obtain ⟨⟨after, received, ret⟩, controlled, same⟩ := bind_eq_ok.mp served
      simpa [rawServe, onFile, found, rawIoctl_of_myIoctl _ controlled] using same

/-! ## Flags and open files -/

theorem myOpen_of_free (free : myData.access = 0) : myOpen myData = ({ myData with access := 1 }, 0) := by
  simp [myOpen, atomicCmpxchg, free]

theorem myOpen_of_taken (taken : myData.access = 1) : myOpen myData = (myData, -ebusy) := by
  simp [myOpen, atomicCmpxchg, taken]

theorem myIoctl_access {cmd : UInt32} (ran : myIoctl myData cmd user = .ok (after, received, ret)) :
    after.access = myData.access := by
  unfold myIoctl at ran
  split at ran
  · cases ran
    rfl
  split at ran
  · obtain ⟨_, -, rest⟩ := bind_eq_ok.mp ran
    cases rest
    rfl
  split at ran
  · obtain ⟨_, -, rest⟩ := bind_eq_ok.mp ran
    cases rest
    rfl
  · cases ran
    rfl

namespace Exclusive

/-- Moving a file's position and changing what a device holds, its flag apart,
changes nobody's hold on a device. -/
theorem transferred (held : Exclusive state) (found : state.files fd = some file)
    (same : after.access = (state.devs file.minor).access) (pos : UInt64) :
    Exclusive ((state.setDevice file.minor after).setFile fd (some { file with pos := pos })) := by
  have before : ∀ {fd' file'}, ((state.setDevice file.minor after).setFile fd
      (some { file with pos := pos })).files fd' = some file' →
      ∃ old, state.files fd' = some old ∧ old.minor = file'.minor := by
    intro fd' file' open'
    by_cases this : fd' = fd
    · subst this
      simp only [Cdev.setFile_files, if_true, Option.some.injEq] at open'
      exact ⟨file, found, by rw [← open']⟩
    · simp only [Cdev.setFile_files, this, if_false, Cdev.setDevice_files] at open'
      exact ⟨file', open', rfl⟩
  have opened : ∀ other, Opened ((state.setDevice file.minor after).setFile fd
      (some { file with pos := pos })) other ↔ Opened state other := by
    intro other
    constructor
    · rintro ⟨fd', file', open', rfl⟩
      obtain ⟨old, was, minor⟩ := before open'
      exact ⟨fd', old, was, minor⟩
    · rintro ⟨fd', old, was, rfl⟩
      by_cases this : fd' = fd
      · subst this
        rw [found] at was
        cases was
        exact ⟨fd', { file with pos := pos }, by simp, rfl⟩
      · exact ⟨fd', old, by simp [this, was], rfl⟩
  have flag : ∀ other, (((state.setDevice file.minor after).setFile fd
      (some { file with pos := pos })).devs other).access = (state.devs other).access := by
    intro other
    by_cases this : other = file.minor
    · simp [this, same]
    · simp [this]
  constructor
  · intro fd₁ fd₂ file₁ file₂ open₁ open₂ minors
    obtain ⟨old₁, was₁, minor₁⟩ := before open₁
    obtain ⟨old₂, was₂, minor₂⟩ := before open₂
    exact held.alone fd₁ fd₂ old₁ old₂ was₁ was₂ (by rw [minor₁, minor₂, minors])
  · intro other open'
    rw [flag]
    exact held.taken other ((opened other).mp open')
  · intro other closed
    rw [flag]
    exact held.free other (mt (opened other).mpr closed)

/-- A free device is taken by the file that opens it. -/
theorem opening (held : Exclusive state) (unused : state.files fd = none)
    (closed : ¬ Opened state minor) (flag : after.access = 1) :
    Exclusive ((state.setDevice minor after).setFile fd (some ⟨minor, 0⟩)) := by
  constructor
  · intro fd₁ fd₂ file₁ file₂ open₁ open₂ minors
    simp only [Cdev.setFile_files, Cdev.setDevice_files] at open₁ open₂
    by_cases first : fd₁ = fd <;> by_cases second : fd₂ = fd
    · rw [first, second]
    · simp only [first, second, if_true, if_false, Option.some.injEq] at open₁ open₂
      exact absurd ⟨fd₂, file₂, open₂, by rw [← minors, ← open₁]⟩ closed
    · simp only [first, second, if_true, if_false, Option.some.injEq] at open₁ open₂
      exact absurd ⟨fd₁, file₁, open₁, by rw [minors, ← open₂]⟩ closed
    · simp only [first, second, if_false] at open₁ open₂
      exact held.alone fd₁ fd₂ file₁ file₂ open₁ open₂ minors
  · rintro other ⟨fd', file', open', rfl⟩
    by_cases this : file'.minor = minor
    · simp [this, flag]
    · have different : fd' ≠ fd := by
        rintro rfl
        simp only [Cdev.setFile_files, if_true, Option.some.injEq] at open'
        exact this (by rw [← open'])
      simp only [Cdev.setFile_files, different, if_false, Cdev.setDevice_files] at open'
      simpa [this] using held.taken file'.minor ⟨fd', file', open', rfl⟩
  · intro other free
    have different : other ≠ minor := by
      rintro rfl
      exact free ⟨fd, ⟨other, 0⟩, by simp, rfl⟩
    have before : ¬ Opened state other := by
      rintro ⟨fd', file', open', rfl⟩
      have busy : fd' ≠ fd := by
        rintro rfl
        rw [unused] at open'
        cases open'
      exact free ⟨fd', file', by simp [busy, open'], rfl⟩
    simpa [different] using held.free other before

/-- A closed device is free. -/
theorem closing (held : Exclusive state) (found : state.files fd = some file)
    (flag : after.access = 0) :
    Exclusive ((state.setDevice file.minor after).setFile fd none) := by
  have before : ∀ {fd' file'}, ((state.setDevice file.minor after).setFile fd none).files fd' =
      some file' → state.files fd' = some file' ∧ file'.minor ≠ file.minor := by
    intro fd' file' open'
    have different : fd' ≠ fd := by
      rintro rfl
      simp at open'
    simp only [Cdev.setFile_files, different, if_false, Cdev.setDevice_files] at open'
    exact ⟨open', fun same => different (held.alone fd' fd file' file open' found same)⟩
  constructor
  · intro fd₁ fd₂ file₁ file₂ open₁ open₂
    exact held.alone fd₁ fd₂ file₁ file₂ (before open₁).1 (before open₂).1
  · rintro other ⟨fd', file', open', rfl⟩
    obtain ⟨was, different⟩ := before open'
    simpa [different] using held.taken file'.minor ⟨fd', file', was, rfl⟩
  · intro other free
    by_cases this : other = file.minor
    · simp [this, flag]
    · have closed : ¬ Opened state other := by
        rintro ⟨fd', file', was, rfl⟩
        have different : fd' ≠ fd := by
          rintro rfl
          rw [found] at was
          cases was
          exact this rfl
        exact free ⟨fd', file', by simp [different, was], rfl⟩
      simpa [this] using held.free other closed

/-- Opening takes a device that is free, and no other; no size changes. -/
theorem opens (held : Exclusive state) (fd : Nat) (minor : Fin myMaxMinors) :
    ∃ next reply, serve state (.openFile fd minor) = .ok (next, reply) ∧ Exclusive next ∧
      ∀ other, (next.devs other).size = (state.devs other).size := by
  cases unused : state.files fd with
  | some file => exact ⟨state, _, by simp [serve, unused]; rfl, held, fun _ => rfl⟩
  | none =>
    by_cases busy : Opened state minor
    · have taken := myOpen_of_taken (held.taken minor busy)
      exact ⟨state, _, by simp [serve, unused, taken, ebusy]; rfl, held, fun _ => rfl⟩
    · have free := myOpen_of_free (held.free minor busy)
      refine ⟨_, _, by simp only [serve, unused, free]; rfl, held.opening unused busy rfl,
        fun other => ?_⟩
      by_cases this : other = minor
      · simp [this]
      · simp [this]

/-- Closing frees the device of the file. -/
theorem closes (held : Exclusive state) (fd : Nat) :
    ∃ next reply, serve state (.closeFile fd) = .ok (next, reply) ∧ Exclusive next ∧
      ∀ other, (next.devs other).size = (state.devs other).size := by
  cases found : state.files fd with
  | none => exact ⟨state, _, by simp [serve, onFile, found]; rfl, held, fun _ => rfl⟩
  | some file =>
    refine ⟨_, _, by simp only [serve, onFile, found]; rfl, held.closing found rfl,
      fun other => ?_⟩
    by_cases this : other = file.minor
    · simp [this, myRelease]
    · simp [this]

end Exclusive

theorem loaded_exclusive : Exclusive loaded where
  alone fd fd' file file' open' := by simp [loaded] at open'
  taken minor := by
    rintro ⟨fd, file, open', -⟩
    simp [loaded] at open'
  free minor closed := rfl

/-- What every run within the condition keeps: the hold on each device, and a
size that the in-bounds condition can be read with. -/
structure Held (state : Cdev) : Prop where
  exclusive : Exclusive state
  sizes : ∀ minor, (state.devs minor).size.toNat ≤ bufsiz

namespace Held

theorem transferred (held : Held state) (found : state.files fd = some file)
    (same : after.access = (state.devs file.minor).access) (small : after.size.toNat ≤ bufsiz)
    (pos : UInt64) :
    Held ((state.setDevice file.minor after).setFile fd (some { file with pos := pos })) := by
  refine ⟨held.exclusive.transferred found same pos, fun other => ?_⟩
  by_cases this : other = file.minor
  · simpa [this] using small
  · simpa [this] using held.sizes other

/-- The same, for a call that leaves the position where it is. -/
theorem changed (held : Held state) (found : state.files fd = some file)
    (same : after.access = (state.devs file.minor).access) (small : after.size.toNat ≤ bufsiz) :
    Held (state.setDevice file.minor after) := by
  have unmoved : (state.setDevice file.minor after).setFile fd (some file) =
      state.setDevice file.minor after := by
    rw [← found]
    exact Cdev.setFile_self (state.setDevice file.minor after) fd
  rw [← unmoved]
  exact held.transferred found same small file.pos

theorem opened (held : Held state) (fd : Nat) (minor : Fin myMaxMinors) :
    ∃ next, rawStep beyond state (.openFile fd minor) = .ok next ∧ Held next := by
  obtain ⟨next, reply, served, exclusive, sizes⟩ := held.exclusive.opens fd minor
  exact ⟨next, by simp [rawStep, rawServe, served], exclusive,
    fun other => sizes other ▸ held.sizes other⟩

theorem closed (held : Held state) (fd : Nat) :
    ∃ next, rawStep beyond state (.closeFile fd) = .ok next ∧ Held next := by
  obtain ⟨next, reply, served, exclusive, sizes⟩ := held.exclusive.closes fd
  exact ⟨next, by simp [rawStep, rawServe, served], exclusive,
    fun other => sizes other ▸ held.sizes other⟩

/-- A write that stays in the buffer is the checked one. -/
theorem wrote (held : Held state) (minor : Fin myMaxMinors) (user : UserBuffer) (size : UInt64)
    (positive : ¬ ssize offset < 0)
    (fits : Fits (state.devs minor) offset (min size maxRwCount).toNat) :
    ∃ after pos ret, rawWrite (state.devs minor) user (min size maxRwCount) offset =
        .ok (after, pos, ret) ∧
      after.access = (state.devs minor).access ∧ after.size = (state.devs minor).size := by
  rw [ssize_neg, Nat.not_le] at positive
  obtain ⟨⟨after, pos, ret⟩, ran⟩ : ∃ result, myWrite (state.devs minor) user
      (min size maxRwCount) offset = .ok result :=
    (myWrite_ok_iff (held.sizes minor) (request_le size) positive).mpr fits
  obtain ⟨size, access⟩ := myWrite_keeps ran
  exact ⟨after, pos, ret, rawWrite_of_myWrite ran, access, size⟩

end Held

/-- A call whose writes stay in the buffer completes, and keeps every hold. -/
theorem rawStep_keeps (state : Cdev) (call : Call) (held : Held state)
    (inside : WritesInBounds state call) :
    ∃ next, rawStep beyond state call = .ok next ∧ Held next := by
  cases call with
  | openFile fd minor => exact held.opened fd minor
  | closeFile fd => exact held.closed fd
  | read fd user size =>
    cases found : state.files fd with
    | none => exact ⟨state, by simp [rawStep, rawServe, onFile, found], held⟩
    | some file =>
      by_cases negative : ssize file.pos < 0
      · exact ⟨state, by simp [rawStep, rawServe, onFile, found, negative], held⟩
      · have kept := held.transferred found rfl (held.sizes file.minor)
          (rawRead (beyond file.minor) (state.devs file.minor) user (min size maxRwCount) file.pos).2.1
        rw [Cdev.setDevice_self] at kept
        exact ⟨_, by simp [rawStep, rawServe, onFile, found, negative], kept⟩
  | pread fd user size offset =>
    cases found : state.files fd with
    | none => exact ⟨state, by simp [rawStep, rawServe, onFile, found], held⟩
    | some file =>
      by_cases negative : ssize offset < 0
      · exact ⟨state, by simp [rawStep, rawServe, onFile, found, negative], held⟩
      · exact ⟨state, by simp [rawStep, rawServe, onFile, found, negative], held⟩
  | write fd user size =>
    cases found : state.files fd with
    | none => exact ⟨state, by simp [rawStep, rawServe, onFile, found], held⟩
    | some file =>
      by_cases negative : ssize file.pos < 0
      · exact ⟨state, by simp [rawStep, rawServe, onFile, found, negative], held⟩
      · obtain ⟨after, pos, ret, ran, same, unchanged⟩ :=
          held.wrote file.minor user size negative (inside file found)
        exact ⟨_, by simp [rawStep, rawServe, onFile, found, negative, ran],
          held.transferred found same (unchanged ▸ held.sizes file.minor) pos⟩
  | pwrite fd user size offset =>
    cases found : state.files fd with
    | none => exact ⟨state, by simp [rawStep, rawServe, onFile, found], held⟩
    | some file =>
      by_cases negative : ssize offset < 0
      · exact ⟨state, by simp [rawStep, rawServe, onFile, found, negative], held⟩
      · obtain ⟨after, pos, ret, ran, same, unchanged⟩ :=
          held.wrote file.minor user size negative (inside file found (Int.not_lt.mp negative))
        exact ⟨_, by simp [rawStep, rawServe, onFile, found, negative, ran],
          held.changed found same (unchanged ▸ held.sizes file.minor)⟩
  | ioctl fd cmd arg =>
    cases found : state.files fd with
    | none => exact ⟨state, by simp [rawStep, rawServe, onFile, found], held⟩
    | some file =>
      obtain ⟨after, received, ret, ran, small⟩ := myIoctl_ok cmd (held.sizes file.minor) arg
      have raw := rawIoctl_of_myIoctl (beyond file.minor) ran
      exact ⟨_, by simp [rawStep, rawServe, onFile, found, raw],
        held.changed found (myIoctl_access ran) small⟩

/-- **Exclusive open.** In every run whose writes stay in the buffer, each device
has at most one open file, its flag is 1 exactly when it has one, and an open
succeeds exactly when it has none; otherwise it changes nothing. -/
theorem opens_are_exclusive (calls : List Call)
    (inside : Along WritesInBounds (rawStep beyond) loaded calls) :
    ∃ final, run (rawStep beyond) loaded calls = .ok final ∧ ∀ minor,
      (∀ fd fd' file file', final.files fd = some file → final.files fd' = some file' →
        file.minor = minor → file'.minor = minor → fd = fd') ∧
      ((final.devs minor).access = 1 ↔ Opened final minor) ∧
      ∀ fd, final.files fd = none →
        (Opened final minor →
          rawServe beyond final (.openFile fd minor) = .ok (final, ⟨-ebusy, []⟩)) ∧
        (¬ Opened final minor → ∃ next,
          rawServe beyond final (.openFile fd minor) = .ok (next, ⟨0, []⟩) ∧ Opened next minor) := by
  obtain ⟨final, ran, ⟨alone, taken, free⟩, -⟩ :=
    run_keeps rawStep_keeps ⟨loaded_exclusive, loaded_inRange.sizes⟩ inside
  refine ⟨final, ran, fun minor => ⟨?_, ?_, fun fd unused => ⟨fun busy => ?_, fun closed => ?_⟩⟩⟩
  · intro fd fd' file file' open' other same same'
    exact alone fd fd' file file' open' other (same.trans same'.symm)
  · refine ⟨fun flag => ?_, taken minor⟩
    by_contra closed
    rw [free minor closed] at flag
    cases flag
  · simp [rawServe, serve, unused, myOpen_of_taken (taken minor busy), ebusy]
  · refine ⟨_, by simp only [rawServe, serve, unused, myOpen_of_free (free minor closed)]; rfl, ?_⟩
    exact ⟨fd, ⟨minor, 0⟩, by simp, rfl⟩

/-- The device is written to, closed and opened again. -/
def reopened (minor : Fin myMaxMinors) : List Call :=
  [.openFile 0 minor, .write 0 ⟨fun _ => 7, none⟩ 3, .pwrite 0 ⟨fun _ => 7, none⟩ 1 4095,
    .openFile 1 minor, .closeFile 0, .openFile 1 minor]

theorem opens_are_exclusive_reopened :
    ∃ final, run (rawStep fun _ _ => 0) loaded (reopened 0) = .ok final ∧ (final.devs 0).access = 1 := by
  have inside : Along WritesInBounds (rawStep fun _ _ => 0) loaded (reopened 0) := by
    refine ⟨trivial, fun opened ran => ⟨?_, fun written ran' => ⟨?_, fun _ _ => ⟨trivial, fun _ _ =>
      ⟨trivial, fun _ _ => ⟨trivial, fun _ _ => trivial⟩⟩⟩⟩⟩⟩
    · cases ran
      rintro file ⟨⟩
      exact .inl (by decide)
    · cases ran
      cases ran'
      rintro file ⟨⟩ -
      exact .inl (by decide)
  obtain ⟨final, ran, each⟩ := opens_are_exclusive (reopened 0) inside
  refine ⟨final, ran, (each 0).2.1.mpr ⟨1, ⟨0, 0⟩, ?_, rfl⟩⟩
  cases ran
  rfl

/-- A whole `MY_IOCTL_SET_BUFFER` lowers the size of the device. -/
theorem setBuffer_whole (myData : MyDeviceData) (user : UserBuffer) (fine : user.fault = none) :
    ∃ array, myIoctl myData myIoctlSetBuffer user =
      .ok ({ myData with deviceBuffer := array, size := 256 }, [], 0) := by
  obtain ⟨⟨array, remains⟩, copied⟩ :=
    (copyFromUser_ok_iff myData.deviceBuffer 0 user bufferSize).mpr (.inr (by decide))
  have none : remains = 0 := by
    rw [copyFromUser_left copied, reach_of_no_fault fine, Nat.sub_self]
  refine ⟨array, ?_⟩
  rw [myIoctl, if_neg (by decide), if_neg (by decide), if_pos rfl, copied, none]
  rfl

/-- The first four bytes behind the buffer are the flag. -/
theorem dataFromUser_access (myData : MyDeviceData) (user : UserBuffer) (fine : user.fault = none) :
    ∃ after, dataFromUser myData bufsiz user 4 = .ok (after, 0) ∧
      after.access = Int.bmod (ofLeBytes (user.bytes 4)) (2 ^ 32) := by
  have outside : ∀ copied, copyFromUser myData.deviceBuffer bufsiz user 4 ≠ .ok copied := by
    intro copied ran
    exact absurd ((copyFromUser_ok_iff _ _ _ _).mp ⟨copied, ran⟩) (by decide)
  obtain ⟨⟨bytes, left⟩, copied⟩ := (copyFromUser_ok_iff (dataBytes myData) bufsiz user 4).mpr
    (.inr (by decide))
  have none : left = 0 := by
    rw [copyFromUser_left copied, reach_of_no_fault fine]
  subst none
  refine ⟨ofDataBytes bytes, ?_, ?_⟩
  · unfold dataFromUser
    split
    · rename_i ran
      exact absurd ran (outside _)
    · simp [copied]
  · have front : ((dataBytes myData).1.take bufsiz).length = 4096 := by
      rw [List.length_take, (dataBytes myData).2]
      rfl
    have flag : (bytes.1.drop 4096).take 4 = user.bytes 4 := by
      rw [copyFromUser_whole copied, overwrite, List.append_assoc, List.drop_left' front,
        List.take_left' (length_bytes user 4)]
    simp only [ofDataBytes, flag]

/-- Four zeros written just behind the buffer clear the flag, once the size is lower. -/
theorem rawWrite_clears (lowered : myData.size = 256) :
    ∃ after pos ret, rawWrite myData ⟨fun _ => 0, none⟩ (min 4 maxRwCount) 4096 =
      .ok (after, pos, ret) ∧ after.access = 0 := by
  obtain ⟨after, copied, cleared⟩ :=
    dataFromUser_access myData ⟨fun _ => 0, none⟩ rfl
  have len : min (myData.size - 4096) (min 4 maxRwCount) = 4 := by
    rw [lowered]
    decide
  have start : (4096 : UInt64).toNat = bufsiz := by decide
  have count : (4 : UInt64).toNat = 4 := by decide
  refine ⟨after, 4096 + 4, ssize 4, ?_, cleared.trans (by decide)⟩
  rw [rawWrite]
  simp only [len, start, count, copied]
  simp

/-- `MY_IOCTL_SET_BUFFER` lowers the size; a write of four zeros just behind the
buffer then clears the flag of a device that is open. -/
theorem overrun_opens_twice :
    ∃ final, run (rawStep fun _ _ => 0) loaded
      [.openFile 0 0, .ioctl 0 myIoctlSetBuffer ⟨fun _ => 0, none⟩,
        .pwrite 0 ⟨fun _ => 0, none⟩ 4 4096, .openFile 1 0] = .ok final ∧
      final.files 0 = some ⟨0, 0⟩ ∧ final.files 1 = some ⟨0, 0⟩ := by
  obtain ⟨opened, first, file₁, spare₁⟩ : ∃ opened,
      rawStep (fun _ _ => 0) loaded (.openFile 0 0) = .ok opened ∧
      opened.files 0 = some ⟨0, 0⟩ ∧ opened.files 1 = none := ⟨_, rfl, rfl, rfl⟩
  obtain ⟨lowered, second, file₂, spare₂, small⟩ : ∃ lowered,
      rawStep (fun _ _ => 0) opened (.ioctl 0 myIoctlSetBuffer ⟨fun _ => 0, none⟩) = .ok lowered ∧
      lowered.files 0 = some ⟨0, 0⟩ ∧ lowered.files 1 = none ∧ (lowered.devs 0).size = 256 := by
    obtain ⟨array, ran⟩ := setBuffer_whole (opened.devs 0) ⟨fun _ => 0, none⟩ rfl
    have raw := rawIoctl_of_myIoctl (fun _ => 0) ran
    refine ⟨opened.setDevice 0 { opened.devs 0 with deviceBuffer := array, size := 256 }, ?_, file₁,
      spare₁, by simp⟩
    simp [rawStep, rawServe, onFile, file₁, raw]
  obtain ⟨cleared, third, file₃, spare₃, flag⟩ : ∃ cleared,
      rawStep (fun _ _ => 0) lowered (.pwrite 0 ⟨fun _ => 0, none⟩ 4 4096) = .ok cleared ∧
      cleared.files 0 = some ⟨0, 0⟩ ∧ cleared.files 1 = none ∧ (cleared.devs 0).access = 0 := by
    obtain ⟨after, pos, ret, wrote, flag⟩ := rawWrite_clears small
    have seek : ¬ ssize 4096 < 0 := by decide
    refine ⟨lowered.setDevice 0 after, ?_, file₂, spare₂, by simpa using flag⟩
    simp [rawStep, rawServe, onFile, file₂, seek, wrote]
  have again := myOpen_of_free flag
  refine ⟨(cleared.setDevice 0 { cleared.devs 0 with access := 1 }).setFile 1 (some ⟨0, 0⟩),
    ?_, ?_, ?_⟩
  · simp only [run_cons, first, second, third, ok_bind, run_nil]
    simp [rawStep, rawServe, serve, spare₃, again]
  · simp [file₃]
  · simp

end KernelLabs.CharDevice
