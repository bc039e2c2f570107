import KernelLabs.CBytes
import Mathlib.Algebra.Ring.Int.Defs
import Mathlib.Algebra.Ring.Nat
import Mathlib.Logic.Function.Basic

/-! `labs/lab11/my_cdev.c`: a character device over a fixed buffer. The file
operations follow the source; the system calls around them do what the kernel
does before and after it calls them. `size_t` and `loff_t` are 64 bits wide, and
an offset is held as its bit pattern, which is what the unsigned subtraction in
the source works on. -/
namespace KernelLabs.CharDevice
open CBytes Errno

def bufsiz : Nat := 4096
def bufferSize : Nat := 256
abbrev myMaxMinors : Nat := 5

def myIoctlPrint : UInt32 := ioc 0 0x6b 1 0
def myIoctlSetBuffer : UInt32 := ioc 1 0x6b 2 (UInt32.ofNat bufferSize)
def myIoctlGetBuffer : UInt32 := ioc 2 0x6b 3 (UInt32.ofNat bufferSize)

/-- `struct my_device_data`, without the `cdev` the kernel finds it by. -/
structure MyDeviceData where
  deviceBuffer : CharArray bufsiz
  access : Int
  size : UInt64

/-- A `size_t` returned as `ssize_t`. -/
def ssize (length : UInt64) : Int := length.toBitVec.toInt

/-- `atomic_cmpxchg`: the new value, and the one that was found. -/
def atomicCmpxchg (value old new : Int) : Int × Int := (if value = old then new else value, value)

def myOpen (myData : MyDeviceData) : MyDeviceData × Int :=
  let (access, found) := atomicCmpxchg myData.access 0 1
  if found ≠ 0 then (myData, -ebusy) else ({ myData with access := access }, 0)

def myRelease (myData : MyDeviceData) : MyDeviceData := { myData with access := 0 }

/-- The bytes user memory received, the new offset, and the return value. -/
def myRead (myData : MyDeviceData) (userBuffer : UserBuffer) (size offset : UInt64) :
    Except Fault (Bytes × UInt64 × Int) := do
  let len := min (myData.size - offset) size
  if ssize len ≤ 0 then return ([], offset, 0)
  let (received, left) ← copyToUser myData.deviceBuffer offset.toNat userBuffer len.toNat
  if left ≠ 0 then return (received, offset, -efault)
  return (received, offset + len, ssize len)

/-- The device, the new offset, and the return value. -/
def myWrite (myData : MyDeviceData) (userBuffer : UserBuffer) (size offset : UInt64) :
    Except Fault (MyDeviceData × UInt64 × Int) := do
  let len := min (myData.size - offset) size
  if len ≤ 0 then return (myData, offset, 0)
  let (deviceBuffer, left) ← copyFromUser myData.deviceBuffer offset.toNat userBuffer len.toNat
  let myData := { myData with deviceBuffer := deviceBuffer }
  if left ≠ 0 then return (myData, offset, -efault)
  return (myData, offset + len, ssize len)

/-- The device, the bytes user memory received, and the return value. -/
def myIoctl (myData : MyDeviceData) (cmd : UInt32) (arg : UserBuffer) :
    Except Fault (MyDeviceData × Bytes × Int) := do
  if cmd = myIoctlPrint then return (myData, [], 0)
  else if cmd = myIoctlGetBuffer then
    let (received, left) ← copyToUser myData.deviceBuffer 0 arg myData.size.toNat
    return (myData, received, if left ≠ 0 then -efault else 0)
  else if cmd = myIoctlSetBuffer then
    let (deviceBuffer, remains) ← copyFromUser myData.deviceBuffer 0 arg bufferSize
    return ({ myData with
              deviceBuffer := deviceBuffer
              size := UInt64.ofNat (bufferSize - remains) }, [],
            if remains ≠ 0 then -efault else 0)
  else return (myData, [], -einval)

/-! ## System calls -/

/-- An open file: the device in `private_data`, and the file position. -/
structure File where
  minor : Fin myMaxMinors
  pos : UInt64

structure Cdev where
  devs : Fin myMaxMinors → MyDeviceData
  files : Nat → Option File

/-- The most one `read` or `write` transfers. -/
def maxRwCount : UInt64 := 0x7ffff000

inductive Call
  | openFile (fd : Nat) (minor : Fin myMaxMinors)
  | read (fd : Nat) (user : UserBuffer) (size : UInt64)
  | write (fd : Nat) (user : UserBuffer) (size : UInt64)
  | pread (fd : Nat) (user : UserBuffer) (size offset : UInt64)
  | pwrite (fd : Nat) (user : UserBuffer) (size offset : UInt64)
  | ioctl (fd : Nat) (cmd : UInt32) (arg : UserBuffer)
  | closeFile (fd : Nat)

/-- What a call returns, and the bytes it gives to the user. -/
structure Reply where
  ret : Int
  received : Bytes
  deriving DecidableEq, Repr

namespace Cdev

def setDevice (state : Cdev) (minor : Fin myMaxMinors) (myData : MyDeviceData) : Cdev :=
  { state with devs := Function.update state.devs minor myData }

def setFile (state : Cdev) (fd : Nat) (file : Option File) : Cdev :=
  { state with files := Function.update state.files fd file }

end Cdev

/-- `read` and `pread`: a transfer at some offset. -/
def vfsRead (state : Cdev) (file : File) (user : UserBuffer) (size offset : UInt64) :
    Except Fault (UInt64 × Reply) := do
  let (received, offset, ret) ←
    myRead (state.devs file.minor) user (min size maxRwCount) offset
  return (offset, ⟨ret, received⟩)

/-- `write` and `pwrite`. -/
def vfsWrite (state : Cdev) (file : File) (user : UserBuffer) (size offset : UInt64) :
    Except Fault (Cdev × UInt64 × Reply) := do
  let (myData, offset, ret) ←
    myWrite (state.devs file.minor) user (min size maxRwCount) offset
  return (state.setDevice file.minor myData, offset, ⟨ret, []⟩)

/-- A call that needs an open file. -/
def onFile (state : Cdev) (fd : Nat) (call : File → Except Fault (Cdev × Reply)) :
    Except Fault (Cdev × Reply) :=
  match state.files fd with
  | none => .ok (state, ⟨-ebadf, []⟩)
  | some file => call file

/-- One system call, start to end. -/
def serve (state : Cdev) : Call → Except Fault (Cdev × Reply)
  | .openFile fd minor =>
    if (state.files fd).isSome then .ok (state, ⟨-emfile, []⟩)
    else
      let (myData, ret) := myOpen (state.devs minor)
      if ret ≠ 0 then .ok (state.setDevice minor myData, ⟨ret, []⟩)
      else .ok ((state.setDevice minor myData).setFile fd (some ⟨minor, 0⟩), ⟨ret, []⟩)
  | .read fd user size => onFile state fd fun file => do
    let (pos, reply) ← vfsRead state file user size file.pos
    return (state.setFile fd (some { file with pos := pos }), reply)
  | .write fd user size => onFile state fd fun file => do
    let (state, pos, reply) ← vfsWrite state file user size file.pos
    return (state.setFile fd (some { file with pos := pos }), reply)
  | .pread fd user size offset => onFile state fd fun file =>
    if ssize offset < 0 then .ok (state, ⟨-einval, []⟩)
    else do
      let (_, reply) ← vfsRead state file user size offset
      return (state, reply)
  | .pwrite fd user size offset => onFile state fd fun file =>
    if ssize offset < 0 then .ok (state, ⟨-einval, []⟩)
    else do
      let (state, _, reply) ← vfsWrite state file user size offset
      return (state, reply)
  | .ioctl fd cmd arg => onFile state fd fun file => do
    let (myData, received, ret) ← myIoctl (state.devs file.minor) cmd arg
    return (state.setDevice file.minor myData, ⟨ret, received⟩)
  | .closeFile fd => onFile state fd fun file =>
    .ok ((state.setDevice file.minor (myRelease (state.devs file.minor))).setFile fd none, ⟨0, []⟩)

/-- The devices after `my_init_module`; a static array is zero before. -/
def myInitModule : Fin myMaxMinors → MyDeviceData := fun _ =>
  { deviceBuffer := ⟨List.replicate bufsiz 0, by simp⟩
    access := 0
    size := UInt64.ofNat bufsiz }

/-- The loaded module, with no file open. -/
def loaded : Cdev where
  devs := myInitModule
  files _ := none

namespace Cdev

@[simp] theorem setDevice_self (state : Cdev) (minor : Fin myMaxMinors) :
    state.setDevice minor (state.devs minor) = state := by
  simp [setDevice]

@[simp] theorem setFile_self (state : Cdev) (fd : Nat) : state.setFile fd (state.files fd) = state := by
  simp [setFile]

@[simp] theorem setDevice_devs (state : Cdev) (minor other : Fin myMaxMinors) (myData : MyDeviceData) :
    (state.setDevice minor myData).devs other = if other = minor then myData else state.devs other := by
  simp [setDevice, Function.update_apply]

@[simp] theorem setFile_files (state : Cdev) (fd other : Nat) (file : Option File) :
    (state.setFile fd file).files other = if other = fd then file else state.files other := by
  simp [setFile, Function.update_apply]

@[simp] theorem setDevice_files (state : Cdev) (minor : Fin myMaxMinors) (myData : MyDeviceData) :
    (state.setDevice minor myData).files = state.files := rfl

@[simp] theorem setFile_devs (state : Cdev) (fd : Nat) (file : Option File) :
    (state.setFile fd file).devs = state.devs := rfl

end Cdev

/-! ## Transfer lengths -/

variable {myData : MyDeviceData} {user : UserBuffer} {size offset : UInt64}

theorem ssize_of_lt {length : UInt64} (small : length.toNat < 2 ^ 63) : ssize length = length.toNat := by
  rw [ssize, BitVec.toInt_eq_toNat_of_lt (by rw [UInt64.toNat_toBitVec]; omega),
    UInt64.toNat_toBitVec]

theorem ssize_neg {length : UInt64} : ssize length < 0 ↔ 2 ^ 63 ≤ length.toNat := by
  have bound := length.toNat_lt
  rw [ssize, BitVec.toInt_eq_toNat_cond, UInt64.toNat_toBitVec]
  split <;> omega

/-- An offset in the buffer is not negative. -/
theorem ssize_low (low : offset.toNat ≤ bufsiz) : ¬ssize offset < 0 := by
  unfold bufsiz at low
  rw [ssize_neg]
  omega

theorem toNat_min (a b : UInt64) : (min a b).toNat = min a.toNat b.toNat := by
  have unfolded : min a b = if a ≤ b then a else b := rfl
  by_cases order : a ≤ b
  · rw [unfolded, if_pos order, Nat.min_eq_left (UInt64.le_iff_toNat_le.mp order)]
  · have other : b.toNat < a.toNat := UInt64.lt_iff_toNat_lt.mp (UInt64.not_le.mp order)
    rw [unfolded, if_neg order, Nat.min_eq_right other.le]

/-- Up to the device's size, a transfer stops at the size. -/
theorem length_inside (size : UInt64) (inside : offset.toNat ≤ myData.size.toNat) :
    (min (myData.size - offset) size).toNat =
      min (myData.size.toNat - offset.toNat) size.toNat := by
  rw [toNat_min, UInt64.toNat_sub_of_le _ _ (UInt64.le_iff_toNat_le.mpr inside)]

/-- Beyond the device's size, the difference wraps around and limits nothing. -/
theorem length_beyond (bounded : myData.size.toNat ≤ bufsiz) (positive : offset.toNat < 2 ^ 63)
    (request : size.toNat ≤ maxRwCount.toNat) (beyond : myData.size.toNat < offset.toNat) :
    (min (myData.size - offset) size).toNat = size.toNat := by
  have most : maxRwCount.toNat = 0x7ffff000 := rfl
  unfold bufsiz at bounded
  rw [toNat_min, UInt64.toNat_sub]
  omega

end KernelLabs.CharDevice
