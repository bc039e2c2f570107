import KernelLabs.Checked
import Mathlib.Data.List.TakeWhile

/-! C character arrays and the string functions on them, and the copies between
an array and user memory. An index outside its array is a fault; an access to no
bytes has no index. -/
namespace KernelLabs.CBytes

abbrev Bytes := List UInt8

/-- `char name[size]`. -/
abbrev CharArray (size : Nat) := { bytes : Bytes // bytes.length = size }

/-- The string an array holds: its bytes before the first `NUL`. -/
def cString (bytes : Bytes) : Bytes := bytes.takeWhile (· ≠ 0)

/-- The bytes of a string literal, with its `NUL`. -/
def literal (characters : List Char) : Bytes :=
  characters.map (fun character => UInt8.ofNat character.toNat) ++ [0]

/-- The contents of an array after stores to consecutive indices. -/
def overwrite (array : Bytes) (start : Nat) (bytes : Bytes) : Bytes :=
  array.take start ++ bytes ++ array.drop (start + bytes.length)

namespace CharArray
variable {size : Nat}

/-- Stores to consecutive indices. -/
def write (array : CharArray size) (start : Nat) (bytes : Bytes) :
    Except Fault (CharArray size) :=
  if fits : start + bytes.length ≤ size then
    .ok ⟨overwrite array.1 start bytes, by
      have := array.2
      simp [overwrite]
      omega⟩
  else if bytes = [] then .ok array
  else .error .outOfBounds

/-- Loads from consecutive indices. -/
def read (array : CharArray size) (start count : Nat) : Except Fault Bytes :=
  if start + count ≤ size ∨ count = 0 then .ok ((array.1.drop start).take count)
  else .error .outOfBounds

end CharArray

section Strings
variable {size size' : Nat}

/-- `memset(dest, byte, count)`. -/
def memset (dest : CharArray size) (byte : UInt8) (count : Nat) : Except Fault (CharArray size) :=
  dest.write 0 (List.replicate count byte)

/-- What `strncpy` stores: the string cut at `count` bytes, filled up with `NUL`. -/
def padded (field : Bytes) (count : Nat) : Bytes :=
  cString field ++ List.replicate (count - (cString field).length) 0

/-- `strncpy(dest, src + start, count)`. Reading stops at a `NUL`. -/
def strncpy (dest : CharArray size) (src : CharArray size') (start count : Nat) :
    Except Fault (CharArray size) :=
  let field := (src.1.drop start).take count
  if field.length = count ∨ 0 ∈ field then dest.write 0 (padded field count)
  else .error .outOfBounds

/-- `strlen(src)`. -/
def strlen (src : CharArray size) : Except Fault Nat :=
  if 0 ∈ src.1 then .ok (cString src.1).length else .error .outOfBounds

/-- `strcpy(dest, src)`. -/
def strcpy (dest : CharArray size) (src : CharArray size') : Except Fault (CharArray size) :=
  if 0 ∈ src.1 then dest.write 0 (cString src.1 ++ [0]) else .error .outOfBounds

/-- `strcmp(first, second)`: bytes are read up to the first difference or `NUL`. -/
def strcmp : Bytes → Bytes → Except Fault Int
  | [], _ => .error .outOfBounds
  | _, [] => .error .outOfBounds
  | a :: first, b :: second =>
    if a ≠ b then .ok (if a < b then -1 else 1)
    else if a = 0 then .ok 0
    else strcmp first second

end Strings

/-- User memory from some address on: its bytes, and the number of bytes that
can be accessed before the first fault, if there is one. -/
structure UserBuffer where
  byte : Nat → UInt8
  fault : Option Nat

namespace UserBuffer

/-- How many of `count` bytes are copied before a fault. -/
def reach (user : UserBuffer) (count : Nat) : Nat :=
  match user.fault with
  | none => count
  | some limit => min limit count

/-- The first `count` bytes. -/
def bytes (user : UserBuffer) (count : Nat) : Bytes := (List.range count).map user.byte

end UserBuffer

/-- `copy_from_user(dest + start, user, count)`: the array, and the number of
bytes not copied. What was not copied is filled with zeros. -/
def copyFromUser {size : Nat} (dest : CharArray size) (start : Nat) (user : UserBuffer)
    (count : Nat) : Except Fault (CharArray size × Nat) := do
  let left := count - user.reach count
  let dest ← dest.write start (user.bytes (user.reach count) ++ List.replicate left 0)
  return (dest, left)

/-- `copy_to_user(user, src + start, count)`: the bytes user memory received, and
the number of bytes not copied. -/
def copyToUser {size : Nat} (src : CharArray size) (start : Nat) (user : UserBuffer)
    (count : Nat) : Except Fault (Bytes × Nat) := do
  let bytes ← src.read start (user.reach count)
  return (bytes, count - user.reach count)

/-! ## Strings -/

theorem zero_not_mem_cString (bytes : Bytes) : 0 ∉ cString bytes := by
  intro inside
  have := List.mem_takeWhile_imp inside
  simp at this

theorem cString_of_no_zero {bytes : Bytes} (clean : 0 ∉ bytes) : cString bytes = bytes := by
  apply List.takeWhile_eq_self_iff.mpr
  intro byte inside
  simp only [decide_eq_true_eq]
  rintro rfl
  exact clean inside

/-- A string ends at the first `NUL`. -/
theorem cString_append_zero {text : Bytes} (clean : 0 ∉ text) (rest : Bytes) :
    cString (text ++ 0 :: rest) = text := by
  rw [cString, List.takeWhile_append_of_pos]
  · simp
  · intro byte inside
    simp only [decide_eq_true_eq]
    rintro rfl
    exact clean inside

theorem length_cString_le (bytes : Bytes) : (cString bytes).length ≤ bytes.length :=
  (List.takeWhile_prefix _).length_le

/-- A text without `NUL` that fills a field is the string of no other field. -/
theorem cString_eq_iff {field text : Bytes} (clean : 0 ∉ text)
    (width : field.length = text.length) : cString field = text ↔ field = text := by
  constructor
  · intro same
    have whole := (List.takeWhile_prefix (l := field) (· ≠ (0 : UInt8))).eq_of_length
      (by rw [width, ← same]; rfl)
    exact whole.symm.trans same
  · rintro rfl
    exact cString_of_no_zero clean

theorem length_padded {field : Bytes} {count : Nat} (short : field.length ≤ count) :
    (padded field count).length = count := by
  have := length_cString_le field
  simp [padded]
  omega

/-- The `NUL` stored after a padded field ends the string of the field. -/
theorem cString_padded (field rest : Bytes) (count : Nat) :
    cString (padded field count ++ 0 :: rest) = cString field := by
  unfold padded
  have clean := zero_not_mem_cString field
  cases count - (cString field).length with
  | zero => simpa using cString_append_zero clean rest
  | succ more =>
    rw [List.replicate_succ, List.append_assoc, List.cons_append]
    exact cString_append_zero clean _

/-- On terminated strings `strcmp` stays in bounds, and is zero for equal
strings only. -/
theorem strcmp_spec {first second : Bytes} (ends : 0 ∈ first) (ends' : 0 ∈ second) :
    ∃ order, strcmp first second = .ok order ∧ (order = 0 ↔ cString first = cString second) := by
  induction first generalizing second with
  | nil => simp at ends
  | cons a first ih =>
    cases second with
    | nil => simp at ends'
    | cons b second =>
      by_cases same : a = b
      · subst same
        by_cases zero : a = 0
        · exact ⟨0, by simp [strcmp, zero], by simp [cString, zero]⟩
        · obtain ⟨order, ran, exactly⟩ := ih
            (show 0 ∈ first by simpa [Ne.symm zero] using ends)
            (show 0 ∈ second by simpa [Ne.symm zero] using ends')
          exact ⟨order, by simp [strcmp, zero, ran], by simpa [cString, zero] using exactly⟩
      · refine ⟨if a < b then -1 else 1, by simp [strcmp, same], ?_⟩
        have nonzero : (if a < b then (-1 : Int) else 1) ≠ 0 := by split <;> decide
        simp only [nonzero, false_iff]
        by_cases zero : a = 0
        · have other : b ≠ 0 := fun zero' => same (zero.trans zero'.symm)
          simp [cString, zero, other]
        · by_cases zero' : b = 0
          · simp [cString, zero, zero']
          · simp [cString, zero, zero', same]

/-! ## Arrays -/

section Arrays
variable {size : Nat}

theorem bytes_min (user : UserBuffer) (limit count : Nat) :
    user.bytes (min limit count) = (user.bytes count).take limit := by
  simp [UserBuffer.bytes, ← List.map_take, List.take_range]

@[simp] theorem overwrite_nil (array : Bytes) (start : Nat) : overwrite array start [] = array := by
  simp [overwrite]

/-- Adjacent stores, one after the other, are one store. -/
theorem overwrite_overwrite {array : Bytes} {start : Nat} (first second : Bytes)
    (inside : start ≤ array.length) :
    overwrite (overwrite array start first) (start + first.length) second =
      overwrite array start (first ++ second) := by
  have length : (array.take start ++ first).length = start + first.length := by
    simp [Nat.min_eq_left inside]
  have front : (overwrite array start first).take (start + first.length) =
      array.take start ++ first := List.take_left' length
  have back : (overwrite array start first).drop (start + first.length + second.length) =
      array.drop (start + (first ++ second).length) := by
    unfold overwrite
    rw [← length, List.drop_length_add_append, List.drop_drop, length, List.length_append,
      Nat.add_assoc]
  rw [overwrite, front, back, overwrite, List.append_assoc _ first second]

/-- Stores into the front of an array leave the back. -/
theorem overwrite_append {front : Bytes} {start : Nat} {bytes : Bytes} (back : Bytes)
    (fits : start + bytes.length ≤ front.length) :
    overwrite (front ++ back) start bytes = overwrite front start bytes ++ back := by
  rw [overwrite, overwrite, List.take_append_of_le_length (by omega),
    List.drop_append_of_le_length fits, List.append_assoc _ _ back]

theorem length_overwrite {array : Bytes} {start : Nat} {bytes : Bytes}
    (fits : start + bytes.length ≤ array.length) : (overwrite array start bytes).length = array.length := by
  simp [overwrite]
  omega

theorem write_ok (array : CharArray size) (start : Nat) (bytes : Bytes)
    (fits : start + bytes.length ≤ size) :
    ∃ result, array.write start bytes = .ok result ∧
      result.1 = array.1.take start ++ bytes ++ array.1.drop (start + bytes.length) := by
  exact ⟨_, by simp only [CharArray.write, dif_pos fits]; rfl, rfl⟩

theorem write_ok_iff (array : CharArray size) (start : Nat) (bytes : Bytes) :
    (∃ result, array.write start bytes = .ok result) ↔ bytes = [] ∨ start + bytes.length ≤ size := by
  by_cases fits : start + bytes.length ≤ size
  · obtain ⟨result, ran, -⟩ := write_ok array start bytes fits
    simp [ran, fits]
  · by_cases empty : bytes = [] <;> simp [CharArray.write, fits, empty]

theorem write_contents {array result : CharArray size} {start : Nat} {bytes : Bytes}
    (ran : array.write start bytes = .ok result) : result.1 = overwrite array.1 start bytes := by
  unfold CharArray.write at ran
  split at ran
  · cases ran
    rfl
  · split at ran
    · rename_i empty
      cases ran
      rw [empty, overwrite_nil]
    · cases ran

theorem read_ok_iff (array : CharArray size) (start count : Nat) :
    (∃ bytes, array.read start count = .ok bytes) ↔ count = 0 ∨ start + count ≤ size := by
  by_cases fits : start + count ≤ size ∨ count = 0
  · simp [CharArray.read, fits, or_comm.mp fits]
  · simp [CharArray.read, fits, mt or_comm.mp fits]

theorem reach_le (user : UserBuffer) (count : Nat) : user.reach count ≤ count := by
  unfold UserBuffer.reach
  split
  · exact Nat.le_refl count
  · exact Nat.min_le_right _ _

theorem reach_of_no_fault {user : UserBuffer} (fine : user.fault = none) (count : Nat) :
    user.reach count = count := by
  simp [UserBuffer.reach, fine]

@[simp] theorem length_bytes (user : UserBuffer) (count : Nat) : (user.bytes count).length = count := by
  simp [UserBuffer.bytes]

/-- What is stored where `copy_from_user` stops is zeros, so it always stores
`count` bytes. -/
theorem copyFromUser_ok_iff (dest : CharArray size) (start : Nat) (user : UserBuffer) (count : Nat) :
    (∃ result, copyFromUser dest start user count = .ok result) ↔
      count = 0 ∨ start + count ≤ size := by
  have reached := reach_le user count
  have whole : user.reach count + (count - user.reach count) = count := by omega
  have empty : user.bytes (user.reach count) ++ List.replicate (count - user.reach count) 0 = [] ↔
      count = 0 := by
    rw [← List.length_eq_zero_iff]
    simp [whole]
  have stored := write_ok_iff dest start
    (user.bytes (user.reach count) ++ List.replicate (count - user.reach count) 0)
  rw [empty, List.length_append, length_bytes, List.length_replicate, whole] at stored
  rw [← stored]
  exact exists_bind_ok fun array => ⟨_, rfl⟩

/-- `copy_to_user` loads only the bytes it gets to. -/
theorem copyToUser_ok_iff (src : CharArray size) (start : Nat) (user : UserBuffer) (count : Nat) :
    (∃ result, copyToUser src start user count = .ok result) ↔
      user.reach count = 0 ∨ start + user.reach count ≤ size := by
  rw [← read_ok_iff src]
  exact exists_bind_ok fun bytes => ⟨_, rfl⟩

theorem copyFromUser_left {dest result : CharArray size} {start count left : Nat}
    {user : UserBuffer} (ran : copyFromUser dest start user count = .ok (result, left)) :
    left = count - user.reach count := by
  obtain ⟨array, -, same⟩ := bind_eq_ok.mp ran
  cases same
  rfl

theorem copyToUser_left {src : CharArray size} {start count left : Nat} {user : UserBuffer}
    {received : Bytes} (ran : copyToUser src start user count = .ok (received, left)) :
    left = count - user.reach count := by
  obtain ⟨bytes, -, same⟩ := bind_eq_ok.mp ran
  cases same
  rfl

/-- A copy from user space that leaves nothing out. -/
theorem copyFromUser_whole {dest result : CharArray size} {start count : Nat} {user : UserBuffer}
    (ran : copyFromUser dest start user count = .ok (result, 0)) :
    result.1 = overwrite dest.1 start (user.bytes count) := by
  have left := copyFromUser_left ran
  have whole : user.reach count = count := Nat.le_antisymm (reach_le user count) (by omega)
  obtain ⟨array, stored, same⟩ := bind_eq_ok.mp ran
  simp only [pure_eq_ok, Except.ok.injEq, Prod.mk.injEq] at same
  obtain ⟨rfl, -⟩ := same
  simpa [whole] using write_contents stored

/-- A copy to user space that leaves nothing out. -/
theorem copyToUser_whole {src : CharArray size} {start count : Nat} {user : UserBuffer}
    {received : Bytes} (ran : copyToUser src start user count = .ok (received, 0)) :
    received = (src.1.drop start).take count := by
  have left := copyToUser_left ran
  have whole : user.reach count = count := Nat.le_antisymm (reach_le user count) (by omega)
  obtain ⟨bytes, loaded, same⟩ := bind_eq_ok.mp ran
  simp only [pure_eq_ok, Except.ok.injEq, Prod.mk.injEq] at same
  obtain ⟨rfl, -⟩ := same
  unfold CharArray.read at loaded
  split at loaded
  · cases loaded
    rw [whole]
  · cases loaded

end Arrays

end KernelLabs.CBytes
