import KernelLabs.CharDeviceExclusion
import KernelLabs.CharDeviceFailure
import KernelLabs.CharDeviceRoundTrip

/-! `MY_IOCTL_GET_BUFFER` in the memory of its caller. It copies the device's size, which
is the size of the command's argument only after a `MY_IOCTL_SET_BUFFER`. The calls before
it may read where they like; what they write stays in the buffer, since a store behind it
could make the size anything. -/
namespace KernelLabs.CharDevice
open CBytes Errno

/-! ## User memory -/

/-- The buffer a user passes by its address. -/
def bufferAt (memory : Nat → UInt8) (arg : Nat) (fault : Option Nat) : UserBuffer :=
  ⟨fun i => memory (arg + i), fault⟩

/-- User memory after these bytes were copied to an address. -/
def copiedTo (memory : Nat → UInt8) (arg : Nat) (received : Bytes) (address : Nat) : UInt8 :=
  if arg ≤ address then received.getD (address - arg) (memory address) else memory address

/-- The addresses of the buffer that `MY_IOCTL_GET_BUFFER` is declared with. -/
def callersBuffer (arg : Nat) : Set Nat := {address | arg ≤ address ∧ address < arg + bufferSize}

/-- The call is a `MY_IOCTL_SET_BUFFER` on this device. -/
def SetsBuffer (state : Cdev) (minor : Fin myMaxMinors) (call : Call) : Prop :=
  ∃ fd user, call = .ioctl fd myIoctlSetBuffer user ∧
    ∃ file, state.files fd = some file ∧ file.minor = minor

section Calls
variable (beyond : Fin myMaxMinors → Nat → UInt8)

/-- `MY_IOCTL_GET_BUFFER` writes to the caller's buffer, and nowhere else. -/
def GetStaysInside (state : Cdev) (fd : Nat) (memory : Nat → UInt8) (arg : Nat) (fault : Option Nat) :
    Prop :=
  ∃ next reply,
    rawServe beyond state (.ioctl fd myIoctlGetBuffer (bufferAt memory arg fault)) = .ok (next, reply) ∧
    (∀ i < reply.received.length, arg + i ∈ callersBuffer arg) ∧
    ∀ address ∉ callersBuffer arg, copiedTo memory arg reply.received address = memory address

/-- In this run from the loaded module, a `MY_IOCTL_SET_BUFFER` came to the device,
whatever it returned. -/
def WasSet (minor : Fin myMaxMinors) (calls : List Call) : Prop :=
  ∃ before call after here, calls = before ++ call :: after ∧
    run (rawStep beyond) loaded before = .ok here ∧ SetsBuffer here minor call

end Calls

variable {beyond : Fin myMaxMinors → Nat → UInt8} {state next : Cdev} {fd : Nat}
  {minor : Fin myMaxMinors} {file : File} {call : Call} {calls : List Call} {user : UserBuffer}
  {reply : Reply}

/-- A copy changes only what it covers. -/
theorem copiedTo_outside {memory : Nat → UInt8} {arg address : Nat} {received : Bytes}
    (outside : address < arg ∨ arg + received.length ≤ address) :
    copiedTo memory arg received address = memory address := by
  by_cases below : arg ≤ address
  · rw [copiedTo, if_pos below, List.getD_eq_getElem?_getD, List.getElem?_eq_none (by omega),
      Option.getD_none]
  · rw [copiedTo, if_neg below]

theorem copyToUser_length {size count : Nat} {src : CharArray size} {received : Bytes} {left : Nat}
    (ran : copyToUser src 0 user count = .ok (received, left)) : received.length = user.reach count := by
  have inside := (copyToUser_ok_iff src 0 user count).mp ⟨_, ran⟩
  obtain ⟨bytes, loaded, same⟩ := bind_eq_ok.mp ran
  cases same
  unfold CharArray.read at loaded
  split at loaded
  · cases loaded
    have := src.2
    simp
    omega
  · cases loaded

theorem dataToUser_length (hole : Nat → UInt8) (myData : MyDeviceData) (user : UserBuffer) (count : Nat) :
    (dataToUser hole myData 0 user count).1.length = user.reach count := by
  unfold dataToUser
  split
  · rename_i copied ran
    exact copyToUser_length ran
  · simp

/-- `MY_IOCTL_GET_BUFFER` copies as much of the device as it has a size and memory to
write to. -/
theorem rawServe_getBuffer (beyond : Fin myMaxMinors → Nat → UInt8) (found : state.files fd = some file)
    (user : UserBuffer) :
    ∃ ret received,
      rawServe beyond state (.ioctl fd myIoctlGetBuffer user) = .ok (state, ⟨ret, received⟩) ∧
      received.length = user.reach (state.devs file.minor).size.toNat ∧
      ((state.devs file.minor).size.toNat ≤ bufsiz →
        (user.fault = none → ret ≠ -efault) ∧ (ret ≠ -efault → ret = 0 ∧
          received = (state.buffer file.minor).take (state.devs file.minor).size.toNat)) := by
  let copied := dataToUser (beyond file.minor) (state.devs file.minor) 0 user
    (state.devs file.minor).size.toNat
  have ran : rawIoctl (beyond file.minor) (state.devs file.minor) myIoctlGetBuffer user =
      .ok (state.devs file.minor, copied.1, if copied.2 ≠ 0 then -efault else 0) := by
    rw [rawIoctl, if_pos rfl]
  refine ⟨_, copied.1, by simp [rawServe, onFile, found, ran]; rfl, dataToUser_length _ _ _ _,
    fun bounded => ?_⟩
  have short := reach_le user (state.devs file.minor).size.toNat
  obtain ⟨⟨received, left⟩, inside⟩ := (copyToUser_ok_iff (state.devs file.minor).deviceBuffer 0 user
    (state.devs file.minor).size.toNat).mpr (.inr (by omega))
  have same : copied = (received, left) := dataToUser_inside inside
  rw [same]
  refine ⟨fun clear => ?_, fun fine => ?_⟩
  · have whole : left = 0 := by rw [copyToUser_left inside, reach_of_no_fault clear, Nat.sub_self]
    simp [whole, efault]
  have whole : left = 0 := by
    by_contra some
    simp [some] at fine
  subst whole
  exact ⟨rfl, copyToUser_whole inside⟩

/-- `MY_IOCTL_SET_BUFFER` copies as much of its argument as can be read, and takes that for
the size. -/
theorem rawServe_setBuffer (beyond : Fin myMaxMinors → Nat → UInt8) (found : state.files fd = some file)
    (user : UserBuffer) :
    ∃ after ret, rawServe beyond state (.ioctl fd myIoctlSetBuffer user) =
        .ok (state.setDevice file.minor after, ⟨ret, []⟩) ∧
      after.size.toNat = user.reach bufferSize ∧ after.access = (state.devs file.minor).access ∧
      (user.fault = none → ret = 0) ∧
      (ret = 0 → after.size.toNat = bufferSize ∧
        after.deviceBuffer.1 = overwrite (state.buffer file.minor) 0 (user.bytes bufferSize)) := by
  obtain ⟨⟨array, remains⟩, copied⟩ := (copyFromUser_ok_iff (state.devs file.minor).deviceBuffer 0 user
    bufferSize).mpr (.inr (by decide))
  have other : myIoctlSetBuffer ≠ myIoctlPrint := by decide
  have other' : myIoctlSetBuffer ≠ myIoctlGetBuffer := by decide
  let after : MyDeviceData :=
    { state.devs file.minor with deviceBuffer := array, size := UInt64.ofNat (bufferSize - remains) }
  have ran : rawIoctl (beyond file.minor) (state.devs file.minor) myIoctlSetBuffer user =
      .ok (after, [], if remains ≠ 0 then -efault else 0) := by
    rw [rawIoctl, if_neg other', myIoctl, if_neg other, if_neg other', if_pos rfl, copied]
    rfl
  have size : after.size.toNat = bufferSize - remains := by
    simp only [after, UInt64.toNat_ofNat']
    unfold bufferSize
    omega
  have short := reach_le user bufferSize
  have left := copyFromUser_left copied
  refine ⟨after, _, by simp [rawServe, onFile, found, ran]; rfl, by omega, rfl, fun clear => ?_,
    fun succeeded => ?_⟩
  · have whole : remains = 0 := by rw [left, reach_of_no_fault clear, Nat.sub_self]
    rw [if_pos whole]
  have whole : remains = 0 := by
    by_contra some
    simp only [some] at succeeded
    cases succeeded
  subst whole
  exact ⟨size, copyFromUser_whole copied⟩

/-- The other ioctls leave the device. -/
theorem rawServe_otherIoctl (beyond : Fin myMaxMinors → Nat → UInt8) {cmd : UInt32}
    (other : cmd ≠ myIoctlSetBuffer) (user : UserBuffer) :
    ∃ reply, rawServe beyond state (.ioctl fd cmd user) = .ok (state, reply) := by
  cases found : state.files fd with
  | none => exact ⟨_, by simp [rawServe, onFile, found]; rfl⟩
  | some file =>
    by_cases get : cmd = myIoctlGetBuffer
    · subst get
      obtain ⟨ret, received, served, -⟩ := rawServe_getBuffer beyond found user
      exact ⟨_, served⟩
    · obtain ⟨ret, received, ran⟩ : ∃ ret received, myIoctl (state.devs file.minor) cmd user =
          .ok (state.devs file.minor, received, ret) := by
        unfold myIoctl
        by_cases print : cmd = myIoctlPrint
        · exact ⟨_, _, by rw [if_pos print]; rfl⟩
        · exact ⟨_, _, by rw [if_neg print, if_neg get, if_neg other]; rfl⟩
      exact ⟨⟨ret, received⟩, by simp [rawServe, onFile, found, rawIoctl, get, ran]⟩

/-! ## The device's size -/

theorem not_setsBuffer (plain : ∀ fd user, call ≠ .ioctl fd myIoctlSetBuffer user) :
    ¬SetsBuffer state minor call := by
  rintro ⟨fd, user, sets, -⟩
  exact plain fd user sets

/-- A write in the buffer leaves every size. -/
theorem rawWrite_size {offset : UInt64} {after : MyDeviceData} {pos : UInt64} {ret : Int} {size : UInt64}
    (held : Held state) (positive : ¬ssize offset < 0)
    (fits : Fits (state.devs file.minor) offset (min size maxRwCount).toNat)
    (ran : rawWrite (state.devs file.minor) user (min size maxRwCount) offset = .ok (after, pos, ret)) :
    ((state.setDevice file.minor after).devs minor).size = (state.devs minor).size := by
  obtain ⟨_, _, _, ran', -, same⟩ := held.wrote file.minor user size positive fits
  rw [ran] at ran'
  cases ran'
  by_cases this : minor = file.minor
  · simp [this, same]
  · simp [this]

/-- Only `MY_IOCTL_SET_BUFFER` changes a size. -/
theorem rawStep_size (held : Held state) (inside : WritesInBounds state call) (minor : Fin myMaxMinors)
    (ran : rawStep beyond state call = .ok next) :
    (SetsBuffer state minor call ∧ (next.devs minor).size.toNat ≤ bufferSize) ∨
      (¬SetsBuffer state minor call ∧ (next.devs minor).size = (state.devs minor).size) := by
  obtain ⟨⟨_, reply⟩, served, same⟩ := bind_eq_ok.mp ran
  cases same
  cases call with
  | openFile fd opened =>
    obtain ⟨_, _, served', -, sizes⟩ := held.exclusive.opens fd opened
    rw [rawServe, served'] at served
    cases served
    exact .inr ⟨not_setsBuffer (by simp), sizes minor⟩
  | closeFile fd =>
    obtain ⟨_, _, served', -, sizes⟩ := held.exclusive.closes fd
    rw [rawServe, served'] at served
    cases served
    exact .inr ⟨not_setsBuffer (by simp), sizes minor⟩
  | read fd user size =>
    refine .inr ⟨not_setsBuffer (by simp), ?_⟩
    obtain rfl | ⟨file, found, transferred⟩ := onFile_cases served
    · rfl
    · split at transferred <;> cases transferred <;> rfl
  | pread fd user size offset =>
    refine .inr ⟨not_setsBuffer (by simp), ?_⟩
    obtain rfl | ⟨file, found, transferred⟩ := onFile_cases served
    · rfl
    · split at transferred <;> cases transferred <;> rfl
  | write fd user size =>
    refine .inr ⟨not_setsBuffer (by simp), ?_⟩
    obtain rfl | ⟨file, found, transferred⟩ := onFile_cases served
    · rfl
    split at transferred
    · cases transferred
      rfl
    · rename_i positive
      obtain ⟨⟨after, pos, ret⟩, wrote, same⟩ := bind_eq_ok.mp transferred
      cases same
      exact rawWrite_size held positive (inside file found) wrote
  | pwrite fd user size offset =>
    refine .inr ⟨not_setsBuffer (by simp), ?_⟩
    obtain rfl | ⟨file, found, transferred⟩ := onFile_cases served
    · rfl
    split at transferred
    · cases transferred
      rfl
    · rename_i positive
      obtain ⟨⟨after, pos, ret⟩, wrote, same⟩ := bind_eq_ok.mp transferred
      cases same
      exact rawWrite_size held positive (inside file found (Int.not_lt.mp positive)) wrote
  | ioctl fd cmd user =>
    by_cases set : cmd = myIoctlSetBuffer
    · subst set
      cases found : state.files fd with
      | none =>
        rw [show rawServe beyond state (.ioctl fd myIoctlSetBuffer user) = .ok (state, ⟨-ebadf, []⟩) by
          simp [rawServe, onFile, found]] at served
        cases served
        refine .inr ⟨?_, rfl⟩
        rintro ⟨_, _, ⟨⟩, file, here, -⟩
        rw [found] at here
        cases here
      | some file =>
        obtain ⟨after, ret, served', reached, -⟩ := rawServe_setBuffer beyond found user
        rw [served'] at served
        cases served
        by_cases this : minor = file.minor
        · subst this
          refine .inl ⟨⟨fd, user, rfl, file, found, rfl⟩, ?_⟩
          simpa [reached] using reach_le user bufferSize
        · refine .inr ⟨?_, by simp [this]⟩
          rintro ⟨_, _, ⟨⟩, other, here, same⟩
          rw [found] at here
          cases here
          exact this same.symm
    · obtain ⟨reply, served'⟩ := rawServe_otherIoctl beyond set user
      rw [served'] at served
      cases served
      refine .inr ⟨?_, rfl⟩
      rintro ⟨_, _, ⟨⟩, -⟩
      exact set rfl

theorem wasSet_append (reached : run (rawStep beyond) loaded calls = .ok state) :
    WasSet beyond minor (calls ++ [call]) ↔ WasSet beyond minor calls ∨ SetsBuffer state minor call := by
  constructor
  · rintro ⟨before, other, after, here, whole, ran, sets⟩
    rcases List.eq_nil_or_concat after with rfl | ⟨after, last, rfl⟩
    · obtain ⟨rfl, same⟩ := List.append_inj' whole rfl
      cases same
      rw [reached] at ran
      cases ran
      exact .inr sets
    · rw [List.concat_eq_append, ← List.cons_append, ← List.append_assoc] at whole
      obtain ⟨rfl, -⟩ := List.append_inj' whole rfl
      exact .inl ⟨before, other, after, here, rfl, ran, sets⟩
  · rintro (⟨before, other, after, here, rfl, ran, sets⟩ | sets)
    · exact ⟨before, other, after ++ [call], here, by simp, ran, sets⟩
    · exact ⟨calls, call, [], state, rfl, reached, sets⟩

/-- Where all writes stay in the buffer, a device is larger than `BUFFER_SIZE` until it
is set. -/
theorem size_reached (beyond : Fin myMaxMinors → Nat → UInt8) (calls : List Call)
    (inside : Along WritesInBounds (rawStep beyond) loaded calls) :
    ∃ state, run (rawStep beyond) loaded calls = .ok state ∧ Held state ∧
      ∀ minor, (state.devs minor).size.toNat ≤ bufferSize ↔ WasSet beyond minor calls := by
  let Inv (done : List Call) (state : Cdev) : Prop :=
    run (rawStep beyond) loaded done = .ok state ∧ Held state ∧
      ∀ minor, (state.devs minor).size.toNat ≤ bufferSize ↔ WasSet beyond minor done
  have start : Inv [] loaded := by
    refine ⟨rfl, ⟨loaded_exclusive, loaded_inRange.sizes⟩, fun minor => ?_⟩
    refine iff_of_false (show ¬4096 ≤ 256 by omega) ?_
    rintro ⟨before, call, after, here, whole, -⟩
    simp at whole
  refine (run_keeps_history Inv ?_ start inside).imp fun final ends => ends.2
  rintro done state call ⟨ran, held, sizes⟩ fine
  obtain ⟨next, step, held'⟩ := rawStep_keeps state call held fine
  refine ⟨next, step, by rw [run_append, ran, ok_bind, run_cons, step, ok_bind, run_nil], held',
    fun minor => ?_⟩
  rw [wasSet_append ran, ← sizes]
  rcases rawStep_size held fine minor step with ⟨sets, small⟩ | ⟨other, same⟩
  · simp [sets, small]
  · simp [other, same]

/-! ## `MY_IOCTL_GET_BUFFER` in the caller's memory -/

theorem reach_le_iff (user : UserBuffer) (count : Nat) :
    user.reach count ≤ bufferSize ↔
      count ≤ bufferSize ∨ ∃ limit, user.fault = some limit ∧ limit ≤ bufferSize := by
  unfold UserBuffer.reach
  cases user.fault with
  | none => simp
  | some limit =>
    simp only [Option.some.injEq, exists_eq_left']
    omega

/-- **The caller's buffer.** In every run whose writes stay in the device's buffer,
`MY_IOCTL_GET_BUFFER` through an open file stays in its 256 bytes exactly if the device
was set before or one of the first 257 bytes cannot be written. -/
theorem get_buffer_inside_iff (calls : List Call)
    (inside : Along WritesInBounds (rawStep beyond) loaded calls) :
    ∃ state, run (rawStep beyond) loaded calls = .ok state ∧
      ∀ fd memory arg fault, GetStaysInside beyond state fd memory arg fault ↔
        ∀ file, state.files fd = some file →
          WasSet beyond file.minor calls ∨ ∃ limit, fault = some limit ∧ limit ≤ bufferSize := by
  obtain ⟨state, ran, -, sizes⟩ := size_reached beyond calls inside
  refine ⟨state, ran, fun fd memory arg fault => ?_⟩
  cases found : state.files fd with
  | none =>
    refine iff_of_true ⟨state, ⟨-ebadf, []⟩, by simp [rawServe, onFile, found], by simp, ?_⟩ (by simp)
    intro address outside
    simp [copiedTo]
  | some file =>
    obtain ⟨ret, received, served, length, -⟩ :=
      rawServe_getBuffer beyond found (bufferAt memory arg fault)
    have exactly : received.length ≤ bufferSize ↔
        WasSet beyond file.minor calls ∨ ∃ limit, fault = some limit ∧ limit ≤ bufferSize := by
      rw [length, reach_le_iff, sizes]
      rfl
    simp only [Option.some.injEq, forall_eq']
    rw [← exactly]
    constructor
    · rintro ⟨next, reply, served', covered, -⟩
      rw [served] at served'
      cases served'
      by_contra long
      have last := (covered bufferSize (Nat.not_le.mp long)).2
      exact Nat.lt_irrefl _ last
    · intro short
      refine ⟨state, _, served, fun i less => ⟨Nat.le_add_right arg i, ?_⟩, fun address outside => ?_⟩
      · have low : i < received.length := less
        omega
      · refine copiedTo_outside ?_
        by_contra covered
        refine outside ⟨?_, ?_⟩ <;> simp only at covered ⊢ <;> omega

/-- The device is set, and a byte is written to it. -/
def setAndWritten (minor : Fin myMaxMinors) : List Call :=
  [.openFile 3 minor, .ioctl 3 myIoctlSetBuffer (holding []), .pwrite 3 (holding [0x48]) 1 255]

theorem get_buffer_inside_after_set :
    ∃ state, run (rawStep fun _ _ => 0) loaded (setAndWritten 0) = .ok state ∧
      GetStaysInside (fun _ _ => 0) state 3 (fun _ => 0) 4096 none := by
  have inside : Along WritesInBounds (rawStep fun _ _ => 0) loaded (setAndWritten 0) := by
    refine ⟨trivial, fun opened _ => ⟨trivial, fun set _ => ⟨?_, fun _ _ => trivial⟩⟩⟩
    exact fun file found _ => .inr (.inr (by decide))
  obtain ⟨final, ran, exactly⟩ := get_buffer_inside_iff (setAndWritten 0) inside
  obtain ⟨opened, first, rest⟩ := bind_eq_ok.mp (run_cons.symm.trans ran)
  obtain ⟨set, second, rest'⟩ := bind_eq_ok.mp (run_cons.symm.trans rest)
  obtain ⟨last, third, done⟩ := bind_eq_ok.mp (run_cons.symm.trans rest')
  cases done
  have found : opened.files 3 = some ⟨0, 0⟩ := by
    cases first
    rfl
  have found' : set.files 3 = some ⟨0, 0⟩ := by
    obtain ⟨after, ret, served, -⟩ := rawServe_setBuffer (fun _ _ => 0) found (holding [])
    rw [rawStep, served] at second
    cases second
    exact found
  have found'' : final.files 3 = some ⟨0, 0⟩ := by
    obtain ⟨⟨_, reply⟩, served, same⟩ := bind_eq_ok.mp third
    cases same
    obtain rfl | ⟨file, -, wrote⟩ := onFile_cases served
    · exact found'
    rw [if_neg (show ¬ssize 255 < 0 by decide)] at wrote
    obtain ⟨⟨after, pos, ret⟩, -, same⟩ := bind_eq_ok.mp wrote
    cases same
    exact found'
  refine ⟨final, ran, (exactly 3 _ 4096 none).mpr fun file here => .inl ?_⟩
  obtain rfl : (⟨0, 0⟩ : File) = file := Option.some.inj (found''.symm.trans here)
  exact ⟨[.openFile 3 0], _, [.pwrite 3 (holding [0x48]) 1 255], opened, rfl,
    by rw [run_cons, first, ok_bind, run_nil], 3, holding [], rfl, _, found, rfl⟩

/-- The first `MY_IOCTL_GET_BUFFER` of the test program, before any
`MY_IOCTL_SET_BUFFER`, copies the whole device. -/
theorem get_buffer_overruns :
    ∃ state, run (rawStep fun _ _ => 0) loaded [.openFile 3 0] = .ok state ∧
      (∃ reply, rawServe (fun _ _ => 0) state
          (.ioctl 3 myIoctlGetBuffer (bufferAt (fun _ => 1) 4096 none)) = .ok (state, reply) ∧
        reply.received.length = 4096) ∧
      ¬GetStaysInside (fun _ _ => 0) state 3 (fun _ => 1) 4096 none := by
  obtain ⟨opened, ran, ⟨⟨pos, found, -⟩, size, -, -⟩, -, -⟩ := serve_openFile
    (show loaded.files 3 = none from rfl) (show (loaded.devs 0).access = 0 from rfl) (Nat.le_refl _)
  have openStep : rawStep (fun _ _ => 0) loaded (.openFile 3 0) = .ok opened := by
    rw [rawStep, rawServe, ran]
    rfl
  obtain ⟨ret, received, served, length, -⟩ :=
    rawServe_getBuffer (fun _ _ => 0) found (bufferAt (fun _ => 1) 4096 none)
  have whole : received.length = 4096 := by
    rw [length, reach_of_no_fault rfl]
    exact size
  refine ⟨opened, by rw [run_cons, openStep, ok_bind, run_nil], ⟨_, served, whole⟩, ?_⟩
  rintro ⟨next, reply, served', inside, -⟩
  rw [served] at served'
  cases served'
  have last := (inside 256 (show 256 < received.length by omega)).2
  exact Nat.lt_irrefl _ last

end KernelLabs.CharDevice
