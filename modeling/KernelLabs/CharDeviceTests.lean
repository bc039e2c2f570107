import KernelLabs.CharDeviceBuffer
import KernelLabs.CharDeviceExclusion
import KernelLabs.UserPrograms

/-! The programs that come with the character device, `my_cdev_test` and `cdev_op`, as any
number of processes that run them on one device at the same time. A process is its system
calls; `open` lets one in at a time, so what they do is what they do one after another. -/
namespace KernelLabs.CharDevice
open CBytes Errno UserPrograms

/-! ## The programs -/

/-- A string that a program is passed. -/
abbrev Argument := { text : Bytes // 0 ∉ text }

/-- What a string literal prints as. -/
def text (string : String) : Bytes := cString (literal string.toList)

/-- How a program ends: what it printed, what it passed to `perror`, and its status. -/
structure Outcome where
  stdout : Bytes
  message : Option Bytes
  status : Nat
  deriving DecidableEq, Repr

def exitFailure : Nat := 1

/-- `perror(message); exit(EXIT_FAILURE);`, which is also what `error` does. -/
def failed (message : String) : Outcome := ⟨[], some (text message), exitFailure⟩

def usage (argv0 : Argument) : Outcome :=
  ⟨text "Usage: " ++ argv0.1 ++
    text " <options>\n options:\n\tp - print\n\ts string - set buffer\n\tg - get buffer\n", none, exitFailure⟩

/-- `buffer` in `main`: what it holds before it is used, and how much memory there is
behind it, if there is an end. -/
structure Stack where
  buffer : CharArray bufferSize
  room : Option Nat

/-- `buffer`, passed to a call. -/
def Stack.user (stack : Stack) (buffer : CharArray bufferSize) : UserBuffer :=
  ⟨fun i => buffer.1.getD i 0, stack.room.map (bufferSize + ·)⟩

/-- `memset(buffer, 0, BUFFER_SIZE); strncpy(buffer, argv[2], BUFFER_SIZE);` -/
def fillBuffer (stack : Stack) (argument : Argument) : Except Fault (CharArray bufferSize) := do
  let buffer ← memset stack.buffer 0 bufferSize
  strncpy buffer (⟨argument.1 ++ [0], rfl⟩ : CharArray (argument.1 ++ [0]).length) 0 bufferSize

/-- `buffer[BUFFER_SIZE-1] = 0;`, and what is printed then. -/
def printBuffer (buffer : CharArray bufferSize) : Outcome :=
  ⟨text "IOCTL buffer contains " ++ cString (buffer.1.take (bufferSize - 1) ++ [0]) ++ text "\n", none, 0⟩

/-- A program that opens the device as `fd`, or ends with memory that it has overrun. -/
abbrev Main := Program Call Reply (Except Fault Outcome)

/-- The `switch` in `main` of `my_cdev_test`, and what follows it. -/
def testSwitch (stack : Stack) (argv0 : Argument) (fd : Nat) (option : Argument) (args : List Argument) : Main := do
  if option.1 = text "p" then
    let reply ← Program.perform (.ioctl fd myIoctlPrint ⟨fun _ => 0, some 0⟩)
    if reply.ret < 0 then return .ok (failed "ioctl")
    let _ ← Program.perform (.closeFile fd)
    return .ok ⟨[], none, 0⟩
  else if option.1 = text "s" then
    match args with
    | [] => return .ok (usage argv0)
    | argument :: _ =>
      match fillBuffer stack argument with
      | .error bug => return .error bug
      | .ok buffer =>
        let reply ← Program.perform (.ioctl fd myIoctlSetBuffer (stack.user buffer))
        if reply.ret < 0 then return .ok (failed "ioctl")
        let _ ← Program.perform (.closeFile fd)
        return .ok ⟨[], none, 0⟩
  else if option.1 = text "g" then
    let reply ← Program.perform (.ioctl fd myIoctlGetBuffer (stack.user stack.buffer))
    -- the kernel has written to `buffer`, and to what lies behind it
    match stack.buffer.write 0 reply.received with
    | .error bug => return .error bug
    | .ok buffer =>
      if reply.ret < 0 then return .ok (failed "ioctl")
      let _ ← Program.perform (.closeFile fd)
      return .ok (printBuffer buffer)
  else return .ok (failed "Wrong parameter")

/-- `main` of `my_cdev_test`. -/
def myCdevTest (minor : Fin myMaxMinors) (stack : Stack) (argv0 : Argument) (fd : Nat) : List Argument → Main
  | [] => return .ok (usage argv0)
  | option :: args => do
    if option.1.length ≠ 1 then return .ok (usage argv0)
    let opened ← Program.perform (.openFile fd minor)
    if opened.ret < 0 then return .ok (failed "open")
    testSwitch stack argv0 fd option args

/-- The loop in `main` of `cdev_op`. -/
def tries (fd : Nat) : Nat → Program Call Reply Unit
  | 0 => return ()
  | more + 1 => do
    let _ ← Program.perform (.write fd (holding (literal "Hello".toList)) 6)
    let _ ← Program.perform (.read fd (holding []) 6)
    tries fd more

def numTry : Nat := 5

/-- `main` of `cdev_op`. It goes on with a file that it could not open, which is a file
that is not open. -/
def cdevOp (minor : Fin myMaxMinors) (fd : Nat) : Main := do
  let opened ← Program.perform (.openFile fd minor)
  tries fd numTry
  return .ok ⟨[], if opened.ret < 0 then some (text "Open") else none, 0⟩

/-- A process: a program and its arguments. -/
inductive Test
  | myCdevTest (stack : Stack) (argv0 : Argument) (args : List Argument)
  | cdevOp

def Test.main (minor : Fin myMaxMinors) (fd : Nat) : Test → Main
  | .myCdevTest stack argv0 args => CharDevice.myCdevTest minor stack argv0 fd args
  | .cdevOp => CharDevice.cdevOp minor fd

/-- At the end of a process, the kernel closes what is still open. -/
def atExit (fd : Nat) (result : Except Fault Outcome) : Main := do
  let _ ← Program.perform (.closeFile fd)
  return result

/-- What a process does. -/
def Test.process (minor : Fin myMaxMinors) (fd : Nat) (test : Test) : Main := test.main minor fd >>= atExit fd

/-! ## What they come to -/

/-- Whether the program gets as far as `open`. -/
def Test.opens : Test → Bool
  | .myCdevTest _ _ [] => false
  | .myCdevTest _ _ (option :: _) => option.1.length = 1
  | .cdevOp => true

/-- What `g` prints after a process had the device: nothing before the first `s`, then the
string of the last one, or what `cdev_op` has written over it. -/
def Test.leaves (held : Option Bytes) : Test → Option Bytes
  | .myCdevTest _ _ (option :: argument :: _) =>
    if option.1 = text "s" then some (argument.1.take (bufferSize - 1)) else held
  | .myCdevTest _ _ _ => held
  | .cdevOp => held.map fun _ => text "Hello"

/-- How `g` ends that has the device. -/
def getEnds (stack : Stack) : Option Bytes → Except Fault Outcome
  | some string => .ok ⟨text "IOCTL buffer contains " ++ string ++ text "\n", none, 0⟩
  | none => if stack.room = some 0 then .ok (failed "ioctl") else .error .outOfBounds

/-- How `my_cdev_test` ends that has the device. -/
def switchEnds (held : Option Bytes) (stack : Stack) (argv0 option : Argument) (args : List Argument) :
    Except Fault Outcome :=
  if option.1 = text "p" then .ok ⟨[], none, 0⟩
  else if option.1 = text "s" then .ok (if args = [] then usage argv0 else ⟨[], none, 0⟩)
  else if option.1 = text "g" then getEnds stack held
  else .ok (failed "Wrong parameter")

/-- How a process ends that has the device. -/
def Test.served (held : Option Bytes) : Test → Except Fault Outcome
  | .myCdevTest _ argv0 [] => .ok (usage argv0)
  | .myCdevTest stack argv0 (option :: args) =>
    if option.1.length ≠ 1 then .ok (usage argv0) else switchEnds held stack argv0 option args
  | .cdevOp => .ok ⟨[], none, 0⟩

/-- How a process ends that has not. -/
def Test.turnedAway (test : Test) : Except Fault Outcome :=
  match test with
  | .myCdevTest _ argv0 _ => .ok (if test.opens then failed "open" else usage argv0)
  | .cdevOp => .ok ⟨[], some (text "Open"), 0⟩

/-! ## One process at a time -/

/-- The device is not open, or open once; no other device is open. -/
structure Shared (minor : Fin myMaxMinors) (state : Cdev) : Prop where
  exclusive : Exclusive state
  here : ∀ fd file, state.files fd = some file → file.minor = minor

/-- A process has the device open. -/
def HasOpen (state : Cdev) (fd : Nat) : Prop := (state.files fd).isSome

/-- The calls on a file that these programs make. -/
def UsesFile (fd : Nat) : Call → Prop
  | .read used _ _ | .write used _ _ | .ioctl used _ _ | .closeFile used => used = fd
  | .openFile _ _ | .pread _ _ _ _ | .pwrite _ _ _ _ => False

/-- What is replied to a process that has not opened the device. -/
def refusal : Call → Reply
  | .openFile _ _ => ⟨-ebusy, []⟩
  | _ => ⟨-ebadf, []⟩

variable {minor : Fin myMaxMinors} {state next : Cdev} {fd other : Nat} {file : File} {call : Call} {reply : Reply}

/-- What a call on an open file does to the files. -/
theorem usesFile_cases (uses : UsesFile fd call) (served : serve state call = .ok (next, reply)) :
    next = state ∨ ∃ file, state.files fd = some file ∧
      ((∃ after pos, after.access = (state.devs file.minor).access ∧
          next = (state.setDevice file.minor after).setFile fd (some { file with pos := pos })) ∨
        next = (state.setDevice file.minor (myRelease (state.devs file.minor))).setFile fd none) := by
  cases call with
  | openFile | pread | pwrite => exact uses.elim
  | read used user size =>
    obtain rfl : used = fd := uses
    refine (read_cases served).imp_right ?_
    rintro ⟨file, received, pos, found, -, rfl⟩
    exact ⟨file, found, .inl ⟨state.devs file.minor, pos, rfl, by rw [Cdev.setDevice_self]⟩⟩
  | write used user size =>
    obtain rfl : used = fd := uses
    refine (write_cases served).imp_right ?_
    rintro ⟨file, after, pos, found, wrote, rfl⟩
    exact ⟨file, found, .inl ⟨after, pos, (myWrite_keeps wrote).2, rfl⟩⟩
  | ioctl used cmd arg =>
    obtain rfl : used = fd := uses
    refine (ioctl_cases served).imp_right ?_
    rintro ⟨file, after, found, controlled, rfl⟩
    refine ⟨file, found, .inl ⟨after, file.pos, myIoctl_access controlled, ?_⟩⟩
    have same : state.files used = (state.setDevice file.minor after).files used := rfl
    rw [← found, same, Cdev.setFile_self]
  | closeFile used =>
    obtain rfl : used = fd := uses
    refine (onFile_cases served).imp_right ?_
    rintro ⟨file, found, closed⟩
    cases closed
    exact ⟨file, found, .inr rfl⟩

/-- Opening the device, when no file is open or another one is. -/
theorem open_cases (shared : Shared minor state) :
    (∀ fd, state.files fd = none → (∀ other, ¬ HasOpen state other) →
      ∃ next, serve state (.openFile fd minor) = .ok (next, ⟨0, []⟩) ∧ HasOpen next fd) ∧
    ∀ fd other, state.files fd = none → HasOpen state other →
      serve state (.openFile fd minor) = .ok (state, ⟨-ebusy, []⟩) := by
  constructor
  · intro fd unused closed
    have free : ¬ Opened state minor := fun ⟨other, file, found, _⟩ => closed other (by simp [HasOpen, found])
    have opens := myOpen_of_free (shared.exclusive.free minor free)
    exact ⟨_, by simp only [serve, unused, opens]; rfl, by simp [HasOpen]⟩
  · intro fd other unused has
    obtain ⟨file, found⟩ := Option.isSome_iff_exists.mp has
    have busy : Opened state minor := ⟨other, file, found, shared.here other file found⟩
    have taken := myOpen_of_taken (shared.exclusive.taken minor busy)
    simp [serve, unused, taken, ebusy]

/-- The calls of one process leave the files of the others alone. -/
theorem shared_kept (shared : Shared minor state) (makes : call = .openFile fd minor ∨ UsesFile fd call)
    (served : serve state call = .ok (next, reply)) :
    Shared minor next ∧ ∀ other, other ≠ fd → (HasOpen next other ↔ HasOpen state other) := by
  rcases makes with rfl | uses
  · obtain ⟨next', reply', served', exclusive, -⟩ := shared.exclusive.opens fd minor
    cases served.symm.trans served'
    have files : next = state ∨ ∃ after, next = (state.setDevice minor after).setFile fd (some ⟨minor, 0⟩) := by
      simp only [serve] at served
      split at served
      · cases served
        exact .inl rfl
      · split at served <;> cases served
        · refine .inl ?_
          by_cases free : (state.devs minor).access = 0
          · rename_i failing
            exact absurd (by rw [myOpen_of_free free]) failing
          · simp [myOpen, atomicCmpxchg, free]
        · exact .inr ⟨_, rfl⟩
    rcases files with rfl | ⟨after, rfl⟩
    · exact ⟨shared, fun _ _ => Iff.rfl⟩
    refine ⟨⟨exclusive, fun other file found => ?_⟩, fun other apart => by simp [HasOpen, apart]⟩
    by_cases same : other = fd
    · simp only [same, Cdev.setFile_files, if_true, Option.some.injEq] at found
      rw [← found]
    · simp only [same, Cdev.setFile_files, if_false, Cdev.setDevice_files] at found
      exact shared.here other file found
  · rcases usesFile_cases uses served with rfl | ⟨file, found, ⟨after, pos, access, rfl⟩ | rfl⟩
    · exact ⟨shared, fun _ _ => Iff.rfl⟩
    · refine ⟨⟨shared.exclusive.transferred found access pos, fun other file' found' => ?_⟩,
        fun other apart => by simp [HasOpen, apart]⟩
      by_cases same : other = fd
      · simp only [same, Cdev.setFile_files, if_true, Option.some.injEq] at found'
        rw [← found']
        exact shared.here fd file found
      · simp only [same, Cdev.setFile_files, if_false, Cdev.setDevice_files] at found'
        exact shared.here other file' found'
    · refine ⟨⟨shared.exclusive.closing found rfl, fun other file' found' => ?_⟩,
        fun other apart => by simp [HasOpen, apart]⟩
      by_cases same : other = fd
      · simp [same] at found'
      · simp only [same, Cdev.setFile_files, if_false, Cdev.setDevice_files] at found'
        exact shared.here other file' found'

/-- The device is what a process has to itself. -/
theorem device_exclusive (minor : Fin myMaxMinors) :
    UserPrograms.Exclusive serve (Shared minor) HasOpen (fun fd => .openFile fd minor) UsesFile refusal where
  kept := shared_kept
  alone shared has has' := by
    obtain ⟨file, found⟩ := Option.isSome_iff_exists.mp has
    obtain ⟨file', found'⟩ := Option.isSome_iff_exists.mp has'
    refine shared.exclusive.alone _ _ file' file found' found ?_
    rw [shared.here _ _ found, shared.here _ _ found']
  free fd shared closed := by
    have unused : ¬ HasOpen _ fd := closed fd
    obtain ⟨next, served, has⟩ := (open_cases shared).1 fd (Option.not_isSome_iff_eq_none.mp unused) closed
    exact ⟨next, _, served, has⟩
  taken shared hasNot has := (open_cases shared).2 _ _ (Option.not_isSome_iff_eq_none.mp hasNot) has
  idle {state fd call} _ hasNot uses := by
    have unused : state.files fd = none := Option.not_isSome_iff_eq_none.mp hasNot
    cases call with
    | openFile | pread | pwrite => exact uses.elim
    | read used | write used | ioctl used | closeFile used =>
      obtain rfl : used = fd := uses
      simp [serve, onFile, unused, refusal]

/-! ## One process after another -/

/-- A device that nobody has open, and what `g` would print of it. -/
def Keeps (state : Cdev) (minor : Fin myMaxMinors) : Option Bytes → Prop
  | none => (state.devs minor).size.toNat = bufsiz
  | some string => (state.devs minor).size.toNat = bufferSize ∧
    cString ((state.buffer minor).take (bufferSize - 1)) = string

variable {held : Option Bytes} {limit pos : Nat}

theorem Keeps.of_same (keeps : Keeps state minor held) (size : (next.devs minor).size = (state.devs minor).size)
    (buffer : next.buffer minor = state.buffer minor) : Keeps next minor held := by
  cases held with
  | none => rwa [Keeps, size]
  | some string => rwa [Keeps, size, buffer]

theorem Keeps.fits (keeps : Keeps state minor held) :
    bufferSize ≤ (state.devs minor).size.toNat ∧ (state.devs minor).size.toNat ≤ bufsiz := by
  cases held with
  | none =>
    rw [show (state.devs minor).size.toNat = bufsiz from keeps]
    exact ⟨by decide, Nat.le_refl _⟩
  | some string =>
    rw [keeps.1]
    exact ⟨Nat.le_refl _, by decide⟩

theorem cString_append_zeros {clean : Bytes} (noZero : 0 ∉ clean) (count : Nat) :
    cString (clean ++ List.replicate count 0) = clean := by
  cases count with
  | zero => rw [List.replicate_zero, List.append_nil, cString_of_no_zero noZero]
  | succ count => rw [List.replicate_succ, cString_append_zero noZero]

/-- A `NUL` behind an array changes nothing about its string. -/
theorem cString_closed (bytes : Bytes) : cString (bytes ++ [0]) = cString bytes := by
  induction bytes with
  | nil => rfl
  | cons byte bytes ih =>
    by_cases zero : byte = 0
    · simp [cString, zero]
    · simpa [cString, zero] using ih

/-- What `s` passes to the device. -/
theorem fillBuffer_spec (stack : Stack) (argument : Argument) : ∃ buffer, fillBuffer stack argument = .ok buffer ∧
    cString (buffer.1.take (bufferSize - 1)) = argument.1.take (bufferSize - 1) := by
  have clean : 0 ∉ argument.1.take bufferSize := fun member => argument.2 (List.mem_of_mem_take member)
  have field : cString ((argument.1 ++ [0]).take bufferSize) = argument.1.take bufferSize := by
    rw [List.take_append]
    by_cases long : bufferSize ≤ argument.1.length
    · rw [Nat.sub_eq_zero_of_le long, List.take_zero, List.append_nil, cString_of_no_zero clean]
    · obtain ⟨more, room⟩ := Nat.exists_eq_succ_of_ne_zero (Nat.sub_ne_zero_of_lt (Nat.not_le.mp long))
      rw [room, List.take_succ_cons, List.take_nil, cString_closed, cString_of_no_zero clean]
  have terminated : ((argument.1 ++ [0]).take bufferSize).length = bufferSize ∨
      0 ∈ (argument.1 ++ [0]).take bufferSize := by
    by_cases long : bufferSize ≤ argument.1.length
    · exact .inl (by simp; omega)
    · exact .inr (by rw [List.take_of_length_le (by simp; omega)]; simp)
  have width : (padded ((argument.1 ++ [0]).take bufferSize) bufferSize).length = bufferSize :=
    length_padded (List.length_take_le _ _)
  obtain ⟨cleared, clears, -⟩ := write_ok stack.buffer 0 (List.replicate bufferSize 0) (by simp)
  obtain ⟨buffer, copies, contents⟩ := write_ok cleared 0
    (padded ((argument.1 ++ [0]).take bufferSize) bufferSize) (by rw [width, Nat.zero_add])
  refine ⟨buffer, ?_, ?_⟩
  · rw [fillBuffer, memset, clears, ok_bind]
    simp only [strncpy, List.drop_zero]
    rw [if_pos terminated, copies]
  · rw [width, Nat.zero_add, List.take_zero, List.nil_append, List.drop_of_length_le (Nat.le_of_eq cleared.2),
      List.append_nil] at contents
    rw [contents, padded, field, List.take_append, List.take_take, Nat.min_eq_left (by decide), List.take_replicate]
    exact cString_append_zeros (fun member => argument.2 (List.mem_of_mem_take member)) _

/-- The whole of `buffer` can be accessed. -/
theorem Stack.reach_buffer (stack : Stack) (buffer : CharArray bufferSize) {count : Nat}
    (inside : count ≤ bufferSize) : (stack.user buffer).reach count = count := by
  unfold UserBuffer.reach Stack.user
  cases stack.room with
  | none => rfl
  | some room => exact Nat.min_eq_right (Nat.le_add_right_of_le inside)

theorem Stack.bytes_buffer (stack : Stack) (buffer : CharArray bufferSize) :
    (stack.user buffer).bytes bufferSize = buffer.1 := by
  refine List.ext_getElem (by simp [UserBuffer.bytes, buffer.2]) fun i low low' => ?_
  simp [UserBuffer.bytes, Stack.user, List.getD_eq_getElem?_getD, List.getElem?_eq_getElem low']

/-- `MY_IOCTL_SET_BUFFER` of `buffer`. -/
theorem serve_setStack (opened : OpenAt state fd minor limit 0) (stack : Stack) (buffer : CharArray bufferSize) :
    ∃ next, serve state (.ioctl fd myIoctlSetBuffer (stack.user buffer)) = .ok (next, ⟨0, []⟩) ∧
      OpenAt next fd minor bufferSize 0 ∧ (next.buffer minor).take bufferSize = buffer.1 := by
  obtain ⟨⟨offset, found, start⟩, -, -, -⟩ := opened
  obtain ⟨⟨array, remains⟩, copied⟩ := (copyFromUser_ok_iff (state.devs minor).deviceBuffer 0
    (stack.user buffer) bufferSize).mpr (.inr (by decide))
  obtain rfl : remains = 0 := by
    rw [copyFromUser_left copied, stack.reach_buffer buffer (Nat.le_refl _), Nat.sub_self]
  have stored := copyFromUser_whole copied
  rw [stack.bytes_buffer, overwrite, List.take_zero, List.nil_append] at stored
  have other : myIoctlSetBuffer ≠ myIoctlPrint := by decide
  have other' : myIoctlSetBuffer ≠ myIoctlGetBuffer := by decide
  refine ⟨state.setDevice minor { state.devs minor with
      deviceBuffer := array, size := UInt64.ofNat bufferSize }, ?_, ⟨⟨offset, found, start⟩, ?_, by decide,
      Nat.zero_le _⟩, ?_⟩
  · simp only [serve, onFile, found, myIoctl, if_neg other, if_neg other', if_true, copied, ok_bind, pure_eq_ok,
      Nat.sub_zero, ne_eq, not_true_eq_false, if_false]
  · rw [Cdev.setDevice_devs, if_pos rfl]
    rfl
  · rw [Cdev.buffer, Cdev.setDevice_devs, if_pos rfl, stored, List.take_left' buffer.2]

/-- `MY_IOCTL_GET_BUFFER` copies the size of the device, or as much as there is memory for. -/
theorem serve_getStack (opened : OpenAt state fd minor limit pos) (user : UserBuffer) :
    ∃ received ret, serve state (.ioctl fd myIoctlGetBuffer user) = .ok (state, ⟨ret, received⟩) ∧
      received.length = user.reach limit ∧
      (user.reach limit = limit → ret = 0 ∧ received = (state.buffer minor).take limit) ∧
      (user.reach limit ≠ limit → ret < 0) := by
  obtain ⟨⟨offset, found, -⟩, size, fits, -⟩ := opened
  have short := reach_le user limit
  obtain ⟨⟨received, left⟩, copied⟩ := (copyToUser_ok_iff (state.devs minor).deviceBuffer 0 user limit).mpr
    (.inr (by omega))
  have remains := copyToUser_left copied
  have other : myIoctlGetBuffer ≠ myIoctlPrint := by decide
  refine ⟨received, if left ≠ 0 then -efault else 0, ?_, copyToUser_length copied, fun whole => ?_, fun part => ?_⟩
  · simp only [serve, onFile, found, myIoctl, if_neg other, if_true, size, copied, ok_bind, pure_eq_ok,
      Cdev.setDevice_self]
  · obtain rfl : left = 0 := by omega
    exact ⟨rfl, copyToUser_whole copied⟩
  · rw [if_pos (by omega)]
    decide

open Program

/-- How a process ends that has closed its file. -/
theorem atExit_closed (result : Except Fault Outcome) (closed : state.files fd = none) :
    (atExit fd result).alone serve state = .ok (state, result) := by
  have served : serve state (.closeFile fd) = .ok (state, ⟨-ebadf, []⟩) := by simp [serve, onFile, closed]
  simp only [atExit, perform_bind, alone_call served]
  rfl

/-- How a process ends whose file is still open. -/
theorem atExit_open (result : Except Fault Outcome) (opened : OpenAt state fd minor limit pos) : ∃ next,
    (atExit fd result).alone serve state = .ok (next, result) ∧ next.files fd = none ∧
      (next.devs minor).size = (state.devs minor).size ∧ next.buffer minor = state.buffer minor := by
  obtain ⟨next, served, closed, -, size, buffer, -⟩ := serve_closeFile opened
  exact ⟨next, by simp only [atExit, perform_bind, alone_call served]; rfl, closed, size, buffer⟩

/-- `close(fd); return result;` -/
theorem close_atExit (result : Except Fault Outcome) (opened : OpenAt state fd minor limit pos) : ∃ next,
    (Program.call (.closeFile fd) fun _ => atExit fd result).alone serve state = .ok (next, result) ∧
      next.files fd = none ∧ (next.devs minor).size = (state.devs minor).size ∧
      next.buffer minor = state.buffer minor := by
  obtain ⟨next, served, closed, -, size, buffer, -⟩ := serve_closeFile opened
  exact ⟨next, by rw [alone_call served, atExit_closed result closed], closed, size, buffer⟩

/-- The tries leave what lies before them. -/
theorem tries_alone (rest : Unit → Main) (count : Nat) (opened : OpenAt state fd minor limit pos)
    (room : pos + 12 * count ≤ limit) : ∃ next,
      (tries fd count >>= rest).alone serve state = (rest ()).alone serve next ∧
      OpenAt next fd minor limit (pos + 12 * count) ∧
      (∀ before ≤ pos, (next.buffer minor).take before = (state.buffer minor).take before) ∧
      (0 < count →
        (next.buffer minor).take (pos + 6) = (state.buffer minor).take pos ++ literal "Hello".toList) := by
  induction count generalizing state pos with
  | zero => exact ⟨state, rfl, opened, fun _ _ => rfl, fun none_left => absurd none_left (Nat.lt_irrefl 0)⟩
  | succ count ih =>
    obtain ⟨written, reply, moved, wrote, opened', -, fine, exactly⟩ :=
      serve_write opened (holding (literal "Hello".toList)) 6
    obtain ⟨-, rfl, stored⟩ := exactly (fine rfl)
    obtain ⟨read, reply', moved', reads, opened'', same, fine', exactly'⟩ := serve_read opened' (holding []) 6
    obtain ⟨-, rfl, -⟩ := exactly' (fine' rfl)
    have six : (6 : UInt64).toNat = 6 := rfl
    have hello : (holding (literal "Hello".toList)).bytes 6 = literal "Hello".toList := by decide
    have length : (literal "Hello".toList).length = 6 := by decide
    have width : (state.buffer minor).length = bufsiz := (state.devs minor).deviceBuffer.2
    have fits := opened.fits
    have further : pos + min (limit - pos) (6 : UInt64).toNat +
        min (limit - (pos + min (limit - pos) (6 : UInt64).toNat)) (6 : UInt64).toNat = pos + 12 := by omega
    rw [further] at opened''
    rw [six, hello, List.take_of_length_le (by rw [length]; omega)] at stored
    have buffer : read.buffer minor = overwrite (state.buffer minor) pos (literal "Hello".toList) := by
      rw [Cdev.buffer, same]
      exact stored
    obtain ⟨next, ran, done, before, -⟩ := ih opened'' (by omega)
    refine ⟨next, ?_, by rwa [show pos + 12 * (count + 1) = pos + 12 + 12 * count by omega], fun until_ low => ?_,
      fun _ => ?_⟩
    · rw [tries]
      simp only [perform_bind, call_bind, alone_call wrote, alone_call reads]
      exact ran
    · rw [before until_ (by omega), buffer, overwrite, List.append_assoc,
        List.take_append_of_le_length (by simp; omega), List.take_take, Nat.min_eq_left low]
    · rw [before (pos + 6) (by omega), buffer, overwrite]
      exact List.take_left' (by rw [List.length_append, List.length_take, length]; omega)

/-- A process opens a device that nobody has open. -/
theorem opens_idle (shared : Shared minor state) (closed : ∀ other, state.files other = none)
    (keeps : Keeps state minor held) (fd : Nat) : ∃ next, serve state (.openFile fd minor) = .ok (next, ⟨0, []⟩) ∧
      OpenAt next fd minor (state.devs minor).size.toNat 0 ∧ next.buffer minor = state.buffer minor := by
  have free : ¬ Opened state minor := by
    rintro ⟨other, file, found, -⟩
    rw [closed other] at found
    cases found
  obtain ⟨next, served, opened, buffer, -⟩ :=
    serve_openFile (closed fd) (shared.exclusive.free minor free) keeps.fits.2
  exact ⟨next, served, opened, buffer⟩

/-- The string at the start of an array, whatever comes behind it. -/
theorem cString_front {bytes clean : Bytes} {count limit : Nat} (front : bytes.take count = clean ++ [0])
    (noZero : 0 ∉ clean) (inside : count ≤ limit) : cString (bytes.take limit) = clean := by
  have split : bytes.take limit = clean ++ 0 :: (bytes.take limit).drop count := by
    calc bytes.take limit = (bytes.take limit).take count ++ (bytes.take limit).drop count :=
          (List.take_append_drop count (bytes.take limit)).symm
      _ = clean ++ 0 :: (bytes.take limit).drop count := by
          rw [List.take_take, Nat.min_eq_left inside, front, List.append_assoc]
          rfl
  rw [split, cString_append_zero noZero]

/-- What `cdev_op` leaves in a device that it has to itself. -/
theorem cdevOp_alone (shared : Shared minor state) (closed : ∀ other, state.files other = none)
    (keeps : Keeps state minor held) : ∃ next,
    (Test.cdevOp.process minor fd).alone serve state = .ok (next, Test.cdevOp.served held) ∧
      next.files fd = none ∧ Keeps next minor (Test.cdevOp.leaves held) := by
  obtain ⟨start, served, opened, -⟩ := opens_idle shared closed keeps fd
  have fits := keeps.fits
  have enough : 256 ≤ (state.devs minor).size.toNat := fits.1
  obtain ⟨last, ran, opened', -, written⟩ := tries_alone (fun _ => atExit fd (Test.cdevOp.served held))
    numTry opened (by unfold numTry; omega)
  obtain ⟨next, ended, closed', size, buffer⟩ := atExit_open (Test.cdevOp.served held) opened'
  refine ⟨next, ?_, closed', ?_⟩
  · simp only [Test.process, Test.main, cdevOp, perform_bind, call_bind, bind_bind, alone_call served]
    exact ran.trans ended
  cases held with
  | none =>
    rw [Test.leaves, Option.map_none, Keeps, size, opened'.size]
    exact keeps
  | some string =>
    have short : (state.devs minor).size.toNat = bufferSize := keeps.1
    refine ⟨by rw [size, opened'.size, short], ?_⟩
    have front := written (by decide)
    rw [Nat.zero_add, List.take_zero, List.nil_append] at front
    rw [buffer]
    exact cString_front front (zero_not_mem_cString _) (by decide)

section Switch
variable {stack : Stack} {argv0 option : Argument} {args : List Argument}

/-- `p` ends well and leaves the device as it is. -/
theorem switch_print (stack : Stack) (argv0 : Argument) (args : List Argument)
    (opened : OpenAt state fd minor limit pos) (print : option.1 = text "p") : ∃ next,
    (testSwitch stack argv0 fd option args >>= atExit fd).alone serve state = .ok (next, .ok ⟨[], none, 0⟩) ∧
      next.files fd = none ∧ (next.devs minor).size = (state.devs minor).size ∧
      next.buffer minor = state.buffer minor := by
  have printed : serve state (.ioctl fd myIoctlPrint ⟨fun _ => 0, some 0⟩) = .ok (state, ⟨0, []⟩) := by
    obtain ⟨offset, found, -⟩ := opened.file
    simp [serve, onFile, found, myIoctl]
  obtain ⟨next, ended, closed, same⟩ := close_atExit (.ok ⟨[], none, 0⟩) opened
  refine ⟨next, ?_, closed, same⟩
  simp only [testSwitch, if_pos print, perform_bind, call_bind, alone_call printed, Int.lt_irrefl, if_false,
    pure_eq, exit_bind]
  exact ended

/-- `s` with a string leaves that string, as far as `g` prints it. -/
theorem switch_set (stack : Stack) (argv0 : Argument) (args : List Argument)
    (opened : OpenAt state fd minor limit 0) (set : option.1 = text "s") (argument : Argument) : ∃ next,
    (testSwitch stack argv0 fd option (argument :: args) >>= atExit fd).alone serve state =
        .ok (next, .ok ⟨[], none, 0⟩) ∧
      next.files fd = none ∧ Keeps next minor (some (argument.1.take (bufferSize - 1))) := by
  obtain ⟨buffer, fills, contents⟩ := fillBuffer_spec stack argument
  obtain ⟨middle, served, opened', front⟩ := serve_setStack opened stack buffer
  obtain ⟨next, ended, closed, size, same⟩ := close_atExit (.ok ⟨[], none, 0⟩) opened'
  have other : ¬ option.1 = text "p" := by rw [set]; decide
  refine ⟨next, ?_, closed, by rw [size, opened'.size], ?_⟩
  · simp only [testSwitch, if_neg other, if_pos set, fills, perform_bind, call_bind, alone_call served,
      Int.lt_irrefl, if_false, pure_eq, exit_bind]
    exact ended
  · rw [same, ← contents, ← front, List.take_take, Nat.min_eq_left (by decide)]

/-- `g` prints what the device keeps, if it keeps a string; otherwise it is sent more
than it has room for. -/
theorem switch_get (stack : Stack) (argv0 : Argument) (args : List Argument)
    (opened : OpenAt state fd minor (state.devs minor).size.toNat 0) (keeps : Keeps state minor held)
    (get : option.1 = text "g") : ∃ next,
    (testSwitch stack argv0 fd option args >>= atExit fd).alone serve state = .ok (next, getEnds stack held) ∧
      next.files fd = none ∧ (next.devs minor).size = (state.devs minor).size ∧
      next.buffer minor = state.buffer minor := by
  have other : ¬ option.1 = text "p" := by rw [get]; decide
  have other' : ¬ option.1 = text "s" := by rw [get]; decide
  obtain ⟨received, ret, served, length, whole, part⟩ := serve_getStack opened (stack.user stack.buffer)
  cases held with
  | some string =>
    have size : (state.devs minor).size.toNat = bufferSize := keeps.1
    rw [size] at whole length
    have reach := stack.reach_buffer stack.buffer (Nat.le_refl bufferSize)
    obtain ⟨rfl, same⟩ := whole reach
    rw [reach] at length
    obtain ⟨buffer, writes, contents⟩ := write_ok stack.buffer 0 received (by rw [length, Nat.zero_add])
    obtain ⟨next, ended, closed, kept⟩ := close_atExit (.ok (printBuffer buffer)) opened
    refine ⟨next, ?_, closed, kept⟩
    have prints : getEnds stack (some string) = .ok (printBuffer buffer) := by
      rw [length, Nat.zero_add, List.take_zero, List.nil_append,
        List.drop_of_length_le (Nat.le_of_eq stack.buffer.2), List.append_nil] at contents
      rw [getEnds, printBuffer, contents, same, List.take_take, Nat.min_eq_left (by decide), cString_closed,
        keeps.2]
    simp only [testSwitch, if_neg other, if_neg other', if_pos get, perform_bind, call_bind, alone_call served,
      writes, Int.lt_irrefl, if_false, pure_eq, exit_bind]
    rw [prints]
    exact ended
  | none =>
    have size : (state.devs minor).size.toNat = bufsiz := keeps
    rw [size] at length part
    by_cases end_ : stack.room = some 0
    · have reach : (stack.user stack.buffer).reach bufsiz = bufferSize := by
        rw [UserBuffer.reach, Stack.user, end_]
        rfl
      have failing := part (by rw [reach]; decide)
      rw [reach] at length
      obtain ⟨buffer, writes, -⟩ := write_ok stack.buffer 0 received (by rw [length, Nat.zero_add])
      obtain ⟨next, ended, closed, kept⟩ := atExit_open (.ok (failed "ioctl")) opened
      refine ⟨next, ?_, closed, kept⟩
      simp only [testSwitch, if_neg other, if_neg other', if_pos get, perform_bind, call_bind, alone_call served,
        writes, failing, if_true, pure_eq, exit_bind]
      rw [getEnds, if_pos end_]
      exact ended
    · have reach : bufferSize < (stack.user stack.buffer).reach bufsiz := by
        have larger : bufferSize < bufsiz := by decide
        rw [UserBuffer.reach, Stack.user]
        cases room : stack.room with
        | none => exact larger
        | some more =>
          have positive : more ≠ 0 := by
            rintro rfl
            exact end_ room
          simp only [Option.map_some]
          omega
      have overruns : stack.buffer.write 0 received = .error .outOfBounds := by
        have long : ¬ 0 + received.length ≤ bufferSize := by omega
        have some_sent : received ≠ [] := by
          rintro rfl
          exact long (Nat.zero_le _)
        rw [CharArray.write, dif_neg long, if_neg some_sent]
      obtain ⟨next, ended, closed, kept⟩ := atExit_open (.error .outOfBounds) opened
      refine ⟨next, ?_, closed, kept⟩
      simp only [testSwitch, if_neg other, if_neg other', if_pos get, perform_bind, call_bind, alone_call served,
        overruns, pure_eq, exit_bind]
      rw [getEnds, if_neg end_]
      exact ended

theorem leaves_held (other : option.1 ≠ text "s") :
    (Test.myCdevTest stack argv0 (option :: args)).leaves held = held := by
  cases args with
  | nil => rfl
  | cons argument args => exact if_neg other

/-- How any option ends, and what it leaves. -/
theorem switch_alone (opened : OpenAt state fd minor (state.devs minor).size.toNat 0)
    (keeps : Keeps state minor held) (stack : Stack) (argv0 option : Argument) (args : List Argument) : ∃ next,
    (testSwitch stack argv0 fd option args >>= atExit fd).alone serve state =
        .ok (next, switchEnds held stack argv0 option args) ∧
      next.files fd = none ∧ Keeps next minor ((Test.myCdevTest stack argv0 (option :: args)).leaves held) := by
  by_cases print : option.1 = text "p"
  · obtain ⟨next, ran, closed, size, same⟩ := switch_print stack argv0 args opened print
    rw [leaves_held (by rw [print]; decide), switchEnds, if_pos print]
    exact ⟨next, ran, closed, keeps.of_same size same⟩
  by_cases set : option.1 = text "s"
  · cases args with
    | nil =>
      obtain ⟨next, ran, closed, size, same⟩ := atExit_open (.ok (usage argv0)) opened
      rw [switchEnds, if_neg print, if_pos set, if_pos rfl]
      refine ⟨next, ?_, closed, keeps.of_same size same⟩
      simp only [testSwitch, if_neg print, if_pos set, pure_eq, exit_bind]
      exact ran
    | cons argument args =>
      obtain ⟨next, ran, closed, kept⟩ := switch_set stack argv0 args opened set argument
      rw [switchEnds, if_neg print, if_pos set, if_neg (List.cons_ne_nil _ _), Test.leaves, if_pos set]
      exact ⟨next, ran, closed, kept⟩
  rw [leaves_held set]
  by_cases get : option.1 = text "g"
  · obtain ⟨next, ran, closed, size, same⟩ := switch_get stack argv0 args opened keeps get
    refine ⟨next, ?_, closed, keeps.of_same size same⟩
    simp only [switchEnds, if_neg print, if_neg set, if_pos get]
    exact ran
  · obtain ⟨next, ran, closed, size, same⟩ := atExit_open (.ok (failed "Wrong parameter")) opened
    refine ⟨next, ?_, closed, keeps.of_same size same⟩
    simp only [switchEnds, testSwitch, if_neg print, if_neg set, if_neg get, pure_eq, exit_bind]
    exact ran

end Switch

theorem process_opens {stack : Stack} {argv0 option : Argument} {args : List Argument} (one : option.1.length = 1) :
    (Test.myCdevTest stack argv0 (option :: args)).process minor fd =
      .call (.openFile fd minor) fun opened =>
        (if opened.ret < 0 then .exit (.ok (failed "open")) else testSwitch stack argv0 fd option args) >>=
          atExit fd := by
  simp only [Test.process, Test.main, myCdevTest, ne_eq, one, not_true_eq_false, if_false, perform_bind, call_bind,
    pure_eq]

theorem process_usage {stack : Stack} {argv0 option : Argument} {args : List Argument}
    (many : option.1.length ≠ 1) :
    (Test.myCdevTest stack argv0 (option :: args)).process minor fd = atExit fd (.ok (usage argv0)) := by
  simp only [Test.process, Test.main, myCdevTest, ne_eq, many, not_false_eq_true, if_true, pure_eq, exit_bind]

/-- What a process does that has the device to itself. -/
theorem process_alone (shared : Shared minor state) (closed : ∀ other, state.files other = none)
    (keeps : Keeps state minor held) (test : Test) (fd : Nat) : ∃ next,
    (test.process minor fd).alone serve state = .ok (next, test.served held) ∧ next.files fd = none ∧
      Keeps next minor (test.leaves held) := by
  cases test with
  | cdevOp => exact cdevOp_alone shared closed keeps
  | myCdevTest stack argv0 args =>
    cases args with
    | nil => exact ⟨state, atExit_closed _ (closed fd), closed fd, keeps⟩
    | cons option args =>
      by_cases one : option.1.length = 1
      swap
      · rw [leaves_held (fun same => one (by rw [same]; rfl)), Test.served, if_pos one, process_usage one]
        exact ⟨state, atExit_closed _ (closed fd), closed fd, keeps⟩
      obtain ⟨start, served, opened, buffer⟩ := opens_idle shared closed keeps fd
      have size : (start.devs minor).size = (state.devs minor).size := UInt64.toNat_inj.mp opened.size
      obtain ⟨next, ran, closed', kept⟩ :=
        switch_alone (by rwa [size]) (keeps.of_same size buffer) stack argv0 option args
      rw [Test.served, if_neg (not_not.mpr one), process_opens one, alone_call served]
      exact ⟨next, ran, closed', kept⟩

/-! ## Any number of processes -/

theorem atExit_only (result : Except Fault Outcome) : (atExit fd result).Only (UsesFile fd) :=
  ⟨rfl, fun _ => trivial⟩

theorem tries_only (count : Nat) : (tries fd count).Only (UsesFile fd) := by
  induction count with
  | zero => trivial
  | succ count ih => exact ⟨rfl, fun _ => ⟨rfl, fun _ => ih⟩⟩

theorem switch_only (stack : Stack) (argv0 option : Argument) (args : List Argument) :
    (testSwitch stack argv0 fd option args).Only (UsesFile fd) := by
  have closes (reply : Reply) (outcome : Outcome) : Program.Only (UsesFile fd)
      (if reply.ret < 0 then .exit (.ok (failed "ioctl"))
        else .call (.closeFile fd) fun _ => .exit (.ok outcome) : Main) := by
    split
    · trivial
    · exact ⟨rfl, fun _ => trivial⟩
  simp only [testSwitch, perform_bind, pure_eq]
  split
  · exact ⟨rfl, fun reply => closes reply _⟩
  split
  · split
    · trivial
    · split
      · trivial
      · exact ⟨rfl, fun reply => closes reply _⟩
  split
  · refine ⟨rfl, fun reply => ?_⟩
    beta_reduce
    split
    · trivial
    · exact closes reply _
  · trivial

/-- A process opens the device first, or never. -/
theorem process_session (test : Test) (fd : Nat) :
    Session (.openFile fd minor) (UsesFile fd) (test.process minor fd) := by
  cases test with
  | cdevOp =>
    simp only [Test.process, Test.main, cdevOp, perform_bind, call_bind]
    refine .inr ⟨_, rfl, fun reply => Only.andThen ?_ atExit_only⟩
    exact (tries_only numTry).andThen fun _ => trivial
  | myCdevTest stack argv0 args =>
    cases args with
    | nil => exact .inl (atExit_only _)
    | cons option args =>
      by_cases one : option.1.length = 1
      · refine .inr ⟨_, process_opens one, fun reply => Only.andThen ?_ atExit_only⟩
        split
        · trivial
        · exact switch_only stack argv0 option args
      · exact .inl (process_usage one ▸ atExit_only _)

/-- Only a process that does not get as far as `open` has no use for the device. -/
theorem opens_of_only (test : Test) (only : (test.process minor fd).Only (UsesFile fd)) : test.opens = false := by
  cases test with
  | cdevOp => exact only.1.elim
  | myCdevTest stack argv0 args =>
    cases args with
    | nil => rfl
    | cons option args =>
      by_contra opens
      have one : option.1.length = 1 := by simpa [Test.opens] using opens
      rw [process_opens one] at only
      exact only.1.elim

theorem tries_refused (rest : Unit → Main) (count : Nat) :
    (tries fd count >>= rest).refused refusal = (rest ()).refused refusal := by
  induction count with
  | zero => rfl
  | succ count ih => exact ih

/-- How a process ends that is refused. -/
theorem process_refused (test : Test) : (test.process minor fd).refused refusal = test.turnedAway := by
  cases test with
  | cdevOp =>
    simp only [Test.process, Test.main, cdevOp, perform_bind, call_bind, bind_bind, refused]
    exact tries_refused _ numTry
  | myCdevTest stack argv0 args =>
    cases args with
    | nil => rfl
    | cons option args =>
      by_cases one : option.1.length = 1
      · simp only [process_opens one, refused, Test.turnedAway, Test.opens, one, decide_true, if_true]
        rfl
      · simp only [process_usage one, Test.turnedAway, Test.opens, one, decide_false]
        rfl

/-- What processes leave behind that run one after another. -/
theorem sessions_leave (tests : Nat → Test) {order : List Nat} {base : Cdev}
    (ran : run (session serve fun fd => (tests fd).process minor fd) loaded order = .ok base) :
    Shared minor base ∧ (∀ fd, base.files fd = none) ∧
      Keeps base minor ((order.map tests).foldl Test.leaves none) := by
  refine run_history (fun order base => Shared minor base ∧ (∀ fd, base.files fd = none) ∧
    Keeps base minor ((order.map tests).foldl Test.leaves none)) ?_ ?_ ran
  · rintro order base fd next ⟨shared, closed, keeps⟩ taken
    obtain ⟨after, alone, closed', keeps'⟩ := process_alone shared closed keeps (tests fd) fd
    obtain ⟨⟨_, _⟩, alone', same⟩ := bind_eq_ok.mp taken
    cases alone.symm.trans alone'
    cases same
    obtain ⟨shared', others⟩ := (device_exclusive minor).session_kept (process_session (tests fd) fd) shared alone
    refine ⟨shared', fun other => ?_, by rw [List.map_append, List.foldl_append]; exact keeps'⟩
    by_cases same : other = fd
    · rw [same, closed']
    · refine Option.not_isSome_iff_eq_none.mp (mt (others other same).mp ?_)
      simp [HasOpen, closed other]
  · exact ⟨⟨loaded_exclusive, fun fd file found => by cases found⟩, fun _ => rfl, rfl⟩

/-- **The test programs do not disturb each other.** Any number of processes may run
`my_cdev_test` with any arguments or `cdev_op`, all on one freshly loaded device and in any
interleaving of their system calls: no call faults, and there is an order of those that
got the device in which each ended as if they had run one after another. So a `g` prints
the string of the last `s` before it, cut to 255 bytes, or `Hello` if a `cdev_op` came
between; before the first `s` it is sent 4096 bytes for a buffer of 256. A process that
did not get the device found its arguments wrong or the device open in another process,
and ended with the usage or with what it says when `open` fails. -/
theorem test_programs_serialize (minor : Fin myMaxMinors) (tests : Nat → Test) (turns : List Nat) :
    ∃ processes order, run (turn serve) ⟨loaded, fun fd => (tests fd).process minor fd⟩ turns = .ok processes ∧
      order.Nodup ∧ ∀ fd result, processes.program fd = .exit result →
        (∃ before rest, order = before ++ fd :: rest ∧
          result = (tests fd).served ((before.map tests).foldl Test.leaves none)) ∨
        fd ∉ order ∧ result = (tests fd).turnedAway ∧ ((tests fd).opens = false ∨
          CameLate serve HasOpen (fun fd => (tests fd).process minor fd) loaded turns fd) := by
  obtain ⟨processes, order, ran, nodup, ends⟩ := sessions_serialize (device_exclusive minor)
    (fun fd => process_session (tests fd) fd) ⟨loaded_exclusive, fun fd file found => by cases found⟩
    (fun fd => by simp [HasOpen, loaded])
    (fun order fd base ran _ => by
      obtain ⟨shared, closed, keeps⟩ := sessions_leave tests ran
      obtain ⟨next, alone, -⟩ := process_alone shared closed keeps (tests fd) fd
      exact ⟨_, alone⟩) turns
  refine ⟨processes, order, ran, nodup, fun fd result ended => ?_⟩
  rcases ends fd result ended with ⟨before, rest, whole, base, next, went, alone⟩ | ⟨absent, same, late⟩
  · obtain ⟨shared, closed, keeps⟩ := sessions_leave tests went
    obtain ⟨after, alone', -⟩ := process_alone shared closed keeps (tests fd) fd
    cases alone.symm.trans alone'
    exact .inl ⟨before, rest, whole, rfl⟩
  · exact .inr ⟨absent, by rw [same, process_refused], late.imp_left (opens_of_only (tests fd))⟩

end KernelLabs.CharDevice
