import KernelLabs.IrqDriver
import Mathlib.Algebra.BigOperators.Fin
import Mathlib.Data.List.DropRight
import Mathlib.Logic.Function.Basic

/-! What the commands of one program have made of the lab12 driver's numbers. Only the
last command that set a number, and those that came after it, count: a number starts
with `MY_IOCTL_RESET` or an interrupt, the sum with `MY_IOCTL_SUM` or
`MY_IOCTL_RESET`. -/
namespace KernelLabs.IrqDriver
open Errno

/-- One `ioctl` after the other, up to the first that does not return. -/
def ioctls (driver : Driver) : List UInt32 → Driver × List Reply
  | [] => (driver, [])
  | cmd :: cmds =>
    match myIoctl driver cmd with
    | none => (driver, [])
    | some (next, reply) =>
      let (final, replies) := ioctls next cmds
      (final, reply :: replies)

/-- The commands that have returned, by the `case` each code selected. -/
def returned (driver : Driver) (cmds : List UInt32) : List (Option IoctlCmd) :=
  (cmds.take (ioctls driver cmds).2.length).map IoctlCmd.ofCode

/-! ## The meaning of a history -/

def setsNum (cmd : Option IoctlCmd) : Bool := cmd = some .reset ∨ cmd = some .int

def setsSum (cmd : Option IoctlCmd) : Bool := cmd = some .reset ∨ cmd = some .sum

def increments (i : Fin 5) (cmd : Option IoctlCmd) : Bool := cmd = some (.inc i) ∨ cmd = some .incAll

/-- The history up to the last command of a kind. -/
def upToLast (kind : Option IoctlCmd → Bool) (history : List (Option IoctlCmd)) :
    List (Option IoctlCmd) :=
  history.rdropWhile fun cmd => !kind cmd

/-- The history since then. -/
def sinceLast (kind : Option IoctlCmd → Bool) (history : List (Option IoctlCmd)) :
    List (Option IoctlCmd) :=
  history.rtakeWhile fun cmd => !kind cmd

def base (history : List (Option IoctlCmd)) (i : Fin 5) : Int :=
  if (upToLast setsNum history).getLast? = some (some .int) then -(i + 1) else 0

/-- What `num[i]` should be. -/
def numOf (history : List (Option IoctlCmd)) (i : Fin 5) : Int :=
  base history i + (sinceLast setsNum history).countP (increments i)

/-- What `sum` should be. -/
def sumOf (history : List (Option IoctlCmd)) : Int :=
  (if (upToLast setsSum history).getLast? = some (some .sum)
    then ∑ i, numOf (upToLast setsSum history) i else 0) -
  15 * (sinceLast setsSum history).count (some .int)

/-- The driver holds these numbers, as far as an `int` can. -/
structure Means (driver : Driver) (history : List (Option IoctlCmd)) : Prop where
  num : ∀ i, driver.devData.num i = BitVec.ofInt 32 (numOf history i)
  sum : driver.devData.sum = BitVec.ofInt 32 (sumOf history)

variable {driver next : Driver} {history : List (Option IoctlCmd)} {cmd : Option IoctlCmd}
  {kind : Option IoctlCmd → Bool}

theorem last_of_kind (history : List (Option IoctlCmd)) (is : kind cmd = true) :
    upToLast kind (history ++ [cmd]) = history ++ [cmd] ∧ sinceLast kind (history ++ [cmd]) = [] :=
  ⟨List.rdropWhile_concat_neg _ _ _ (by simp [is]), List.rtakeWhile_concat_neg _ _ _ (by simp [is])⟩

theorem last_of_another_kind (history : List (Option IoctlCmd)) (other : kind cmd = false) :
    upToLast kind (history ++ [cmd]) = upToLast kind history ∧
      sinceLast kind (history ++ [cmd]) = sinceLast kind history ++ [cmd] :=
  ⟨List.rdropWhile_concat_pos _ _ _ (by simp [other]), List.rtakeWhile_concat_pos _ _ _ (by simp [other])⟩

theorem numOf_set (sets : setsNum cmd = true) (i : Fin 5) :
    numOf (history ++ [cmd]) i = if cmd = some .int then -(i + 1 : Int) else 0 := by
  obtain ⟨upTo, since⟩ := last_of_kind history sets
  simp [numOf, base, upTo, since]

theorem numOf_keep (keeps : setsNum cmd = false) (i : Fin 5) :
    numOf (history ++ [cmd]) i = numOf history i + if increments i cmd then 1 else 0 := by
  obtain ⟨upTo, since⟩ := last_of_another_kind history keeps
  rw [numOf, base, upTo, since, List.countP_append, List.countP_singleton, numOf, base]
  push_cast
  rw [Int.add_assoc]

theorem sumOf_set (sets : setsSum cmd = true) :
    sumOf (history ++ [cmd]) = if cmd = some .sum then ∑ i, numOf (history ++ [cmd]) i else 0 := by
  obtain ⟨upTo, since⟩ := last_of_kind history sets
  simp [sumOf, upTo, since]

theorem sumOf_keep (keeps : setsSum cmd = false) :
    sumOf (history ++ [cmd]) = sumOf history - if cmd = some .int then 15 else 0 := by
  obtain ⟨upTo, since⟩ := last_of_another_kind history keeps
  rw [sumOf, upTo, since, List.count_append, List.count_singleton, sumOf]
  by_cases int : cmd = some .int
  · simp only [int, BEq.rfl, if_true]
    omega
  · simp [int]

/-- The five numbers added up, with and without the limits of `int`. -/
theorem addNums_ofInt (num : Fin 5 → Int) (start : Int) :
    addNums (fun i => BitVec.ofInt 32 (num i)) (BitVec.ofInt 32 start) =
      BitVec.ofInt 32 (start + ∑ i, num i) := by
  have indices : List.finRange 5 = [0, 1, 2, 3, 4] := rfl
  simp [addNums, indices, Fin.sum_univ_five, BitVec.ofInt_add, BitVec.add_assoc]

theorem irq_nums (i : Fin 5) :
    (myIrqHandler driver.devData).1.num i = BitVec.ofInt 32 (-(i + 1 : Int)) := by
  show (![-1, -2, -3, -4, -5] : Fin 5 → CInt) i = BitVec.ofInt 32 (-(i + 1 : Int))
  revert i
  decide

theorem irq_sum :
    (myIrqHandler driver.devData).1.sum = driver.devData.sum + BitVec.ofInt 32 (-15) := by
  have indices : List.finRange 5 = [0, 1, 2, 3, 4] := rfl
  simp [myIrqHandler, addNums, indices]
  bv_omega

/-- A command that writes neither a number nor the sum adds nothing to the history. -/
theorem Means.unchanged (means : Means driver history) (same : next.devData = driver.devData)
    (num : setsNum cmd = false) (inc : ∀ i, increments i cmd = false) (sum : setsSum cmd = false)
    (notInt : cmd ≠ some .int) : Means next (history ++ [cmd]) where
  num i := by
    rw [same, means.num, numOf_keep num, inc]
    simp
  sum := by
    rw [same, means.sum, sumOf_keep sum, if_neg notInt, Int.sub_zero]

/-- A command that increments some of the numbers. -/
theorem Means.incremented (means : Means driver history) (changed : Fin 5 → Bool)
    (nums : ∀ i, next.devData.num i = if changed i then driver.devData.num i + 1 else driver.devData.num i)
    (same : next.devData.sum = driver.devData.sum) (num : setsNum cmd = false)
    (inc : ∀ i, increments i cmd = changed i) (sum : setsSum cmd = false) (notInt : cmd ≠ some .int) :
    Means next (history ++ [cmd]) where
  num i := by
    rw [nums, means.num, numOf_keep num, inc]
    cases changed i
    · simp
    · simp [BitVec.ofInt_add]
  sum := by
    rw [same, means.sum, sumOf_keep sum, if_neg notInt, Int.sub_zero]

/-- Every command that returns does what its place in the history means. -/
theorem myIoctl_means {code : UInt32} {reply : Reply} (means : Means driver history)
    (ran : myIoctl driver code = some (next, reply)) :
    Means next (history ++ [IoctlCmd.ofCode code]) := by
  unfold myIoctl at ran
  cases selected : IoctlCmd.ofCode code with
  | none =>
    rw [selected] at ran
    cases ran
    exact means.unchanged rfl rfl (fun _ => rfl) rfl (fun same => by cases same)
  | some command =>
    rw [selected] at ran
    cases command with
    | print number =>
      cases ran
      exact means.unchanged rfl rfl (fun _ => rfl) rfl (fun same => by cases same)
    | unlock =>
      cases ran
      exact means.unchanged rfl rfl (fun _ => rfl) rfl (fun same => by cases same)
    | lock =>
      simp only [runCommand] at ran
      split at ran
      · cases ran
      · cases ran
        exact means.unchanged rfl rfl (fun _ => rfl) rfl (fun same => by cases same)
    | inc index =>
      cases ran
      refine means.incremented (fun i => i = index) (fun i => ?_) rfl rfl (fun i => ?_) rfl
        (fun same => by cases same)
      · simp only [Function.update_apply, decide_eq_true_eq]
        split
        · next same => rw [same]
        · rfl
      · simp [increments, eq_comm]
    | incAll =>
      cases ran
      exact means.incremented (fun _ => true) (fun i => rfl) rfl rfl
        (fun i => by simp [increments]) rfl (fun same => by cases same)
    | int =>
      cases ran
      refine ⟨fun i => ?_, ?_⟩
      · rw [numOf_set rfl, if_pos rfl]
        exact irq_nums i
      · rw [sumOf_keep rfl, if_pos rfl, Int.sub_eq_add_neg, BitVec.ofInt_add, ← means.sum]
        exact irq_sum
    | sum =>
      cases ran
      have kept : ∀ i, numOf (history ++ [some .sum]) i = numOf history i := fun i => by
        rw [numOf_keep rfl, increments]
        simp
      refine ⟨fun i => ?_, ?_⟩
      · rw [kept]
        exact means.num i
      · rw [sumOf_set rfl, if_pos rfl]
        simp only [kept]
        have added := addNums_ofInt (numOf history) 0
        rw [Int.zero_add, ← funext means.num] at added
        exact added
    | reset =>
      cases ran
      refine ⟨fun i => ?_, ?_⟩
      · rw [numOf_set rfl, if_neg (fun same => by cases same)]
        rfl
      · rw [sumOf_set rfl, if_neg (fun same => by cases same)]
        rfl

theorem loaded_means : Means loaded [] where
  num _ := rfl
  sum := rfl

theorem ioctls_cons {code : UInt32} {codes : List UInt32} {reply : Reply}
    (ran : myIoctl driver code = some (next, reply)) :
    ioctls driver (code :: codes) = ((ioctls next codes).1, reply :: (ioctls next codes).2) := by
  rw [ioctls, ran]

theorem ioctls_waits {code : UInt32} {codes : List UInt32} (waits : myIoctl driver code = none) :
    ioctls driver (code :: codes) = (driver, []) := by
  rw [ioctls, waits]

theorem ioctls_means (codes : List UInt32) (means : Means driver history) :
    Means (ioctls driver codes).1 (history ++ returned driver codes) := by
  induction codes generalizing driver history with
  | nil => simpa [ioctls, returned] using means
  | cons code codes ih =>
    cases ran : myIoctl driver code with
    | none => simpa [returned, ioctls_waits ran] using means
    | some result =>
      obtain ⟨next, reply⟩ := result
      have rest := ih (myIoctl_means means ran)
      simpa [returned, ioctls_cons ran] using rest

theorem ofCode_unknown {code : UInt32} (unknown : ∀ cmd : IoctlCmd, cmd.code ≠ code) :
    IoctlCmd.ofCode code = none := by
  refine List.find?_eq_none.mpr fun cmd _ => ?_
  simpa using unknown cmd

/-- Only `MY_IOCTL_LOCK` may not return, and only while the mutex is locked. -/
theorem waits_for_lock {code : UInt32} (waits : myIoctl driver code = none) :
    IoctlCmd.ofCode code = some .lock ∧ driver.devMutex = true := by
  unfold myIoctl at waits
  cases selected : IoctlCmd.ofCode code with
  | none =>
    rw [selected] at waits
    cases waits
  | some command =>
    rw [selected] at waits
    cases command with
    | lock =>
      simp only [runCommand] at waits
      split at waits
      · next busy => exact ⟨rfl, busy⟩
      · cases waits
    | print | inc | incAll | int | sum | reset | unlock => cases waits

theorem ioctls_all_or_lock (driver : Driver) (codes : List UInt32) :
    (ioctls driver codes).2.length = codes.length ∨
      ∃ code, codes[(ioctls driver codes).2.length]? = some code ∧
        IoctlCmd.ofCode code = some .lock ∧ (ioctls driver codes).1.devMutex = true := by
  induction codes generalizing driver with
  | nil => exact .inl rfl
  | cons code codes ih =>
    cases ran : myIoctl driver code with
    | none =>
      rw [ioctls_waits ran]
      exact .inr ⟨code, rfl, waits_for_lock ran⟩
    | some result =>
      obtain ⟨next, reply⟩ := result
      rw [ioctls_cons ran]
      rcases ih next with all | waiting
      · exact .inl (congrArg Nat.succ all)
      · exact .inr waiting

/-- **The meaning of a history.** After any commands, each number and the sum are what
the commands that returned say, modulo 2 ^ 32. All of them return, unless one waits
for the locked mutex; an unknown code returns an error and changes nothing. -/
theorem history_gives_numbers (cmds : List UInt32) :
    (∀ i, (ioctls loaded cmds).1.devData.num i = BitVec.ofInt 32 (numOf (returned loaded cmds) i)) ∧
    (ioctls loaded cmds).1.devData.sum = BitVec.ofInt 32 (sumOf (returned loaded cmds)) ∧
    ((ioctls loaded cmds).2.length = cmds.length ∨
      ∃ cmd, cmds[(ioctls loaded cmds).2.length]? = some cmd ∧
        IoctlCmd.ofCode cmd = some .lock ∧ (ioctls loaded cmds).1.devMutex = true) ∧
    ∀ driver code, (∀ cmd : IoctlCmd, cmd.code ≠ code) →
      myIoctl driver code = some (driver, ⟨-einval, []⟩) := by
  have means := ioctls_means cmds loaded_means
  refine ⟨means.num, means.sum, ioctls_all_or_lock loaded cmds, fun driver code unknown => ?_⟩
  rw [myIoctl, ofCode_unknown unknown]

/-! ## The two sums -/

/-- In the run of these commands, an interrupt is raised in this state. -/
def InterruptedIn (cmds : List UInt32) (driver : Driver) : Prop :=
  ∃ before code after, cmds = before ++ code :: after ∧ IoctlCmd.ofCode code = some .int ∧
    (ioctls loaded before).2.length = before.length ∧ driver = (ioctls loaded before).1

/-- The handler leaves the sum that `MY_IOCTL_SUM` would compute, and prints -15. -/
def SumsAgree (driver : Driver) : Prop :=
  ∃ next, runCommand driver .int = some (next, ⟨0, [.irq (-15)]⟩) ∧
    next.devData.sum = addNums next.devData.num 0

theorem sumsAgree_iff (driver : Driver) : SumsAgree driver ↔ driver.devData.sum = 0 := by
  have total : addNums (myIrqHandler driver.devData).1.num 0 = BitVec.ofInt 32 (-15) := by
    rw [funext irq_nums]
    refine (addNums_ofInt (fun i : Fin 5 => -(i + 1 : Int)) 0).trans ?_
    simp [Fin.sum_univ_five]
  constructor
  · rintro ⟨next, ran, agree⟩
    obtain rfl : { driver with devData := (myIrqHandler driver.devData).1 } = next :=
      congrArg Prod.fst (Option.some.inj ran)
    rw [total, irq_sum] at agree
    simpa using agree
  · intro zero
    have sum : (myIrqHandler driver.devData).1.sum = BitVec.ofInt 32 (-15) := by
      rw [irq_sum, zero]
      rfl
    refine ⟨{ driver with devData := (myIrqHandler driver.devData).1 }, ?_, sum.trans total.symm⟩
    have printed : (myIrqHandler driver.devData).2 =
      [.irq (myIrqHandler driver.devData).1.sum.toInt] := rfl
    simp only [runCommand, printed, sum]
    rfl

/-- Whether the mutex is locked after a command. -/
def lockedAfter (locked : Bool) (cmd : Option IoctlCmd) : Bool :=
  if cmd = some .lock then true else if cmd = some .unlock then false else locked

/-- No `MY_IOCTL_LOCK` of the history comes while the mutex is locked, so none waits. -/
def Proceeds : Bool → List (Option IoctlCmd) → Prop
  | _, [] => True
  | locked, cmd :: later => (cmd = some .lock → locked = false) ∧ Proceeds (lockedAfter locked cmd) later

/-- A command that is neither waits for the mutex nor changes it. -/
theorem myIoctl_plain {code : UInt32} (notLock : IoctlCmd.ofCode code ≠ some .lock)
    (notUnlock : IoctlCmd.ofCode code ≠ some .unlock) :
    ∃ next reply, myIoctl driver code = some (next, reply) ∧ next.devMutex = driver.devMutex := by
  unfold myIoctl
  cases selected : IoctlCmd.ofCode code with
  | none => exact ⟨_, _, rfl, rfl⟩
  | some command =>
    cases command with
    | lock => exact absurd selected notLock
    | unlock => exact absurd selected notUnlock
    | print | inc | incAll | int | sum | reset => exact ⟨_, _, rfl, rfl⟩

/-- All commands return exactly where none of them waits. -/
theorem ioctls_all_iff (driver : Driver) (codes : List UInt32) :
    (ioctls driver codes).2.length = codes.length ↔
      Proceeds driver.devMutex (codes.map IoctlCmd.ofCode) := by
  induction codes generalizing driver with
  | nil => simp [ioctls, Proceeds]
  | cons code codes ih =>
    have goes_on {next : Driver} {reply : Reply} (ran : myIoctl driver code = some (next, reply)) :
        (ioctls driver (code :: codes)).2.length = (code :: codes).length ↔
          Proceeds next.devMutex (codes.map IoctlCmd.ofCode) := by
      rw [ioctls_cons ran, List.length_cons, List.length_cons, Nat.add_right_cancel_iff, ih]
    rw [List.map_cons]
    by_cases isLock : IoctlCmd.ofCode code = some .lock
    · cases held : driver.devMutex with
      | true =>
        have waits : myIoctl driver code = none := by simp [myIoctl, isLock, runCommand, held]
        simp [ioctls_waits waits, isLock, Proceeds]
      | false =>
        have takes : myIoctl driver code = some ({ driver with devMutex := true }, ⟨0, []⟩) := by
          simp [myIoctl, isLock, runCommand, held]
        rw [goes_on takes, isLock]
        simp [Proceeds, lockedAfter]
    · by_cases isUnlock : IoctlCmd.ofCode code = some .unlock
      · have frees : myIoctl driver code = some ({ driver with devMutex := false }, ⟨0, []⟩) := by
          simp [myIoctl, isUnlock, runCommand]
        rw [goes_on frees, isUnlock]
        simp [Proceeds, lockedAfter]
      · obtain ⟨next, reply, ran, same⟩ := myIoctl_plain isLock isUnlock
        rw [goes_on ran, same]
        simp [Proceeds, lockedAfter, isLock, isUnlock]

theorem ofInt_eq_zero (value : Int) : BitVec.ofInt 32 value = 0 ↔ 2 ^ 32 ∣ value := by
  have positive : 0 ≤ value % 2 ^ 32 := Int.emod_nonneg value (by decide)
  rw [← BitVec.toNat_inj, BitVec.toNat_ofInt, Int.dvd_iff_emod_eq_zero]
  change (value % 2 ^ 32).toNat = 0 ↔ value % 2 ^ 32 = 0
  omega

/-- **Two ways to add.** In a run of any commands, every interrupt leaves the total of the numbers
in the sum, and prints -15, exactly if for each that comes the commands before it make the sum a
multiple of 2 ^ 32: what the last `MY_IOCTL_SUM` added up, nothing after a `MY_IOCTL_RESET`, and 15
less for each interrupt since. -/
theorem sums_agree_iff (cmds : List UInt32) :
    (∀ driver, InterruptedIn cmds driver → SumsAgree driver) ↔
      ∀ before code after, cmds = before ++ code :: after → IoctlCmd.ofCode code = some .int →
        Proceeds false (before.map IoctlCmd.ofCode) → 2 ^ 32 ∣ sumOf (before.map IoctlCmd.ofCode) := by
  have each (before : List UInt32) (all : (ioctls loaded before).2.length = before.length) :
      SumsAgree (ioctls loaded before).1 ↔ 2 ^ 32 ∣ sumOf (before.map IoctlCmd.ofCode) := by
    have means := (ioctls_means before loaded_means).sum
    have whole : returned loaded before = before.map IoctlCmd.ofCode := by
      rw [returned, all, List.take_length]
    rw [List.nil_append, whole] at means
    rw [sumsAgree_iff, means, ofInt_eq_zero]
  constructor
  · intro agree before code after same int proceeds
    have all := (ioctls_all_iff loaded before).mpr proceeds
    exact (each before all).mp (agree _ ⟨before, code, after, same, int, all, rfl⟩)
  · rintro divides driver ⟨before, code, after, same, int, all, rfl⟩
    exact (each before all).mpr (divides before code after same int ((ioctls_all_iff loaded before).mp all))

/-- A second interrupt adds to the first. -/
theorem second_interrupt_doubles :
    (ioctls loaded [IoctlCmd.int.code, IoctlCmd.int.code]).2 =
      [⟨0, [.irq (-15)]⟩, ⟨0, [.irq (-30)]⟩] ∧
    ∃ driver, InterruptedIn [IoctlCmd.int.code, IoctlCmd.int.code] driver ∧ ¬SumsAgree driver := by
  refine ⟨by decide, (ioctls loaded [IoctlCmd.int.code]).1,
    ⟨[IoctlCmd.int.code], IoctlCmd.int.code, [], rfl, by decide, by decide, rfl⟩, ?_⟩
  rw [sumsAgree_iff]
  decide

end KernelLabs.IrqDriver
