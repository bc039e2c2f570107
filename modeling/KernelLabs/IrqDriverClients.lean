import KernelLabs.Clients
import KernelLabs.IrqDriver

/-! Any number of programs on the lab12 driver at once. The mutex commands make the
driver a device with critical sections; what the test client prints, and the
serialization of arbitrary sections, follow from the rules of `Clients`. -/
namespace KernelLabs.IrqDriver
open Clients

theorem ioctl_mutex : Mutex IoctlCmd.lock IoctlCmd.unlock ioctl Driver.devMutex := by
  rw [ioctl_eq_runCommand]
  exact
    { distinct := by decide
      blocks := fun driver busy => by simp [runCommand, busy]
      takes := fun driver free =>
        ⟨{ driver with devMutex := true }, ⟨0, []⟩, by simp [runCommand, free], rfl⟩
      frees := fun driver => ⟨_, _, rfl, rfl⟩
      works := fun driver cmd notLock notUnlock => by
        cases cmd with
        | lock => exact absurd rfl notLock
        | unlock => exact absurd rfl notUnlock
        | _ => exact ⟨_, _, rfl, rfl⟩ }

/-! ## The test client -/

/-- All counters and the sum are zero. -/
def Clean (driver : Driver) : Prop := (∀ i, driver.devData.num i = 0) ∧ driver.devData.sum = 0

instance (driver : Driver) : Decidable (Clean driver) := inferInstanceAs (Decidable (_ ∧ _))

/-- The clients of `ioctl_test` processes: the two sides of each process that forked. -/
def ioctlTests {N : Nat} (forked : Fin N → Bool) (client : Fin N × Role) : List IoctlCmd :=
  ioctlTest (forked client.1) client.2

/-- The bodies of a test client's critical sections. -/
def testBodies (forked : Bool) : Role → List (List IoctlCmd)
  | .parent => if forked then [parentBody] else []
  | .child => if forked then [childBody] else []

theorem ioctlTest_eq_script (forked : Bool) (role : Role) :
    ioctlTest forked role = script .lock .unlock (testBodies forked role) := by
  cases forked <;> cases role <;> rfl

/-- The driver of `my_driver_init` is the only clean and unlocked one. -/
theorem eq_loaded {driver : Driver} (free : driver.devMutex = false) (clean : Clean driver) :
    driver = loaded := by
  obtain ⟨⟨num, sum⟩, devMutex⟩ := driver
  obtain ⟨zeros, zero⟩ := clean
  have nums : num = fun _ => 0 := funext zeros
  simp_all [loaded]

/-- Both critical sections of the test client, run alone, print what is expected
and clean up. -/
theorem testBody_safe {body : List IoctlCmd} (known : body = parentBody ∨ body = childBody) :
    Safe ioctl (fun cmd reply => reply.printed = expectedLines cmd) Clean loaded
      (critical .lock .unlock body) := by
  have checked : ∀ body, body = parentBody ∨ body = childBody →
      ((replay runCommand loaded (critical .lock .unlock body)).any fun result =>
        decide (Clean result.1) && ((critical .lock .unlock body).zip result.2).all fun result =>
          decide (result.2.printed = expectedLines result.1)) = true := by
    rintro body (rfl | rfl) <;> decide
  have found := checked body known
  rw [ioctl_eq_runCommand]
  cases ran : replay runCommand loaded (critical .lock .unlock body) with
  | none => simp [ran] at found
  | some result =>
    obtain ⟨last, outs⟩ := result
    simp only [ran, Option.any_some, Bool.and_eq_true, decide_eq_true_eq, List.all_eq_true] at found
    exact safe_of_replay ran found.2 found.1

/-- **The test client.** However many `ioctl_test` processes run, whichever of
them fork, and whatever the order of their calls: every `PRINT0` prints 15, every
`PRINT1` 10, every `PRINT2` 25, every interrupt -15, and whenever the mutex is free
all counters and the sum are 0. -/
theorem ioctl_tests_print_expected {N : Nat} (forked : Fin N → Bool) (turns : List (Fin N × Role)) :
    let final := schedule ioctl (start loaded (ioctlTests forked)) turns
    (∀ event ∈ final.history, event.out.printed = expectedLines event.cmd) ∧
      (final.dev.devMutex = false →
        (∀ i, final.dev.devData.num i = 0) ∧ final.dev.devData.sum = 0) := by
  have scripts : ioctlTests forked = fun client : Fin N × Role =>
      script .lock .unlock (testBodies (forked client.1) client.2) :=
    funext fun client => ioctlTest_eq_script _ _
  rw [scripts]
  let Allowed (body : List IoctlCmd) : Prop := body = parentBody ∨ body = childBody
  have plain : ∀ body, Allowed body → Plain IoctlCmd.lock IoctlCmd.unlock body := by
    rintro body (rfl | rfl) <;> unfold Plain <;> decide
  have allowed : ∀ client : Fin N × Role, ∀ body ∈ testBodies (forked client.1) client.2,
      Allowed body := by
    rintro ⟨process, role⟩ body member
    cases forks : forked process <;> cases role <;> simp_all [testBodies, Allowed]
  have sound : ∀ body, Allowed body → ∀ driver : Driver, driver.devMutex = false → Clean driver →
      Safe ioctl (fun cmd reply => reply.printed = expectedLines cmd) Clean driver
        (critical .lock .unlock body) := by
    intro body known driver free clean
    rw [eq_loaded free clean]
    exact testBody_safe known
  exact lock_invariant ioctl_mutex plain sound allowed rfl (by decide) turns

/-! ## Arbitrary sections -/

/-- The commands a critical section may consist of. -/
def IoctlCmd.OnData (cmd : IoctlCmd) : Prop := cmd ≠ .lock ∧ cmd ≠ .unlock

/-- **Serialization.** Under every interleaving of clients whose commands all stand
in critical sections, the data and what is printed inside each section are those of
running the sections one after another, in the order in which their
`MY_IOCTL_LOCK` returned. -/
theorem driver_sections_serialize {ι : Type} [DecidableEq ι] (driver : Driver)
    (free : driver.devMutex = false) (sections : ι → List (List IoctlCmd))
    (onData : ∀ client, ∀ body ∈ sections client, ∀ cmd ∈ body, cmd.OnData) (turns : List ι) :
    let final := schedule ioctl
      (start driver fun client => script .lock .unlock (sections client)) turns
    let runs := collect .lock final.history
    serially ioctl driver (runs.map SectionRun.cmds) =
        some (final.dev, runs.map SectionRun.outs) ∧
      ∀ client, final.todo client = [] →
        (runs.filter (·.client = client)).map SectionRun.cmds =
          (sections client).map (critical .lock .unlock) :=
  sections_serialize ioctl_mutex free onData turns

/-- Two clients, of which the second gets its turns in the middle of the first's
section. -/
theorem driver_sections_serialize_two :
    let final := schedule ioctl (start loaded fun client : Bool =>
      script .lock .unlock [if client then [.int] else [.incAll, .sum, .print 1]])
      [false, true, false, true, false, false, false, true, true, true]
    let runs := collect .lock final.history
    serially ioctl loaded (runs.map SectionRun.cmds) =
        some (final.dev, runs.map SectionRun.outs) ∧
      (runs.filter (·.client = true)).map SectionRun.cmds = [critical .lock .unlock [.int]] := by
  have serial := driver_sections_serialize loaded rfl
    (fun client : Bool => [if client then [.int] else [.incAll, .sum, .print 1]])
    (by simp [IoctlCmd.OnData]) [false, true, false, true, false, false, false, true, true, true]
  exact ⟨serial.1, serial.2 true rfl⟩

end KernelLabs.IrqDriver
