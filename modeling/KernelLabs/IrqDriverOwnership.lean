import KernelLabs.IrqDriver
import Mathlib.Logic.Function.Basic

/-! Clients of the lab12 driver that follow no rules. The driver keeps no record of
who locked its mutex: `MY_IOCTL_UNLOCK` frees it for anybody, `my_release` for nobody,
and the other commands never look at it. -/
namespace KernelLabs.IrqDriver
open Errno

/-- The driver among its clients: whose file is open, and whose `MY_IOCTL_LOCK` has
returned and has not been undone by an own `MY_IOCTL_UNLOCK`. -/
structure Sessions (ι : Type) where
  driver : Driver
  isOpen : ι → Bool
  holds : ι → Bool

inductive Act (ι : Type)
  | openFile (client : ι)
  | ioctl (client : ι) (cmd : UInt32)
  /-- `my_release`; also when the client dies. -/
  | closeFile (client : ι)

/-- Whether a client has the lock by its own account, after a command returned. -/
def claims (holds : Bool) : Option IoctlCmd → Bool
  | some .lock => true
  | some .unlock => false
  | _ => holds

/-- The commands that write `num` or `sum`. -/
def IoctlCmd.changesData : IoctlCmd → Bool
  | .inc _ | .incAll | .int | .sum | .reset => true
  | .print _ | .lock | .unlock => false

/-- The module just loaded, with no file open. -/
def unopened (ι : Type) : Sessions ι where
  driver := loaded
  isOpen _ := false
  holds _ := false

section Clients
variable {ι : Type} [DecidableEq ι]

/-- One action of one client. A `MY_IOCTL_LOCK` that has to wait is tried again. -/
def act (state : Sessions ι) : Act ι → Except Fault (Sessions ι)
  | .openFile client =>
    if state.isOpen client then .ok state
    else .ok { state with
      isOpen := Function.update state.isOpen client true
      holds := Function.update state.holds client false }
  | .ioctl client cmd =>
    if state.isOpen client then
      match myIoctl state.driver cmd with
      | none => .ok state
      | some (driver, _) => .ok { state with
          driver := driver
          holds := Function.update state.holds client
            (claims (state.holds client) (IoctlCmd.ofCode cmd)) }
    else .ok state
  | .closeFile client => .ok { state with isOpen := Function.update state.isOpen client false }

omit [DecidableEq ι] in
/-- The client's file is open and the lock is its own by its account. -/
def Owner (state : Sessions ι) (client : ι) : Prop :=
  state.isOpen client = true ∧ state.holds client = true

/-- The mutex is held exactly by the one open client that locked it. -/
structure LockOwned (state : Sessions ι) : Prop where
  held : state.driver.devMutex = true ↔ ∃ client, Owner state client
  one : ∀ client other, Owner state client → Owner state other → client = other

/-- Nobody unlocks for another client, and the holder does not leave. -/
def Fair (state : Sessions ι) : Act ι → Prop
  | .openFile _ => True
  | .ioctl client cmd => state.isOpen client = true → IoctlCmd.ofCode cmd = some .unlock →
    ∀ other, Owner state other → other = client
  | .closeFile client => ¬ Owner state client

/-- Who writes the data or unlocks holds the lock. -/
def Disciplined (state : Sessions ι) : Act ι → Prop
  | .ioctl client cmd => state.isOpen client = true →
    (∃ command, IoctlCmd.ofCode cmd = some command ∧
      (command.changesData = true ∨ command = .unlock)) → state.holds client = true
  | .openFile _ | .closeFile _ => True

variable {state next : Sessions ι} {action : Act ι}

/-! ## One command -/

/-- What a command that returned did to the mutex and the data. -/
theorem myIoctl_effect {driver after : Driver} {cmd : UInt32} {reply : Reply}
    (ran : myIoctl driver cmd = some (after, reply)) :
    (IoctlCmd.ofCode cmd = some .lock ∧ driver.devMutex = false ∧
      after = { driver with devMutex := true }) ∨
    (IoctlCmd.ofCode cmd = some .unlock ∧ after = { driver with devMutex := false }) ∨
    (IoctlCmd.ofCode cmd ≠ some .lock ∧ IoctlCmd.ofCode cmd ≠ some .unlock ∧
      after.devMutex = driver.devMutex ∧
      (after.devData = driver.devData ∨
        ∃ command, IoctlCmd.ofCode cmd = some command ∧ command.changesData = true)) := by
  unfold myIoctl at ran
  cases selected : IoctlCmd.ofCode cmd with
  | none =>
    rw [selected] at ran
    cases ran
    exact .inr (.inr ⟨nofun, nofun, rfl, .inl rfl⟩)
  | some command =>
    rw [selected] at ran
    cases command with
    | lock =>
      by_cases busy : driver.devMutex = true
      · simp [runCommand, busy] at ran
      · simp only [runCommand, busy] at ran
        cases ran
        exact .inl ⟨rfl, by simpa using busy, rfl⟩
    | unlock =>
      cases ran
      exact .inr (.inl ⟨rfl, rfl⟩)
    | print number =>
      cases ran
      exact .inr (.inr ⟨nofun, nofun, rfl, .inl rfl⟩)
    | inc | incAll | int | sum | reset =>
      cases ran
      exact .inr (.inr ⟨nofun, nofun, rfl, .inr ⟨_, rfl, rfl⟩⟩)

theorem claims_other {holds : Bool} {command : Option IoctlCmd} (notLock : command ≠ some .lock)
    (notUnlock : command ≠ some .unlock) : claims holds command = holds := by
  unfold claims
  split
  · exact absurd rfl notLock
  · exact absurd rfl notUnlock
  · rfl

theorem act_total (state : Sessions ι) (action : Act ι) : ∃ next, act state action = .ok next := by
  cases action with
  | openFile client =>
    simp only [act]
    split <;> exact ⟨_, rfl⟩
  | ioctl client cmd =>
    simp only [act]
    split
    · split <;> exact ⟨_, rfl⟩
    · exact ⟨_, rfl⟩
  | closeFile client => exact ⟨_, rfl⟩

/-- A command waits for the mutex, or is not made, or returns. -/
theorem act_ioctl_cases {client : ι} {cmd : UInt32} (ran : act state (.ioctl client cmd) = .ok next) :
    (next = state ∧ (state.isOpen client = false ∨ IoctlCmd.ofCode cmd = some .lock)) ∨
    (state.isOpen client = true ∧ ∃ driver reply, myIoctl state.driver cmd = some (driver, reply) ∧
      next = { state with
        driver := driver
        holds := Function.update state.holds client
          (claims (state.holds client) (IoctlCmd.ofCode cmd)) }) := by
  simp only [act] at ran
  split at ran
  · next here =>
    split at ran
    · next waits =>
      cases ran
      refine .inl ⟨rfl, .inr ?_⟩
      unfold myIoctl at waits
      split at waits
      · next command selected =>
        cases command with
        | lock => exact selected
        | _ => simp [runCommand] at waits
      · cases waits
    · next driver reply called =>
      cases ran
      exact .inr ⟨here, driver, reply, called, rfl⟩
  · next absent =>
    cases ran
    exact .inl ⟨rfl, .inl (by simpa using absent)⟩

/-! ## Ownership -/

omit [DecidableEq ι] in
theorem LockOwned.of_same (owned : LockOwned state)
    (mutex : next.driver.devMutex = state.driver.devMutex)
    (owners : ∀ client, Owner next client ↔ Owner state client) : LockOwned next where
  held := by
    rw [mutex, owned.held]
    exact exists_congr fun client => (owners client).symm
  one client other owner owner' :=
    owned.one client other ((owners client).mp owner) ((owners other).mp owner')

/-- An action keeps the ownership exactly if it is fair. -/
theorem act_owned_iff (state : Sessions ι) (action : Act ι) (next : Sessions ι)
    (owned : LockOwned state) (ran : act state action = .ok next) :
    LockOwned next ↔ Fair state action := by
  cases action with
  | openFile client =>
    simp only [act] at ran
    split at ran
    · cases ran
      simp [Fair, owned]
    · next closed =>
      cases ran
      refine iff_of_true (owned.of_same rfl fun other => ?_) trivial
      by_cases this : other = client
      · simp [Owner, this, closed]
      · simp [Owner, Function.update_of_ne this]
  | closeFile client =>
    cases ran
    have owners : ∀ other, Owner { state with isOpen := Function.update state.isOpen client false }
        other ↔ Owner state other ∧ other ≠ client := by
      intro other
      by_cases this : other = client
      · simp [Owner, this]
      · simp [Owner, this]
    constructor
    · intro kept mine
      obtain ⟨other, still⟩ := kept.held.mp (owned.held.mpr ⟨client, mine⟩)
      obtain ⟨owner, different⟩ := (owners other).mp still
      exact different (owned.one other client owner mine)
    · intro notMine
      refine owned.of_same rfl fun other => (owners other).trans ⟨And.left, fun owner => ⟨owner, ?_⟩⟩
      rintro rfl
      exact notMine owner
  | ioctl client cmd =>
    rcases act_ioctl_cases ran with ⟨rfl, idle⟩ | ⟨here, driver, reply, called, rfl⟩
    · refine iff_of_true owned fun here unlocks => ?_
      rcases idle with closed | locks
      · simp [closed] at here
      · simp [locks] at unlocks
    rcases myIoctl_effect called with ⟨locks, free, rfl⟩ | ⟨unlocks, rfl⟩ |
      ⟨notLock, notUnlock, mutex, -⟩
    · -- the mutex was free, so nobody had it
      have nobody : ∀ other, ¬ Owner state other := by
        intro other owner
        rw [owned.held.mpr ⟨other, owner⟩] at free
        cases free
      have mine : ∀ other, other ≠ client → ¬ Owner { state with
          driver := { state.driver with devMutex := true }
          holds := Function.update state.holds client
            (claims (state.holds client) (IoctlCmd.ofCode cmd)) } other := by
        intro other different owner
        exact nobody other (by simpa [Owner, Function.update_of_ne different] using owner)
      refine iff_of_true ⟨?_, ?_⟩ fun _ unlocks => by simp [locks] at unlocks
      · exact iff_of_true rfl ⟨client, by simp [Owner, here, locks, claims]⟩
      · intro first second owner owner'
        have isFirst : first = client := not_not.mp fun different => mine first different owner
        have isSecond : second = client := not_not.mp fun different => mine second different owner'
        rw [isFirst, isSecond]
    · have owners : ∀ other, Owner { state with
          driver := { state.driver with devMutex := false }
          holds := Function.update state.holds client
            (claims (state.holds client) (IoctlCmd.ofCode cmd)) } other ↔
          Owner state other ∧ other ≠ client := by
        intro other
        by_cases this : other = client
        · simp [Owner, this, unlocks, claims]
        · simp [Owner, this]
      constructor
      · intro kept _ _ other owner
        by_contra different
        exact absurd (kept.held.mpr ⟨other, (owners other).mpr ⟨owner, different⟩⟩) (by simp)
      · intro fair
        have nobody : ∀ other, ¬ Owner { state with
            driver := { state.driver with devMutex := false }
            holds := Function.update state.holds client
              (claims (state.holds client) (IoctlCmd.ofCode cmd)) } other := by
          intro other still
          obtain ⟨owner, different⟩ := (owners other).mp still
          exact different (fair here unlocks other owner)
        refine ⟨iff_of_false (by simp) ?_, fun first _ owner => absurd owner (nobody first)⟩
        rintro ⟨other, owner⟩
        exact nobody other owner
    · refine iff_of_true (owned.of_same mutex fun other => ?_) fun _ unlocks =>
        absurd unlocks notUnlock
      by_cases this : other = client
      · simp [Owner, this, claims_other notLock notUnlock]
      · simp [Owner, this]

omit [DecidableEq ι] in
theorem unopened_owned : LockOwned (unopened ι) where
  held := by simp [unopened, loaded, Owner]
  one client other owner := by simp [unopened, Owner] at owner

/-- **Ownership.** The mutex is held exactly when one open client has a lock that it
has not undone, in every state of a run, exactly if in that run nobody unlocks while
another client holds the lock and no holder closes its file. -/
theorem lock_owned_iff (actions : List (Act ι)) :
    (∀ before rest state, actions = before ++ rest → run act (unopened ι) before = .ok state →
      LockOwned state) ↔ Along Fair act (unopened ι) actions :=
  along_iff act_total act_owned_iff unopened_owned

/-! ## Isolation -/

omit [DecidableEq ι] in
/-- Who has locked the mutex, by its own account, is the only one, and it is locked. -/
structure Excluded (state : Sessions ι) : Prop where
  locked : ∀ client, state.holds client = true → state.driver.devMutex = true
  one : ∀ client other, state.holds client = true → state.holds other = true → client = other

omit [DecidableEq ι] in
theorem unopened_excluded : Excluded (unopened ι) where
  locked client holds := by simp [unopened] at holds
  one client other holds := by simp [unopened] at holds

omit [DecidableEq ι] in
theorem Excluded.of_fewer (excluded : Excluded state)
    (mutex : next.driver.devMutex = state.driver.devMutex)
    (fewer : ∀ client, next.holds client = true → state.holds client = true) : Excluded next where
  locked client holds := by
    rw [mutex]
    exact excluded.locked client (fewer client holds)
  one client other holds holds' :=
    excluded.one client other (fewer client holds) (fewer other holds')

/-- A disciplined action keeps the exclusion, and writes the data only for the client
that holds the lock. -/
theorem act_disciplined (excluded : Excluded state) (disciplined : Disciplined state action)
    (ran : act state action = .ok next) :
    Excluded next ∧ (next.driver.devData ≠ state.driver.devData →
      ∃ client cmd, action = .ioctl client cmd ∧ state.holds client = true) := by
  cases action with
  | openFile client =>
    simp only [act] at ran
    split at ran
    · cases ran
      exact ⟨excluded, fun changed => absurd rfl changed⟩
    · cases ran
      refine ⟨excluded.of_fewer rfl fun other holds => ?_, fun changed => absurd rfl changed⟩
      by_cases this : other = client
      · simp [this] at holds
      · simpa [this] using holds
  | closeFile client =>
    cases ran
    exact ⟨excluded.of_fewer rfl fun _ => id, fun changed => absurd rfl changed⟩
  | ioctl client cmd =>
    rcases act_ioctl_cases ran with ⟨rfl, -⟩ | ⟨here, driver, reply, called, rfl⟩
    · exact ⟨excluded, fun changed => absurd rfl changed⟩
    rcases myIoctl_effect called with ⟨locks, free, rfl⟩ | ⟨unlocks, rfl⟩ |
      ⟨notLock, notUnlock, mutex, data⟩
    · have mine : ∀ other, Function.update state.holds client
          (claims (state.holds client) (IoctlCmd.ofCode cmd)) other = true → other = client := by
        intro other holds
        by_contra different
        rw [Function.update_of_ne different] at holds
        rw [excluded.locked other holds] at free
        cases free
      refine ⟨⟨fun _ _ => rfl, ?_⟩, fun changed => absurd rfl changed⟩
      intro first second holds holds'
      rw [mine first holds, mine second holds']
    · have own := disciplined here ⟨_, unlocks, .inr rfl⟩
      have nobody : ∀ other, Function.update state.holds client
          (claims (state.holds client) (IoctlCmd.ofCode cmd)) other ≠ true := by
        intro other holds
        by_cases this : other = client
        · simp [this, unlocks, claims] at holds
        · rw [Function.update_of_ne this] at holds
          exact this (excluded.one other client holds own)
      exact ⟨⟨fun other holds => absurd holds (nobody other),
        fun other _ holds => absurd holds (nobody other)⟩, fun changed => absurd rfl changed⟩
    · refine ⟨excluded.of_fewer mutex fun other holds => ?_, fun changed => ⟨client, cmd, rfl, ?_⟩⟩
      · by_cases this : other = client
        · simpa [this, claims_other notLock notUnlock] using holds
        · simpa [this] using holds
      · rcases data with same | ⟨command, selected, writes⟩
        · exact absurd same changed
        · exact disciplined here ⟨command, selected, .inl writes⟩

/-- **Isolation.** In a run of disciplined clients, the data change between the return
of a client's `MY_IOCTL_LOCK` and its `MY_IOCTL_UNLOCK` only through that client's own
commands. -/
theorem sections_are_isolated (before : List (Act ι)) (action : Act ι) (state next : Sessions ι)
    (disciplined : Along Disciplined act (unopened ι) (before ++ [action]))
    (ran : run act (unopened ι) before = .ok state) (acted : act state action = .ok next)
    (client : ι) (holds : state.holds client = true)
    (changed : next.driver.devData ≠ state.driver.devData) :
    ∃ cmd, action = .ioctl client cmd := by
  obtain ⟨along, last⟩ := along_append.mp disciplined
  have kept : ∀ (state : Sessions ι) action, Excluded state → Disciplined state action →
      ∃ next, act state action = .ok next ∧ Excluded next := by
    intro state action excluded disciplined
    obtain ⟨next, acted⟩ := act_total state action
    exact ⟨next, acted, (act_disciplined excluded disciplined acted).1⟩
  obtain ⟨reached, ran', excluded⟩ := run_keeps kept unopened_excluded along
  rw [ran] at ran'
  cases ran'
  obtain ⟨writer, cmd, rfl, own⟩ := (act_disciplined excluded (last state ran).1 acted).2 changed
  exact ⟨cmd, by rw [excluded.one client writer holds own]⟩

end Clients

/-- One client unlocks for another; one closes its file and keeps the mutex. -/
theorem locks_stolen_and_lost :
    (∃ state, run act (unopened Bool) [.openFile false, .openFile true,
        .ioctl false IoctlCmd.lock.code, .ioctl true IoctlCmd.unlock.code] = .ok state ∧
      state.driver.devMutex = false ∧ Owner state false) ∧
    ∃ state, run act (unopened Bool) [.openFile false, .ioctl false IoctlCmd.lock.code,
        .closeFile false] = .ok state ∧
      state.driver.devMutex = true ∧ ∀ client, ¬ Owner state client := by
  refine ⟨⟨_, rfl, rfl, rfl, rfl⟩, _, rfl, rfl, ?_⟩
  rintro (_ | _) ⟨here, -⟩
  · cases here
  · cases here

/-- The holder of the lock counts up, while a second client waits for it. -/
theorem sections_are_isolated_waiting :
    ∃ state next, run act (unopened Bool) [.openFile false, .openFile true,
        .ioctl false IoctlCmd.lock.code, .ioctl true IoctlCmd.lock.code] = .ok state ∧
      act state (.ioctl false IoctlCmd.incAll.code) = .ok next ∧
      next.driver.devData ≠ state.driver.devData ∧
      ∃ cmd, Act.ioctl false IoctlCmd.incAll.code = .ioctl false cmd := by
  have waits : ∀ (state : Sessions Bool) client,
      Disciplined state (.ioctl client IoctlCmd.lock.code) := by
    rintro state client - ⟨command, selected, writes⟩
    rw [IoctlCmd.ofCode_code] at selected
    cases selected
    simp [IoctlCmd.changesData] at writes
  have counts : (fun i : Fin 5 => (0 : CInt) + 1) ≠ fun _ => 0 := fun same =>
    absurd (congrFun same 0) (by decide)
  refine ⟨_, _, rfl, rfl, fun same => counts (congrArg MyDeviceData.num same), ?_⟩
  refine sections_are_isolated [.openFile false, .openFile true, .ioctl false IoctlCmd.lock.code,
    .ioctl true IoctlCmd.lock.code] (.ioctl false IoctlCmd.incAll.code) _ _ ?_ rfl rfl false rfl
    fun same => counts (congrArg MyDeviceData.num same)
  refine ⟨trivial, ?_⟩
  rintro _ ⟨⟩
  refine ⟨trivial, ?_⟩
  rintro _ ⟨⟩
  refine ⟨waits _ _, ?_⟩
  rintro _ ⟨⟩
  refine ⟨waits _ _, ?_⟩
  rintro _ ⟨⟩
  exact ⟨fun _ _ => rfl, fun _ _ => trivial⟩

/-- An interrupt that a client without the lock raises, as `simple_ioctl` does, lands
in another client's locked section. -/
theorem interrupt_in_section :
    ∃ state next, run act (unopened Bool) [.openFile false, .openFile true,
        .ioctl false IoctlCmd.lock.code] = .ok state ∧ state.holds false = true ∧
      act state (.ioctl true IoctlCmd.int.code) = .ok next ∧
      state.driver.devData.sum = 0 ∧ next.driver.devData.sum = -15 :=
  ⟨_, _, rfl, rfl, rfl, rfl, rfl⟩

end KernelLabs.IrqDriver
