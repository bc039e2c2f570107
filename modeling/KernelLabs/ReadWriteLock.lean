import KernelLabs.Checked
import Mathlib.Data.Fintype.Card

/-! A lock that one task takes for writing or several for reading. What the lock's
word says and what the tasks hold agree as long as each task releases what it took. -/
namespace KernelLabs.ReadWriteLock

/-- How a task takes the lock. A spin lock is only ever taken for writing. -/
inductive Mode
  | read
  | write
  deriving DecidableEq, Repr

/-- The lock's word. -/
structure LockWord where
  readers : Nat
  writer : Bool
  deriving DecidableEq, Repr

/-- `DEFINE_RWLOCK`, `DEFINE_SPINLOCK`. -/
def LockWord.free : LockWord := ⟨0, false⟩

/-- `read_lock` and `write_lock`; `none` while they spin. -/
def LockWord.acquire (lock : LockWord) : Mode → Option LockWord
  | .read => if lock.writer then none else some { lock with readers := lock.readers + 1 }
  | .write => if lock.writer || 0 < lock.readers then none else some { lock with writer := true }

/-- `read_unlock` and `write_unlock`; `none` if the lock is not held that way. -/
def LockWord.release (lock : LockWord) : Mode → Option LockWord
  | .read => if 0 < lock.readers then some { lock with readers := lock.readers - 1 } else none
  | .write => if lock.writer then some { lock with writer := false } else none

section Holders
variable {Task : Type} [Fintype Task] {holds : Task → Option Mode}
  {lock next : LockWord} {task other : Task} {mode : Mode}

/-- The tasks that hold the lock in one mode. -/
def holders (holds : Task → Option Mode) (mode : Mode) : Finset Task :=
  Finset.univ.filter fun task => holds task = some mode

/-- The lock's word counts its readers and knows its writer, and a writer is alone. -/
structure Agrees (holds : Task → Option Mode) (lock : LockWord) : Prop where
  readers : lock.readers = (holders holds .read).card
  writer : lock.writer = true ↔ ∃ task, holds task = some .write
  alone : ∀ task other, holds task = some .write → holds other ≠ none → other = task

theorem mem_holders : task ∈ holders holds mode ↔ holds task = some mode := by
  simp [holders]

theorem free_agrees (none_holds : ∀ task, holds task = none) : Agrees holds LockWord.free where
  readers := by simp [LockWord.free, holders, none_holds]
  writer := by simp [LockWord.free, none_holds]
  alone := by simp [none_holds]

/-- Nobody holds a lock whose word is as at the start, and the other way round. -/
theorem Agrees.free_iff (agrees : Agrees holds lock) : lock = LockWord.free ↔ ∀ task, holds task = none := by
  obtain ⟨readers, writer⟩ := lock
  constructor
  · intro free task
    cases free
    cases here : holds task with
    | none => rfl
    | some mode =>
      cases mode with
      | read =>
        have counted := Finset.card_pos.mpr ⟨task, mem_holders.mpr here⟩
        rw [← agrees.readers] at counted
        exact absurd counted (Nat.lt_irrefl 0)
      | write => cases agrees.writer.mpr ⟨task, here⟩
  · intro none_holds
    have none_reads : readers = 0 := by simpa [holders, none_holds] using agrees.readers
    have none_writes : writer = false := by
      have whole := agrees.writer
      simpa [none_holds] using whole
    rw [none_reads, none_writes]
    rfl

/-- A lock is taken exactly when no holder keeps the others out. -/
theorem Agrees.acquire_none_iff (agrees : Agrees holds lock) :
    lock.acquire mode = none ↔
      ∃ other held, holds other = some held ∧ (held = .write ∨ mode = .write) := by
  have writes : lock.writer = true ↔ ∃ other, holds other = some .write := agrees.writer
  have reads : 0 < lock.readers ↔ ∃ other, holds other = some .read := by
    rw [agrees.readers, Finset.card_pos]
    exact exists_congr fun other => mem_holders
  cases mode with
  | read =>
    have spins : lock.acquire .read = none ↔ lock.writer = true := by
      simp only [LockWord.acquire]
      split <;> simp_all
    rw [spins, writes]
    constructor
    · rintro ⟨other, held⟩
      exact ⟨other, .write, held, .inl rfl⟩
    · rintro ⟨other, held, here, rfl | ⟨⟨⟩⟩⟩
      exact ⟨other, here⟩
  | write =>
    have spins : lock.acquire .write = none ↔ lock.writer = true ∨ 0 < lock.readers := by
      simp only [LockWord.acquire]
      split <;> simp_all
    rw [spins, writes, reads]
    constructor
    · rintro (⟨other, held⟩ | ⟨other, held⟩)
      · exact ⟨other, .write, held, .inr rfl⟩
      · exact ⟨other, .read, held, .inr rfl⟩
    · rintro ⟨other, held, here, -⟩
      cases held with
      | read => exact .inr ⟨other, here⟩
      | write => exact .inl ⟨other, here⟩

/-- Two tasks that hold the lock at once both read. -/
theorem Agrees.exclusive (agrees : Agrees holds lock) {mode' : Mode} (held : holds task = some mode)
    (holding : holds other = some mode') (differ : task ≠ other) : mode = .read ∧ mode' = .read := by
  have reads (first second : Task) (here : Mode) (apart : first ≠ second) (mine : holds first = some here)
      (yours : holds second ≠ none) : here = .read := by
    cases here with
    | read => rfl
    | write => exact absurd (agrees.alone first second mine yours).symm apart
  exact ⟨reads task other mode differ held (by rw [holding]; exact Option.some_ne_none _),
    reads other task mode' differ.symm holding (by rw [held]; exact Option.some_ne_none _)⟩

variable [DecidableEq Task]

theorem holders_update_self (mode : Mode) :
    holders (Function.update holds task (some mode)) mode = insert task (holders holds mode) := by
  ext other
  by_cases same : other = task
  · subst same
    simp [mem_holders]
  · simp [mem_holders, same]

theorem holders_update_other (held : holds task ≠ some mode) {value : Option Mode} (differs : value ≠ some mode) :
    holders (Function.update holds task value) mode = holders holds mode := by
  ext other
  by_cases same : other = task
  · subst same
    simp [mem_holders, held, differs]
  · simp [mem_holders, same]

theorem holders_release (mode : Mode) :
    holders (Function.update holds task none) mode = (holders holds mode).erase task := by
  ext other
  by_cases same : other = task
  · subst same
    simp [mem_holders]
  · simp [mem_holders, same]

/-- Taking the lock. -/
theorem Agrees.acquire (agrees : Agrees holds lock) (idle : holds task = none)
    (taken : lock.acquire mode = some next) : Agrees (Function.update holds task (some mode)) next := by
  have unblocked : ∀ other held, holds other = some held → held ≠ .write ∧ mode ≠ .write := by
    intro other held here
    have blocked := mt agrees.acquire_none_iff.mpr (by rw [taken]; exact Option.some_ne_none next)
    exact ⟨fun writes => blocked ⟨other, held, here, .inl writes⟩,
      fun writes => blocked ⟨other, held, here, .inr writes⟩⟩
  have nobody_writes : lock.writer = false := by
    cases here : lock.writer with
    | false => rfl
    | true =>
      obtain ⟨other, held⟩ := agrees.writer.mp here
      exact absurd rfl (unblocked other .write held).1
  cases mode with
  | read =>
    simp only [LockWord.acquire, nobody_writes, Bool.false_eq_true, if_false, Option.some.injEq] at taken
    subst taken
    refine ⟨?_, ?_, ?_⟩
    · rw [holders_update_self, Finset.card_insert_of_notMem, agrees.readers]
      simp [mem_holders, idle]
    · refine ⟨fun writes => (by cases writes), ?_⟩
      rintro ⟨other, held⟩
      by_cases same : other = task
      · subst same
        simp at held
      · rw [Function.update_of_ne same] at held
        exact absurd rfl (unblocked other .write held).1
    · intro writer other held
      by_cases same : writer = task
      · subst same
        simp at held
      · rw [Function.update_of_ne same] at held
        exact absurd rfl (unblocked writer .write held).1
  | write =>
    have nobody : ∀ other, holds other = none := by
      intro other
      cases here : holds other with
      | none => rfl
      | some held => exact absurd rfl (unblocked other held here).2
    have none_read : lock.readers = 0 := by simpa [holders, nobody] using agrees.readers
    simp only [LockWord.acquire, nobody_writes, none_read, Nat.lt_irrefl, decide_false, Bool.or_self,
      Bool.false_eq_true, if_false, Option.some.injEq] at taken
    subst taken
    refine ⟨?_, ?_, ?_⟩
    · rw [holders_update_other (by simp [idle]) (by simp), ← agrees.readers, none_read]
    · exact iff_of_true rfl ⟨task, Function.update_self ..⟩
    · intro writer other held busy
      have only (task' : Task) (holding : Function.update holds task (some Mode.write) task' ≠ none) :
          task' = task := by
        by_contra differs
        rw [Function.update_of_ne differs] at holding
        exact holding (nobody task')
      rw [only other busy, only writer (by rw [held]; exact Option.some_ne_none _)]

/-- Releasing it. -/
theorem Agrees.release (agrees : Agrees holds lock) (held : holds task = some mode) :
    ∃ next, lock.release mode = some next ∧ Agrees (Function.update holds task none) next := by
  cases mode with
  | read =>
    have counted := Finset.card_pos.mpr ⟨task, mem_holders.mpr held⟩
    rw [← agrees.readers] at counted
    refine ⟨_, by rw [LockWord.release, if_pos counted], ?_, ?_, ?_⟩
    · rw [holders_release, Finset.card_erase_of_mem (mem_holders.mpr held), ← agrees.readers]
    · rw [agrees.writer]
      refine exists_congr fun other => ?_
      by_cases same : other = task
      · subst same
        simp [held]
      · rw [Function.update_of_ne same]
    · intro writer other writes busy
      by_cases same : writer = task
      · subst same
        simp at writes
      · rw [Function.update_of_ne same] at writes
        refine agrees.alone writer other writes fun idle => busy ?_
        by_cases here : other = task
        · rw [here, Function.update_self]
        · rw [Function.update_of_ne here, idle]
  | write =>
    have only : ∀ other, holds other ≠ none → other = task := fun other busy => agrees.alone task other held busy
    have none_after : ∀ other, Function.update holds task none other = none := by
      intro other
      by_cases same : other = task
      · rw [same, Function.update_self]
      · rw [Function.update_of_ne same]
        by_contra busy
        exact same (only other busy)
    have none_read : lock.readers = 0 := by
      rw [agrees.readers, Finset.card_eq_zero, Finset.eq_empty_iff_forall_notMem]
      intro other reads
      have here := mem_holders.mp reads
      rw [only other (by rw [here]; exact Option.some_ne_none _), held] at here
      cases here
    refine ⟨_, by rw [LockWord.release, if_pos (agrees.writer.mpr ⟨task, held⟩)], ?_⟩
    have free : { lock with writer := false } = LockWord.free := by rw [none_read]; rfl
    rw [free]
    exact free_agrees none_after

end Holders

end KernelLabs.ReadWriteLock
