import KernelLabs.Clients
import Mathlib.Logic.Relation

/-! Clients whose commands run one statement at a time. Where every script is made of critical
sections, another client's statement comes between two statements of a command only to wait for
the mutex: what happened is what running whole commands does. Nothing here depends on the
device. -/
namespace KernelLabs.Clients
open Relation

/-- The statements of a device's commands. -/
structure Code (Fine Cmd Pc Out : Type) where
  /-- The first statement of a command. -/
  enter : Cmd → Pc
  /-- A statement goes on to another one, or its command returns; `none` while it waits. -/
  next : Fine → Pc → Option (Fine × (Pc ⊕ Out))

/-- Clients in the middle of their commands. -/
structure Machine (ι Fine Cmd Pc Out : Type) where
  dev : Fine
  /-- What each client has still to do. The first of these can be under way. -/
  todo : ι → List Cmd
  /-- The next statement of what is under way. -/
  within : ι → Option Pc
  /-- What has returned so far, in order. -/
  history : List (Event ι Cmd Out)

variable {ι Dev Fine Cmd Pc Out : Type}

/-- Nothing is under way yet. -/
def Machine.start (dev : Fine) (scripts : ι → List Cmd) : Machine ι Fine Cmd Pc Out where
  dev := dev
  todo := scripts
  within _ := none
  history := []

namespace Code

/-- Where a client is that has come to this command. -/
def pc (code : Code Fine Cmd Pc Out) (machine : Machine ι Fine Cmd Pc Out) (client : ι) (cmd : Cmd) : Pc :=
  (machine.within client).getD (code.enter cmd)

/-- A client gets its turn: one statement is run, or waits and is tried again at a later turn. -/
def turn [DecidableEq ι] (code : Code Fine Cmd Pc Out) (machine : Machine ι Fine Cmd Pc Out) (client : ι) :
    Machine ι Fine Cmd Pc Out :=
  match machine.todo client with
  | [] => machine
  | cmd :: rest =>
    match code.next machine.dev (code.pc machine client cmd) with
    | none => machine
    | some (dev, .inl pc) =>
      { machine with dev := dev, within := Function.update machine.within client (some pc) }
    | some (dev, .inr out) =>
      { dev := dev
        todo := Function.update machine.todo client rest
        within := Function.update machine.within client none
        history := machine.history ++ [⟨client, cmd, out⟩] }

/-- Turns in the given order. -/
def turns [DecidableEq ι] (code : Code Fine Cmd Pc Out) (machine : Machine ι Fine Cmd Pc Out)
    (clients : List ι) : Machine ι Fine Cmd Pc Out :=
  clients.foldl code.turn machine

/-- The client has something to do, and does not wait. -/
def GetsOn (code : Code Fine Cmd Pc Out) (machine : Machine ι Fine Cmd Pc Out) (client : ι) : Prop :=
  ∃ cmd rest, machine.todo client = cmd :: rest ∧
    (code.next machine.dev (code.pc machine client cmd)).isSome

/-- A statement that does not end its command and leaves the mutex locked. -/
def Goes (code : Code Fine Cmd Pc Out) (held : Fine → Bool) (before after : Fine × Pc) : Prop :=
  code.next before.1 before.2 = some (after.1, .inl after.2) ∧ held after.1 = true

/-- The statements from here on, run alone, come to an end. -/
def Finishes (code : Code Fine Cmd Pc Out) (held : Fine → Bool) (dev : Fine) (pc : Pc) (last : Fine)
    (out : Out) : Prop :=
  ∃ final, ReflTransGen (code.Goes held) (dev, pc) final ∧ code.next final.1 final.2 = some (last, .inr out)

end Code

/-- The statements of a command, run alone, do what the command does. No statement but those of the
mutex's holder is run while it is locked, since `lock` waits. -/
structure Implements (code : Code Fine Cmd Pc Out) (rest : Dev → Fine) (held : Fine → Bool)
    (lock unlock : Cmd) (call : Dev → Cmd → Option (Dev × Out)) (locked : Dev → Bool) : Prop where
  held_rest : ∀ dev, held (rest dev) = locked dev
  waits : ∀ dev, held dev = true → code.next dev (code.enter lock) = none
  mutex : ∀ dev cmd next out, cmd = lock ∨ cmd = unlock → call dev cmd = some (next, out) →
    code.next (rest dev) (code.enter cmd) = some (rest next, .inr out)
  works : ∀ dev cmd next out, cmd ≠ lock → cmd ≠ unlock → locked dev = true →
    call dev cmd = some (next, out) → code.Finishes held (rest dev) (code.enter cmd) (rest next) out

section Turns
variable [DecidableEq ι] {code : Code Fine Cmd Pc Out} {machine : Machine ι Fine Cmd Pc Out} {client : ι}
  {cmd : Cmd} {later : List Cmd} {dev : Fine} {pc : Pc} {out : Out}

theorem turn_waits (found : machine.todo client = cmd :: later)
    (blocked : code.next machine.dev (code.pc machine client cmd) = none) :
    code.turn machine client = machine := by
  simp [Code.turn, found, blocked]

theorem turn_goes (found : machine.todo client = cmd :: later)
    (goes : code.next machine.dev (code.pc machine client cmd) = some (dev, .inl pc)) :
    code.turn machine client =
      { machine with dev := dev, within := Function.update machine.within client (some pc) } := by
  simp [Code.turn, found, goes]

theorem turn_returns (found : machine.todo client = cmd :: later)
    (ends : code.next machine.dev (code.pc machine client cmd) = some (dev, .inr out)) :
    code.turn machine client =
      { dev := dev
        todo := Function.update machine.todo client later
        within := Function.update machine.within client none
        history := machine.history ++ [⟨client, cmd, out⟩] } := by
  simp [Code.turn, found, ends]

/-- What every turn keeps holds after every run of turns. -/
theorem turns_keeps (Inv : Machine ι Fine Cmd Pc Out → Prop)
    (kept : ∀ machine client, Inv machine → Inv (code.turn machine client))
    (held : Inv machine) (clients : List ι) :
    Inv (code.turns machine clients) := by
  induction clients generalizing machine with
  | nil => exact held
  | cons client clients ih => exact ih (kept machine client held)

theorem turns_append (code : Code Fine Cmd Pc Out) (machine : Machine ι Fine Cmd Pc Out)
    (first second : List ι) :
    code.turns machine (first ++ second) = code.turns (code.turns machine first) second :=
  List.foldl_append

end Turns

section Finishing
variable {code : Code Fine Cmd Pc Out} {held : Fine → Bool} {dev middle last : Fine} {pc pc' : Pc} {out : Out}

theorem finishes_last (ends : code.next dev pc = some (last, .inr out)) : code.Finishes held dev pc last out :=
  ⟨_, .refl, ends⟩

theorem finishes_next (goes : code.next dev pc = some (middle, .inl pc')) (busy : held middle = true)
    (later : code.Finishes held middle pc' last out) : code.Finishes held dev pc last out := by
  obtain ⟨final, runs, ends⟩ := later
  exact ⟨final, .head ⟨goes, busy⟩ runs, ends⟩

theorem finishes_cases (finishes : code.Finishes held dev pc last out) :
    code.next dev pc = some (last, .inr out) ∨ ∃ middle pc', code.next dev pc = some (middle, .inl pc') ∧
      held middle = true ∧ code.Finishes held middle pc' last out := by
  obtain ⟨final, runs, ends⟩ := finishes
  rcases runs.cases_head with rfl | ⟨⟨middle, pc'⟩, ⟨goes, busy⟩, later⟩
  · exact .inl ends
  · exact .inr ⟨middle, pc', goes, busy, final, later, ends⟩

theorem finishes_runs (finishes : code.Finishes held dev pc last out) : (code.next dev pc).isSome := by
  rcases finishes_cases finishes with ends | ⟨middle, pc', goes, -⟩
  · simp [ends]
  · simp [goes]

end Finishing

/-! ## Statements and whole commands -/

section Refinement
variable [DecidableEq ι] {code : Code Fine Cmd Pc Out} {rest : Dev → Fine} {held : Fine → Bool}
  {lock unlock : Cmd} {call : Dev → Cmd → Option (Dev × Out)} {locked : Dev → Bool}
  {Allowed : List Cmd → Prop} {machine : Machine ι Fine Cmd Pc Out} {config : Config ι Dev Cmd Out}
  {holder : Holder ι Cmd}

/-- Only `lock` waits, and only for a locked mutex. -/
theorem Mutex.waits (mutex : Mutex lock unlock call locked) {dev : Dev} {cmd : Cmd}
    (blocked : call dev cmd = none) : cmd = lock ∧ locked dev = true := by
  have isLock : cmd = lock := by
    by_contra notLock
    by_cases isUnlock : cmd = unlock
    · obtain ⟨next, out, called, -⟩ := mutex.frees dev
      rw [isUnlock, called] at blocked
      cases blocked
    · obtain ⟨next, out, called, -⟩ := mutex.works dev cmd notLock isUnlock
      rw [called] at blocked
      cases blocked
  refine ⟨isLock, Bool.not_eq_false _ ▸ fun free => ?_⟩
  obtain ⟨next, out, called, -⟩ := mutex.takes dev free
  rw [isLock, called] at blocked
  cases blocked

/-- The next command of a client waits for the mutex, or moves it. -/
theorem owned_next (mutex : Mutex lock unlock call locked)
    (plain : ∀ body, Allowed body → Plain lock unlock body)
    (owned : Owned lock unlock Allowed locked config holder) {client : ι} {cmd : Cmd} {later : List Cmd}
    (found : config.todo client = cmd :: later) :
    cmd = lock ∧ locked config.dev = true ∨ ∃ next out holder', call config.dev cmd = some (next, out) ∧
      step call config client = config.after next later ⟨client, cmd, out⟩ ∧
      Moves lock unlock Allowed client holder cmd holder' ∧
      Owned lock unlock Allowed locked (config.after next later ⟨client, cmd, out⟩) holder' := by
  rcases owned_step mutex plain owned client with
    same | ⟨cmd', later', next, out, holder', found', called, same, moves, owned'⟩
  · left
    cases called : call config.dev cmd with
    | none => exact mutex.waits called
    | some result =>
      have longer := congrArg (fun config => config.history.length) same
      simp [step, found, called, Config.after] at longer
  · rw [found] at found'
    cases found'
    exact .inr ⟨next, out, holder', called, same, moves, owned'⟩

/-- While somebody has something to do, somebody's next command returns. -/
theorem owned_gets_on (mutex : Mutex lock unlock call locked)
    (plain : ∀ body, Allowed body → Plain lock unlock body)
    (owned : Owned lock unlock Allowed locked config holder) {client : ι} (busy : config.todo client ≠ []) :
    ∃ other cmd later next out holder', config.todo other = cmd :: later ∧
      call config.dev cmd = some (next, out) ∧ Moves lock unlock Allowed other holder cmd holder' := by
  have returns {other : ι} {cmd : Cmd} {later : List Cmd} (found : config.todo other = cmd :: later)
      (lets : ¬ (cmd = lock ∧ locked config.dev = true)) : ∃ other cmd later next out holder',
      config.todo other = cmd :: later ∧ call config.dev cmd = some (next, out) ∧
        Moves lock unlock Allowed other holder cmd holder' := by
    rcases owned_next mutex plain owned found with waits | ⟨next, out, holder', called, -, moves, -⟩
    · exact absurd waits lets
    · exact ⟨other, cmd, later, next, out, holder', found, called, moves⟩
  cases holder with
  | none =>
    cases found : config.todo client with
    | nil => exact absurd found busy
    | cons cmd later => exact returns found (by simp [owned.1])
  | some held =>
    obtain ⟨holder, left⟩ := held
    have holds := owned
    obtain ⟨-, clean, ⟨after, -, shape⟩, -⟩ := holds
    cases left with
    | nil => exact returns shape fun waits => mutex.distinct waits.1.symm
    | cons cmd left => exact returns shape fun waits => (clean cmd (by simp)).1 waits.1

/-- Where the machine is, seen as whole commands: between two of them, or in the one of the mutex's
holder, whose statements will do what it does. -/
inductive Stands (code : Code Fine Cmd Pc Out) (rest : Dev → Fine) (held : Fine → Bool)
    (call : Dev → Cmd → Option (Dev × Out)) (machine : Machine ι Fine Cmd Pc Out) (dev : Dev) :
    Holder ι Cmd → Prop
  | between (holder : Holder ι Cmd) : machine.dev = rest dev → (∀ client, machine.within client = none) →
    Stands code rest held call machine dev holder
  | inside (client : ι) (cmd : Cmd) (left : List Cmd) (pc : Pc) (next : Dev) (out : Out) :
    machine.within client = some pc → (∀ other, other ≠ client → machine.within other = none) →
    held machine.dev = true → call dev cmd = some (next, out) →
    code.Finishes held machine.dev pc (rest next) out →
    Stands code rest held call machine dev (some (client, cmd :: left))

/-- The clients have done the same, and have the same still to do. -/
structure Matches (code : Code Fine Cmd Pc Out) (rest : Dev → Fine) (held : Fine → Bool)
    (lock unlock : Cmd) (call : Dev → Cmd → Option (Dev × Out)) (locked : Dev → Bool)
    (Allowed : List Cmd → Prop) (machine : Machine ι Fine Cmd Pc Out) (config : Config ι Dev Cmd Out) :
    Prop where
  todo : machine.todo = config.todo
  history : machine.history = config.history
  stands : ∃ holder, Owned lock unlock Allowed locked config holder ∧
    Stands code rest held call machine config.dev holder

/-- One statement is nothing to the whole commands, or it is the last one of a command. -/
theorem turn_matches (implements : Implements code rest held lock unlock call locked)
    (mutex : Mutex lock unlock call locked) (plain : ∀ body, Allowed body → Plain lock unlock body)
    (matched : Matches code rest held lock unlock call locked Allowed machine config) (client : ι) :
    Matches code rest held lock unlock call locked Allowed (code.turn machine client) config ∨
    Matches code rest held lock unlock call locked Allowed (code.turn machine client)
      (step call config client) := by
  obtain ⟨todo, history, holder, owned, stands⟩ := matched
  cases found : config.todo client with
  | nil => exact .inl (by simpa [Code.turn, todo, found] using ⟨todo, history, holder, owned, stands⟩)
  | cons cmd later =>
    have here : machine.todo client = cmd :: later := by rw [todo, found]
    -- the last statement of a command is the whole command
    have returns {next : Dev} {out : Out} {holder' : Holder ι Cmd}
        (ends : code.next machine.dev (code.pc machine client cmd) = some (rest next, .inr out))
        (alone : ∀ other, other ≠ client → machine.within other = none)
        (same : step call config client = config.after next later ⟨client, cmd, out⟩)
        (owned' : Owned lock unlock Allowed locked (config.after next later ⟨client, cmd, out⟩) holder') :
        Matches code rest held lock unlock call locked Allowed (code.turn machine client)
          (step call config client) := by
      rw [same, turn_returns here ends, todo, history]
      refine ⟨rfl, rfl, holder', owned', .between holder' rfl fun other => ?_⟩
      by_cases mine : other = client <;> simp [mine, alone]
    -- the other ones leave it under way
    have runs {left : List Cmd} {next : Dev} {out : Out} {holder' : Holder ι Cmd}
        (holds : holder = some (client, cmd :: left)) (called : call config.dev cmd = some (next, out))
        (finishes : code.Finishes held machine.dev (code.pc machine client cmd) (rest next) out)
        (alone : ∀ other, other ≠ client → machine.within other = none)
        (same : step call config client = config.after next later ⟨client, cmd, out⟩)
        (owned' : Owned lock unlock Allowed locked (config.after next later ⟨client, cmd, out⟩) holder') :
        Matches code rest held lock unlock call locked Allowed (code.turn machine client) config ∨
        Matches code rest held lock unlock call locked Allowed (code.turn machine client)
          (step call config client) := by
      rcases finishes_cases finishes with ends | ⟨middle, pc, goes, busy, finishes'⟩
      · exact .inr (returns ends alone same owned')
      · subst holds
        rw [turn_goes here goes]
        refine .inl ⟨todo, history, _, owned,
          .inside client cmd left pc next out ?_ (fun other different => ?_) busy called finishes'⟩
        · simp
        · simp [different, alone other different]
    -- a statement that waits changes nothing
    have waits (blocked : code.next machine.dev (code.pc machine client cmd) = none) :
        Matches code rest held lock unlock call locked Allowed (code.turn machine client) config := by
      rw [turn_waits here blocked]
      exact ⟨todo, history, holder, owned, stands⟩
    cases stands with
    | between _ idle outside =>
      have fresh : code.pc machine client cmd = code.enter cmd := by simp [Code.pc, outside]
      rcases owned_next mutex plain owned found with
        ⟨rfl, busy⟩ | ⟨next, out, holder', called, same, moves, owned'⟩
      · exact .inl (waits (by rw [fresh, idle, implements.waits _ (by rw [implements.held_rest, busy])]))
      · cases moves with
        | enter body | leave =>
          refine .inr (returns ?_ (fun other _ => outside other) same owned')
          rw [fresh, idle, implements.mutex _ _ _ _ (by simp) called]
        | work _ left notLock notUnlock =>
          refine runs rfl called ?_ (fun other _ => outside other) same owned'
          rw [fresh, idle]
          exact implements.works _ _ _ _ notLock notUnlock owned.1 called
    | inside holding cmd' left pc next out within outside busy called finishes =>
      by_cases mine : client = holding
      · subst mine
        have holds := owned
        obtain ⟨-, clean, ⟨after, -, shape⟩, -⟩ := holds
        obtain ⟨rfl, rfl⟩ : cmd = cmd' ∧ later = left ++ unlock :: after := by
          simpa [found] using shape
        rcases owned_next mutex plain owned found with
          ⟨isLock, -⟩ | ⟨next', out', holder', called', same, -, owned'⟩
        · exact absurd isLock (clean cmd (by simp)).1
        · rw [called] at called'
          cases called'
          refine runs rfl called ?_ outside same owned'
          rwa [show code.pc machine client cmd = pc by simp [Code.pc, within]]
      · obtain ⟨-, -, -, others⟩ := owned
        obtain ⟨bodies, -, shape⟩ := others client mine
        cases bodies with
        | nil => simp [found, script] at shape
        | cons body bodies =>
          obtain ⟨rfl, -⟩ : cmd = lock ∧ later = body ++ unlock :: script lock unlock bodies := by
            simpa [found, script, critical] using shape
          refine .inl (waits ?_)
          simp [Code.pc, outside client mine, implements.waits _ busy]

/-- The whole commands of a run of statements return in the order of their last ones. -/
theorem turns_match (implements : Implements code rest held lock unlock call locked)
    (mutex : Mutex lock unlock call locked) (plain : ∀ body, Allowed body → Plain lock unlock body)
    (matched : Matches code rest held lock unlock call locked Allowed machine config) (clients : List ι) :
    ∃ calls, calls.Sublist clients ∧ Matches code rest held lock unlock call locked Allowed
      (code.turns machine clients) (schedule call config calls) := by
  induction clients generalizing machine config with
  | nil => exact ⟨[], .slnil, matched⟩
  | cons client clients ih =>
    rcases turn_matches implements mutex plain matched client with still | returned
    · obtain ⟨calls, among, final⟩ := ih still
      exact ⟨calls, among.cons client, final⟩
    · obtain ⟨calls, among, final⟩ := ih returned
      exact ⟨client :: calls, among.cons_cons client, final⟩

/-- While somebody has something to do, somebody gets on. -/
theorem matches_gets_on (implements : Implements code rest held lock unlock call locked)
    (mutex : Mutex lock unlock call locked) (plain : ∀ body, Allowed body → Plain lock unlock body)
    (matched : Matches code rest held lock unlock call locked Allowed machine config) {client : ι}
    (busy : machine.todo client ≠ []) : ∃ other, code.GetsOn machine other := by
  obtain ⟨todo, -, holder, owned, stands⟩ := matched
  cases stands with
  | between _ idle outside =>
    rw [todo] at busy
    obtain ⟨other, cmd, later, next, out, holder', found, called, moves⟩ :=
      owned_gets_on mutex plain owned busy
    refine ⟨other, cmd, later, todo ▸ found, ?_⟩
    rw [show code.pc machine other cmd = code.enter cmd by simp [Code.pc, outside], idle]
    cases moves with
    | enter | leave => simp [implements.mutex _ _ _ _ (by simp) called]
    | work _ left notLock notUnlock =>
      exact finishes_runs (implements.works _ _ _ _ notLock notUnlock owned.1 called)
  | inside holding cmd left pc next out within outside _ called finishes =>
    obtain ⟨-, -, ⟨after, -, shape⟩, -⟩ := owned
    refine ⟨holding, cmd, left ++ unlock :: after, by rw [todo, shape, List.cons_append], ?_⟩
    rw [show code.pc machine holding cmd = pc by simp [Code.pc, within]]
    exact finishes_runs finishes

omit [DecidableEq ι] in
/-- While the mutex is free, the device is the one of the whole commands. -/
theorem matches_dev (matched : Matches code rest held lock unlock call locked Allowed machine config)
    (free : held machine.dev = false) : machine.dev = rest config.dev := by
  obtain ⟨-, -, holder, -, stands⟩ := matched
  cases stands with
  | between _ idle => exact idle
  | inside _ _ _ _ _ _ _ _ busy =>
    rw [free] at busy
    cases busy

/-- **Statements and whole commands.** Under every interleaving of the single statements of scripts
that are made of critical sections, the clients have done what they do in an interleaving of whole
commands. -/
theorem statements_are_calls (implements : Implements code rest held lock unlock call locked)
    (mutex : Mutex lock unlock call locked) (plain : ∀ body, Allowed body → Plain lock unlock body)
    {dev : Dev} (free : locked dev = false) {sections : ι → List (List Cmd)}
    (allowed : ∀ client, ∀ body ∈ sections client, Allowed body) (clients : List ι) :
    let scripts := fun client => script lock unlock (sections client)
    ∃ calls, calls.Sublist clients ∧ Matches code rest held lock unlock call locked Allowed
      (code.turns (Machine.start (rest dev) scripts) clients) (schedule call (start dev scripts) calls) := by
  intro scripts
  have matched : Matches code rest held lock unlock call locked Allowed (Machine.start (rest dev) scripts)
      (start dev scripts) :=
    ⟨rfl, rfl, none, start_owned free allowed, .between none rfl fun _ => rfl⟩
  exact turns_match implements mutex plain matched clients

end Refinement

end KernelLabs.Clients
