import Mathlib.Data.List.Basic
import Mathlib.Logic.Function.Basic

/-! Clients that run scripts of commands against one device, one whole command at
a time and in any order. Where the device has a mutex and every script is made of
critical sections, the sections do not overlap: what happened is what running
them one after another does. Nothing here depends on the device. -/
namespace KernelLabs.Clients

/-- A command that has returned. -/
structure Event (ι Cmd Out : Type) where
  client : ι
  cmd : Cmd
  out : Out

structure Config (ι Dev Cmd Out : Type) where
  dev : Dev
  /-- What each client has still to do. -/
  todo : ι → List Cmd
  /-- What has returned so far, in order. -/
  history : List (Event ι Cmd Out)

variable {ι Dev Cmd Out : Type}

def start (dev : Dev) (scripts : ι → List Cmd) : Config ι Dev Cmd Out where
  dev := dev
  todo := scripts
  history := []

section Runs
variable [DecidableEq ι]

/-- The configuration after a client's next command has returned. -/
def Config.after (config : Config ι Dev Cmd Out) (dev : Dev) (rest : List Cmd)
    (event : Event ι Cmd Out) : Config ι Dev Cmd Out where
  dev := dev
  todo := Function.update config.todo event.client rest
  history := config.history ++ [event]

variable (call : Dev → Cmd → Option (Dev × Out))

/-- A client gets its turn: its next command returns, or blocks and is tried
again at a later turn. -/
def step (config : Config ι Dev Cmd Out) (client : ι) : Config ι Dev Cmd Out :=
  match config.todo client with
  | [] => config
  | cmd :: rest =>
    match call config.dev cmd with
    | none => config
    | some (dev, out) => config.after dev rest ⟨client, cmd, out⟩

/-- Turns in the given order. -/
def schedule (config : Config ι Dev Cmd Out) (turns : List ι) : Config ι Dev Cmd Out :=
  turns.foldl (step call) config

end Runs

section Alone
variable (call : Dev → Cmd → Option (Dev × Out))

/-- The commands run by one client alone: `none` if one of them blocks. -/
def replay (dev : Dev) : List Cmd → Option (Dev × List Out)
  | [] => some (dev, [])
  | cmd :: rest => do
    let (dev, out) ← call dev cmd
    let (dev, outs) ← replay dev rest
    return (dev, out :: outs)

/-- Lists of commands run one after another: the results of each. -/
def serially (dev : Dev) : List (List Cmd) → Option (Dev × List (List Out))
  | [] => some (dev, [])
  | cmds :: rest => do
    let (dev, outs) ← replay call dev cmds
    let (dev, more) ← serially dev rest
    return (dev, outs :: more)

/-- The commands all return, with good results, and leave a clean device. -/
def Safe (Good : Cmd → Out → Prop) (Clean : Dev → Prop) : Dev → List Cmd → Prop
  | dev, [] => Clean dev
  | dev, cmd :: rest => ∃ next out, call dev cmd = some (next, out) ∧ Good cmd out ∧
    Safe Good Clean next rest

end Alone

/-! ## Critical sections -/

section Sections
variable (lock unlock : Cmd)

/-- The commands of a critical section with this body. -/
def critical (body : List Cmd) : List Cmd := lock :: (body ++ [unlock])

def script (bodies : List (List Cmd)) : List Cmd := (bodies.map (critical lock unlock)).flatten

/-- A body neither locks nor unlocks. -/
def Plain (body : List Cmd) : Prop := ∀ cmd ∈ body, cmd ≠ lock ∧ cmd ≠ unlock

/-- The device's commands respect a mutex. -/
structure Mutex (call : Dev → Cmd → Option (Dev × Out)) (locked : Dev → Bool) : Prop where
  distinct : lock ≠ unlock
  blocks : ∀ dev, locked dev = true → call dev lock = none
  takes : ∀ dev, locked dev = false → ∃ next out, call dev lock = some (next, out) ∧
    locked next = true
  frees : ∀ dev, ∃ next out, call dev unlock = some (next, out) ∧ locked next = false
  works : ∀ dev cmd, cmd ≠ lock → cmd ≠ unlock → ∃ next out, call dev cmd = some (next, out) ∧
    locked next = locked dev

/-- One client's stay in a critical section: its commands from a `lock` on. -/
structure SectionRun (ι Cmd Out : Type) where
  client : ι
  events : List (Event ι Cmd Out)

namespace SectionRun

def cmds (run : SectionRun ι Cmd Out) : List Cmd := run.events.map Event.cmd

def outs (run : SectionRun ι Cmd Out) : List Out := run.events.map Event.out

end SectionRun

/-- The critical sections of a history, in the order in which their `lock`
returned: each consists of the client's commands from there to its next `lock`. -/
def collect [DecidableEq ι] [DecidableEq Cmd] :
    List (Event ι Cmd Out) → List (SectionRun ι Cmd Out)
  | [] => []
  | event :: later =>
    if event.cmd = lock then
      ⟨event.client, event :: (later.filter (·.client = event.client)).takeWhile (·.cmd ≠ lock)⟩ ::
        collect later
    else collect later

end Sections

/-! ## Any schedule -/

section Schedules
variable [DecidableEq ι] {call : Dev → Cmd → Option (Dev × Out)} {config : Config ι Dev Cmd Out}
  {dev next : Dev} {cmds more : List Cmd} {outs : List Out}

/-- A turn changes nothing, or one command returns. -/
theorem step_cases (call : Dev → Cmd → Option (Dev × Out)) (config : Config ι Dev Cmd Out) (client : ι) :
    step call config client = config ∨ ∃ cmd rest dev out, config.todo client = cmd :: rest ∧
      call config.dev cmd = some (dev, out) ∧
      step call config client = config.after dev rest ⟨client, cmd, out⟩ := by
  unfold step
  cases found : config.todo client with
  | nil => exact .inl rfl
  | cons cmd rest =>
    cases called : call config.dev cmd with
    | none => exact .inl (by simp [called])
    | some result => exact .inr ⟨cmd, rest, result.1, result.2, rfl, called, by simp [called]⟩

/-- What every turn keeps holds after every schedule. -/
theorem schedule_keeps {Inv : Config ι Dev Cmd Out → Prop}
    (kept : ∀ config client, Inv config → Inv (step call config client)) (turns : List ι)
    (held : Inv config) : Inv (schedule call config turns) := by
  induction turns generalizing config with
  | nil => exact held
  | cons client turns ih => exact ih (kept config client held)

theorem replay_cons {cmd : Cmd} {last : Dev} :
    replay call dev (cmd :: cmds) = some (last, outs) ↔ ∃ next out others,
      call dev cmd = some (next, out) ∧ replay call next cmds = some (last, others) ∧
        outs = out :: others := by
  simp only [replay, Option.bind_eq_bind, Option.bind_eq_some_iff, Option.pure_def,
    Option.some.injEq, Prod.mk.injEq]
  constructor
  · rintro ⟨⟨next, out⟩, called, ⟨final, others⟩, ran, rfl, rfl⟩
    exact ⟨next, out, others, called, ran, rfl⟩
  · rintro ⟨next, out, others, called, ran, rfl⟩
    exact ⟨⟨next, out⟩, called, ⟨last, others⟩, ran, rfl, rfl⟩

theorem replay_length {last : Dev} (ran : replay call dev cmds = some (last, outs)) :
    outs.length = cmds.length := by
  induction cmds generalizing dev outs with
  | nil =>
    cases ran
    rfl
  | cons cmd cmds ih =>
    obtain ⟨next, out, others, -, rest, rfl⟩ := replay_cons.mp ran
    simp [ih rest]

theorem replay_append {last : Dev} :
    replay call dev (cmds ++ more) = some (last, outs) ↔ ∃ next first second,
      replay call dev cmds = some (next, first) ∧ replay call next more = some (last, second) ∧
        outs = first ++ second := by
  induction cmds generalizing dev outs with
  | nil =>
    constructor
    · intro ran
      exact ⟨dev, [], outs, rfl, ran, rfl⟩
    · rintro ⟨next, first, second, ran, ran', rfl⟩
      cases ran
      exact ran'
  | cons cmd cmds ih =>
    simp only [List.cons_append, replay_cons, ih]
    constructor
    · rintro ⟨middle, out, others, called, ⟨next, first, second, ran, ran', rfl⟩, rfl⟩
      exact ⟨next, out :: first, second, ⟨middle, out, first, called, ran, rfl⟩, ran', rfl⟩
    · rintro ⟨next, first, second, ⟨middle, out, others, called, ran, rfl⟩, ran', rfl⟩
      exact ⟨middle, out, others ++ second, called, ⟨next, others, second, ran, ran', rfl⟩, rfl⟩

/-- The commands that returned, run by one client alone, give the same results. -/
theorem schedule_replays (call : Dev → Cmd → Option (Dev × Out)) (dev : Dev) (scripts : ι → List Cmd) (turns : List ι) :
    replay call dev ((schedule call (start dev scripts) turns).history.map Event.cmd) =
      some ((schedule call (start dev scripts) turns).dev,
        (schedule call (start dev scripts) turns).history.map Event.out) := by
  let Inv (config : Config ι Dev Cmd Out) : Prop :=
    replay call dev (config.history.map Event.cmd) = some (config.dev, config.history.map Event.out)
  have kept : ∀ config client, Inv config → Inv (step call config client) := by
    intro config client held
    obtain same | ⟨cmd, rest, next, out, -, called, same⟩ := step_cases call config client
    · rwa [same]
    · rw [same]
      simp only [Inv, Config.after, List.map_append, List.map_cons, List.map_nil]
      exact replay_append.mpr ⟨_, _, [out], held, by simp [replay, called], rfl⟩
  exact schedule_keeps kept turns (show Inv (start dev scripts) from rfl)

/-- What a client has done and what it has still to do make up its script. -/
theorem schedule_program_order (call : Dev → Cmd → Option (Dev × Out)) (dev : Dev)
    (scripts : ι → List Cmd) (turns : List ι) (client : ι) :
    ((schedule call (start dev scripts) turns).history.filter (·.client = client)).map Event.cmd ++
      (schedule call (start dev scripts) turns).todo client = scripts client := by
  let Inv (config : Config ι Dev Cmd Out) : Prop :=
    (config.history.filter (·.client = client)).map Event.cmd ++ config.todo client = scripts client
  have kept : ∀ config turn, Inv config → Inv (step call config turn) := by
    intro config turn held
    obtain same | ⟨cmd, rest, next, out, found, -, same⟩ := step_cases call config turn
    · rwa [same]
    · rw [same]
      by_cases own : turn = client
      · subst own
        simpa [Inv, Config.after, found] using held
      · simpa [Inv, Config.after, own, Function.update_of_ne (Ne.symm own)] using held
  exact schedule_keeps kept turns (show Inv (start dev scripts) from rfl)

end Schedules

/-! ## Mutual exclusion -/

section Exclusion
variable [DecidableEq ι] {call : Dev → Cmd → Option (Dev × Out)} {lock unlock : Cmd}
  {locked : Dev → Bool} {Allowed : List Cmd → Prop} {config : Config ι Dev Cmd Out}

/-- Who is in a critical section, and what is left of its body. -/
abbrev Holder (ι Cmd : Type) := Option (ι × List Cmd)

/-- The client has only whole critical sections to run. -/
def Waiting (lock unlock : Cmd) (Allowed : List Cmd → Prop) (todo : List Cmd) : Prop :=
  ∃ bodies, (∀ body ∈ bodies, Allowed body) ∧ todo = script lock unlock bodies

/-- The mutex is locked exactly while a client is in a critical section, and no
other client is in one. -/
def Owned (lock unlock : Cmd) (Allowed : List Cmd → Prop) (locked : Dev → Bool)
    (config : Config ι Dev Cmd Out) : Holder ι Cmd → Prop
  | none => locked config.dev = false ∧ ∀ client, Waiting lock unlock Allowed (config.todo client)
  | some (holder, rest) => locked config.dev = true ∧ Plain lock unlock rest ∧
    (∃ later, Waiting lock unlock Allowed later ∧ config.todo holder = rest ++ unlock :: later) ∧
    ∀ other, other ≠ holder → Waiting lock unlock Allowed (config.todo other)

/-- How a returned command moves the mutex. -/
inductive Moves (lock unlock : Cmd) (Allowed : List Cmd → Prop) (client : ι) :
    Holder ι Cmd → Cmd → Holder ι Cmd → Prop
  | enter (body : List Cmd) : Allowed body →
    Moves lock unlock Allowed client none lock (some (client, body))
  | work (cmd : Cmd) (rest : List Cmd) : cmd ≠ lock → cmd ≠ unlock →
    Moves lock unlock Allowed client (some (client, cmd :: rest)) cmd (some (client, rest))
  | leave : Moves lock unlock Allowed client (some (client, [])) unlock none

/-- A turn changes nothing, or a command returns: `lock` while nobody holds the
mutex, or the next command of its holder. -/
theorem owned_step (mutex : Mutex lock unlock call locked)
    (plain : ∀ body, Allowed body → Plain lock unlock body) {holder : Holder ι Cmd}
    (owned : Owned lock unlock Allowed locked config holder) (client : ι) :
    step call config client = config ∨ ∃ cmd rest dev out holder',
      config.todo client = cmd :: rest ∧ call config.dev cmd = some (dev, out) ∧
      step call config client = config.after dev rest ⟨client, cmd, out⟩ ∧
      Moves lock unlock Allowed client holder cmd holder' ∧
      Owned lock unlock Allowed locked (config.after dev rest ⟨client, cmd, out⟩) holder' := by
  cases holder with
  | none =>
    obtain ⟨free, waiting⟩ := owned
    obtain ⟨bodies, allowed, shape⟩ := waiting client
    cases bodies with
    | nil => exact .inl (by simp [step, shape, script])
    | cons body bodies =>
      have found : config.todo client = lock :: (body ++ unlock :: script lock unlock bodies) := by
        simp [shape, script, critical]
      obtain ⟨next, out, called, taken⟩ := mutex.takes config.dev free
      refine .inr ⟨lock, _, next, out, some (client, body), found, called,
        by simp [step, found, called], .enter body (allowed body (by simp)), taken,
        plain body (allowed body (by simp)), ⟨_, ⟨bodies, ?_, rfl⟩, by simp [Config.after]⟩, ?_⟩
      · exact fun body member => allowed body (List.mem_cons_of_mem _ member)
      · intro other different
        simpa [Config.after, Function.update_of_ne different] using waiting other
  | some held =>
    obtain ⟨holder, rest⟩ := held
    obtain ⟨busy, clean, ⟨later, waiting, found⟩, others⟩ := owned
    by_cases own : client = holder
    · subst own
      cases rest with
      | nil =>
        obtain ⟨next, out, called, freed⟩ := mutex.frees config.dev
        refine .inr ⟨unlock, later, next, out, none, found, called, by simp [step, found, called],
          .leave, freed, fun other => ?_⟩
        by_cases same : other = client
        · simpa [Config.after, same] using waiting
        · simpa [Config.after, Function.update_of_ne same] using others other same
      | cons cmd rest =>
        obtain ⟨notLock, notUnlock⟩ := clean cmd (by simp)
        obtain ⟨next, out, called, kept⟩ := mutex.works config.dev cmd notLock notUnlock
        refine .inr ⟨cmd, _, next, out, some (client, rest), found, called,
          by simp [step, found, called], .work cmd rest notLock notUnlock, kept.trans busy, ?_,
          ⟨later, waiting, by simp [Config.after]⟩, ?_⟩
        · exact fun other member => clean other (List.mem_cons_of_mem _ member)
        · intro other different
          simpa [Config.after, Function.update_of_ne different] using others other different
    · obtain ⟨bodies, allowed, shape⟩ := others client own
      cases bodies with
      | nil => exact .inl (by simp [step, shape, script])
      | cons body bodies =>
        have shape : config.todo client = lock :: (body ++ unlock :: script lock unlock bodies) := by
          simp [shape, script, critical]
        exact .inl (by simp [step, shape, mutex.blocks config.dev busy])

omit [DecidableEq ι] in
theorem start_owned {dev : Dev} (free : locked dev = false) {sections : ι → List (List Cmd)}
    (allowed : ∀ client, ∀ body ∈ sections client, Allowed body) :
    Owned lock unlock Allowed locked
      (start dev fun client => script lock unlock (sections client) : Config ι Dev Cmd Out) none :=
  ⟨free, fun client => ⟨sections client, allowed client, rfl⟩⟩

/-- An invariant of the configuration and of the mutex's holder, kept by every
command that returns, holds after every schedule. -/
theorem exclusion_keeps {Inv : Config ι Dev Cmd Out → Holder ι Cmd → Prop}
    (mutex : Mutex lock unlock call locked) (plain : ∀ body, Allowed body → Plain lock unlock body)
    (kept : ∀ config client cmd rest dev out holder holder', Inv config holder →
      Owned lock unlock Allowed locked config holder →
      Moves lock unlock Allowed client holder cmd holder' → call config.dev cmd = some (dev, out) →
      Inv (config.after dev rest ⟨client, cmd, out⟩) holder')
    (turns : List ι) (owned : Owned lock unlock Allowed locked config none) (held : Inv config none) :
    ∃ holder, Owned lock unlock Allowed locked (schedule call config turns) holder ∧
      Inv (schedule call config turns) holder := by
  let Held (config : Config ι Dev Cmd Out) : Prop :=
    ∃ holder, Owned lock unlock Allowed locked config holder ∧ Inv config holder
  have step_kept : ∀ config client, Held config → Held (step call config client) := by
    rintro config client ⟨holder, owned, held⟩
    obtain same | ⟨cmd, rest, dev, out, holder', -, called, same, moves, owned'⟩ :=
      owned_step mutex plain owned client
    · rw [same]
      exact ⟨holder, owned, held⟩
    · rw [same]
      exact ⟨holder', owned', kept config client cmd rest dev out holder holder' held owned moves called⟩
  exact schedule_keeps step_kept turns (show Held config from ⟨none, owned, held⟩)

/-! ## The lock invariant -/

/-- What is known of the device: while nobody is in a critical section it is clean,
and otherwise the rest of the section will leave it so. -/
def Promise (call : Dev → Cmd → Option (Dev × Out)) (unlock : Cmd) (Good : Cmd → Out → Prop)
    (Clean : Dev → Prop) (dev : Dev) : Holder ι Cmd → Prop
  | none => Clean dev
  | some (_, rest) => Safe call Good Clean dev (rest ++ [unlock])

theorem safe_of_replay {Good : Cmd → Out → Prop} {Clean : Dev → Prop} {dev last : Dev}
    {cmds : List Cmd} {outs : List Out} (ran : replay call dev cmds = some (last, outs))
    (good : ∀ result ∈ cmds.zip outs, Good result.1 result.2) (clean : Clean last) : Safe call Good Clean dev cmds := by
  induction cmds generalizing dev outs with
  | nil =>
    cases ran
    exact clean
  | cons cmd cmds ih =>
    obtain ⟨next, out, others, called, rest, rfl⟩ := replay_cons.mp ran
    exact ⟨next, out, called, good (cmd, out) (by simp),
      ih rest fun result member => good result (List.mem_cons_of_mem _ member)⟩

/-- The lock rule: where each critical section, alone, finds the device clean,
gives good results and leaves it clean, every schedule gives good results, and the
device is clean whenever the mutex is free. -/
theorem lock_invariant {Good : Cmd → Out → Prop} {Clean : Dev → Prop} {dev : Dev}
    {sections : ι → List (List Cmd)} (mutex : Mutex lock unlock call locked)
    (plain : ∀ body, Allowed body → Plain lock unlock body)
    (sound : ∀ body, Allowed body → ∀ dev, locked dev = false → Clean dev →
      Safe call Good Clean dev (critical lock unlock body))
    (allowed : ∀ client, ∀ body ∈ sections client, Allowed body)
    (free : locked dev = false) (clean : Clean dev) (turns : List ι) :
    let final := schedule call (start dev fun client => script lock unlock (sections client)) turns
    (∀ event ∈ final.history, Good event.cmd event.out) ∧ (locked final.dev = false → Clean final.dev) := by
  let Inv (config : Config ι Dev Cmd Out) (holder : Holder ι Cmd) : Prop :=
    (∀ event ∈ config.history, Good event.cmd event.out) ∧ Promise call unlock Good Clean config.dev holder
  have kept : ∀ config client cmd rest dev out holder holder', Inv config holder →
      Owned lock unlock Allowed locked config holder →
      Moves lock unlock Allowed client holder cmd holder' → call config.dev cmd = some (dev, out) →
      Inv (config.after dev rest ⟨client, cmd, out⟩) holder' := by
    rintro config client cmd rest dev out holder holder' ⟨good, state⟩ owned moves called
    have safe : ∃ todo, Safe call Good Clean config.dev (cmd :: todo) ∧
        (Safe call Good Clean dev todo → Promise call unlock Good Clean dev holder') := by
      cases moves with
      | enter body allowed => exact ⟨_, sound body allowed config.dev owned.1 state, id⟩
      | work cmd rest => exact ⟨_, state, id⟩
      | leave => exact ⟨_, state, id⟩
    obtain ⟨todo, ⟨next, result, called', goodOut, rest⟩, next'⟩ := safe
    rw [called] at called'
    cases called'
    refine ⟨fun event member => ?_, next' rest⟩
    rcases List.mem_append.mp member with old | new
    · exact good event old
    · rw [List.mem_singleton.mp new]
      exact goodOut
  obtain ⟨holder, owned, good, state⟩ := exclusion_keeps mutex plain kept turns
    (start_owned free allowed) ⟨by simp [start], clean⟩
  refine ⟨good, fun free => ?_⟩
  cases holder with
  | none => exact state
  | some held =>
    obtain ⟨busy, -⟩ := owned
    rw [free] at busy
    cases busy

/-! ## Serialization -/

/-- The commands of one client from a `lock` to before its next. -/
def Stay (lock : Cmd) (run : SectionRun ι Cmd Out) : Prop :=
  (∃ first rest, run.events = first :: rest ∧ first.cmd = lock ∧ ∀ event ∈ rest, event.cmd ≠ lock) ∧
    ∀ event ∈ run.events, event.client = run.client

/-- A history is made of stays, one after the other. -/
theorem history_of_stays (mutex : Mutex lock unlock call locked)
    (plain : ∀ body, Allowed body → Plain lock unlock body) (turns : List ι)
    (owned : Owned lock unlock Allowed locked config none) (fresh : config.history = []) :
    ∃ runs : List (SectionRun ι Cmd Out), (∀ run ∈ runs, Stay lock run) ∧
      (schedule call config turns).history = (runs.map SectionRun.events).flatten := by
  let Inv (config : Config ι Dev Cmd Out) (holder : Holder ι Cmd) : Prop :=
    ∃ runs : List (SectionRun ι Cmd Out), (∀ run ∈ runs, Stay lock run) ∧
      config.history = (runs.map SectionRun.events).flatten ∧
      ∀ client rest, holder = some (client, rest) →
        ∃ front last, runs = front ++ [last] ∧ last.client = client
  have kept : ∀ config client cmd rest dev out holder holder', Inv config holder →
      Owned lock unlock Allowed locked config holder →
      Moves lock unlock Allowed client holder cmd holder' → call config.dev cmd = some (dev, out) →
      Inv (config.after dev rest ⟨client, cmd, out⟩) holder' := by
    rintro config client cmd rest dev out holder holder' ⟨runs, stays, shape, last⟩ owned moves called
    -- every command but `lock` goes on with the last stay
    have extends_last : ∀ left, holder = some (client, left) → cmd ≠ lock →
        ∃ front last, (∀ run ∈ front ++ [last], Stay lock run) ∧ last.client = client ∧
          (config.after dev rest ⟨client, cmd, out⟩).history =
            ((front ++ [last]).map SectionRun.events).flatten := by
      intro left held other
      obtain ⟨front, stay, rfl, rfl⟩ := last client left held
      obtain ⟨⟨first, tail, start, isLock, rest⟩, own⟩ := stays stay (by simp)
      refine ⟨front, ⟨stay.client, stay.events ++ [⟨stay.client, cmd, out⟩]⟩, ?_, rfl, ?_⟩
      · intro run member
        rcases List.mem_append.mp member with old | new
        · exact stays run (List.mem_append_left _ old)
        · rw [List.mem_singleton.mp new]
          refine ⟨⟨first, tail ++ [⟨stay.client, cmd, out⟩], by simp [start], isLock, ?_⟩, ?_⟩
          · intro event member
            rcases List.mem_append.mp member with old | new
            · exact rest event old
            · rw [List.mem_singleton.mp new]
              exact other
          · intro event member
            rcases List.mem_append.mp member with old | new
            · exact own event old
            · rw [List.mem_singleton.mp new]
      · simp [Config.after, shape]
    cases moves with
    | enter body =>
      refine ⟨runs ++ [⟨client, [⟨client, lock, out⟩]⟩], ?_, by simp [Config.after, shape], ?_⟩
      · intro run member
        rcases List.mem_append.mp member with old | new
        · exact stays run old
        · rw [List.mem_singleton.mp new]
          exact ⟨⟨_, [], rfl, rfl, by simp⟩, by simp⟩
      · rintro _ _ ⟨⟩
        exact ⟨runs, _, rfl, rfl⟩
    | work cmd left notLock =>
      obtain ⟨front, stay, stays', same, shape'⟩ := extends_last _ rfl notLock
      refine ⟨front ++ [stay], stays', shape', ?_⟩
      rintro _ _ ⟨⟩
      exact ⟨front, stay, rfl, same⟩
    | leave =>
      obtain ⟨front, stay, stays', same, shape'⟩ := extends_last _ rfl mutex.distinct.symm
      exact ⟨front ++ [stay], stays', shape', nofun⟩
  obtain ⟨-, -, runs, stays, shape, -⟩ := exclusion_keeps mutex plain kept turns owned
    ⟨[], by simp, by simp [fresh], nofun⟩
  exact ⟨runs, stays, shape⟩

variable [DecidableEq Cmd]

/-- In a history of stays, a client's next command is a `lock`. -/
private theorem next_is_lock (client : ι) (runs : List (SectionRun ι Cmd Out))
    (stays : ∀ run ∈ runs, Stay lock run) :
    (((runs.map SectionRun.events).flatten.filter (·.client = client)).takeWhile
      (·.cmd ≠ lock)) = [] := by
  induction runs with
  | nil => rfl
  | cons run runs ih =>
    obtain ⟨⟨first, rest, shape, isLock, -⟩, own⟩ := stays run (by simp)
    rw [List.map_cons, List.flatten_cons, List.filter_append]
    by_cases same : run.client = client
    · have here : first.client = client := (own first (by simp [shape])).trans same
      simp [shape, here, isLock]
    · have none : run.events.filter (·.client = client) = [] := by
        apply List.filter_eq_nil_iff.mpr
        intro event member
        simpa [own event member] using same
      rw [none, List.nil_append]
      exact ih fun run member => stays run (List.mem_cons_of_mem _ member)

private theorem collect_skip (rest later : List (Event ι Cmd Out))
    (others : ∀ event ∈ rest, event.cmd ≠ lock) :
    collect lock (rest ++ later) = collect lock later := by
  induction rest with
  | nil => rfl
  | cons event rest ih =>
    obtain ⟨other, others⟩ := List.forall_mem_cons.mp others
    simp [collect, other, ih others]

/-- Collecting a history of stays finds them. -/
theorem collect_stays (runs : List (SectionRun ι Cmd Out)) (stays : ∀ run ∈ runs, Stay lock run) :
    collect lock (runs.map SectionRun.events).flatten = runs := by
  induction runs with
  | nil => rfl
  | cons run runs ih =>
    obtain ⟨stay, laterStays⟩ := List.forall_mem_cons.mp stays
    obtain ⟨client, events⟩ := run
    obtain ⟨⟨first, rest, rfl, isLock, others⟩, own⟩ := stay
    obtain ⟨rfl, mine⟩ := List.forall_mem_cons.mp own
    have whole : rest.filter (·.client = first.client) = rest :=
      List.filter_eq_self.mpr (by simpa using mine)
    rw [List.map_cons, List.flatten_cons, List.cons_append, collect, if_pos isLock,
      collect_skip rest _ others, ih laterStays, List.filter_append, whole,
      List.takeWhile_append_of_pos (by simpa using others), next_is_lock _ runs laterStays, List.append_nil]

omit [DecidableEq Cmd] in
/-- A client's part of a history of stays is made of its own stays. -/
private theorem filter_stays (client : ι) (runs : List (SectionRun ι Cmd Out))
    (stays : ∀ run ∈ runs, Stay lock run) :
    (runs.map SectionRun.events).flatten.filter (·.client = client) =
      ((runs.filter (·.client = client)).map SectionRun.events).flatten := by
  induction runs with
  | nil => rfl
  | cons run runs ih =>
    obtain ⟨⟨-, own⟩, later⟩ := List.forall_mem_cons.mp stays
    rw [List.map_cons, List.flatten_cons, List.filter_append, ih later]
    by_cases same : run.client = client
    · have whole : run.events.filter (·.client = client) = run.events :=
        List.filter_eq_self.mpr fun event member => by simpa [own event member] using same
      simp [whole, same]
    · have none : run.events.filter (·.client = client) = [] :=
        List.filter_eq_nil_iff.mpr fun event member => by simpa [own event member] using same
      simp [none, same]

/-- Lists that begin with `lock` and have no other are recovered from their
concatenation. -/
private theorem flatten_unique (lock : Cmd) {first second : List (List Cmd)}
    (headed : ∀ cmds ∈ first, ∃ rest, cmds = lock :: rest ∧ lock ∉ rest)
    (headed' : ∀ cmds ∈ second, ∃ rest, cmds = lock :: rest ∧ lock ∉ rest)
    (same : first.flatten = second.flatten) : first = second := by
  have ends : ∀ lists : List (List Cmd), (∀ cmds ∈ lists, ∃ rest, cmds = lock :: rest ∧ lock ∉ rest) →
      lists.flatten.takeWhile (· ≠ lock) = [] := by
    intro lists headed
    cases lists with
    | nil => rfl
    | cons cmds lists =>
      obtain ⟨rest, rfl, -⟩ := headed cmds (by simp)
      simp
  have cut : ∀ (rest : List Cmd) (lists : List (List Cmd)), lock ∉ rest →
      (∀ cmds ∈ lists, ∃ rest, cmds = lock :: rest ∧ lock ∉ rest) →
      (rest ++ lists.flatten).takeWhile (· ≠ lock) = rest := by
    intro rest lists clean headed
    rw [List.takeWhile_append_of_pos, ends lists headed, List.append_nil]
    intro cmd member
    simpa using fun is : cmd = lock => clean (is ▸ member)
  induction first generalizing second with
  | nil =>
    cases second with
    | nil => rfl
    | cons cmds second =>
      obtain ⟨rest, rfl, -⟩ := headed' cmds (by simp)
      simp at same
  | cons cmds first ih =>
    obtain ⟨rest, rfl, clean⟩ := headed cmds (by simp)
    have later := fun cmds member => headed cmds (List.mem_cons_of_mem _ member)
    cases second with
    | nil => simp at same
    | cons cmds second =>
      obtain ⟨rest', rfl, clean'⟩ := headed' cmds (by simp)
      have later' := fun cmds member => headed' cmds (List.mem_cons_of_mem _ member)
      have tails : rest ++ first.flatten = rest' ++ second.flatten := by simpa using same
      have heads : rest = rest' := by
        rw [← cut rest first clean later, tails, cut rest' second clean' later']
      subst heads
      rw [ih later later' (List.append_cancel_left tails)]

omit [DecidableEq ι] [DecidableEq Cmd] in
/-- The commands of successive lists, run alone, are run list by list. -/
theorem serially_of_replay {dev last : Dev} (runs : List (SectionRun ι Cmd Out))
    (ran : replay call dev ((runs.map SectionRun.events).flatten.map Event.cmd) =
      some (last, (runs.map SectionRun.events).flatten.map Event.out)) :
    serially call dev (runs.map SectionRun.cmds) = some (last, runs.map SectionRun.outs) := by
  induction runs generalizing dev with
  | nil =>
    cases ran
    rfl
  | cons run runs ih =>
    simp only [List.map_cons, List.flatten_cons, List.map_append] at ran
    obtain ⟨next, first, second, here, later, same⟩ := replay_append.mp ran
    have width : first.length = (run.events.map Event.out).length := by
      rw [replay_length here, List.length_map, List.length_map]
    obtain ⟨rfl, rfl⟩ := List.append_inj same.symm width
    have here : replay call dev run.cmds = some (next, run.outs) := here
    simp [serially, here, ih later]

/-- **Serialization.** Under every schedule, the critical sections do not overlap:
run one after another, in the order in which their `lock` returned, they end with
the same device and give the same results, and what a client that is done has run
are its sections. -/
theorem sections_serialize {dev : Dev} {sections : ι → List (List Cmd)}
    (mutex : Mutex lock unlock call locked) (free : locked dev = false)
    (plain : ∀ client, ∀ body ∈ sections client, Plain lock unlock body) (turns : List ι) :
    let final := schedule call (start dev fun client => script lock unlock (sections client)) turns
    let runs := collect lock final.history
    serially call dev (runs.map SectionRun.cmds) = some (final.dev, runs.map SectionRun.outs) ∧
      ∀ client, final.todo client = [] →
        (runs.filter (·.client = client)).map SectionRun.cmds =
          (sections client).map (critical lock unlock) := by
  intro final runs
  have owned : Owned lock unlock (Plain lock unlock) locked
      (start dev fun client => script lock unlock (sections client) : Config ι Dev Cmd Out) none :=
    start_owned free plain
  obtain ⟨stays, each, shape⟩ := history_of_stays mutex (fun _ => id) turns owned rfl
  have found : runs = stays := by
    rw [← collect_stays stays each, ← shape]
  refine ⟨?_, fun client done => ?_⟩
  · rw [found]
    refine serially_of_replay stays ?_
    rw [← shape]
    exact schedule_replays call dev _ turns
  · have order := schedule_program_order call dev
      (fun client => script lock unlock (sections client)) turns client
    rw [show (schedule call _ turns).todo client = [] from done, List.append_nil, shape,
      filter_stays client stays each, List.map_flatten, List.map_map] at order
    rw [found]
    refine flatten_unique lock ?_ ?_ order
    · intro cmds member
      obtain ⟨run, inside, rfl⟩ := List.mem_map.mp member
      obtain ⟨⟨first, rest, events, isLock, others⟩, -⟩ := each run (List.mem_of_mem_filter inside)
      refine ⟨rest.map Event.cmd, by simp [SectionRun.cmds, events, isLock], fun member => ?_⟩
      obtain ⟨event, inside, is⟩ := List.mem_map.mp member
      exact others event inside is
    · intro cmds member
      obtain ⟨body, inside, rfl⟩ := List.mem_map.mp member
      refine ⟨body ++ [unlock], rfl, fun member => ?_⟩
      rcases List.mem_append.mp member with within | last
      · exact (plain client body inside lock within).1 rfl
      · exact mutex.distinct (List.mem_singleton.mp last)

end Exclusion

end KernelLabs.Clients
