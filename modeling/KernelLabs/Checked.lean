import Mathlib.Data.List.Basic

/-! Checked execution: what counts as a fault, how checked steps compose, and
how a property of one step extends to a whole run. A run stops at its first
fault, so a run that ends in a state has made only permitted accesses. -/
namespace KernelLabs

/-- What kernel code must never do. -/
inductive Fault
  /-- A list node was used that is not live: freed, poisoned, `NULL` or an error. -/
  | badAccess
  /-- A block was freed that is not allocated. -/
  | badFree
  /-- An index lies outside its array. -/
  | outOfBounds
  /-- A loop made more iterations than it can. -/
  | diverged
  deriving DecidableEq, Repr

namespace Errno

/-- The values of `errno.h`. -/
def esrch : Int := 3
def ebadf : Int := 9
def eagain : Int := 11
def enomem : Int := 12
def efault : Int := 14
def ebusy : Int := 16
def enodev : Int := 19
def einval : Int := 22
def emfile : Int := 24
def enotty : Int := 25

/-- Errors are returned as their negatives. -/
theorem neg_enomem : -enomem < 0 := by decide

theorem neg_ebusy : -ebusy < 0 := by decide

theorem neg_enodev : -enodev < 0 := by decide

theorem neg_einval : -einval < 0 := by decide

end Errno

/-- `_IOC(dir, type, nr, size)`, the numbers of `asm/ioctl.h`. -/
def ioc (dir type nr size : UInt32) : UInt32 := dir <<< 30 ||| size <<< 16 ||| type <<< 8 ||| nr

section Sequence
variable {ε α β : Type}

@[simp] theorem ok_bind (value : α) (next : α → Except ε β) :
    (Except.ok value >>= next) = next value := rfl

@[simp] theorem error_bind (fault : ε) (next : α → Except ε β) :
    ((Except.error fault : Except ε α) >>= next) = .error fault := rfl

@[simp] theorem pure_eq_ok (value : α) : (pure value : Except ε α) = .ok value := rfl

theorem bind_eq_ok {first : Except ε α} {next : α → Except ε β} {result : β} :
    (first >>= next) = .ok result ↔ ∃ value, first = .ok value ∧ next value = .ok result := by
  cases first <;> simp

/-- Where the rest cannot fail, a sequence fails exactly where it starts to. -/
theorem exists_bind_ok {first : Except ε α} {next : α → Except ε β}
    (total : ∀ value, ∃ result, next value = .ok result) :
    (∃ result, (first >>= next) = .ok result) ↔ ∃ value, first = .ok value := by
  constructor
  · rintro ⟨result, ran⟩
    obtain ⟨value, taken, -⟩ := bind_eq_ok.mp ran
    exact ⟨value, taken⟩
  · rintro ⟨value, taken⟩
    obtain ⟨result, ran⟩ := total value
    exact ⟨result, bind_eq_ok.mpr ⟨value, taken, ran⟩⟩

end Sequence

section Runs
variable {σ Action ε : Type} {step : σ → Action → Except ε σ} {state final : σ}
  {action : Action} {actions more : List Action}

/-- The state after a sequence of actions, up to the first fault. -/
def run (step : σ → Action → Except ε σ) (state : σ) (actions : List Action) : Except ε σ :=
  actions.foldlM step state

@[simp] theorem run_nil : run step state [] = .ok state := rfl

@[simp] theorem run_cons :
    run step state (action :: actions) = (step state action >>= fun next => run step next actions) := by
  simp [run]

theorem run_append :
    run step state (actions ++ more) = (run step state actions >>= fun next => run step next more) := by
  simp [run]

/-- Every step of the run is taken in a state in which it is admitted. -/
def Along (admitted : σ → Action → Prop) (step : σ → Action → Except ε σ) :
    σ → List Action → Prop
  | _, [] => True
  | state, action :: actions => admitted state action ∧
    ∀ next, step state action = .ok next → Along admitted step next actions

theorem along_of_forall {admitted : σ → Action → Prop}
    (every : ∀ action ∈ actions, ∀ state, admitted state action) :
    Along admitted step state actions := by
  induction actions generalizing state with
  | nil => trivial
  | cons action actions ih =>
    refine ⟨every action List.mem_cons_self state, fun next _ => ih fun other member => ?_⟩
    exact every other (List.mem_cons_of_mem _ member)

/-- A run can be checked step by step. -/
instance decidableAlong {admitted : σ → Action → Prop} {step : σ → Action → Except ε σ}
    [∀ state action, Decidable (admitted state action)] :
    (state : σ) → (actions : List Action) → Decidable (Along admitted step state actions)
  | _, [] => isTrue trivial
  | state, action :: actions =>
    match taken : step state action with
    | .ok next =>
      haveI : Decidable (Along admitted step next actions) := decidableAlong next actions
      decidable_of_iff (admitted state action ∧ Along admitted step next actions)
        (and_congr_right fun _ => by simp [taken])
    | .error _ =>
      decidable_of_iff (admitted state action)
        (iff_self_and.mpr fun _ next same => by rw [taken] at same; cases same)

/-- An invariant that every admitted step keeps, without a fault, holds at the
end of every admitted run. -/
theorem run_keeps {Inv : σ → Prop} {admitted : σ → Action → Prop}
    (kept : ∀ state action, Inv state → admitted state action →
      ∃ next, step state action = .ok next ∧ Inv next)
    (start : Inv state) (along : Along admitted step state actions) :
    ∃ final, run step state actions = .ok final ∧ Inv final := by
  induction actions generalizing state with
  | nil => exact ⟨state, rfl, start⟩
  | cons action actions ih =>
    obtain ⟨next, taken, inv⟩ := kept state action start along.1
    obtain ⟨final, ran, done⟩ := ih inv (along.2 next taken)
    exact ⟨final, by simp [taken, ran], done⟩

/-- The same for a property of the state and of the actions that led to it. -/
theorem run_keeps_history {admitted : σ → Action → Prop} (Inv : List Action → σ → Prop)
    (kept : ∀ done state action, Inv done state → admitted state action →
      ∃ next, step state action = .ok next ∧ Inv (done ++ [action]) next)
    (start : Inv [] state) (along : Along admitted step state actions) :
    ∃ final, run step state actions = .ok final ∧ Inv actions final := by
  suffices from_done : ∀ done, Inv done state → ∃ final, run step state actions = .ok final ∧
      Inv (done ++ actions) final from from_done [] start
  clear start
  induction actions generalizing state with
  | nil => exact fun done held => ⟨state, rfl, by simpa using held⟩
  | cons action actions ih =>
    intro done held
    obtain ⟨next, taken, inv⟩ := kept done state action held along.1
    obtain ⟨final, ran, last⟩ := ih (along.2 next taken) (done ++ [action]) inv
    exact ⟨final, by simp [taken, ran], by simpa using last⟩

/-- What every admitted step keeps holds at the end of every admitted run that ends
in a state. -/
theorem along_invariant {admitted : σ → Action → Prop} (Inv : σ → Prop)
    (kept : ∀ state action next, Inv state → admitted state action →
      step state action = .ok next → Inv next)
    (start : Inv state) (along : Along admitted step state actions)
    (ran : run step state actions = .ok final) : Inv final := by
  induction actions generalizing state with
  | nil => exact Except.ok.inj ran ▸ start
  | cons action actions ih =>
    obtain ⟨next, taken, rest⟩ := bind_eq_ok.mp (run_cons.symm.trans ran)
    exact ih (kept state action next start along.1 taken) (along.2 next taken) rest

/-- What every step keeps holds at the end of every run that ends in a state. -/
theorem run_invariant (Inv : σ → Prop)
    (kept : ∀ state action next, Inv state → step state action = .ok next → Inv next)
    (start : Inv state) (ran : run step state actions = .ok final) : Inv final := by
  induction actions generalizing state with
  | nil => exact Except.ok.inj ran ▸ start
  | cons action actions ih =>
    obtain ⟨next, taken, rest⟩ := bind_eq_ok.mp (run_cons.symm.trans ran)
    exact ih (kept state action next start taken) rest

/-- The same for a property of the state and of the actions that led to it. -/
theorem run_history (Inv : List Action → σ → Prop)
    (kept : ∀ done state action next, Inv done state → step state action = .ok next →
      Inv (done ++ [action]) next)
    (start : Inv [] state) (ran : run step state actions = .ok final) : Inv actions final := by
  suffices from_done : ∀ done, Inv done state → Inv (done ++ actions) final from from_done [] start
  clear start
  induction actions generalizing state with
  | nil =>
    intro done held
    cases ran
    simpa using held
  | cons action actions ih =>
    intro done held
    obtain ⟨next, taken, rest⟩ := bind_eq_ok.mp (run_cons.symm.trans ran)
    simpa using ih rest (done ++ [action]) (kept done state action next held taken)

/-- Where the admitted steps are exactly the ones without a fault, so are the
admitted runs. -/
theorem run_ok_iff {Inv : σ → Prop} {admitted : σ → Action → Prop}
    (kept : ∀ state action next, Inv state → step state action = .ok next → Inv next)
    (exactly : ∀ state action, Inv state →
      (admitted state action ↔ ∃ next, step state action = .ok next))
    (start : Inv state) :
    (∃ final, run step state actions = .ok final) ↔ Along admitted step state actions := by
  induction actions generalizing state with
  | nil => simp [Along]
  | cons action actions ih =>
    constructor
    · rintro ⟨final, ran⟩
      obtain ⟨next, taken, rest⟩ := bind_eq_ok.mp (run_cons.symm.trans ran)
      refine ⟨(exactly state action start).mpr ⟨next, taken⟩, fun other same => ?_⟩
      rw [taken] at same
      cases same
      exact (ih (kept state action next start taken)).mp ⟨final, rest⟩
    · rintro ⟨fine, along⟩
      obtain ⟨next, taken⟩ := (exactly state action start).mp fine
      obtain ⟨final, ran⟩ := (ih (kept state action next start taken)).mpr (along next taken)
      exact ⟨final, by simp [taken, ran]⟩

theorem along_append {admitted : σ → Action → Prop} :
    Along admitted step state (actions ++ more) ↔ Along admitted step state actions ∧
      ∀ middle, run step state actions = .ok middle → Along admitted step middle more := by
  induction actions generalizing state with
  | nil =>
    constructor
    · intro along
      refine ⟨trivial, fun middle here => ?_⟩
      cases here
      exact along
    · intro along
      exact along.2 state rfl
  | cons action actions ih =>
    constructor
    · rintro ⟨fine, along⟩
      refine ⟨⟨fine, fun next taken => (ih.mp (along next taken)).1⟩, fun middle ran => ?_⟩
      obtain ⟨next, taken, rest⟩ := bind_eq_ok.mp (run_cons.symm.trans ran)
      exact (ih.mp (along next taken)).2 middle rest
    · rintro ⟨⟨fine, along⟩, later⟩
      refine ⟨fine, fun next taken => ih.mpr ⟨along next taken, fun middle ran => ?_⟩⟩
      exact later middle (by rw [run_cons, taken, ok_bind, ran])

/-- What admits more steps admits more runs. -/
theorem along_mono {admitted admitted' : σ → Action → Prop} (Inv : σ → Prop)
    (kept : ∀ state action next, Inv state → step state action = .ok next → Inv next)
    (wider : ∀ state action, Inv state → admitted state action → admitted' state action)
    (start : Inv state) (along : Along admitted step state actions) :
    Along admitted' step state actions := by
  induction actions generalizing state with
  | nil => trivial
  | cons action actions ih =>
    refine ⟨wider state action start along.1, fun next taken => ?_⟩
    exact ih (kept state action next start taken) (along.2 next taken)

/-- An admitted run is one whose every step is admitted in the state that the steps
before it lead to. -/
theorem along_iff_everywhere {admitted : σ → Action → Prop} :
    Along admitted step state actions ↔ ∀ before action rest reached,
      actions = before ++ action :: rest → run step state before = .ok reached → admitted reached action := by
  induction actions generalizing state with
  | nil => simp [Along]
  | cons action actions ih =>
    constructor
    · rintro ⟨fine, along⟩ before other rest reached whole ran
      cases before with
      | nil =>
        cases whole
        cases ran
        exact fine
      | cons first before =>
        obtain ⟨rfl, same⟩ := List.cons_eq_cons.mp whole
        obtain ⟨next, taken, later⟩ := bind_eq_ok.mp (run_cons.symm.trans ran)
        exact ih.mp (along next taken) before other rest reached same later
    · intro every
      refine ⟨every [] action actions state rfl rfl, fun next taken => ih.mpr ?_⟩
      intro before other rest reached whole ran
      exact every (action :: before) other rest reached (by rw [whole, List.cons_append])
        (by rw [run_cons, taken, ok_bind, ran])

/-- Conditions that agree as long as one of them holds admit the same runs. -/
theorem along_congr {admitted admitted' : σ → Action → Prop} (Inv : σ → Prop)
    (kept : ∀ state action next, Inv state → admitted state action → step state action = .ok next → Inv next)
    (same : ∀ state action, Inv state → (admitted state action ↔ admitted' state action))
    (start : Inv state) : Along admitted step state actions ↔ Along admitted' step state actions := by
  induction actions generalizing state with
  | nil => rfl
  | cons action actions ih =>
    rw [Along, Along, same state action start]
    refine and_congr_right fun fine => forall₂_congr fun next taken => ?_
    exact ih (kept state action next start ((same state action start).mpr fine) taken)

/-- Where no step faults in a state with a property, and the admitted steps are exactly
the ones that keep it, the admitted runs are exactly those that have it all along. -/
theorem along_iff_of_total {Inv : σ → Prop} {admitted : σ → Action → Prop}
    (total : ∀ state action, Inv state → ∃ next, step state action = .ok next)
    (exactly : ∀ state action next, Inv state → step state action = .ok next →
      (Inv next ↔ admitted state action))
    (start : Inv state) :
    (∀ before rest reached, actions = before ++ rest → run step state before = .ok reached →
      Inv reached) ↔ Along admitted step state actions := by
  induction actions generalizing state with
  | nil =>
    refine ⟨fun _ => trivial, fun _ before rest reached whole ran => ?_⟩
    obtain ⟨rfl, -⟩ := List.append_eq_nil_iff.mp whole.symm
    cases ran
    exact start
  | cons action actions ih =>
    obtain ⟨next, taken⟩ := total state action start
    have here := exactly state action next start taken
    constructor
    · intro always
      have kept := always [action] actions next rfl (by rw [run_cons, taken, ok_bind, run_nil])
      refine ⟨here.mp kept, fun other same => ?_⟩
      rw [taken] at same
      cases same
      refine (ih kept).mp fun before rest reached whole ran => ?_
      exact always (action :: before) rest reached (by rw [whole, List.cons_append])
        (by rw [run_cons, taken, ok_bind, ran])
    · rintro ⟨fine, along⟩ before rest reached whole ran
      cases before with
      | nil =>
        cases ran
        exact start
      | cons first before =>
        obtain ⟨rfl, same⟩ := List.cons_eq_cons.mp whole
        rw [run_cons, taken, ok_bind] at ran
        exact (ih (here.mpr fine)).mpr (along next taken) before rest reached same ran

/-- The same where no step faults at all. -/
theorem along_iff {Inv : σ → Prop} {admitted : σ → Action → Prop}
    (total : ∀ state action, ∃ next, step state action = .ok next)
    (exactly : ∀ state action next, Inv state → step state action = .ok next →
      (Inv next ↔ admitted state action))
    (start : Inv state) :
    (∀ before rest reached, actions = before ++ rest → run step state before = .ok reached →
      Inv reached) ↔ Along admitted step state actions :=
  along_iff_of_total (fun state action _ => total state action) exactly start

/-- A run that faults does so at one of its steps. -/
theorem run_fault {fault : ε} (faults : run step state actions = .error fault) :
    ∃ before action rest reached, actions = before ++ action :: rest ∧
      run step state before = .ok reached ∧ step reached action = .error fault := by
  induction actions generalizing state with
  | nil => cases faults
  | cons action actions ih =>
    rw [run_cons] at faults
    cases taken : step state action with
    | error first =>
      rw [taken, error_bind] at faults
      cases faults
      exact ⟨[], action, actions, state, rfl, rfl, taken⟩
    | ok next =>
      rw [taken, ok_bind] at faults
      obtain ⟨before, other, rest, reached, whole, ran, fails⟩ := ih faults
      exact ⟨action :: before, other, rest, reached, by rw [whole, List.cons_append],
        by rw [run_cons, taken, ok_bind, ran], fails⟩

/-- Where every state short of the goal has a step that lowers a measure, the goal can
be reached. -/
theorem run_reaches (Inv : σ → Prop) {Goal : σ → Prop} (measure : σ → Nat)
    (progress : ∀ state, Inv state → ¬ Goal state →
      ∃ action next, step state action = .ok next ∧ Inv next ∧ measure next < measure state)
    (start : Inv state) : ∃ actions final, run step state actions = .ok final ∧ Goal final := by
  induction bound : measure state using Nat.strongRecOn generalizing state with
  | ind bound ih =>
    by_cases done : Goal state
    · exact ⟨[], state, rfl, done⟩
    · obtain ⟨action, next, taken, inv, less⟩ := progress state start done
      obtain ⟨actions, final, ran, reached⟩ := ih (measure next) (by omega) inv rfl
      exact ⟨action :: actions, final, by rw [run_cons, taken, ok_bind, ran], reached⟩

/-- Where every counted step takes one from a rank that only the refilling steps raise, a
run has no more counted steps than its first rank and its refills allow. -/
theorem run_bounded (Inv : Nat → σ → Prop) {admitted : σ → Action → Prop} {counted refills : Action → Bool}
    {cost rank : Nat}
    (steps : ∀ rank state action next, Inv rank state → admitted state action →
      step state action = .ok next → ∃ rank', Inv rank' next ∧
        rank' + (counted action).toNat ≤ rank + cost * (refills action).toNat)
    (start : Inv rank state) (along : Along admitted step state actions)
    (ran : run step state actions = .ok final) : ∃ rank', Inv rank' final ∧
      rank' + actions.countP counted ≤ rank + cost * actions.countP refills := by
  induction actions generalizing state rank with
  | nil =>
    cases ran
    exact ⟨rank, start, Nat.le_refl _⟩
  | cons action actions ih =>
    obtain ⟨next, taken, rest⟩ := bind_eq_ok.mp (run_cons.symm.trans ran)
    obtain ⟨middle, inv, less⟩ := steps rank state action next start along.1 taken
    obtain ⟨last, inv', less'⟩ := ih inv (along.2 next taken) rest
    refine ⟨last, inv', ?_⟩
    have one (counts : Action → Bool) :
        (action :: actions).countP counts = actions.countP counts + (counts action).toNat := by
      rw [List.countP_cons]
      cases counts action <;> rfl
    rw [one counted, one refills, Nat.mul_add]
    omega

/-- The replies to a sequence of calls, and the state after them. -/
def answers {Reply : Type} (call : σ → Action → Except ε (σ × Reply)) (state : σ) :
    List Action → Except ε (σ × List Reply)
  | [] => .ok (state, [])
  | action :: actions => do
    let (next, reply) ← call state action
    let (final, replies) ← answers call next actions
    return (final, reply :: replies)

/-- The state after a call, its reply forgotten. -/
def settle {Reply : Type} (call : σ → Action → Except ε (σ × Reply)) (state : σ) (action : Action) :
    Except ε σ := do
  let (next, _) ← call state action
  return next

/-- Two runs of the same calls reply the same exactly when each of their calls does. -/
theorem answers_agree_iff {Reply : Type} {call : σ → Action → Except ε (σ × Reply)}
    {Alike : σ → σ → Prop} {agree : σ → Action → Prop} {other : σ}
    (steps : ∀ state other action, Alike state other → ∃ next next' reply reply',
      call state action = .ok (next, reply) ∧ call other action = .ok (next', reply') ∧
      Alike next next' ∧ (reply = reply' ↔ agree state action))
    (start : Alike state other) : ∃ final final' replies replies',
      answers call state actions = .ok (final, replies) ∧
      answers call other actions = .ok (final', replies') ∧
      (replies = replies' ↔ Along agree (settle call) state actions) := by
  induction actions generalizing state other with
  | nil => exact ⟨state, other, [], [], rfl, rfl, iff_of_true rfl trivial⟩
  | cons action actions ih =>
    obtain ⟨next, next', reply, reply', left, right, alike, same⟩ := steps state other action start
    obtain ⟨final, final', replies, replies', lefts, rights, sames⟩ := ih alike
    refine ⟨final, final', reply :: replies, reply' :: replies',
      by simp only [answers, left, lefts, ok_bind, pure_eq_ok],
      by simp only [answers, right, rights, ok_bind, pure_eq_ok], ?_⟩
    have settled : settle call state action = .ok next := by simp only [settle, left, ok_bind, pure_eq_ok]
    rw [List.cons_eq_cons, same, sames, Along, settled]
    refine and_congr_right fun _ => ⟨fun along after taken => ?_, fun along => along next rfl⟩
    cases taken
    exact along

end Runs

end KernelLabs
