import KernelLabs.Checked
import Mathlib.Data.List.Nodup
import Mathlib.Logic.Function.Basic

/-! Programs as the system calls they make, and processes that run programs at the same
time, one call of any of them after another. Where each program takes something that one
process can have at a time, and uses nothing else, what the processes do is what their
programs do one after another, without those that found it taken. -/
namespace KernelLabs.UserPrograms

/-- A program exits, or makes a call and goes on with what is replied. -/
inductive Program (Call Reply Result : Type)
  | exit (result : Result)
  | call (request : Call) (next : Reply → Program Call Reply Result)

variable {σ ι Call Reply Result Other : Type}

namespace Program

/-- A program, and what follows it. -/
def andThen : Program Call Reply Result → (Result → Program Call Reply Other) →
    Program Call Reply Other
  | exit result, rest => rest result
  | call request next, rest => .call request fun reply => (next reply).andThen rest

instance : Monad (Program Call Reply) where
  pure := exit
  bind := andThen

/-- One call. -/
def perform (request : Call) : Program Call Reply Reply := .call request .exit

@[simp] theorem pure_eq (result : Result) : (pure result : Program Call Reply Result) = .exit result := rfl

@[simp] theorem exit_bind (result : Result) (rest : Result → Program Call Reply Other) :
    (exit result >>= rest) = rest result := rfl

@[simp] theorem call_bind (request : Call) (next : Reply → Program Call Reply Result)
    (rest : Result → Program Call Reply Other) :
    (call request next >>= rest) = .call request fun reply => next reply >>= rest := rfl

@[simp] theorem perform_bind (request : Call) (rest : Reply → Program Call Reply Result) :
    (perform request >>= rest) = .call request rest := rfl

theorem bind_bind {Last : Type} (program : Program Call Reply Result) (rest : Result → Program Call Reply Other)
    (last : Other → Program Call Reply Last) :
    (program >>= rest >>= last) = program >>= fun result => rest result >>= last := by
  induction program with
  | exit result => rfl
  | call request next ih =>
    simp only [call_bind, call.injEq, true_and]
    exact funext ih

/-- The program, run with nothing else going on. -/
def alone (serve : σ → Call → Except Fault (σ × Reply)) (state : σ) :
    Program Call Reply Result → Except Fault (σ × Result)
  | exit result => .ok (state, result)
  | call request next => do
    let (state, reply) ← serve state request
    (next reply).alone serve state

/-- What the program comes to if nothing is there for it. -/
def refused (refusal : Call → Reply) : Program Call Reply Result → Result
  | exit result => result
  | call request next => (next (refusal request)).refused refusal

/-- Whatever is replied, the program makes only these calls. -/
def Only (uses : Call → Prop) : Program Call Reply Result → Prop
  | exit _ => True
  | call request next => uses request ∧ ∀ reply, (next reply).Only uses

theorem Only.andThen {uses : Call → Prop} {program : Program Call Reply Result}
    {rest : Result → Program Call Reply Other} (first : program.Only uses)
    (later : ∀ result, (rest result).Only uses) : (program >>= rest).Only uses := by
  induction program with
  | exit result => exact later result
  | call request next ih => exact ⟨first.1, fun reply => ih reply (first.2 reply)⟩

theorem alone_call {serve : σ → Call → Except Fault (σ × Reply)} {state after : σ} {request : Call} {reply : Reply}
    {next : Reply → Program Call Reply Result} (served : serve state request = .ok (after, reply)) :
    (call request next).alone serve state = (next reply).alone serve after := by
  rw [alone, served, ok_bind]

end Program

open Program

/-- Processes, each with what is left of its program. -/
structure Processes (σ ι Call Reply Result : Type) where
  state : σ
  program : ι → Program Call Reply Result

/-- A process makes its next call. -/
def turn [DecidableEq ι] (serve : σ → Call → Except Fault (σ × Reply))
    (processes : Processes σ ι Call Reply Result) (i : ι) : Except Fault (Processes σ ι Call Reply Result) :=
  match processes.program i with
  | .exit _ => .ok processes
  | .call request next => do
    let (state, reply) ← serve processes.state request
    return ⟨state, Function.update processes.program i (next reply)⟩

/-- One whole program after another. -/
def session (serve : σ → Call → Except Fault (σ × Reply)) (main : ι → Program Call Reply Result) (state : σ)
    (i : ι) : Except Fault σ := do
  let (state, _) ← (main i).alone serve state
  return state

/-- Something that one process can have at a time. A process takes it with one call,
uses it with others, and has no use for it otherwise. -/
structure Exclusive (serve : σ → Call → Except Fault (σ × Reply)) (Inv : σ → Prop) (Has : σ → ι → Prop)
    (takes : ι → Call) (uses : ι → Call → Prop) (refusal : Call → Reply) : Prop where
  kept : ∀ {state i request next reply}, Inv state → request = takes i ∨ uses i request →
    serve state request = .ok (next, reply) → Inv next ∧ ∀ j, j ≠ i → (Has next j ↔ Has state j)
  alone : ∀ {state i j}, Inv state → Has state i → Has state j → j = i
  free : ∀ {state} i, Inv state → (∀ j, ¬ Has state j) →
    ∃ next reply, serve state (takes i) = .ok (next, reply) ∧ Has next i
  taken : ∀ {state i j}, Inv state → ¬ Has state i → Has state j →
    serve state (takes i) = .ok (state, refusal (takes i))
  idle : ∀ {state i request}, Inv state → ¬ Has state i → uses i request →
    serve state request = .ok (state, refusal request)

/-- The program takes it first, or never. -/
def Session (takes : Call) (uses : Call → Prop) (program : Program Call Reply Result) : Prop :=
  program.Only uses ∨ ∃ next, program = .call takes next ∧ ∀ reply, (next reply).Only uses

section Serial
variable {serve : σ → Call → Except Fault (σ × Reply)} {Inv : σ → Prop} {Has : σ → ι → Prop}
  {takes : ι → Call} {uses : ι → Call → Prop} {refusal : Call → Reply} {i : ι}

/-- Without what it takes, a program is refused to its end. -/
theorem Exclusive.refuses (exclusive : Exclusive serve Inv Has takes uses refusal) {state : σ} (inv : Inv state)
    (hasNot : ¬ Has state i) {program : Program Call Reply Result} (only : program.Only (uses i)) :
    program.alone serve state = .ok (state, program.refused refusal) := by
  induction program with
  | exit result => rfl
  | call request next ih =>
    rw [alone_call (exclusive.idle inv hasNot only.1)]
    exact ih _ (only.2 _)

/-- A whole session leaves what others have to them. -/
theorem Exclusive.session_kept (exclusive : Exclusive serve Inv Has takes uses refusal) {state next : σ}
    {program : Program Call Reply Result} {result : Result} (session : Session (takes i) (uses i) program)
    (inv : Inv state) (ran : program.alone serve state = .ok (next, result)) :
    Inv next ∧ ∀ j, j ≠ i → (Has next j ↔ Has state j) := by
  have rest {program : Program Call Reply Result} {state : σ} (only : program.Only (uses i)) (inv : Inv state)
      (ran : program.alone serve state = .ok (next, result)) :
      Inv next ∧ ∀ j, j ≠ i → (Has next j ↔ Has state j) := by
    induction program generalizing state with
    | exit result =>
      cases ran
      exact ⟨inv, fun _ _ => Iff.rfl⟩
    | call request later ih =>
      obtain ⟨⟨middle, reply⟩, served, ran⟩ := bind_eq_ok.mp ran
      obtain ⟨inv', others⟩ := exclusive.kept inv (.inr only.1) served
      obtain ⟨done, others'⟩ := ih reply (only.2 reply) inv' ran
      exact ⟨done, fun j apart => (others' j apart).trans (others j apart)⟩
  rcases session with only | ⟨later, rfl, only⟩
  · exact rest only inv ran
  · obtain ⟨⟨middle, reply⟩, served, ran⟩ := bind_eq_ok.mp ran
    obtain ⟨inv', others⟩ := exclusive.kept inv (.inl rfl) served
    obtain ⟨done, others'⟩ := rest (only reply) inv' ran
    exact ⟨done, fun j apart => (others' j apart).trans (others j apart)⟩

variable [DecidableEq ι] {main : ι → Program Call Reply Result} {start : σ} {turns : List ι}

/-- When process `i` made its first call, another one had what it takes. -/
def CameLate (serve : σ → Call → Except Fault (σ × Reply)) (Has : σ → ι → Prop)
    (main : ι → Program Call Reply Result) (start : σ) (turns : List ι) (i : ι) : Prop :=
  ∃ before after reached j, turns = before ++ i :: after ∧ run (turn serve) ⟨start, main⟩ before = .ok reached ∧
    reached.program i = main i ∧ j ≠ i ∧ Has reached.state j

/-- Run after the programs of these processes, the program of `i` comes to this result. -/
def ComesTo (serve : σ → Call → Except Fault (σ × Reply)) (main : ι → Program Call Reply Result) (start : σ)
    (before : List ι) (i : ι) (result : Result) : Prop :=
  ∃ base next, run (session serve main) start before = .ok base ∧
    (main i).alone serve base = .ok (next, result)

/-- What the turns so far amount to: the programs of the processes in `order` one after
another, and some calls of the process that has what they had. -/
structure Serial (serve : σ → Call → Except Fault (σ × Reply)) (Inv : σ → Prop) (Has : σ → ι → Prop)
    (takes : ι → Call) (uses : ι → Call → Prop) (refusal : Call → Reply)
    (main : ι → Program Call Reply Result) (start : σ) (turns : List ι)
    (processes : Processes σ ι Call Reply Result) (order : List ι) (base : σ) : Prop where
  inv : Inv processes.state
  nodup : order.Nodup
  ran : run (session serve main) start order = .ok base
  finished : ∀ i ∈ order, ¬ Has processes.state i ∧ (processes.program i).Only (uses i) ∧
    ∃ before rest, order = before ++ i :: rest ∧
      ComesTo serve main start before i ((processes.program i).refused refusal)
  inside : ∀ i, Has processes.state i → i ∉ order ∧ (processes.program i).Only (uses i) ∧
    (main i).alone serve base = (processes.program i).alone serve processes.state
  settled : (∀ i, ¬ Has processes.state i) → processes.state = base
  outside : ∀ i, i ∉ order → ¬ Has processes.state i → processes.program i = main i ∨
    (processes.program i).Only (uses i) ∧
      (processes.program i).refused refusal = (main i).refused refusal ∧
      ((main i).Only (uses i) ∨ CameLate serve Has main start turns i)

variable {processes next : Processes σ ι Call Reply Result} {order : List ι} {base : σ}

/-- What a turn does: nothing, or one call. -/
theorem turn_cases (taken : turn serve processes i = .ok next) :
    next = processes ∨ ∃ request rest state reply, processes.program i = .call request rest ∧
      serve processes.state request = .ok (state, reply) ∧
      next = ⟨state, Function.update processes.program i (rest reply)⟩ := by
  unfold turn at taken
  cases here : processes.program i with
  | exit result =>
    rw [here] at taken
    cases taken
    exact .inl rfl
  | call request rest =>
    rw [here] at taken
    obtain ⟨⟨state, reply⟩, served, same⟩ := bind_eq_ok.mp taken
    cases same
    exact .inr ⟨request, rest, state, reply, rfl, served, rfl⟩

theorem CameLate.later {turns' : List ι} (late : CameLate serve Has main start turns i) :
    CameLate serve Has main start (turns ++ turns') i := by
  obtain ⟨before, after, reached, j, rfl, ran, still, other, has⟩ := late
  exact ⟨before, after ++ turns', reached, j, by simp, ran, still, other, has⟩

theorem start_serial (exclusive : Inv start) (free : ∀ i, ¬ Has start i) :
    Serial serve Inv Has takes uses refusal main start [] ⟨start, main⟩ [] start where
  inv := exclusive
  nodup := List.nodup_nil
  ran := rfl
  finished _ member := absurd member List.not_mem_nil
  inside i has := absurd has (free i)
  settled _ := rfl
  outside _ _ _ := .inl rfl

/-- A call that is refused. -/
theorem Serial.refused_call {request : Call} {rest : Reply → Program Call Reply Result}
    (serial : Serial serve Inv Has takes uses refusal main start turns processes order base)
    (hasNot : ¬ Has processes.state i) (only : (rest (refusal request)).Only (uses i))
    (same : (processes.program i).refused refusal = (rest (refusal request)).refused refusal)
    (fresh : i ∉ order → (rest (refusal request)).refused refusal = (main i).refused refusal ∧
      ((main i).Only (uses i) ∨ CameLate serve Has main start (turns ++ [i]) i)) :
    Serial serve Inv Has takes uses refusal main start (turns ++ [i])
      ⟨processes.state, Function.update processes.program i (rest (refusal request))⟩ order base where
  inv := serial.inv
  nodup := serial.nodup
  ran := serial.ran
  finished j member := by
    obtain ⟨without, only', comes⟩ := serial.finished j member
    by_cases here : j = i
    · subst here
      simp only [Function.update_self]
      exact ⟨without, only, same ▸ comes⟩
    · simp only [Function.update_of_ne here]
      exact ⟨without, only', comes⟩
  inside j has := by
    have apart : j ≠ i := by
      rintro rfl
      exact hasNot has
    simp only [Function.update_of_ne apart]
    exact serial.inside j has
  settled := serial.settled
  outside j absent without := by
    by_cases here : j = i
    · subst here
      simp only [Function.update_self]
      exact .inr ⟨only, fresh absent⟩
    · simp only [Function.update_of_ne here]
      exact (serial.outside j absent without).imp_right fun ⟨only, same, late⟩ =>
        ⟨only, same, late.imp_right CameLate.later⟩

/-- A call of the process that has it, after which it still has it. -/
theorem Serial.used {state : σ} {program : Program Call Reply Result}
    (serial : Serial serve Inv Has takes uses refusal main start turns processes order base)
    (exclusive : Exclusive serve Inv Has takes uses refusal) (inv : Inv state)
    (others : ∀ j, j ≠ i → (Has state j ↔ Has processes.state j)) (alone : ∀ j, j ≠ i → ¬ Has processes.state j)
    (absent : i ∉ order) (has : Has state i) (only : program.Only (uses i))
    (same : (main i).alone serve base = program.alone serve state) :
    Serial serve Inv Has takes uses refusal main start (turns ++ [i])
      ⟨state, Function.update processes.program i program⟩ order base where
  inv := inv
  nodup := serial.nodup
  ran := serial.ran
  finished j member := by
    have apart : j ≠ i := by
      rintro rfl
      exact absent member
    obtain ⟨without, only', comes⟩ := serial.finished j member
    simp only [Function.update_of_ne apart]
    exact ⟨mt (others j apart).mp without, only', comes⟩
  inside j has' := by
    obtain rfl := exclusive.alone inv has has'
    simp only [Function.update_self]
    exact ⟨absent, only, same⟩
  settled none_has := absurd has (none_has i)
  outside j absent' without := by
    have apart : j ≠ i := by
      rintro rfl
      exact without has
    simp only [Function.update_of_ne apart]
    exact (serial.outside j absent' (alone j apart)).imp_right fun ⟨only, same, late⟩ =>
      ⟨only, same, late.imp_right CameLate.later⟩

/-- A call with which the process that has it gives it back. -/
theorem Serial.gave_back {state : σ} {program : Program Call Reply Result}
    (serial : Serial serve Inv Has takes uses refusal main start turns processes order base)
    (exclusive : Exclusive serve Inv Has takes uses refusal) (inv : Inv state)
    (others : ∀ j, j ≠ i → (Has state j ↔ Has processes.state j)) (alone : ∀ j, j ≠ i → ¬ Has processes.state j)
    (absent : i ∉ order) (without : ¬ Has state i) (only : program.Only (uses i))
    (same : (main i).alone serve base = program.alone serve state) :
    Serial serve Inv Has takes uses refusal main start (turns ++ [i])
      ⟨state, Function.update processes.program i program⟩ (order ++ [i]) state where
  inv := inv
  nodup := by
    rw [List.nodup_append]
    refine ⟨serial.nodup, List.nodup_singleton i, fun j member other last => ?_⟩
    rw [List.mem_singleton.mp last]
    rintro rfl
    exact absent member
  ran := by
    rw [run_append, serial.ran, ok_bind, run_cons]
    simp only [session, same, exclusive.refuses inv without only, ok_bind, pure_eq_ok, run_nil]
  finished j member := by
    rcases List.mem_append.mp member with earlier | last
    · have apart : j ≠ i := by
        rintro rfl
        exact absent earlier
      obtain ⟨-, only', before, rest, rfl, comes⟩ := serial.finished j earlier
      simp only [Function.update_of_ne apart]
      exact ⟨mt (others j apart).mp (alone j apart), only', before, rest ++ [i], by simp, comes⟩
    · obtain rfl := List.mem_singleton.mp last
      simp only [Function.update_self]
      exact ⟨without, only, order, [], rfl, base, state, serial.ran,
        same.trans (exclusive.refuses inv without only)⟩
  inside j has := by
    have apart : j ≠ i := by
      rintro rfl
      exact without has
    exact absurd ((others j apart).mp has) (alone j apart)
  settled _ := rfl
  outside j absent' without' := by
    have apart : j ≠ i := by
      rintro rfl
      exact absent' (List.mem_append_right _ List.mem_cons_self)
    simp only [Function.update_of_ne apart]
    exact (serial.outside j (mt (List.mem_append_left _) absent') (alone j apart)).imp_right
      fun ⟨only, same, late⟩ => ⟨only, same, late.imp_right CameLate.later⟩

/-- What any turn amounts to. -/
theorem turn_serial (exclusive : Exclusive serve Inv Has takes uses refusal)
    (sessions : ∀ i, Session (takes i) (uses i) (main i))
    (serial : Serial serve Inv Has takes uses refusal main start turns processes order base)
    (ran : run (turn serve) ⟨start, main⟩ turns = .ok processes) (taken : turn serve processes i = .ok next) :
    ∃ order base, Serial serve Inv Has takes uses refusal main start (turns ++ [i]) next order base := by
  rcases turn_cases taken with rfl | ⟨request, rest, state, reply, here, served, rfl⟩
  · refine ⟨order, base, { serial with outside := fun j absent without => ?_ }⟩
    exact (serial.outside j absent without).imp_right fun ⟨only, same, late⟩ =>
      ⟨only, same, late.imp_right CameLate.later⟩
  by_cases has : Has processes.state i
  · obtain ⟨absent, only, same⟩ := serial.inside i has
    rw [here] at only same
    rw [alone_call served] at same
    obtain ⟨inv, others⟩ := exclusive.kept serial.inv (.inr only.1) served
    have alone : ∀ j, j ≠ i → ¬ Has processes.state j := fun j apart has' =>
      apart (exclusive.alone serial.inv has has')
    by_cases still : Has state i
    · exact ⟨order, base, serial.used exclusive inv others alone absent still (only.2 reply) same⟩
    · exact ⟨order ++ [i], state, serial.gave_back exclusive inv others alone absent still (only.2 reply) same⟩
  -- a process without it either goes on without it, or asks for it now
  by_cases member : i ∈ order
  · obtain ⟨-, only, -⟩ := serial.finished i member
    rw [here] at only
    cases served.symm.trans (exclusive.idle serial.inv has only.1)
    exact ⟨order, base, serial.refused_call has (only.2 _) (by rw [here]; rfl) (absurd member)⟩
  have goes_without (only : (processes.program i).Only (uses i))
      (same : (processes.program i).refused refusal = (main i).refused refusal)
      (late : (main i).Only (uses i) ∨ CameLate serve Has main start turns i) :
      ∃ order base, Serial serve Inv Has takes uses refusal main start (turns ++ [i])
        ⟨state, Function.update processes.program i (rest reply)⟩ order base := by
    rw [here] at only same
    cases served.symm.trans (exclusive.idle serial.inv has only.1)
    exact ⟨order, base, serial.refused_call has (only.2 _) (by rw [here]; rfl)
      fun _ => ⟨same, late.imp_right CameLate.later⟩⟩
  rcases serial.outside i member has with fresh | ⟨only, same, late⟩
  swap
  · exact goes_without only same late
  rcases sessions i with only | ⟨next, first, only⟩
  · exact goes_without (by rw [fresh]; exact only) (by rw [fresh]) (.inl only)
  have opening := here
  rw [fresh, first] at opening
  cases opening
  by_cases other : ∃ j, Has processes.state j
  · obtain ⟨j, has'⟩ := other
    cases served.symm.trans (exclusive.taken serial.inv has has')
    refine ⟨order, base, serial.refused_call has (only _) (by rw [here]; rfl)
      fun _ => ⟨by rw [first]; rfl, .inr ?_⟩⟩
    refine ⟨turns, [], processes, j, rfl, ran, fresh, ?_, has'⟩
    rintro rfl
    exact has has'
  · have none_has : ∀ j, ¬ Has processes.state j := fun j has' => other ⟨j, has'⟩
    obtain ⟨inv, others⟩ := exclusive.kept serial.inv (.inl rfl) served
    obtain ⟨state', reply', served', has'⟩ := exclusive.free i serial.inv none_has
    cases served.symm.trans served'
    refine ⟨order, base, serial.used exclusive inv others (fun j _ => none_has j) member has' (only reply) ?_⟩
    rw [first, ← serial.settled none_has]
    exact alone_call served

/-- Where a turn faults, so does the program of the process that has its turn, after the
programs of those that came before it. -/
theorem turn_fault (exclusive : Exclusive serve Inv Has takes uses refusal)
    (sessions : ∀ i, Session (takes i) (uses i) (main i))
    (serial : Serial serve Inv Has takes uses refusal main start turns processes order base) {fault : Fault}
    (faults : turn serve processes i = .error fault) : i ∉ order ∧ (main i).alone serve base = .error fault := by
  cases here : processes.program i with
  | exit result =>
    simp only [turn, here] at faults
    cases faults
  | call request rest =>
    have served : serve processes.state request = .error fault := by
      simp only [turn, here] at faults
      cases done : serve processes.state request with
      | error other =>
        rw [done, error_bind] at faults
        cases faults
        rfl
      | ok result =>
        rw [done, ok_bind] at faults
        cases faults
    by_cases has : Has processes.state i
    · obtain ⟨absent, -, same⟩ := serial.inside i has
      exact ⟨absent, by rw [same, here, alone, served, error_bind]⟩
    have clear (only : (processes.program i).Only (uses i)) : False := by
      rw [here] at only
      cases served.symm.trans (exclusive.idle serial.inv has only.1)
    by_cases member : i ∈ order
    · exact (clear (serial.finished i member).2.1).elim
    rcases serial.outside i member has with fresh | ⟨only, -⟩
    · rcases sessions i with only | ⟨next, first, only⟩
      · exact (clear (by rw [fresh]; exact only)).elim
      · have opening := here
        rw [fresh, first] at opening
        cases opening
        by_cases other : ∃ j, Has processes.state j
        · obtain ⟨j, has'⟩ := other
          cases served.symm.trans (exclusive.taken serial.inv has has')
        · obtain ⟨state', reply', served', -⟩ := exclusive.free i serial.inv fun j has' => other ⟨j, has'⟩
          cases served.symm.trans served'
    · exact (clear only).elim

theorem run_serial (exclusive : Exclusive serve Inv Has takes uses refusal)
    (sessions : ∀ i, Session (takes i) (uses i) (main i)) (inv : Inv start) (free : ∀ i, ¬ Has start i)
    (ran : run (turn serve) ⟨start, main⟩ turns = .ok processes) :
    ∃ order base, Serial serve Inv Has takes uses refusal main start turns processes order base := by
  have both : run (turn serve) ⟨start, main⟩ turns = .ok processes ∧
      ∃ order base, Serial serve Inv Has takes uses refusal main start turns processes order base := by
    refine run_history (fun turns processes => run (turn serve) ⟨start, main⟩ turns = .ok processes ∧
      ∃ order base, Serial serve Inv Has takes uses refusal main start turns processes order base)
      ?_ ⟨rfl, [], start, start_serial inv free⟩ ran
    rintro turns processes i next ⟨ran, order, base, serial⟩ taken
    exact ⟨by rw [run_append, ran, ok_bind, run_cons, taken, ok_bind, run_nil],
      turn_serial exclusive sessions serial ran taken⟩
  exact both.2

/-- **Sessions do not overlap.** If the programs, run one after another, never fault, then
the processes never do either, however they take turns. There is an order of some of them
such that the program of each came to what it comes to after those before it; each of the
others never asked for what they share or found it taken, and was refused to its end. -/
theorem sessions_serialize (exclusive : Exclusive serve Inv Has takes uses refusal)
    (sessions : ∀ i, Session (takes i) (uses i) (main i)) (inv : Inv start) (free : ∀ i, ¬ Has start i)
    (total : ∀ order i base, run (session serve main) start order = .ok base → i ∉ order →
      ∃ result, (main i).alone serve base = .ok result) (turns : List ι) :
    ∃ processes order, run (turn serve) ⟨start, main⟩ turns = .ok processes ∧ order.Nodup ∧
      ∀ i result, processes.program i = .exit result →
        (∃ before rest, order = before ++ i :: rest ∧ ComesTo serve main start before i result) ∨
        i ∉ order ∧ result = (main i).refused refusal ∧
          ((main i).Only (uses i) ∨ CameLate serve Has main start turns i) := by
  cases ran : run (turn serve) ⟨start, main⟩ turns with
  | error fault =>
    obtain ⟨before, i, rest, reached, -, went, faults⟩ := run_fault ran
    obtain ⟨order, base, serial⟩ := run_serial exclusive sessions inv free went
    obtain ⟨absent, alone⟩ := turn_fault exclusive sessions serial faults
    obtain ⟨result, ended⟩ := total order i base serial.ran absent
    cases ended.symm.trans alone
  | ok processes =>
    obtain ⟨order, base, serial⟩ := run_serial exclusive sessions inv free ran
    have earlier {i : ι} {result : Result} (ended : processes.program i = .exit result) (member : i ∈ order) :
        ∃ before rest, order = before ++ i :: rest ∧ ComesTo serve main start before i result := by
      obtain ⟨-, -, comes⟩ := serial.finished i member
      rw [ended] at comes
      exact comes
    have without {i : ι} {result : Result} (ended : processes.program i = .exit result) (absent : i ∉ order)
        (hasNot : ¬ Has processes.state i) : result = (main i).refused refusal ∧
          ((main i).Only (uses i) ∨ CameLate serve Has main start turns i) := by
      rcases serial.outside i absent hasNot with fresh | ⟨-, same, late⟩
      · rw [← fresh, ended]
        exact ⟨rfl, .inl trivial⟩
      · rw [← same, ended]
        exact ⟨rfl, late⟩
    by_cases some_has : ∃ j, Has processes.state j
    · obtain ⟨j, has⟩ := some_has
      obtain ⟨absent, -, same⟩ := serial.inside j has
      refine ⟨processes, order ++ [j], rfl, ?_, fun i result ended => ?_⟩
      · exact List.nodup_append.mpr ⟨serial.nodup, List.nodup_singleton j, fun i member other last => by
          rw [List.mem_singleton.mp last]
          exact ne_of_mem_of_not_mem member absent⟩
      by_cases member : i ∈ order
      · obtain ⟨before, rest, rfl, comes⟩ := earlier ended member
        exact .inl ⟨before, rest ++ [j], by simp, comes⟩
      by_cases last : i = j
      · subst last
        rw [ended] at same
        exact .inl ⟨order, [], rfl, base, processes.state, serial.ran, same⟩
      · refine .inr ⟨by simp [member, last], without ended member fun has' => ?_⟩
        exact last (exclusive.alone serial.inv has has')
    · refine ⟨processes, order, rfl, serial.nodup, fun i result ended => ?_⟩
      by_cases member : i ∈ order
      · exact .inl (earlier ended member)
      · exact .inr ⟨member, without ended member fun has => some_has ⟨i, has⟩⟩

end Serial

end KernelLabs.UserPrograms
