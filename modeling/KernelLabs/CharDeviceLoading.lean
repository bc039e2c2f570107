import KernelLabs.CharDeviceExclusion

/-! Exclusive open while `my_init_module` still runs. A device can be opened from
its `cdev_add` on, two statements before the loop is done with it, and one of
those two resets its flag. -/
namespace KernelLabs.CharDevice
open CBytes Errno

/-- A statement of the loop in `my_init_module`. -/
inductive InitStatement
  | cdevInit (i : Fin myMaxMinors)
  | cdevAdd (i : Fin myMaxMinors)
  | setAccess (i : Fin myMaxMinors)
  | setSize (i : Fin myMaxMinors)
  deriving DecidableEq, Repr

/-- The whole loop. -/
def initLoop : List InitStatement :=
  (List.finRange myMaxMinors).flatMap fun i => [.cdevInit i, .cdevAdd i, .setAccess i, .setSize i]

/-- The devices with their open files, which minors the kernel knows, and what
`my_init_module` has still to do. -/
structure Loading where
  cdev : Cdev
  live : Fin myMaxMinors → Bool
  rest : List InitStatement

/-- One statement. Nobody looks at what `cdev_add` returns. -/
def initStatement (state : Loading) (added : Bool) : InitStatement → Loading
  | .cdevInit _ => state
  | .cdevAdd i => { state with live := Function.update state.live i added }
  | .setAccess i =>
    { state with cdev := state.cdev.setDevice i { state.cdev.devs i with access := 0 } }
  | .setSize i =>
    { state with
      cdev := state.cdev.setDevice i { state.cdev.devs i with size := UInt64.ofNat bufsiz } }

/-- A turn of `my_init_module`, whose next `cdev_add` succeeds or not, or of a client. -/
inductive LoadTurn
  | init (added : Bool)
  | openFile (fd : Nat) (minor : Fin myMaxMinors)
  | closeFile (fd : Nat)

/-- One turn. A minor that the kernel does not know cannot be opened. -/
def loadStep (state : Loading) : LoadTurn → Except Fault Loading
  | .init added =>
    match state.rest with
    | [] => .ok state
    | statement :: rest => .ok { initStatement state added statement with rest := rest }
  | .openFile fd minor =>
    if state.live minor then do
      let (cdev, _) ← serve state.cdev (.openFile fd minor)
      return { state with cdev := cdev }
    else .ok state
  | .closeFile fd => do
    let (cdev, _) ← serve state.cdev (.closeFile fd)
    return { state with cdev := cdev }

theorem length_zeros : (List.replicate bufsiz (0 : UInt8)).length = bufsiz :=
  List.length_replicate

/-- The module's zeroed data, before the loop. -/
def inserted : Loading where
  cdev :=
    { devs := fun _ =>
        { deviceBuffer := ⟨List.replicate bufsiz 0, length_zeros⟩, access := 0, size := 0 }
      files := fun _ => none }
  live _ := false
  rest := initLoop

/-- The loop does not reset the flag of a device that has been opened. -/
def ResetsUnopened (state : Loading) : LoadTurn → Prop
  | .init _ => ∀ i rest, state.rest = .setAccess i :: rest → ¬ Opened state.cdev i
  | .openFile _ _ | .closeFile _ => True

/-- Left alone, the loop ends with the devices as they are used afterwards. -/
theorem initLoop_loaded :
    run loadStep inserted (List.replicate initLoop.length (.init true)) =
      .ok { cdev := loaded, live := fun _ => true, rest := [] } := by
  obtain ⟨devs, live, ran, ready, known⟩ : ∃ devs live,
      run loadStep inserted (List.replicate initLoop.length (.init true)) =
        .ok { cdev := { devs := devs, files := fun _ => none }, live := live, rest := [] } ∧
      (∀ minor, devs minor = myInitModule minor) ∧ ∀ minor, live minor = true := by
    refine ⟨_, _, rfl, ?_, ?_⟩
    · intro minor
      match minor with
      | 0 | 1 | 2 | 3 | 4 => rfl
    · intro minor
      match minor with
      | 0 | 1 | 2 | 3 | 4 => rfl
  rw [ran, funext ready, funext known]
  rfl

/-! ## Runs -/

namespace Exclusive
variable {state : Cdev} {minor : Fin myMaxMinors} {after : MyDeviceData}

/-- What a device holds besides its flag has no part in who may open it. -/
theorem adjusted (held : Exclusive state) (same : after.access = (state.devs minor).access) :
    Exclusive (state.setDevice minor after) := by
  have flag : ∀ other, ((state.setDevice minor after).devs other).access =
      (state.devs other).access := by
    intro other
    by_cases this : other = minor
    · simp [this, same]
    · simp [this]
  constructor
  · exact held.alone
  · intro other busy
    rw [flag]
    exact held.taken other busy
  · intro other closed
    rw [flag]
    exact held.free other closed

end Exclusive

/-- Every turn but a reset of an open device's flag keeps the devices exclusive. -/
theorem loadStep_keeps (state : Loading) (turn : LoadTurn) (held : Exclusive state.cdev)
    (resets : ResetsUnopened state turn) :
    ∃ next, loadStep state turn = .ok next ∧ Exclusive next.cdev := by
  cases turn with
  | init added =>
    cases left : state.rest with
    | nil => exact ⟨state, by simp [loadStep, left], held⟩
    | cons statement rest =>
      refine ⟨_, by simp only [loadStep, left]; rfl, ?_⟩
      cases statement with
      | cdevInit i => exact held
      | cdevAdd i => exact held
      | setAccess i => exact held.adjusted (held.free i (resets i rest left)).symm
      | setSize i => exact held.adjusted rfl
  | openFile fd minor =>
    by_cases known : state.live minor
    · obtain ⟨next, reply, served, kept, -⟩ := held.opens fd minor
      exact ⟨{ state with cdev := next }, by simp [loadStep, known, served], kept⟩
    · exact ⟨state, by simp [loadStep, known], held⟩
  | closeFile fd =>
    obtain ⟨next, reply, served, kept, -⟩ := held.closes fd
    exact ⟨{ state with cdev := next }, by simp [loadStep, served], kept⟩

theorem inserted_exclusive : Exclusive inserted.cdev where
  alone fd fd' file file' open' := by simp [inserted] at open'
  taken minor := by
    rintro ⟨fd, file, open', -⟩
    simp [inserted] at open'
  free minor closed := rfl

/-- **Loading.** However clients slip in between the statements of the loop, no
device has two files open as long as no flag is reset under an open file. -/
theorem loading_is_exclusive (turns : List LoadTurn)
    (resets : Along ResetsUnopened loadStep inserted turns) :
    ∃ final, run loadStep inserted turns = .ok final ∧
      ∀ minor fd fd' file file', final.cdev.files fd = some file →
        final.cdev.files fd' = some file' → file.minor = minor → file'.minor = minor →
        fd = fd' := by
  obtain ⟨final, ran, held⟩ := run_keeps loadStep_keeps inserted_exclusive resets
  refine ⟨final, ran, fun minor fd fd' file file' open' other same same' => ?_⟩
  exact held.alone fd fd' file file' open' other (same.trans same'.symm)

/-- Before its `cdev_add` a device cannot be opened; two clients try after the reset. -/
theorem loading_is_exclusive_late :
    ∃ final, run loadStep inserted [.openFile 0 0, .init true, .init true, .init true,
      .openFile 0 0, .openFile 1 0] = .ok final ∧
      ∀ minor fd fd' file file', final.cdev.files fd = some file →
        final.cdev.files fd' = some file' → file.minor = minor → file'.minor = minor →
        fd = fd' := by
  apply loading_is_exclusive
  refine ⟨trivial, ?_⟩
  rintro _ ⟨⟩
  refine ⟨by rintro i rest ⟨⟩, ?_⟩
  rintro _ ⟨⟩
  refine ⟨by rintro i rest ⟨⟩, ?_⟩
  rintro _ ⟨⟩
  refine ⟨?_, fun _ _ => ⟨trivial, fun _ _ => ⟨trivial, fun _ _ => trivial⟩⟩⟩
  rintro i rest ⟨⟩ ⟨fd, file, ⟨⟩, -⟩

/-- Opened between its `cdev_add` and the reset of its flag, a device can be
opened again. -/
theorem early_open_doubles :
    ∃ final, run loadStep inserted
      [.init true, .init true, .openFile 0 0, .init true, .openFile 1 0] = .ok final ∧
      final.cdev.files 0 = some ⟨0, 0⟩ ∧ final.cdev.files 1 = some ⟨0, 0⟩ :=
  ⟨_, rfl, rfl, rfl⟩

end KernelLabs.CharDevice
