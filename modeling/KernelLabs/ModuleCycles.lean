import KernelLabs.Checked

/-! Modules that are loaded and unloaded again and again. What the kernel holds for a
module outlives its unload, so whatever one cycle leaves behind is found by the next. -/
namespace KernelLabs.ModuleCycles

/-- A kernel function's answer: zero, or a negative error. -/
abbrev ErrorCode := { ret : Int // ret ≤ 0 }

def ErrorCode.success : ErrorCode := ⟨0, Int.le_refl 0⟩

/-- A module, by what its functions do to what the kernel holds for it. -/
structure KernelModule (Held Outcomes Call : Type) where
  /-- `module_init`, given how the kernel answers its calls. -/
  init : Held → Outcomes → Except Fault (Held × Int)
  /-- `module_exit`. -/
  exit : Held → Except Fault Held
  /-- A call of the loaded module. -/
  serve : Held → Call → Except Fault Held

inductive Event (Outcomes Call : Type)
  | load (outcomes : Outcomes)
  | unload
  | call (request : Call)

/-- What is held for a module, and whether it is loaded. -/
structure ModuleState (Held : Type) where
  held : Held
  loaded : Bool

variable {Held Outcomes Call : Type}

/-- A module that is loaded cannot be loaded again; one that is not can neither be
unloaded nor called. A negative answer of `module_init` fails the load. -/
def cycle (kmod : KernelModule Held Outcomes Call) (state : ModuleState Held) :
    Event Outcomes Call → Except Fault (ModuleState Held)
  | .load outcomes =>
    if state.loaded then .ok state
    else do
      let (held, ret) ← kmod.init state.held outcomes
      return { held := held, loaded := decide (0 ≤ ret) }
  | .unload =>
    if state.loaded then do
      let held ← kmod.exit state.held
      return { held := held, loaded := false }
    else .ok state
  | .call request =>
    if state.loaded then do
      let held ← kmod.serve state.held request
      return { state with held := held }
    else .ok state

/-- Nothing is held for a module that is not loaded, and all of it for one that is. -/
def Balanced (free full : Held → Prop) (state : ModuleState Held) : Prop :=
  (state.loaded = false → free state.held) ∧ (state.loaded = true → full state.held)

/-- The loads undo what they did where they fail, and so do the unloads. -/
def Undoes (loads : Outcomes → Prop) (unloads : Held → Prop) (state : ModuleState Held) :
    Event Outcomes Call → Prop
  | .load outcomes => state.loaded = false → loads outcomes
  | .unload => state.loaded = true → unloads state.held
  | .call _ => True

section Rules
variable {kmod : KernelModule Held Outcomes Call} {free full : Held → Prop}
  {loads : Outcomes → Prop} {unloads : Held → Prop} {state next final : ModuleState Held}
  {events : List (Event Outcomes Call)}

/-- A module whose functions make no fault where they are called makes none in any event. -/
theorem cycle_total
    (inits : ∀ held outcomes, free held → ∃ result, kmod.init held outcomes = .ok result)
    (exits : ∀ held, full held → ∃ after, kmod.exit held = .ok after)
    (serves : ∀ held request, full held → ∃ after, kmod.serve held request = .ok after)
    (state : ModuleState Held) (event : Event Outcomes Call) (balanced : Balanced free full state) :
    ∃ next, cycle kmod state event = .ok next := by
  obtain ⟨held, loaded⟩ := state
  obtain ⟨idle, busy⟩ := balanced
  cases loaded with
  | false =>
    cases event with
    | load outcomes =>
      obtain ⟨⟨after, ret⟩, ran⟩ := inits held outcomes (idle rfl)
      exact ⟨_, bind_eq_ok.mpr ⟨(after, ret), ran, rfl⟩⟩
    | unload | call => exact ⟨_, rfl⟩
  | true =>
    cases event with
    | load => exact ⟨_, rfl⟩
    | unload =>
      obtain ⟨after, ran⟩ := exits held (busy rfl)
      exact ⟨_, bind_eq_ok.mpr ⟨after, ran, rfl⟩⟩
    | call request =>
      obtain ⟨after, ran⟩ := serves held request (busy rfl)
      exact ⟨_, bind_eq_ok.mpr ⟨after, ran, rfl⟩⟩

/-- A module whose functions keep the books is balanced after every event. -/
theorem balanced_run
    (inits : ∀ held outcomes, free held → ∃ after ret, kmod.init held outcomes = .ok (after, ret) ∧
      (0 ≤ ret → full after) ∧ (ret < 0 → free after))
    (exits : ∀ held, full held → ∃ after, kmod.exit held = .ok after ∧ free after)
    (serves : ∀ held request, full held → ∃ after, kmod.serve held request = .ok after ∧ full after)
    (start : Balanced free full state) (events : List (Event Outcomes Call)) :
    ∃ final, run (cycle kmod) state events = .ok final ∧ Balanced free full final := by
  refine run_keeps ?_ start (along_of_forall fun _ _ _ => trivial)
  rintro ⟨held, loaded⟩ event ⟨idle, busy⟩ -
  cases loaded with
  | false =>
    cases event with
    | load outcomes =>
      obtain ⟨after, ret, ran, loads, fails⟩ := inits held outcomes (idle rfl)
      refine ⟨_, by simp only [cycle, ran, ok_bind, pure_eq_ok]; rfl, ?_, ?_⟩
      · intro refused
        exact fails (by simpa using refused)
      · intro accepted
        exact loads (by simpa using accepted)
    | unload | call => exact ⟨_, rfl, idle, busy⟩
  | true =>
    cases event with
    | load outcomes => exact ⟨_, rfl, idle, busy⟩
    | unload =>
      obtain ⟨after, ran, freed⟩ := exits held (busy rfl)
      refine ⟨⟨after, false⟩, by simp [cycle, ran], fun _ => freed, ?_⟩
      rintro ⟨⟩
    | call request =>
      obtain ⟨after, ran, kept⟩ := serves held request (busy rfl)
      refine ⟨⟨after, true⟩, by simp [cycle, ran], ?_, fun _ => kept⟩
      rintro ⟨⟩

/-- A run is balanced after every event exactly when each of its loads and unloads
undoes what there is to undo. -/
theorem balanced_iff_undoes
    (total : ∀ state event, Balanced free full state → ∃ next, cycle kmod state event = .ok next)
    (inits : ∀ held outcomes after ret, free held → kmod.init held outcomes = .ok (after, ret) →
      (((ret < 0 → free after) ∧ (0 ≤ ret → full after)) ↔ loads outcomes))
    (exits : ∀ held after, full held → kmod.exit held = .ok after → (free after ↔ unloads held))
    (serves : ∀ held request after, full held → kmod.serve held request = .ok after → full after)
    (start : Balanced free full state) :
    (∀ before rest reached, events = before ++ rest → run (cycle kmod) state before = .ok reached →
      Balanced free full reached) ↔ Along (Undoes loads unloads) (cycle kmod) state events := by
  refine along_iff_of_total total ?_ start
  rintro ⟨held, loaded⟩ event next ⟨idle, busy⟩ taken
  cases loaded with
  | false =>
    cases event with
    | load outcomes =>
      obtain ⟨⟨after, ret⟩, ran, same⟩ := bind_eq_ok.mp taken
      cases same
      rw [show Undoes loads unloads ⟨held, false⟩ (.load outcomes : Event Outcomes Call) ↔ loads outcomes by
        simp [Undoes], ← inits held outcomes after ret (idle rfl) ran]
      simp [Balanced]
    | unload | call =>
      cases taken
      refine iff_of_true ⟨idle, busy⟩ ?_
      simp [Undoes]
  | true =>
    cases event with
    | load outcomes =>
      cases taken
      refine iff_of_true ⟨idle, busy⟩ ?_
      simp [Undoes]
    | unload =>
      obtain ⟨after, ran, same⟩ := bind_eq_ok.mp taken
      cases same
      simp [Balanced, Undoes, exits held after (busy rfl) ran]
    | call request =>
      obtain ⟨after, ran, same⟩ := bind_eq_ok.mp taken
      cases same
      refine iff_of_true ⟨by simp, fun _ => serves held request after (busy rfl) ran⟩ trivial

end Rules

end KernelLabs.ModuleCycles
