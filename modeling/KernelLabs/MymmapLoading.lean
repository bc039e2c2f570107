import KernelLabs.MymmapMapping

/-! Loading and unloading the lab14 driver. `mymmap_exit` frees no area, and a load that
gets none returns without undoing what it has registered. -/
namespace KernelLabs.Mymmap
open Errno ModuleCycles

variable {config : Config} {held after : Kernel config} {outcomes : Outcomes config} {ret : Int}

/-- A call of the loaded module by a process with this page table. -/
inductive Request
  | openDevice
  | mmap (vma : Vma) (answers : RemapAnswers) (table : PageTable)

/-- The driver. What its calls change is not held for the module. -/
def mymmapModule (config : Config) : KernelModule (Kernel config) (Outcomes config) Request where
  init := mymmapInit
  exit held := .ok (mymmapExit held)
  serve held
    | .openDevice => .ok held
    | .mmap vma answers table => do
      let _ ← mymmapMmap held vma answers table
      return held

/-- Before the first load, with memory as it is. -/
def unloaded (config : Config) (memory : Memory) : ModuleState (Kernel config) where
  held := .beforeLoad memory
  loaded := false

def HoldsNothing (held : Kernel config) : Prop :=
  held.region = false ∧ held.cdevs = 0 ∧ held.allocated = []

/-- A loaded driver is published and has not lost track of what was allocated. -/
def HoldsArea (held : Kernel config) : Prop :=
  ∃ area, Ready held area ∧ area ∈ held.allocated

/-- The load fails at its first call, or gets its area. -/
def Outcomes.AllOrNothing (outcomes : Outcomes config) : Prop :=
  outcomes.registerChrdevRegion.1 ≠ 0 ∨ outcomes.area ≠ none

/-- Every load fails at its first call or gets its area, and a loaded driver stays loaded. -/
def Keeps (state : ModuleState (Kernel config)) : Event (Outcomes config) Request → Prop :=
  Undoes Outcomes.AllOrNothing (fun _ => False) state

theorem loaded_holdsArea {area : Area config} (found : outcomes.area = some area) :
    HoldsArea (held.loaded outcomes area) := by
  refine ⟨area, loaded_ready found, ?_⟩
  simp [Kernel.loaded, Kernel.afterAllocate, allocate, found]

/-- A load undoes what it did where it fails exactly when it fails at once or not at all. -/
theorem mymmapInit_undoes_iff (covers : config.Covers) (free : HoldsNothing held)
    (ran : mymmapInit held outcomes = .ok (after, ret)) :
    ((ret < 0 → HoldsNothing after) ∧ (0 ≤ ret → HoldsArea after)) ↔ outcomes.AllOrNothing := by
  rcases mymmapInit_cases covers held outcomes with ⟨refused, err, negative, same⟩ |
    ⟨-, zero, missing, same⟩ | ⟨area, -, -, found, same⟩
  · rw [same] at ran
    cases ran
    refine iff_of_true ⟨fun _ => free, fun accepted => ?_⟩ (.inl (refused.resolve_left ?_))
    · omega
    · rw [free.1]
      exact Bool.false_ne_true
  · rw [same] at ran
    cases ran
    refine iff_of_false (fun undone => ?_) (by simp [Outcomes.AllOrNothing, zero, missing])
    have registered : (held.afterAllocate outcomes).region = true := by
      simp [Kernel.afterAllocate, allocate, cdevAdd_fst]
    rw [(undone.1 neg_einval).1] at registered
    cases registered
  · rw [same] at ran
    cases ran
    refine iff_of_true ⟨fun refused => ?_, fun _ => loaded_holdsArea found⟩ (.inr ?_)
    · cases refused
    · rw [found]
      exact Option.some_ne_none area

/-- A load that succeeds has its area, whatever was held before it. -/
theorem mymmapInit_succeeds (covers : config.Covers) (held : Kernel config) (outcomes : Outcomes config) :
    ∃ after ret, mymmapInit held outcomes = .ok (after, ret) ∧ (0 ≤ ret → HoldsArea after) := by
  rcases mymmapInit_cases covers held outcomes with ⟨-, err, negative, same⟩ | ⟨-, -, -, same⟩ |
    ⟨area, -, -, found, same⟩
  · exact ⟨_, _, same, fun accepted => absurd accepted (Int.not_le.mpr negative)⟩
  · exact ⟨_, _, same, fun accepted => absurd accepted (Int.not_le.mpr neg_einval)⟩
  · exact ⟨_, _, same, fun _ => loaded_holdsArea found⟩

/-- The calls of a published driver change nothing that is held. -/
theorem serve_holdsArea (full : HoldsArea held) (request : Request) :
    (mymmapModule config).serve held request = .ok held := by
  obtain ⟨area, ready, -⟩ := full
  cases request with
  | openDevice => rfl
  | mmap vma answers table =>
    obtain ⟨result, ran⟩ := mymmapMmap_total ready vma answers table
    simp [mymmapModule, ran]

/-- No run faults, and a driver that is loaded has its area. -/
theorem mymmap_run (covers : config.Covers) (memory : Memory)
    (events : List (Event (Outcomes config) Request)) :
    ∃ final, run (cycle (mymmapModule config)) (unloaded config memory) events = .ok final ∧
      (final.loaded = true → HoldsArea final.held) := by
  have start : Balanced (fun _ => True) HoldsArea (unloaded config memory) :=
    ⟨fun _ => trivial, fun loaded => by cases loaded⟩
  obtain ⟨final, ran, -, full⟩ : ∃ final,
      run (cycle (mymmapModule config)) (unloaded config memory) events = .ok final ∧
      Balanced (fun _ => True) HoldsArea final := by
    refine balanced_run ?_ ?_ ?_ start events
    · intro held outcomes _
      obtain ⟨after, ret, ran, full⟩ := mymmapInit_succeeds covers held outcomes
      exact ⟨after, ret, ran, full, fun _ => trivial⟩
    · intro held _
      exact ⟨_, rfl, trivial⟩
    · intro held request full
      exact ⟨held, serve_holdsArea full request, full⟩
  exact ⟨final, ran, full⟩

/-- **Balance.** In a run of loads, unloads and calls, nothing is held for the driver
whenever it is not loaded exactly when every load fails at its first call or gets its
area, and a loaded driver is never unloaded. -/
theorem mymmap_balanced_iff (backend : Backend) (memory : Memory)
    (events : List (Event (Outcomes backend.config) Request)) :
    (∀ before rest reached, events = before ++ rest →
      run (cycle (mymmapModule backend.config)) (unloaded backend.config memory) before = .ok reached →
      reached.loaded = false → HoldsNothing reached.held) ↔
    Along Keeps (cycle (mymmapModule backend.config)) (unloaded backend.config memory) events := by
  have covers := backend.config_covers
  have start : Balanced HoldsNothing HoldsArea (unloaded backend.config memory) :=
    ⟨fun _ => ⟨rfl, rfl, rfl⟩, fun loaded => by cases loaded⟩
  have balanced : (∀ before rest reached, events = before ++ rest →
      run (cycle (mymmapModule backend.config)) (unloaded backend.config memory) before = .ok reached →
      Balanced HoldsNothing HoldsArea reached) ↔
      Along (Undoes Outcomes.AllOrNothing fun _ => False) (cycle (mymmapModule backend.config))
        (unloaded backend.config memory) events := by
    refine balanced_iff_undoes (cycle_total ?_ ?_ ?_) ?_ ?_ ?_ start
    · intro held outcomes _
      obtain ⟨after, ret, ran, -⟩ := mymmapInit_succeeds covers held outcomes
      exact ⟨_, ran⟩
    · intro held _
      exact ⟨_, rfl⟩
    · intro held request full
      exact ⟨held, serve_holdsArea full request⟩
    · intro held outcomes after ret free ran
      exact mymmapInit_undoes_iff covers free ran
    · intro held after full ran
      cases ran
      refine iff_of_false (fun free => ?_) id
      obtain ⟨area, -, member⟩ := full
      have kept : area ∈ (mymmapExit held).allocated := member
      rw [free.2.2] at kept
      cases kept
    · intro held request after full ran
      rw [serve_holdsArea full request] at ran
      cases ran
      exact full
  refine Iff.trans ?_ balanced
  refine forall₅_congr fun before rest reached whole ran => ?_
  obtain ⟨final, same, full⟩ := mymmap_run covers memory before
  rw [ran] at same
  cases same
  exact ⟨fun idle => ⟨idle, full⟩, fun both => both.1⟩

/-! ## What is left behind -/

/-- A load for which there is no memory. -/
def Outcomes.noArea (config : Config) : Outcomes config where
  registerChrdevRegion := ErrorCode.success
  cdevAdd := ErrorCode.success
  area := none

/-- Nothing but areas is held for a driver that is not loaded. -/
structure HoldsOnlyAreas (areas : List (Area config)) (state : ModuleState (Kernel config)) : Prop where
  idle : state.loaded = false
  region : state.held.region = false
  cdevs : state.held.cdevs = 0
  allocated : state.held.allocated = areas

/-- A load and an unload leave one area more behind. -/
theorem load_unload_leaks (covers : config.Covers) (area : Area config) {areas : List (Area config)}
    {state : ModuleState (Kernel config)} (holds : HoldsOnlyAreas areas state) : ∃ reached,
      run (cycle (mymmapModule config)) state [.load (.allSucceed area), .unload] = .ok reached ∧
      HoldsOnlyAreas (area :: areas) reached := by
  obtain ⟨held, loaded⟩ := state
  obtain ⟨rfl, free, unregistered, allocated⟩ := holds
  have init : mymmapInit held (.allSucceed area) = .ok (held.loaded (.allSucceed area) area, 0) :=
    mymmapInit_with_area covers free rfl rfl
  have loads : cycle (mymmapModule config) ⟨held, false⟩ (.load (.allSucceed area)) =
      .ok ⟨held.loaded (.allSucceed area) area, true⟩ :=
    bind_eq_ok.mpr ⟨_, init, rfl⟩
  refine ⟨⟨mymmapExit (held.loaded (.allSucceed area) area), false⟩, ?_, rfl, rfl, ?_, ?_⟩
  · rw [run_cons, loads, ok_bind, run_cons]
    rfl
  · show held.cdevs + 1 - 1 = 0
    rw [unregistered]
  · exact congrArg (area :: ·) allocated

/-- So the memory in use grows with the number of cycles. -/
theorem cycles_leak (covers : config.Covers) (area : Area config) (memory : Memory) (count : Nat) :
    ∃ reached, run (cycle (mymmapModule config)) (unloaded config memory)
        (List.replicate count [.load (.allSucceed area), .unload]).flatten = .ok reached ∧
      HoldsOnlyAreas (List.replicate count area) reached := by
  induction count with
  | zero => exact ⟨_, rfl, rfl, rfl, rfl, rfl⟩
  | succ count ih =>
    obtain ⟨middle, ran, holds⟩ := ih
    obtain ⟨reached, leaks, holds⟩ := load_unload_leaks covers area holds
    refine ⟨reached, ?_, holds⟩
    rw [List.replicate_succ', List.flatten_append, List.flatten_singleton, run_append, ran, ok_bind, leaks]

/-- After one load and one unload the area is still allocated; after a load that got no
area the region and the device are still registered. -/
theorem mymmap_leaks :
    (∃ reached, run (cycle (mymmapModule Backend.kmalloc.config)) (unloaded _ fun _ => 0)
        [.load (.allSucceed (.bottom _)), .unload] = .ok reached ∧
      reached.loaded = false ∧ reached.held.allocated = [.bottom _]) ∧
    ∃ reached, run (cycle (mymmapModule Backend.kmalloc.config)) (unloaded _ fun _ => 0)
        [.load (.noArea Backend.kmalloc.config)] = .ok reached ∧
      reached.loaded = false ∧ reached.held.region = true ∧ reached.held.cdevs = 1 := by
  have covers := Backend.kmalloc.config_covers
  constructor
  · have start : HoldsOnlyAreas [] (unloaded Backend.kmalloc.config fun _ => 0) := ⟨rfl, rfl, rfl, rfl⟩
    obtain ⟨reached, ran, holds⟩ := load_unload_leaks covers (.bottom _) start
    exact ⟨reached, ran, holds.idle, holds.allocated⟩
  · exact ⟨_, bind_eq_ok.mpr ⟨_, bind_eq_ok.mpr ⟨_, mymmapInit_without_area rfl rfl rfl, rfl⟩, rfl⟩,
      rfl, rfl, rfl⟩

end KernelLabs.Mymmap
