import KernelLabs.MymmapInit

/-! The lab14 device goes live before its area exists: clients can open it and call
`mmap` from `cdev_add` on, between any two statements of `mymmap_init`. What keeps them
out is `dev.size`, which stays zero until every page is marked. -/
namespace KernelLabs.Mymmap
open Errno

/-- A call of `mymmap_mmap`, which may have returned. -/
structure Call where
  vma : Vma
  answers : RemapAnswers
  reached : MmapAt

/-- A process with its page table, and its last call of `mymmap_mmap`. -/
structure Client where
  opened : Bool
  table : PageTable
  call : Option Call

/-- A load, and the clients that do not wait for its end. -/
structure Loading (config : Config) (ι : Type) where
  kernel : Kernel config
  init : InitAt
  clients : ι → Client

inductive Action (ι : Type)
  /-- The next statement of `mymmap_init`. -/
  | init
  | openDevice (client : ι)
  | callMmap (client : ι) (vma : Vma) (answers : RemapAnswers)
  /-- The next statement of the client's call. -/
  | mmap (client : ι)

section Steps
variable {config : Config} {ι : Type} [DecidableEq ι]

def Loading.setClient (state : Loading config ι) (client : ι) (after : Client) : Loading config ι :=
  { state with clients := Function.update state.clients client after }

@[simp] theorem Loading.setClient_self (state : Loading config ι) (client : ι) (after : Client) :
    (state.setClient client after).clients client = after := Function.update_self ..

theorem Loading.setClient_other {client other : ι} (state : Loading config ι) (after : Client)
    (elsewhere : other ≠ client) :
    (state.setClient client after).clients other = state.clients other := Function.update_of_ne elsewhere ..

/-- What cannot happen yet changes nothing: a device is opened once it is live, and called
by a process that opened it and whose last call has returned. -/
def Loading.step (outcomes : Outcomes config) (state : Loading config ι) :
    Action ι → Except Fault (Loading config ι)
  | .init => do
    let (kernel, init) ← initStatement outcomes (state.kernel, state.init)
    return { state with kernel := kernel, init := init }
  | .openDevice client =>
    if state.kernel.cdevs = 0 then .ok state
    else .ok (state.setClient client { state.clients client with opened := true })
  | .callMmap client vma answers =>
    let { opened, table, call } := state.clients client
    let idle := call.all fun call => call.reached.ret.isSome
    if opened && idle then
      .ok (state.setClient client
        { opened := opened, table := table, call := some { vma, answers, reached := .testSize } })
    else .ok state
  | .mmap client =>
    match state.clients client with
    | { call := none, .. } => .ok state
    | { opened, table, call := some call } => do
      let (table, reached) ← mmapStatement state.kernel call.vma call.answers (table, call.reached)
      return state.setClient client
        { opened := opened, table := table, call := some { call with reached := reached } }

/-- Before the first statement of `mymmap_init`. -/
def Loading.start (kernel : Kernel config) (tables : ι → PageTable) : Loading config ι where
  kernel := kernel.zeroData
  init := .registerChrdevRegion
  clients := fun client => { opened := false, table := tables client, call := none }

end Steps

/-- The area is allocated and all its pages are marked. -/
def Kernel.Published {config : Config} (kernel : Kernel config) : Prop :=
  ∃ area, kernel.area = some area ∧ area.Marked kernel.memory

/-! ## The load -/

section Load
variable {config : Config} {outcomes : Outcomes config} {memory : Memory} {kernel : Kernel config}

/-- What holds at each statement of `mymmap_init`, for the memory it started with. -/
def InitInv (outcomes : Outcomes config) (memory : Memory) (kernel : Kernel config) : InitAt → Prop
  | .registerChrdevRegion | .cdevAdd | .allocate =>
    kernel.size = 0 ∧ kernel.area = none ∧ kernel.memory = memory
  | .testArea => kernel.size = 0 ∧ kernel.area = outcomes.area ∧ kernel.memory = memory
  | .stamp i => kernel.size = 0 ∧ ∃ area, kernel.area = some area ∧ outcomes.area = some area ∧
      ∃ page ≤ config.maxPages, i = toInt (page * pageSize) ∧ kernel.memory = area.stamped page memory
  | .setSize => kernel.size = 0 ∧ ∃ area, kernel.area = some area ∧ outcomes.area = some area ∧
      kernel.memory = area.stamped config.maxPages memory
  | .returned _ => (kernel.size = 0 ∧ kernel.area = none) ∨
      kernel.size = config.size ∧ ∃ area, kernel.area = some area ∧ outcomes.area = some area ∧
        kernel.memory = area.stamped config.maxPages memory

/-- A device with a size has its area, marked. -/
theorem InitInv.ready {reached : InitAt} (inv : InitInv outcomes memory kernel reached)
    (sized : kernel.size ≠ 0) : kernel.size = config.size ∧
      ∃ area, kernel.area = some area ∧ area.Marked kernel.memory := by
  cases reached with
  | registerChrdevRegion | cdevAdd | allocate | testArea | stamp | setSize => exact absurd inv.1 sized
  | returned ret =>
    rcases inv with ⟨zero, -⟩ | ⟨size, area, allocated, -, same⟩
    · exact absurd zero sized
    · exact ⟨size, area, allocated, same ▸ Area.stamped_marked⟩

/-- An area comes from the allocator. -/
theorem InitInv.area_none {reached : InitAt} (inv : InitInv outcomes memory kernel reached)
    (failed : outcomes.area = none) : kernel.area = none := by
  cases reached with
  | registerChrdevRegion | cdevAdd | allocate => exact inv.2.1
  | testArea => exact inv.2.1.trans failed
  | stamp | setSize =>
    obtain ⟨-, area, -, found, -⟩ := inv
    rw [failed] at found
    cases found
  | returned ret =>
    rcases inv with ⟨-, none⟩ | ⟨-, area, -, found, -⟩
    · exact none
    · rw [failed] at found
      cases found

/-- Each statement of `mymmap_init` keeps this, without a fault, and only the last one
changes the size. -/
theorem InitInv.step (covers : config.Covers) {reached : InitAt}
    (inv : InitInv outcomes memory kernel reached) : ∃ after next,
      initStatement outcomes (kernel, reached) = .ok (after, next) ∧
      InitInv outcomes memory after next ∧ (kernel.size ≠ 0 → after = kernel) := by
  cases reached with
  | registerChrdevRegion =>
    obtain ⟨unsized, empty, same⟩ := inv
    obtain ⟨region, err, answer⟩ := registerChrdevRegion_fst kernel outcomes.registerChrdevRegion
    refine ⟨_, _, by rw [initStatement, answer], ?_, fun sized => absurd unsized sized⟩
    split
    · exact .inl ⟨unsized, empty⟩
    · exact ⟨unsized, empty, same⟩
  | cdevAdd =>
    refine ⟨(Mymmap.cdevAdd kernel outcomes.cdevAdd).1, .allocate, rfl, ?_, fun sized => absurd inv.1 sized⟩
    rw [cdevAdd_fst]
    exact inv
  | allocate =>
    exact ⟨_, _, rfl, ⟨inv.1, rfl, inv.2.2⟩, fun sized => absurd inv.1 sized⟩
  | testArea =>
    obtain ⟨unsized, allocated, same⟩ := inv
    refine ⟨_, _, rfl, ?_, fun sized => absurd unsized sized⟩
    cases found : kernel.area with
    | none => exact .inl ⟨unsized, found⟩
    | some area =>
      refine ⟨unsized, area, found, allocated ▸ found, 0, Nat.zero_le _, ?_, ?_⟩
      · rw [Nat.zero_mul]
        rfl
      · rw [Area.stamped_zero, same]
  | stamp i =>
    obtain ⟨unsized, area, allocated, found, page, low, rfl, same⟩ := inv
    have here : (kernel, InitAt.stamp (toInt (page * pageSize))) =
        area.stamping { kernel with memory := memory } page := by
      rw [Area.stamping, ← same]
    rw [here]
    rcases Nat.lt_or_eq_of_le low with more | rfl
    · refine ⟨_, _, stamp_iteration allocated (Nat.lt_of_lt_of_le more covers) more, ?_,
        fun sized => absurd unsized sized⟩
      exact ⟨unsized, area, allocated, found, page + 1, more, rfl, rfl⟩
    · exact ⟨_, _, stamp_ends, ⟨unsized, area, allocated, found, rfl⟩,
        fun sized => absurd unsized sized⟩
  | setSize =>
    obtain ⟨unsized, area, allocated, found, same⟩ := inv
    exact ⟨_, _, rfl, .inr ⟨rfl, area, allocated, found, same⟩, fun sized => absurd unsized sized⟩
  | returned ret => exact ⟨kernel, .returned ret, rfl, inv, fun _ => rfl⟩

end Load

/-! ## The calls -/

section Calls
variable {config : Config} {kernel : Kernel config} {call : Call}

/-- What holds at each statement of a call: it gets past its first test once the size is set. -/
def CallInv (kernel : Kernel config) (call : Call) : Prop :=
  match call.reached with
  | .testSize => True
  | .testLen => kernel.size ≠ 0
  | .remap _ => kernel.size ≠ 0 ∧ call.vma.len ≤ kernel.size
  | .returned ret => kernel.size = 0 → ret < 0

/-- As long as there is no size, this says nothing about the device. -/
theorem CallInv.of_unsized (unsized : kernel.size = 0) (inv : CallInv kernel call)
    (after : Kernel config) : CallInv after call := by
  obtain ⟨vma, answers, reached⟩ := call
  cases reached with
  | testSize => trivial
  | testLen => exact absurd unsized inv
  | remap i => exact absurd unsized inv.1
  | returned ret => exact fun _ => inv unsized

/-- Each statement of a call keeps this, without a fault, and maps nothing as long as
there is no size. -/
theorem CallInv.step (ready : kernel.size ≠ 0 → ∃ area, Ready kernel area)
    (inv : CallInv kernel call) (table : PageTable) : ∃ after next,
      mmapStatement kernel call.vma call.answers (table, call.reached) = .ok (after, next) ∧
      CallInv kernel { call with reached := next } ∧ (kernel.size = 0 → after = table) := by
  obtain ⟨vma, answers, reached⟩ := call
  cases reached with
  | testSize =>
    refine ⟨_, _, rfl, ?_, fun _ => rfl⟩
    split
    · exact fun _ => neg_enomem
    · assumption
  | testLen =>
    refine ⟨_, _, rfl, ?_, fun _ => rfl⟩
    split
    · exact fun _ => neg_einval
    · next short => exact ⟨inv, Nat.not_lt.mp short⟩
  | remap i =>
    obtain ⟨sized, fits⟩ := inv
    obtain ⟨area, ready⟩ := ready sized
    rw [ready.size] at fits
    by_cases scattered : config.backend = .vmalloc
    · by_cases more : toUlong i < vma.len
      · refine ⟨_, _, ready.remap_vmalloc scattered fits more, ?_, fun unsized => absurd unsized sized⟩
        split
        · exact fun unsized => absurd unsized sized
        · exact ⟨sized, ready.size ▸ fits⟩
      · refine ⟨_, _, ready.remap_vmalloc_end scattered fits (Nat.not_lt.mp more), ?_, fun _ => rfl⟩
        exact fun unsized => absurd unsized sized
    · refine ⟨_, _, ready.remap_contiguous scattered, ?_, fun unsized => absurd unsized sized⟩
      exact fun unsized => absurd unsized sized
  | returned ret => exact ⟨table, .returned ret, rfl, inv, fun _ => rfl⟩

end Calls

/-! ## Interleavings -/

section Interleavings
variable {config : Config} {ι : Type} {outcomes : Outcomes config} {memory : Memory}
  {tables : ι → PageTable} {state : Loading config ι}

/-- The invariant of a load and its clients: as long as there is no size, every page table
is as it was. -/
structure Loading.Inv (outcomes : Outcomes config) (memory : Memory) (tables : ι → PageTable)
    (state : Loading config ι) : Prop where
  init : InitInv outcomes memory state.kernel state.init
  tables : state.kernel.size = 0 → ∀ client, (state.clients client).table = tables client
  calls : ∀ client call, (state.clients client).call = some call → CallInv state.kernel call

theorem Loading.Inv.ready (inv : state.Inv outcomes memory tables) (sized : state.kernel.size ≠ 0) :
    state.kernel.Published ∧ ∃ area, Ready state.kernel area := by
  obtain ⟨size, area, allocated, marked⟩ := inv.init.ready sized
  exact ⟨⟨area, allocated, marked⟩, area, allocated, size⟩

variable [DecidableEq ι]

/-- One client moves on. -/
theorem Loading.Inv.setClient (inv : state.Inv outcomes memory tables) (client : ι) (after : Client)
    (unmapped : state.kernel.size = 0 → after.table = (state.clients client).table)
    (calls : ∀ call, after.call = some call → CallInv state.kernel call) :
    (state.setClient client after).Inv outcomes memory tables ∧
      (state.kernel.size = 0 → ∀ other, ((state.setClient client after).clients other).table =
        (state.clients other).table) := by
  have same : state.kernel.size = 0 → ∀ other,
      ((state.setClient client after).clients other).table = (state.clients other).table := by
    intro unsized other
    by_cases here : other = client
    · rw [here, Loading.setClient_self, unmapped unsized]
    · rw [Loading.setClient_other state after here]
  refine ⟨⟨inv.init, fun unsized other => (same unsized other).trans (inv.tables unsized other), ?_⟩, same⟩
  intro other call running
  by_cases here : other = client
  · rw [here, Loading.setClient_self] at running
    exact calls call running
  · rw [Loading.setClient_other state after here] at running
    exact inv.calls other call running

/-- Each step keeps it, without a fault, and maps nothing as long as there is no size. -/
theorem Loading.Inv.step (covers : config.Covers) (inv : state.Inv outcomes memory tables)
    (action : Action ι) : ∃ next, state.step outcomes action = .ok next ∧
      next.Inv outcomes memory tables ∧
      (state.kernel.size = 0 → ∀ client, (next.clients client).table = (state.clients client).table) := by
  have idle : state.Inv outcomes memory tables ∧
      (state.kernel.size = 0 → ∀ client, (state.clients client).table = (state.clients client).table) :=
    ⟨inv, fun _ _ => rfl⟩
  cases action with
  | init =>
    obtain ⟨after, next, taken, kept, frozen⟩ := inv.init.step covers
    refine ⟨{ state with kernel := after, init := next }, by simp only [Loading.step, taken]; rfl, ?_,
      fun _ _ => rfl⟩
    by_cases unsized : state.kernel.size = 0
    · refine ⟨kept, fun _ => inv.tables unsized, fun client call running => ?_⟩
      exact (inv.calls client call running).of_unsized unsized after
    · obtain rfl := frozen unsized
      exact ⟨kept, inv.tables, inv.calls⟩
  | openDevice client =>
    by_cases live : state.kernel.cdevs = 0
    · exact ⟨state, if_pos live, idle⟩
    · exact ⟨_, if_neg live, inv.setClient client _ (fun _ => rfl) (inv.calls client)⟩
  | callMmap client vma answers =>
    simp only [Loading.step]
    split
    · refine ⟨_, rfl, inv.setClient client _ (fun _ => rfl) ?_⟩
      rintro call ⟨⟩
      trivial
    · exact ⟨state, rfl, idle⟩
  | mmap client =>
    cases here : state.clients client with | mk opened table running
    cases running with
    | none => exact ⟨state, by simp only [Loading.step, here], idle⟩
    | some call =>
      have position := inv.calls client call (by rw [here])
      obtain ⟨after, next, taken, kept, unmapped⟩ :=
        position.step (fun sized => (inv.ready sized).2) table
      refine ⟨_, by simp only [Loading.step, here, taken]; rfl, inv.setClient client _ ?_ ?_⟩
      · rw [here]
        exact unmapped
      · rintro call ⟨⟩
        exact kept

/-- **Publication.** Whatever the allocator answers, and however the clients' statements
fall between those of `mymmap_init`, no statement faults, and a call maps something only
when the area is allocated and all its pages are marked; until then, and for ever if
there is no area, every page table is as it was and every call that returned failed. -/
theorem maps_only_published (backend : Backend) (kernel : Kernel backend.config)
    (outcomes : Outcomes backend.config) (tables : ι → PageTable) (actions : List (Action ι)) :
    ∃ reached, run (Loading.step outcomes) (Loading.start kernel tables) actions = .ok reached ∧
      (¬ reached.kernel.Published → ∀ client, (reached.clients client).table = tables client ∧
        ∀ call ret, (reached.clients client).call = some call → call.reached = .returned ret → ret < 0) ∧
      (outcomes.area = none → ¬ reached.kernel.Published) ∧
      ∀ action next, reached.step outcomes action = .ok next → ∀ client,
        (next.clients client).table ≠ (reached.clients client).table → reached.kernel.Published := by
  have covers := backend.config_covers
  have start : (Loading.start kernel tables).Inv outcomes kernel.memory tables := by
    refine ⟨⟨rfl, rfl, rfl⟩, fun _ _ => rfl, ?_⟩
    rintro client call ⟨⟩
  obtain ⟨reached, ran, inv⟩ : ∃ reached, run (Loading.step outcomes) (Loading.start kernel tables)
      actions = .ok reached ∧ reached.Inv outcomes kernel.memory tables := by
    refine run_keeps (fun state action inv _ => ?_) start (along_of_forall fun _ _ _ => trivial)
    obtain ⟨next, taken, kept, -⟩ := inv.step covers action
    exact ⟨next, taken, kept⟩
  have sized : reached.kernel.size ≠ 0 → reached.kernel.Published := fun sized => (inv.ready sized).1
  refine ⟨reached, ran, ?_, ?_, ?_⟩
  · intro hidden client
    have unsized : reached.kernel.size = 0 := by
      by_contra nonzero
      exact hidden (sized nonzero)
    refine ⟨inv.tables unsized client, fun call ret running returned => ?_⟩
    have position := inv.calls client call running
    rw [CallInv, returned] at position
    exact position unsized
  · rintro failed ⟨area, allocated, -⟩
    rw [inv.init.area_none failed] at allocated
    cases allocated
  · intro action next taken client changed
    apply sized
    intro unsized
    obtain ⟨other, same, -, unmapped⟩ := inv.step covers action
    rw [taken] at same
    cases same
    exact changed (unmapped unsized client)

end Interleavings

end KernelLabs.Mymmap
