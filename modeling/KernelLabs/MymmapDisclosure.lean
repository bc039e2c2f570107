import KernelLabs.MymmapMapping

/-! What user space learns of the memory the area was taken from. No allocator clears it
and `mymmap_init` only marks its pages, so whatever is neither a mark nor written by a
process still holds what was there before. -/
namespace KernelLabs.Mymmap
open Errno ModuleCycles

inductive UserAction (ι : Type)
  /-- A call of `mmap` in which `remap_pfn_range` succeeds. -/
  | mmap (process : ι) (vma : Vma)
  | load (process : ι) (address : Nat)
  | store (process : ι) (address : Nat) (value : UInt8)

/-- A loaded driver and the processes that use it. -/
structure Session (config : Config) (ι : Type) where
  kernel : Kernel config
  tables : ι → PageTable
  /-- The physical addresses that processes have written. -/
  stored : List Nat

section Actions
variable {config : Config} {ι : Type} [DecidableEq ι]

/-- Before the first call of `mmap`. -/
def Session.start (kernel : Kernel config) : Session config ι where
  kernel := kernel
  tables := fun _ _ => none
  stored := []

/-- One action, and what it loads. An address that is not mapped loads and stores nothing. -/
def Session.act (session : Session config ι) :
    UserAction ι → Except Fault (Session config ι × Option UInt8)
  | .mmap process vma => do
    let (table, _) ← mymmapMmap session.kernel vma remapSucceeds (session.tables process)
    return ({ session with tables := Function.update session.tables process table }, none)
  | .load process address =>
    .ok (session, ((session.tables process).translate pageSize address).map session.kernel.memory)
  | .store process address value =>
    match (session.tables process).translate pageSize address with
    | none => .ok (session, none)
    | some target => .ok ({ session with
        kernel := { session.kernel with memory := Function.update session.kernel.memory target value }
        stored := target :: session.stored }, none)

/-- What a sequence of actions loads after a load of the driver; nothing where that fails. -/
def loadedValues (kernel : Kernel config) (outcomes : Outcomes config) (actions : List (UserAction ι)) :
    Except Fault (List (Option UInt8)) := do
  let (ready, ret) ← mymmapInit kernel outcomes
  if ret < 0 then return []
  else do
    let (_, values) ← answers Session.act (Session.start ready) actions
    return values

/-- A load reads only marks, and what processes have written. -/
def Session.ReadsKnown (session : Session config ι) : UserAction ι → Prop
  | .load process address => ∀ target, (session.tables process).translate pageSize address = some target →
      target ∈ session.stored ∨ target % pageSize < 4
  | _ => True

end Actions

/-- The bytes of the area a load was given. -/
def Outcomes.InArea {config : Config} (outcomes : Outcomes config) (address : Nat) : Prop :=
  ∃ area, outcomes.area = some area ∧ ∃ offset < config.size, address = area.byte offset

/-! ## Two runs -/

section Runs
variable {config : Config} {ι : Type} {area : Area config} {differ : Nat → Prop}
  {left right : Session config ι}

/-- Two sessions of one driver that were given different memory at some addresses, and
still have it where nothing was stored. -/
structure Session.Alike (area : Area config) (differ : Nat → Prop) (left right : Session config ι) :
    Prop where
  left_ready : Ready left.kernel area
  right_ready : Ready right.kernel area
  tables : left.tables = right.tables
  stored : left.stored = right.stored
  memory : ∀ address, left.kernel.memory address = right.kernel.memory address ↔
    (address ∈ left.stored ∨ ¬ differ address)

/-- A load reads where the two runs agree. -/
def Session.ReadsSame (differ : Nat → Prop) (session : Session config ι) : UserAction ι → Prop
  | .load process address => ∀ target, (session.tables process).translate pageSize address = some target →
      target ∈ session.stored ∨ ¬ differ target
  | _ => True

/-- Every page a process can reach is one of the area. -/
def Session.Mapped (area : Area config) (session : Session config ι) : Prop :=
  Ready session.kernel area ∧ ∀ process page frame, session.tables process page = some frame →
    ∃ k < config.maxPages, frame = area.frame k

/-- What a process can reach is a byte of the area. -/
theorem Session.Mapped.target {session : Session config ι} (mapped : session.Mapped area) {process : ι}
    {address target : Nat}
    (translated : (session.tables process).translate pageSize address = some target) :
    ∃ k < config.maxPages, area.frame k = target / pageSize := by
  obtain ⟨frame, entry, rfl⟩ := Option.map_eq_some_iff.mp translated
  obtain ⟨k, low, rfl⟩ := mapped.2 process _ frame entry
  refine ⟨k, low, ?_⟩
  rw [page_div (Nat.mod_lt _ pageSize_pos)]

variable [DecidableEq ι]

/-- On a published device, `mmap` maps the area or refuses, whatever the memory holds. -/
theorem mymmapMmap_alike (left right : Kernel config) (leftReady : Ready left area)
    (rightReady : Ready right area) (vma : Vma) (table : PageTable) : ∃ after ret,
      mymmapMmap left vma remapSucceeds table = .ok (after, ret) ∧
      mymmapMmap right vma remapSucceeds table = .ok (after, ret) := by
  by_cases fits : vma.len ≤ config.size
  · exact ⟨_, _, mymmapMmap_fits leftReady fits, mymmapMmap_fits rightReady fits⟩
  · have long := Nat.not_le.mp fits
    exact ⟨_, _, mymmapMmap_long leftReady long, mymmapMmap_long rightReady long⟩

/-- Each action keeps two sessions alike, and loads the same exactly where they agree. -/
theorem Session.Alike.act (alike : Alike area differ left right) (action : UserAction ι) :
    ∃ next next' value value', left.act action = .ok (next, value) ∧
      right.act action = .ok (next', value') ∧ Alike area differ next next' ∧
      (value = value' ↔ left.ReadsSame differ action) := by
  obtain ⟨leftReady, rightReady, tables, stored, memory⟩ := alike
  cases action with
  | mmap process vma =>
    obtain ⟨after, ret, ran, ran'⟩ :=
      mymmapMmap_alike left.kernel right.kernel leftReady rightReady vma (left.tables process)
    refine ⟨_, _, none, none, by simp only [Session.act, ran, ok_bind, pure_eq_ok]; rfl,
      by rw [Session.act, ← tables, ran']; rfl, ?_, iff_of_true rfl trivial⟩
    exact ⟨leftReady, rightReady, rfl, stored, memory⟩
  | load process address =>
    refine ⟨left, right, _, _, rfl, rfl, ⟨leftReady, rightReady, tables, stored, memory⟩, ?_⟩
    rw [← tables]
    cases translated : (left.tables process).translate pageSize address with
    | none => simp [Session.ReadsSame, translated]
    | some target => simp [Session.ReadsSame, translated, memory]
  | store process address value =>
    cases translated : (left.tables process).translate pageSize address with
    | none =>
      refine ⟨left, right, none, none, by simp only [Session.act, translated],
        by simp only [Session.act, ← tables, translated], ?_, iff_of_true rfl trivial⟩
      exact ⟨leftReady, rightReady, tables, stored, memory⟩
    | some target =>
      refine ⟨_, _, none, none, by simp only [Session.act, translated]; rfl,
        by simp only [Session.act, ← tables, translated]; rfl, ?_, iff_of_true rfl trivial⟩
      refine ⟨⟨leftReady.area, leftReady.size⟩, ⟨rightReady.area, rightReady.size⟩, rfl,
        congrArg (target :: ·) stored, fun address => ?_⟩
      by_cases here : address = target
      · subst here
        simp
      · simp [here, memory]

/-- `mmap` maps pages of the area only. -/
theorem Session.Mapped.settle (covers : config.Covers) {session next : Session config ι}
    {action : UserAction ι} (mapped : session.Mapped area)
    (taken : settle Session.act session action = .ok next) : next.Mapped area := by
  obtain ⟨ready, frames⟩ := mapped
  obtain ⟨⟨after, value⟩, acted, same⟩ := bind_eq_ok.mp taken
  cases same
  cases action with
  | mmap process vma =>
    obtain ⟨⟨table, ret⟩, ran, same⟩ := bind_eq_ok.mp acted
    cases same
    refine ⟨ready, fun other page frame entry => ?_⟩
    by_cases here : other = process
    · subst here
      simp only [Function.update_self] at entry
      by_cases fits : vma.len ≤ config.size
      · rw [mymmapMmap_fits ready fits] at ran
        cases ran
        by_cases inside : vma.firstPage ≤ page ∧ page < vma.firstPage + vma.pages
        · have low : page - vma.firstPage < config.maxPages := by
            have within := Vma.pages_le fits
            omega
          rw [PageTable.mapTo, if_pos inside, Area.mapped_eq (Nat.lt_of_lt_of_le low covers)] at entry
          exact ⟨_, low, (Option.some.inj entry).symm⟩
        · rw [PageTable.mapTo, if_neg inside] at entry
          exact frames other page frame entry
      · rw [mymmapMmap_long ready (Nat.not_le.mp fits)] at ran
        cases ran
        exact frames other page frame entry
    · simp only [Function.update_of_ne here] at entry
      exact frames other page frame entry
  | load process address =>
    cases acted
    exact ⟨ready, frames⟩
  | store process address value =>
    simp only [Session.act] at acted
    split at acted
    · cases acted
      exact ⟨ready, frames⟩
    · cases acted
      exact ⟨⟨ready.area, ready.size⟩, frames⟩

end Runs

/-! ## The leak -/

section Leak
variable {config : Config} {ι : Type} {kernel : Kernel config} {outcomes : Outcomes config}
  {area : Area config}

theorem inArea_iff (found : outcomes.area = some area) (address : Nat) :
    outcomes.InArea address ↔ ∃ k < config.maxPages, area.frame k = address / pageSize := by
  constructor
  · rintro ⟨area', same, offset, low, rfl⟩
    rw [found] at same
    cases same
    exact ⟨offset / pageSize, Nat.div_lt_of_lt_mul (Nat.mul_comm config.maxPages pageSize ▸ low),
      (Area.byte_div offset).symm⟩
  · rintro ⟨k, low, frame⟩
    have within := Nat.mul_le_mul_right pageSize (Nat.succ_le_of_lt low)
    have below := Nat.mod_lt address pageSize_pos
    rw [Nat.succ_mul] at within
    refine ⟨area, found, k * pageSize + address % pageSize, by unfold Config.size; omega, ?_⟩
    rw [Area.byte_of_page below, frame, Nat.div_add_mod']

/-- Where memory differs after the marks were written. -/
def Unmarked (outcomes : Outcomes config) (before memory : Memory) (address : Nat) : Prop :=
  ¬ (address % pageSize < 4 ∧ outcomes.InArea address) ∧ before address ≠ memory address

/-- Two loads that find different memory. -/
theorem start_alike (found : outcomes.area = some area) (memory : Memory) :
    Session.Alike area (Unmarked outcomes kernel.memory memory)
      (Session.start (kernel.loaded outcomes area) : Session config ι)
      (Session.start ({ kernel with memory := memory }.loaded outcomes area)) := by
  refine ⟨loaded_ready found, loaded_ready found, rfl, rfl, fun address => ?_⟩
  show area.stamped config.maxPages kernel.memory address =
    area.stamped config.maxPages memory address ↔ _
  by_cases marked : address % pageSize < 4 ∧ outcomes.InArea address
  · have stamped : address % pageSize < 4 ∧ ∃ k < config.maxPages, area.frame k = address / pageSize :=
      ⟨marked.1, (inArea_iff found address).mp marked.2⟩
    rw [Area.stamped, Area.stamped, if_pos stamped, if_pos stamped]
    exact iff_of_true rfl (.inr fun differ => differ.1 marked)
  · have unstamped : ¬ (address % pageSize < 4 ∧
        ∃ k < config.maxPages, area.frame k = address / pageSize) := by
      rwa [← inArea_iff found address]
    rw [Area.stamped_of_not_mark unstamped, Area.stamped_of_not_mark unstamped]
    simp [Unmarked, marked, Session.start]

/-- Memory can differ in all of the area and nowhere else. -/
theorem exists_differing (outcomes : Outcomes config) (before : Memory) : ∃ memory : Memory,
    (∀ address, ¬ outcomes.InArea address → memory address = before address) ∧
    ∀ address, outcomes.InArea address → before address ≠ memory address := by
  classical
  refine ⟨fun address => if outcomes.InArea address then before address + 1 else before address,
    fun address outside => if_neg outside, fun address inside => ?_⟩
  simp only [if_pos inside]
  intro same
  have values := congrArg UInt8.toNat same
  rw [UInt8.toNat_add] at values
  have below := (before address).toNat_lt
  have one : (1 : UInt8).toNat = 1 := rfl
  omega

variable [DecidableEq ι]

theorem loadedValues_of_fails {after : Kernel config} {err : Int}
    (fails : mymmapInit kernel outcomes = .ok (after, err)) (negative : err < 0)
    (actions : List (UserAction ι)) : loadedValues kernel outcomes actions = .ok [] := by
  rw [loadedValues, fails, ok_bind]
  simp only [if_pos negative, pure_eq_ok]

theorem loadedValues_of_succeeds {ready : Kernel config} {final : Session config ι}
    {actions : List (UserAction ι)} {values : List (Option UInt8)}
    (succeeds : mymmapInit kernel outcomes = .ok (ready, 0))
    (acted : answers Session.act (Session.start ready) actions = .ok (final, values)) :
    loadedValues kernel outcomes actions = .ok values := by
  rw [loadedValues, succeeds, ok_bind]
  simp only [if_neg (Int.lt_irrefl 0), acted, ok_bind, pure_eq_ok]

/-- The values of two loads agree exactly when each of their loads reads what both have. -/
theorem loadedValues_agree_iff (covers : config.Covers) (free : kernel.region = false)
    (zero : outcomes.registerChrdevRegion.1 = 0) (found : outcomes.area = some area)
    (memory : Memory) (actions : List (UserAction ι)) :
    loadedValues { kernel with memory := memory } outcomes actions =
        loadedValues kernel outcomes actions ↔
      Along (Session.ReadsSame (Unmarked outcomes kernel.memory memory)) (settle Session.act)
        (Session.start (kernel.loaded outcomes area)) actions := by
  have alike : Session.Alike area (Unmarked outcomes kernel.memory memory)
      (Session.start (kernel.loaded outcomes area) : Session config ι)
      (Session.start ({ kernel with memory := memory }.loaded outcomes area)) := start_alike found memory
  obtain ⟨final, final', values, values', left, right, agree⟩ :=
    answers_agree_iff (fun _ _ action alike => Session.Alike.act alike action) alike
  have succeeds : mymmapInit kernel outcomes = .ok (kernel.loaded outcomes area, 0) :=
    mymmapInit_with_area covers free zero found
  have succeeds' : mymmapInit { kernel with memory := memory } outcomes =
      .ok ({ kernel with memory := memory }.loaded outcomes area, 0) :=
    mymmapInit_with_area covers free zero found
  rw [loadedValues_of_succeeds succeeds left, loadedValues_of_succeeds succeeds' right, ← agree,
    Except.ok.injEq]
  exact eq_comm

/-- **Disclosure.** What a sequence of actions loads does not depend on what was in the
area before the driver was loaded exactly when each of its loads reads a mark or
something a process has stored. -/
theorem loads_independent_iff (backend : Backend) (kernel : Kernel backend.config)
    (outcomes : Outcomes backend.config) (actions : List (UserAction ι)) :
    (∀ memory : Memory, (∀ address, ¬ outcomes.InArea address → memory address = kernel.memory address) →
      loadedValues { kernel with memory := memory } outcomes actions =
        loadedValues kernel outcomes actions) ↔
    ∀ ready, mymmapInit kernel outcomes = .ok (ready, 0) →
      Along Session.ReadsKnown (settle Session.act) (Session.start ready) actions := by
  have covers := backend.config_covers
  rcases mymmapInit_cases covers kernel outcomes with ⟨refused, err, negative, same⟩ |
    ⟨free, zero, missing, same⟩ | ⟨area, free, zero, found, same⟩
  · refine iff_of_true (fun memory _ => ?_) (fun ready succeeds => ?_)
    · obtain ⟨err', negative', same'⟩ : ∃ err < 0,
          mymmapInit { kernel with memory := memory } outcomes = .ok (_, err) := mymmapInit_refused refused
      rw [loadedValues_of_fails same negative, loadedValues_of_fails same' negative']
    · rw [same] at succeeds
      cases succeeds
      cases negative
  · refine iff_of_true (fun memory _ => ?_) (fun ready succeeds => ?_)
    · have same' : mymmapInit { kernel with memory := memory } outcomes = .ok (_, -einval) :=
        mymmapInit_without_area free zero missing
      rw [loadedValues_of_fails same neg_einval, loadedValues_of_fails same' neg_einval]
    · rw [same] at succeeds
      cases succeeds
  · constructor
    · intro independent ready succeeds
      rw [same] at succeeds
      cases succeeds
      obtain ⟨memory, outside, inside⟩ := exists_differing outcomes kernel.memory
      have same := (loadedValues_agree_iff covers free zero found memory actions).mp
        (independent memory outside)
      have unmapped : (Session.start (kernel.loaded outcomes area) : Session _ ι).Mapped area :=
        ⟨loaded_ready found, fun process page frame entry => by cases entry⟩
      refine along_mono (Session.Mapped area) (fun _ _ _ mapped taken => mapped.settle covers taken) ?_
        unmapped same
      rintro session action mapped reads
      cases action with
      | mmap | store => trivial
      | load process address =>
        intro target translated
        refine (reads target translated).imp_right fun alike => ?_
        have reached := (inArea_iff found target).mpr (mapped.target translated)
        by_contra high
        exact alike ⟨fun marked => high marked.1, inside target reached⟩
    · intro known memory agrees
      rw [loadedValues_agree_iff covers free zero found memory actions]
      refine along_mono (fun _ => True) (fun _ _ _ _ _ => trivial) ?_ trivial (known _ same)
      rintro session action - reads
      cases action with
      | mmap | store => trivial
      | load process address =>
        intro target translated
        refine (reads target translated).imp_right fun low differs => ?_
        by_cases inside : outcomes.InArea target
        · exact differs.1 ⟨low, inside⟩
        · exact differs.2 (agrees target inside).symm

end Leak

theorem onePage_below : pageSize < 2 ^ 64 := by decide

/-- The first page of an address space. -/
def onePage : Vma where
  vmStart := 0
  vmEnd := pageSize
  nonempty := pageSize_pos
  below := onePage_below
  startAligned := Nat.dvd_zero pageSize
  endAligned := Nat.dvd_refl pageSize

/-- The fifth byte of the area is no mark: a process that maps the area loads what was
there before. -/
theorem fifth_byte_leaks :
    loadedValues (.beforeLoad fun _ => 0) (.allSucceed (.bottom Backend.kmalloc.config))
      [.mmap () onePage, .load () 4] = .ok [none, some 0] ∧
    loadedValues (.beforeLoad (Function.update (fun _ => 0) 4 1))
      (.allSucceed (.bottom Backend.kmalloc.config)) [.mmap () onePage, .load () 4] =
      .ok [none, some 1] ∧
    (Outcomes.allSucceed (.bottom Backend.kmalloc.config)).InArea 4 :=
  ⟨by decide +kernel, by decide +kernel, .bottom _, rfl, 4, by decide, rfl⟩

end KernelLabs.Mymmap
