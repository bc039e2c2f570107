import KernelLabs.CBytes
import KernelLabs.MymmapDisclosure
import Mathlib.Data.Nat.Find

/-! The text that `mymmap_read` prints. It gives the whole area to a `%s`, which stops at
a `NUL`; but the loop of `mymmap_init` stores none, and processes can overwrite those that
were there. -/
namespace KernelLabs.Mymmap
open CBytes Errno Function

variable {config : Config}

/-- `area[offset]`. -/
def Area.load (area : Area config) (memory : Memory) (offset : Nat) : Except Fault UInt8 :=
  if offset < config.areaPages * pageSize then .ok (memory (area.byte offset)) else .error .outOfBounds

/-- How a `%s` reads its string: byte by byte, up to and including the first `NUL`. -/
def Area.scan (area : Area config) (memory : Memory) : Nat → Nat → Except Fault Bytes
  | 0, _ => .error .diverged
  | fuel + 1, offset => do
    let byte ← area.load memory offset
    if byte = 0 then return []
    else
      let rest ← area.scan memory fuel (offset + 1)
      return byte :: rest

/-- The text around the string of the message. -/
def characters (text : String) : Bytes := text.toList.map fun character => UInt8.ofNat character.toNat

/-- The message of `mymmap_read`, and its result. `printk` shows `NULL` as `(null)`. -/
def mymmapRead (kernel : Kernel config) : Except Fault (Bytes × Int) := do
  let current ← match kernel.area with
    | none => pure (characters "(null)")
    | some area => area.scan kernel.memory (config.areaPages * pageSize + 1) 0
  return (characters "[mymmap_read] current: " ++ current ++ [0x0a], 0)

/-- The area has a `NUL` in it. -/
def Area.HasNul (area : Area config) (memory : Memory) : Prop :=
  ∃ offset < config.size, memory (area.byte offset) = 0

/-- The allocator left a `NUL` behind the first four bytes of a page. -/
def Area.LeftNul (area : Area config) (memory : Memory) : Prop :=
  ∃ offset < config.size, 4 ≤ offset % pageSize ∧ memory (area.byte offset) = 0

/-- A store writes a `NUL`, or does not overwrite the last one of the area. -/
def Session.KeepsNul {ι : Type} (area : Area config) (session : Session config ι) : UserAction ι → Prop
  | .store process address value => ∀ target,
      (session.tables process).translate pageSize address = some target → value = 0 ∨
        ∃ offset < config.size, area.byte offset ≠ target ∧ session.kernel.memory (area.byte offset) = 0
  | _ => True

/-! ## One read -/

section Scan
variable {area : Area config} {memory : Memory} {fuel offset count : Nat} {kernel : Kernel config}

/-- The string is what stands before the first `NUL`. -/
theorem scan_stops (clean : ∀ k < count, memory (area.byte (offset + k)) ≠ 0)
    (ends : memory (area.byte (offset + count)) = 0) (inside : offset + count < config.areaPages * pageSize)
    (enough : count < fuel) :
    area.scan memory fuel offset = .ok ((List.range count).map fun k => memory (area.byte (offset + k))) := by
  induction count generalizing fuel offset with
  | zero =>
    obtain ⟨fuel, rfl⟩ := Nat.exists_eq_succ_of_ne_zero (Nat.ne_of_gt enough)
    have read : area.load memory offset = .ok 0 := by
      rw [Area.load, if_pos (by omega)]
      exact congrArg Except.ok ends
    simp [Area.scan, read]
  | succ count ih =>
    obtain ⟨fuel, rfl⟩ := Nat.exists_eq_succ_of_ne_zero (Nat.ne_of_gt (Nat.zero_lt_of_lt enough))
    have read : area.load memory offset = .ok (memory (area.byte offset)) := by
      rw [Area.load, if_pos (by omega)]
    have nonzero : memory (area.byte offset) ≠ 0 := clean 0 (Nat.succ_pos count)
    have shift (k : Nat) : offset + 1 + k = offset + (k + 1) := by omega
    have rest : area.scan memory fuel (offset + 1) =
        .ok ((List.range count).map fun k => memory (area.byte (offset + 1 + k))) := by
      refine ih (fun k low => ?_) ?_ (by omega) (by omega)
      · rw [shift]
        exact clean (k + 1) (Nat.succ_lt_succ low)
      · rw [shift]
        exact ends
    rw [Area.scan, read, ok_bind, if_neg nonzero, rest, ok_bind, List.range_succ_eq_map, List.map_cons,
      List.map_map]
    simp [Function.comp_def, shift]

/-- Without a `NUL`, the scan leaves the area. -/
theorem scan_leaves (clean : ∀ place, offset ≤ place → place < config.areaPages * pageSize →
      memory (area.byte place) ≠ 0)
    (enough : config.areaPages * pageSize < offset + fuel) (low : offset ≤ config.areaPages * pageSize) :
    area.scan memory fuel offset = .error .outOfBounds := by
  induction fuel generalizing offset with
  | zero => omega
  | succ fuel ih =>
    rw [Area.scan, Area.load]
    by_cases inside : offset < config.areaPages * pageSize
    · rw [if_pos inside, ok_bind, if_neg (clean offset (le_refl offset) inside),
        ih (fun place after => clean place (by omega)) (by omega) inside]
      rfl
    · rw [if_neg inside, error_bind]

/-- The read prints the string that the area begins with, or leaves it. -/
theorem mymmapRead_cases (whole : config.areaPages * pageSize = config.size) (allocated : kernel.area = some area) :
    (area.HasNul kernel.memory ∧ ∃ text, mymmapRead kernel = .ok (text, 0)) ∨
    (¬ area.HasNul kernel.memory ∧ mymmapRead kernel = .error .outOfBounds) := by
  classical
  by_cases nul : area.HasNul kernel.memory
  · obtain ⟨inside, ends⟩ := Nat.find_spec nul
    refine .inl ⟨nul, ?_⟩
    have stops : area.scan kernel.memory (config.areaPages * pageSize + 1) 0 =
        .ok ((List.range (Nat.find nul)).map fun k => kernel.memory (area.byte (0 + k))) := by
      refine scan_stops (fun k low zero => ?_) (by rwa [Nat.zero_add]) (by omega) (by omega)
      exact Nat.find_min nul low ⟨by omega, by rwa [Nat.zero_add] at zero⟩
    exact ⟨_, by rw [mymmapRead, allocated]; simp only [stops, ok_bind, pure_eq_ok]; rfl⟩
  · refine .inr ⟨nul, ?_⟩
    have leaves : area.scan kernel.memory (config.areaPages * pageSize + 1) 0 = .error .outOfBounds :=
      scan_leaves (fun place _ inside zero => nul ⟨place, whole ▸ inside, zero⟩) (by omega) (Nat.zero_le _)
    rw [mymmapRead, allocated]
    simp only [leaves, error_bind]

theorem mymmapRead_ok_iff (whole : config.areaPages * pageSize = config.size) (allocated : kernel.area = some area) :
    (∃ text, mymmapRead kernel = .ok (text, 0)) ↔ area.HasNul kernel.memory := by
  rcases mymmapRead_cases whole allocated with ⟨nul, printed⟩ | ⟨clean, leaves⟩
  · exact iff_of_true printed nul
  · refine iff_of_false ?_ clean
    rintro ⟨text, printed⟩
    rw [leaves] at printed
    cases printed

end Scan

/-! ## Whole runs -/

section Runs
variable {ι : Type} [DecidableEq ι] {area : Area config} {memory : Memory}
  {session next : Session config ι} {action : UserAction ι} {kernel : Kernel config}
  {outcomes : Outcomes config}

theorem mark_ne_zero (offset : Nat) : mark offset ≠ 0 := by
  unfold mark
  split <;> decide

/-- The marks contain no `NUL`. -/
theorem stamped_hasNul_iff : area.HasNul (area.stamped config.maxPages memory) ↔ area.LeftNul memory := by
  refine exists_congr fun offset => and_congr_right fun inside => ?_
  have page : ∃ k < config.maxPages, area.frame k = area.byte offset / pageSize :=
    ⟨offset / pageSize, Nat.div_lt_of_lt_mul (Nat.mul_comm config.maxPages pageSize ▸ inside),
      (Area.byte_div offset).symm⟩
  rw [Area.stamped, Area.byte_mod]
  by_cases low : offset % pageSize < 4
  · rw [if_pos ⟨low, page⟩]
    exact iff_of_false (mark_ne_zero _) fun both => Nat.not_le.mpr low both.1
  · rw [if_neg fun both => low both.1]
    exact (and_iff_right (Nat.not_lt.mp low)).symm

/-- What an action does to the driver: a store that reaches memory writes its byte, and
nothing else changes anything. -/
theorem act_cases (taken : settle Session.act session action = .ok next) :
    next.kernel.area = session.kernel.area ∧ next.kernel.size = session.kernel.size ∧
      (next.kernel.memory = session.kernel.memory ∧ (∀ process address value target,
          action = .store process address value →
          (session.tables process).translate pageSize address ≠ some target) ∨
        ∃ process address value target, action = .store process address value ∧
          (session.tables process).translate pageSize address = some target ∧
          next.kernel.memory = update session.kernel.memory target value) := by
  obtain ⟨⟨after, value⟩, acted, same⟩ := bind_eq_ok.mp taken
  cases same
  cases action with
  | mmap process vma =>
    obtain ⟨⟨table, ret⟩, -, same⟩ := bind_eq_ok.mp acted
    cases same
    exact ⟨rfl, rfl, .inl ⟨rfl, fun _ _ _ _ other => by cases other⟩⟩
  | load process address =>
    cases acted
    exact ⟨rfl, rfl, .inl ⟨rfl, fun _ _ _ _ other => by cases other⟩⟩
  | store process address value =>
    cases translated : (session.tables process).translate pageSize address with
    | none =>
      simp only [Session.act, translated] at acted
      cases acted
      refine ⟨rfl, rfl, .inl ⟨rfl, ?_⟩⟩
      rintro _ _ _ target ⟨⟩
      rw [translated]
      exact fun reached => by cases reached
    | some target =>
      simp only [Session.act, translated] at acted
      cases acted
      exact ⟨rfl, rfl, .inr ⟨process, address, value, target, rfl, translated, rfl⟩⟩

theorem act_ready (ready : Ready session.kernel area) (taken : settle Session.act session action = .ok next) :
    Ready next.kernel area := by
  obtain ⟨allocated, size, -⟩ := act_cases taken
  exact ⟨allocated.trans ready.area, size.trans ready.size⟩

theorem act_total (ready : Ready session.kernel area) (action : UserAction ι) :
    ∃ next, settle Session.act session action = .ok next := by
  cases action with
  | mmap process vma =>
    obtain ⟨⟨table, ret⟩, ran⟩ := mymmapMmap_total ready vma remapSucceeds (session.tables process)
    exact ⟨_, by simp only [settle, Session.act, ran, ok_bind, pure_eq_ok]; rfl⟩
  | load process address => exact ⟨session, rfl⟩
  | store process address value =>
    cases translated : (session.tables process).translate pageSize address with
    | none => exact ⟨session, by simp only [settle, Session.act, translated, ok_bind, pure_eq_ok]⟩
    | some target => exact ⟨_, by simp only [settle, Session.act, translated, ok_bind, pure_eq_ok]; rfl⟩

/-- A store to a byte of memory. -/
theorem update_hasNul_iff {target : Nat} {value : UInt8} (nul : area.HasNul memory) :
    area.HasNul (update memory target value) ↔ value = 0 ∨
      ∃ offset < config.size, area.byte offset ≠ target ∧ memory (area.byte offset) = 0 := by
  constructor
  · rintro ⟨offset, inside, zero⟩
    by_cases here : area.byte offset = target
    · rw [here, update_self] at zero
      exact .inl zero
    · rw [update_of_ne here] at zero
      exact .inr ⟨offset, inside, here, zero⟩
  · rintro (rfl | ⟨offset, inside, elsewhere, zero⟩)
    · obtain ⟨offset, inside, zero⟩ := nul
      refine ⟨offset, inside, ?_⟩
      by_cases here : area.byte offset = target
      · rw [here, update_self]
      · rwa [update_of_ne here]
    · exact ⟨offset, inside, by rwa [update_of_ne elsewhere]⟩

/-- Only a store can take the last `NUL` away. -/
theorem nul_kept_iff (nul : area.HasNul session.kernel.memory)
    (taken : settle Session.act session action = .ok next) :
    area.HasNul next.kernel.memory ↔ session.KeepsNul area action := by
  obtain ⟨-, -, ⟨same, quiet⟩ | ⟨process, address, value, target, rfl, translated, same⟩⟩ := act_cases taken
  · rw [same]
    refine iff_of_true nul ?_
    cases action with
    | mmap | load => trivial
    | store process address value => exact fun target reached => absurd reached (quiet _ _ _ target rfl)
  · rw [same]
    refine (update_hasNul_iff nul).trans ⟨fun kept other reached => ?_, fun keeps => keeps target translated⟩
    rw [translated] at reached
    cases reached
    exact kept

/-- From a state with an area, all reads of a run stay inside exactly when there is a `NUL`
and every action keeps one. -/
theorem reads_stay_iff (whole : config.areaPages * pageSize = config.size) (ready : Ready session.kernel area)
    (actions : List (UserAction ι)) :
    (∀ before rest reached, actions = before ++ rest →
      run (settle Session.act) session before = .ok reached → ∃ text, mymmapRead reached.kernel = .ok (text, 0)) ↔
    area.HasNul session.kernel.memory ∧ Along (Session.KeepsNul area) (settle Session.act) session actions := by
  let Inv (session : Session config ι) : Prop := Ready session.kernel area ∧ area.HasNul session.kernel.memory
  have exactly (session : Session config ι) (action : UserAction ι) (next : Session config ι)
      (inv : Inv session) (taken : settle Session.act session action = .ok next) :
      Inv next ↔ session.KeepsNul area action :=
    (and_iff_right (act_ready inv.1 taken)).trans (nul_kept_iff inv.2 taken)
  have steps (start : Inv session) :
      (∀ before rest reached, actions = before ++ rest →
        run (settle Session.act) session before = .ok reached → Inv reached) ↔
      Along (Session.KeepsNul area) (settle Session.act) session actions :=
    along_iff_of_total (fun session action inv => act_total inv.1 action) exactly start
  constructor
  · intro always
    have inside (before rest : List (UserAction ι)) (reached : Session config ι) (split : actions = before ++ rest)
        (ran : run (settle Session.act) session before = .ok reached) : Inv reached := by
      have ready := run_invariant (fun session => Ready session.kernel area)
        (fun _ _ _ ready taken => act_ready ready taken) ready ran
      exact ⟨ready, (mymmapRead_ok_iff whole ready.area).mp (always before rest reached split ran)⟩
    have start : Inv session := inside [] actions session rfl rfl
    exact ⟨start.2, (steps start).mp inside⟩
  · rintro ⟨nul, along⟩ before rest reached split ran
    obtain ⟨ready, nul⟩ := (steps ⟨ready, nul⟩).mpr along before rest reached split ran
    exact (mymmapRead_ok_iff whole ready.area).mpr nul

/-- A device without an area is never given one. -/
theorem read_without_area {actions : List (UserAction ι)} (missing : session.kernel.area = none)
    (ran : run (settle Session.act) session actions = .ok next) :
    ∃ text, mymmapRead next.kernel = .ok (text, 0) := by
  have still : next.kernel.area = none :=
    run_invariant (fun session => session.kernel.area = none)
      (fun _ _ _ missing taken => (act_cases taken).1.trans missing) missing ran
  exact ⟨_, by rw [mymmapRead, still]; rfl⟩

theorem Backend.config_whole (backend : Backend) :
    backend.config.areaPages * pageSize = backend.config.size := by
  cases backend <;> rfl

/-- **Reads stay inside.** In a run of `mmap` calls, loads and stores after a load of the
driver, `mymmap_read` never leaves the area exactly when the allocator left a `NUL` outside
the marks and no store overwrites the last `NUL` of the area. -/
theorem read_inside_iff (backend : Backend) (kernel : Kernel backend.config)
    (outcomes : Outcomes backend.config) (actions : List (UserAction ι)) :
    (∀ loaded ret, mymmapInit kernel outcomes = .ok (loaded, ret) → ∀ before rest reached,
      actions = before ++ rest → run (settle Session.act) (Session.start loaded) before = .ok reached →
      ∃ text, mymmapRead reached.kernel = .ok (text, 0)) ↔
    ∀ loaded area, mymmapInit kernel outcomes = .ok (loaded, 0) → loaded.area = some area →
      area.LeftNul kernel.memory ∧
      Along (Session.KeepsNul area) (settle Session.act) (Session.start loaded) actions := by
  have covers := backend.config_covers
  rcases mymmapInit_cases covers kernel outcomes with ⟨-, err, negative, same⟩ | ⟨-, -, missing, same⟩ |
    ⟨area, -, -, found, same⟩
  · refine iff_of_true (fun loaded ret ran before rest reached _ acted => ?_) (fun loaded area ran => ?_)
    · cases same.symm.trans ran
      exact read_without_area rfl acted
    · cases same.symm.trans ran
      cases negative
  · refine iff_of_true (fun loaded ret ran before rest reached _ acted => ?_) (fun loaded area ran => ?_)
    · cases same.symm.trans ran
      exact read_without_area missing acted
    · cases same.symm.trans ran
  · let start : Session backend.config ι := Session.start (kernel.loaded outcomes area)
    have ready : Ready start.kernel area := loaded_ready found
    have exactly := reads_stay_iff backend.config_whole ready actions
    constructor
    · rintro always loaded other ran allocated
      cases same.symm.trans ran
      cases ready.area.symm.trans allocated
      obtain ⟨nul, along⟩ := exactly.mp (always _ _ same)
      exact ⟨stamped_hasNul_iff.mp nul, along⟩
    · intro condition loaded ret ran
      cases same.symm.trans ran
      obtain ⟨left, along⟩ := condition _ area same ready.area
      exact exactly.mpr ⟨stamped_hasNul_iff.mpr left, along⟩

/-! ## An area without a `NUL` -/

/-- `memset(address, value, count)` in a process. -/
def memsetStores (process : ι) (address : Nat) (value : UInt8) (count : Nat) : List (UserAction ι) :=
  (List.range count).map fun offset => .store process (address + offset) value

/-- Stores through a mapping reach the area. -/
theorem memset_fills {process : ι} {start count : Nat} (value : UInt8) (ready : Ready session.kernel area)
    (shows : ∀ offset < count,
      (session.tables process).translate pageSize (start + offset) = some (area.byte offset)) : ∃ reached,
    run (settle Session.act) session (memsetStores process start value count) = .ok reached ∧
      Ready reached.kernel area ∧ reached.tables = session.tables ∧
      ∀ offset < count, reached.kernel.memory (area.byte offset) = value := by
  induction count with
  | zero => exact ⟨session, rfl, ready, rfl, fun offset none => absurd none (Nat.not_lt_zero offset)⟩
  | succ count ih =>
    obtain ⟨middle, ran, ready, tables, filled⟩ := ih fun offset low => shows offset (Nat.lt_succ_of_lt low)
    have target := shows count (Nat.lt_succ_self count)
    rw [← tables] at target
    let memory := update middle.kernel.memory (area.byte count) value
    refine ⟨{ middle with
        kernel := { middle.kernel with memory := memory }
        stored := area.byte count :: middle.stored }, ?_, ⟨ready.area, ready.size⟩, tables, fun offset low => ?_⟩
    · rw [memsetStores, List.range_succ, List.map_append, List.map_singleton, run_append,
        ← memsetStores, ran, ok_bind]
      simp only [run_cons, run_nil, settle, Session.act, target, ok_bind, pure_eq_ok, memory]
    · by_cases here : area.byte offset = area.byte count
      · simp only [memory, here, update_self]
      · simp only [memory, update_of_ne here]
        refine filled offset (Nat.lt_of_le_of_ne (Nat.le_of_lt_succ low) ?_)
        rintro rfl
        exact here rfl

/-- A process fills the area with `A`s: the next read does not stop at its end. -/
theorem filled_area_overruns : ∃ loaded reached,
    mymmapInit (.beforeLoad fun _ => 0) (.allSucceed (.bottom Backend.kmalloc.config)) = .ok (loaded, 0) ∧
    run (settle Session.act) (Session.start loaded)
      (.mmap () Backend.kmalloc.config.wholeArea :: memsetStores () 0 0x41 Backend.kmalloc.config.size) =
      .ok reached ∧
    mymmapRead reached.kernel = .error .outOfBounds := by
  let config := Backend.kmalloc.config
  let outcomes : Outcomes config := .allSucceed (.bottom config)
  have covers : config.Covers := Backend.kmalloc.config_covers
  have ran : mymmapInit (.beforeLoad fun _ => 0) outcomes = .ok (_, 0) :=
    mymmapInit_with_area covers rfl rfl rfl
  have found : outcomes.area = some (.bottom config) := rfl
  have ready : Ready (Kernel.loaded (.beforeLoad fun _ => 0) outcomes (.bottom config)) (.bottom config) :=
    loaded_ready found
  obtain ⟨table, mapped, shows⟩ := mmap_shows covers ready config.wholeArea (fun _ => none) (le_refl _)
  let session : Session config Unit :=
    Session.start (Kernel.loaded (.beforeLoad fun _ => 0) outcomes (.bottom config))
  let first : Session config Unit := { session with tables := update session.tables () table }
  have maps : settle Session.act session (.mmap () config.wholeArea) = .ok first := by
    simp only [settle, Session.act, session, Session.start, mapped, ok_bind, pure_eq_ok, first]
  have reaches : ∀ offset < config.size,
      (first.tables ()).translate pageSize (0 + offset) = some ((Area.bottom config).byte offset) := by
    intro offset low
    simp only [first, update_self, Nat.zero_add]
    exact shows.bytes offset (Nat.zero_le _) low
  obtain ⟨reached, acted, ready, -, filled⟩ := memset_fills 0x41 ready reaches
  refine ⟨_, reached, ran, by rw [run_cons, maps, ok_bind]; exact acted, ?_⟩
  rcases mymmapRead_cases Backend.kmalloc.config_whole ready.area with ⟨⟨offset, inside, zero⟩, -⟩ | ⟨-, leaves⟩
  · rw [filled offset inside] at zero
    exact absurd zero (by decide)
  · exact leaves

end Runs

end KernelLabs.Mymmap
