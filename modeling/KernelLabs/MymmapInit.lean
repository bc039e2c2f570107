import KernelLabs.Mymmap

/-! What a load of the lab14 driver does. The loop of `mymmap_init` marks the first four
bytes of each page of the area; the others stay as the allocator left them. -/
namespace KernelLabs.Mymmap
open Errno ModuleCycles Statements

variable {config : Config} {kernel : Kernel config} {outcomes : Outcomes config}
  {area : Area config} {memory : Memory} {page : Nat}

/-! ## The marks -/

/-- The bytes `fa ce b0 0c`. -/
def mark : Nat → UInt8
  | 0 => 0xfa
  | 1 => 0xce
  | 2 => 0xb0
  | _ => 0x0c

/-- Memory with the first pages of the area marked. -/
def Area.stamped (area : Area config) (pages : Nat) (memory : Memory) : Memory := fun address =>
  if address % pageSize < 4 ∧ ∃ k < pages, area.frame k = address / pageSize then
    mark (address % pageSize)
  else memory address

/-- The pages of the area carry their marks. -/
def Area.Marked (area : Area config) (memory : Memory) : Prop :=
  ∀ k < config.maxPages, ∀ j < 4, memory (area.byte (k * pageSize + j)) = mark j

theorem mark_lt {offset : Nat} (low : offset < 4) : offset < pageSize := Nat.lt_trans low (by decide)

theorem Area.byte_of_page {offset : Nat} (low : offset < pageSize) :
    area.byte (page * pageSize + offset) = area.frame page * pageSize + offset := by
  rw [Area.byte, page_div low, page_mod low]

theorem Area.byte_div (offset : Nat) : area.byte offset / pageSize = area.frame (offset / pageSize) := by
  rw [Area.byte, page_div (Nat.mod_lt offset pageSize_pos)]

theorem Area.byte_mod (offset : Nat) : area.byte offset % pageSize = offset % pageSize := by
  rw [Area.byte, page_mod (Nat.mod_lt offset pageSize_pos)]

theorem Area.stamped_zero : area.stamped 0 memory = memory := by
  funext address
  rw [Area.stamped, if_neg]
  rintro ⟨-, k, low, -⟩
  exact Nat.not_lt_zero k low

theorem Area.stamped_marked : area.Marked (area.stamped config.maxPages memory) := by
  intro k inside j low
  have small := mark_lt low
  have frame : area.byte (k * pageSize + j) / pageSize = area.frame k := by
    rw [Area.byte_div, page_div small]
  rw [Area.stamped, Area.byte_mod, page_mod small, if_pos ⟨low, k, inside, frame.symm⟩]

/-- Only the first four bytes of a page of the area change. -/
theorem Area.stamped_of_not_mark {address pages : Nat}
    (other : ¬ (address % pageSize < 4 ∧ ∃ k < pages, area.frame k = address / pageSize)) :
    area.stamped pages memory address = memory address := if_neg other

theorem Area.store_inside {value : UInt8} {offset : Nat} (inside : page < config.areaPages)
    (low : offset < pageSize) :
    area.store memory (page * pageSize + offset) value =
      .ok (Function.update memory (area.frame page * pageSize + offset) value) := by
  have within : page * pageSize + offset < config.areaPages * pageSize := by
    have room := Nat.mul_le_mul_right pageSize (Nat.succ_le_of_lt inside)
    rw [Nat.succ_mul] at room
    omega
  rw [Area.store, if_pos within, Area.byte_of_page low]

/-- One more page is marked. -/
theorem Area.stamped_succ (memory : Memory) (page : Nat) : area.stamped (page + 1) memory =
    Function.update (Function.update (Function.update (Function.update (area.stamped page memory)
      (area.frame page * pageSize + 0) 0xfa) (area.frame page * pageSize + 1) 0xce)
      (area.frame page * pageSize + 2) 0xb0) (area.frame page * pageSize + 3) 0x0c := by
  funext address
  by_cases here : area.frame page = address / pageSize
  · have split := Nat.div_add_mod' address pageSize
    have at_ (offset : Nat) :
        address = address / pageSize * pageSize + offset ↔ address % pageSize = offset := by omega
    have marked : ∃ k < page + 1, area.frame k = address / pageSize :=
      ⟨page, Nat.lt_succ_self page, here⟩
    simp only [here, Function.update_apply, at_]
    by_cases low : address % pageSize < 4
    · rw [Area.stamped, if_pos ⟨low, marked⟩]
      obtain same | same | same | same : address % pageSize = 0 ∨ address % pageSize = 1 ∨
        address % pageSize = 2 ∨ address % pageSize = 3 := by omega
      all_goals rw [same]; rfl
    · rw [if_neg (by omega), if_neg (by omega), if_neg (by omega), if_neg (by omega),
        Area.stamped_of_not_mark (fun marks => low marks.1),
        Area.stamped_of_not_mark (fun marks => low marks.1)]
  · have elsewhere (offset : Nat) (low : offset < 4) :
        address ≠ area.frame page * pageSize + offset := by
      rintro rfl
      apply here
      rw [page_div (mark_lt low)]
    rw [Function.update_of_ne (elsewhere 3 (by omega)), Function.update_of_ne (elsewhere 2 (by omega)),
      Function.update_of_ne (elsewhere 1 (by omega)), Function.update_of_ne (elsewhere 0 (by omega))]
    simp only [Area.stamped, Nat.exists_lt_succ_right, here, or_false]

/-- The body of the loop marks one page. -/
theorem stampPage_inside (inside : page < config.areaPages) (low : page < config.maxPages) :
    stampPage area (area.stamped page memory) (toInt (page * pageSize)) =
      .ok (area.stamped (page + 1) memory) := by
  have room : page * pageSize + pageSize < 2 ^ 31 := by
    rw [← Nat.succ_mul]
    exact Nat.lt_of_le_of_lt (Nat.mul_le_mul_right pageSize low) config.size_lt
  have index (offset : Nat) (small : offset < 4) :
      toUlong (toInt (page * pageSize) + BitVec.ofNat 32 offset) = page * pageSize + offset := by
    have inside := mark_lt small
    rw [toInt_add, toUlong_toInt (by omega)]
  have first : toUlong (toInt (page * pageSize)) = page * pageSize + 0 := by
    rw [toUlong_toInt (by omega), Nat.add_zero]
  have second : toUlong (toInt (page * pageSize) + 1) = _ := index 1 (by omega)
  have third : toUlong (toInt (page * pageSize) + 2) = _ := index 2 (by omega)
  have fourth : toUlong (toInt (page * pageSize) + 3) = _ := index 3 (by omega)
  have stores (memory : Memory) (offset : Nat) (small : offset < 4) (value : UInt8) :
      area.store memory (page * pageSize + offset) value =
        .ok (Function.update memory (area.frame page * pageSize + offset) value) :=
    Area.store_inside inside (mark_lt small)
  rw [stampPage, first, second, third, fourth, stores _ 0 (by omega), ok_bind,
    stores _ 1 (by omega), ok_bind, stores _ 2 (by omega), ok_bind, stores _ 3 (by omega),
    Area.stamped_succ]

/-! ## One load -/

/-- Nothing is held for a driver that was never loaded. -/
def Kernel.beforeLoad (memory : Memory) : Kernel config where
  memory := memory
  region := false
  cdevs := 0
  allocated := []
  area := none
  size := 0

/-- A load in which all calls succeed. -/
def Outcomes.allSucceed (area : Area config) : Outcomes config where
  registerChrdevRegion := ErrorCode.success
  cdevAdd := ErrorCode.success
  area := some area

/-- The allocated block has a page for each that the driver marks. -/
def Config.Covers (config : Config) : Prop := config.maxPages ≤ config.areaPages

theorem Backend.config_covers (backend : Backend) : backend.config.Covers := by
  cases backend <;> exact le_refl 16

/-- What is held after `mymmap_init` registered the device and asked for the area. -/
def Kernel.afterAllocate (kernel : Kernel config) (outcomes : Outcomes config) : Kernel config :=
  allocate (cdevAdd { kernel.zeroData with region := true } outcomes.cdevAdd).1 outcomes.area

/-- What a load that succeeds leaves. -/
def Kernel.loaded (kernel : Kernel config) (outcomes : Outcomes config) (area : Area config) :
    Kernel config :=
  { kernel.afterAllocate outcomes with
    memory := area.stamped config.maxPages kernel.memory
    size := config.size }

theorem registerChrdevRegion_fst (kernel : Kernel config) (answer : ErrorCode) :
    ∃ region err, registerChrdevRegion kernel answer = ({ kernel with region := region }, err) := by
  unfold registerChrdevRegion
  split
  · exact ⟨kernel.region, _, rfl⟩
  · split <;> exact ⟨_, _, rfl⟩

theorem cdevAdd_fst (kernel : Kernel config) (answer : ErrorCode) : (cdevAdd kernel answer).1 =
    { kernel with cdevs := kernel.cdevs + if answer.1 = 0 then 1 else 0 } := by
  unfold cdevAdd
  split <;> rfl

theorem init_returned {fuel : Nat} {ret : Int} :
    complete (initStatement outcomes) (fun state => state.2.ret) (fuel + 1) (kernel, .returned ret) =
      .ok ((kernel, .returned ret), ret) := complete_returned rfl

/-- The loop that marks the pages, at a page. -/
def Area.stamping (area : Area config) (kernel : Kernel config) (page : Nat) : Kernel config × InitAt :=
  ({ kernel with memory := area.stamped page kernel.memory }, .stamp (toInt (page * pageSize)))

theorem Area.stamping_zero : area.stamping kernel 0 = (kernel, .stamp 0) := by
  rw [Area.stamping, Area.stamped_zero, Nat.zero_mul]
  rfl

/-- One iteration of the loop that marks the pages. -/
theorem stamp_iteration (allocated : kernel.area = some area) (inside : page < config.areaPages)
    (low : page < config.maxPages) :
    initStatement outcomes (area.stamping kernel page) = .ok (area.stamping kernel (page + 1)) := by
  have inside' : page * pageSize < config.size := (Nat.mul_lt_mul_right pageSize_pos).mpr low
  have index : toUlong (toInt (page * pageSize)) = page * pageSize :=
    toUlong_toInt (Nat.lt_trans inside' config.size_lt)
  simp only [Area.stamping, initStatement, index, if_pos inside', allocated]
  rw [stampPage_inside inside low, ok_bind, Nat.add_mul page, Nat.one_mul]
  rfl

/-- The loop ends behind the last page. -/
theorem stamp_ends : initStatement outcomes (area.stamping kernel config.maxPages) =
    .ok ({ kernel with memory := area.stamped config.maxPages kernel.memory }, .setSize) := by
  have index : toUlong (toInt (config.maxPages * pageSize)) = config.size := toUlong_toInt config.size_lt
  simp only [Area.stamping, initStatement, index, if_neg (Nat.lt_irrefl _)]

/-- The loop marks every page, and then the size is set. -/
theorem stamp_loop (covers : config.Covers) (allocated : kernel.area = some area) :
    complete (initStatement outcomes) (fun state => state.2.ret) (3 + config.maxPages)
        (kernel, .stamp 0) =
      .ok (({ kernel with
        memory := area.stamped config.maxPages kernel.memory, size := config.size }, .returned 0), 0) := by
  have sets : initStatement outcomes
      ({ kernel with memory := area.stamped config.maxPages kernel.memory }, .setSize) =
      .ok ({ kernel with memory := area.stamped config.maxPages kernel.memory, size := config.size },
        .returned 0) := rfl
  rw [← Area.stamping_zero, complete_loop (area.stamping kernel) fun page low =>
    ⟨rfl, stamp_iteration allocated (Nat.lt_of_lt_of_le low covers) low⟩]
  rw [complete_next rfl stamp_ends, complete_next rfl sets, init_returned]

/-- A load that gets the region asks for the area. -/
theorem mymmapInit_registered (free : kernel.region = false)
    (zero : outcomes.registerChrdevRegion.1 = 0) :
    mymmapInit kernel outcomes = (do
      let ((kernel, _), ret) ← complete (initStatement outcomes) (fun state => state.2.ret)
        (4 + config.maxPages) (kernel.afterAllocate outcomes, .testArea)
      return (kernel, ret)) := by
  have first : initStatement outcomes (kernel.zeroData, .registerChrdevRegion) =
      .ok ({ kernel.zeroData with region := true }, .cdevAdd) := by
    simp [initStatement, registerChrdevRegion, Kernel.zeroData, free, zero]
  have second : initStatement outcomes ({ kernel.zeroData with region := true }, .cdevAdd) =
      .ok ((cdevAdd { kernel.zeroData with region := true } outcomes.cdevAdd).1, .allocate) := rfl
  have third : initStatement outcomes
      ((cdevAdd { kernel.zeroData with region := true } outcomes.cdevAdd).1, .allocate) =
      .ok (kernel.afterAllocate outcomes, .testArea) := rfl
  rw [mymmapInit, complete_next rfl first, complete_next rfl second, complete_next rfl third,
    Nat.add_comm]

theorem testArea_some (found : outcomes.area = some area) :
    initStatement outcomes (kernel.afterAllocate outcomes, .testArea) =
      .ok (kernel.afterAllocate outcomes, .stamp 0) := by
  simp [initStatement, Kernel.afterAllocate, allocate, found]

theorem testArea_none (missing : outcomes.area = none) :
    initStatement outcomes (kernel.afterAllocate outcomes, .testArea) =
      .ok (kernel.afterAllocate outcomes, .returned (-einval)) := by
  simp [initStatement, Kernel.afterAllocate, allocate, missing]

/-- A load that does not get the region fails at once. -/
theorem mymmapInit_refused (refused : kernel.region = true ∨ outcomes.registerChrdevRegion.1 ≠ 0) :
    ∃ err < 0, mymmapInit kernel outcomes = .ok (kernel.zeroData, err) := by
  suffices first : ∃ err < 0, initStatement outcomes (kernel.zeroData, .registerChrdevRegion) =
      .ok (kernel.zeroData, .returned err) by
    obtain ⟨err, negative, first⟩ := first
    refine ⟨err, negative, ?_⟩
    rw [mymmapInit, complete_next rfl first, init_returned]
    rfl
  by_cases held : kernel.region = true
  · refine ⟨-ebusy, neg_ebusy, ?_⟩
    simp [initStatement, registerChrdevRegion, Kernel.zeroData, held, ebusy]
  · have nonzero := refused.resolve_left held
    refine ⟨_, Int.lt_iff_le_and_ne.mpr ⟨outcomes.registerChrdevRegion.2, nonzero⟩, ?_⟩
    simp [initStatement, registerChrdevRegion, Kernel.zeroData, held, nonzero]

/-- A load that gets no area returns with what it has registered. -/
theorem mymmapInit_without_area (free : kernel.region = false)
    (zero : outcomes.registerChrdevRegion.1 = 0) (missing : outcomes.area = none) :
    mymmapInit kernel outcomes = .ok (kernel.afterAllocate outcomes, -einval) := by
  rw [mymmapInit_registered free zero, show 4 + config.maxPages = config.maxPages + 2 + 1 + 1 by omega,
    complete_next rfl (testArea_none missing), init_returned]
  rfl

theorem mymmapInit_with_area (covers : config.Covers) (free : kernel.region = false)
    (zero : outcomes.registerChrdevRegion.1 = 0) (found : outcomes.area = some area) :
    mymmapInit kernel outcomes = .ok (kernel.loaded outcomes area, 0) := by
  have allocated : (kernel.afterAllocate outcomes).area = some area := found
  rw [mymmapInit_registered free zero, show 4 + config.maxPages = 3 + config.maxPages + 1 by omega,
    complete_next rfl (testArea_some found), stamp_loop covers allocated]
  simp [Kernel.loaded, Kernel.afterAllocate, allocate, cdevAdd_fst, Kernel.zeroData]

/-- A load fails at its first call, fails for want of an area, or leaves a published one. -/
theorem mymmapInit_cases (covers : config.Covers) (kernel : Kernel config) (outcomes : Outcomes config) :
    ((kernel.region = true ∨ outcomes.registerChrdevRegion.1 ≠ 0) ∧
      ∃ err < 0, mymmapInit kernel outcomes = .ok (kernel.zeroData, err)) ∨
    (kernel.region = false ∧ outcomes.registerChrdevRegion.1 = 0 ∧ outcomes.area = none ∧
      mymmapInit kernel outcomes = .ok (kernel.afterAllocate outcomes, -einval)) ∨
    ∃ area, kernel.region = false ∧ outcomes.registerChrdevRegion.1 = 0 ∧
      outcomes.area = some area ∧ mymmapInit kernel outcomes = .ok (kernel.loaded outcomes area, 0) := by
  by_cases refused : kernel.region = true ∨ outcomes.registerChrdevRegion.1 ≠ 0
  · exact .inl ⟨refused, mymmapInit_refused refused⟩
  right
  obtain ⟨held, zero⟩ := not_or.mp refused
  have free := Bool.eq_false_of_not_eq_true held
  have zero := of_not_not zero
  cases found : outcomes.area with
  | none => exact .inl ⟨free, zero, rfl, mymmapInit_without_area free zero found⟩
  | some area => exact .inr ⟨area, free, zero, rfl, mymmapInit_with_area covers free zero found⟩

/-- Where the block has fewer pages than the driver marks, the loop leaves it. -/
theorem mymmapInit_overruns (short : config.areaPages < config.maxPages)
    (free : kernel.region = false) (zero : outcomes.registerChrdevRegion.1 = 0)
    (found : outcomes.area = some area) : mymmapInit kernel outcomes = .error .outOfBounds := by
  have leaves (kernel : Kernel config) (allocated : kernel.area = some area) :
      initStatement outcomes (area.stamping kernel config.areaPages) = .error .outOfBounds := by
    have more : config.areaPages * pageSize < config.size :=
      (Nat.mul_lt_mul_right pageSize_pos).mpr short
    have index : toUlong (toInt (config.areaPages * pageSize)) = config.areaPages * pageSize :=
      toUlong_toInt (Nat.lt_trans more config.size_lt)
    simp only [Area.stamping, initStatement, index, if_pos more, allocated, stampPage, Area.store,
      if_neg (Nat.lt_irrefl _), error_bind]
  have allocated : (kernel.afterAllocate outcomes).area = some area := found
  obtain ⟨fuel, enough⟩ := Nat.exists_eq_add_of_lt short
  rw [mymmapInit_registered free zero, show 4 + config.maxPages = fuel + 3 + 1 + config.areaPages + 1 by omega,
    complete_next rfl (testArea_some found), ← Area.stamping_zero,
    complete_loop (area.stamping (kernel.afterAllocate outcomes)) fun page low =>
      ⟨rfl, stamp_iteration allocated low (Nat.lt_trans low short)⟩,
    complete_fault rfl (leaves _ allocated)]
  rfl

/-! ## The published device -/

/-- The device is published: its area is there, and its size is that of the area. -/
structure Ready (kernel : Kernel config) (area : Area config) : Prop where
  area : kernel.area = some area
  size : kernel.size = config.size

theorem loaded_ready (found : outcomes.area = some area) :
    Ready (kernel.loaded outcomes area) area := ⟨found, rfl⟩

section Remap
variable {vma : Vma} {answers : RemapAnswers} {table : PageTable} {i : BitVec 32}

/-- An iteration of the `vmalloc` loop finds the frame of its page. -/
theorem Ready.remap_vmalloc (ready : Ready kernel area) (scattered : config.backend = .vmalloc)
    (fits : vma.len ≤ config.size) (more : toUlong i < vma.len) :
    mmapStatement kernel vma answers (table, .remap i) =
      let (table, err) := remapPfnRange answers table ((vma.vmStart + toUlong i) % 2 ^ 64)
        (area.frame (toUlong i / pageSize)) pageSize
      .ok (table, if err ≠ 0 then .returned (-eagain) else .remap (toInt (toUlong i + pageSize))) := by
  have inside : toUlong i < config.areaPages * pageSize := by
    rw [Config.areaSize_vmalloc scattered]
    exact Nat.lt_of_lt_of_le more fits
  simp only [mmapStatement, ready.area, scattered, Vma.loopBound_eq fits, if_pos more,
    Area.vmallocToPfn, if_pos inside, ok_bind, pure_eq_ok]

theorem Ready.remap_vmalloc_end (ready : Ready kernel area) (scattered : config.backend = .vmalloc)
    (fits : vma.len ≤ config.size) (done : vma.len ≤ toUlong i) :
    mmapStatement kernel vma answers (table, .remap i) = .ok (table, .returned 0) := by
  simp only [mmapStatement, ready.area, scattered, Vma.loopBound_eq fits, if_neg (Nat.not_lt.mpr done)]

/-- Elsewhere there is one call of `remap_pfn_range`. -/
theorem Ready.remap_contiguous (ready : Ready kernel area) (contiguous : config.backend ≠ .vmalloc) :
    mmapStatement kernel vma answers (table, .remap i) =
      let (table, err) := remapPfnRange answers table vma.vmStart area.firstPfn vma.len
      .ok (table, .returned (if err ≠ 0 then -eagain else 0)) := by
  cases backend : config.backend with
  | kmalloc | allocPages => simp only [mmapStatement, ready.area, backend]
  | vmalloc => exact absurd backend contiguous

end Remap

end KernelLabs.Mymmap
