import KernelLabs.ModuleCycles
import KernelLabs.PageTable
import KernelLabs.Statements
import Mathlib.Algebra.Order.Group.Nat

/-! The lab14 driver, which maps an area of kernel memory to user space. The area comes
from `kmalloc`, from `vmalloc` or from `alloc_pages`, as the driver was built. -/
namespace KernelLabs.Mymmap
open Errno ModuleCycles

/-- `PAGE_SIZE`. -/
def pageSize : Nat := 4096

theorem pageSize_pos : 0 < pageSize := by decide

theorem page_div {page offset : Nat} (low : offset < pageSize) :
    (page * pageSize + offset) / pageSize = page := by
  rw [Nat.mul_comm, Nat.mul_add_div pageSize_pos, Nat.div_eq_of_lt low, Nat.add_zero]

theorem page_mod {page offset : Nat} (low : offset < pageSize) :
    (page * pageSize + offset) % pageSize = offset := by
  rw [Nat.mul_comm, Nat.mul_add_mod, Nat.mod_eq_of_lt low]

/-- The order in `alloc_pages(GFP_ATOMIC, 4)`, which does not follow `MAX_PAGES`. -/
def allocOrder : Nat := 4

/-- `USE_KMALLOC`, `USE_VMALLOC` and `USE_ALLOC_PAGES`. -/
inductive Backend
  | kmalloc
  | vmalloc
  | allocPages
  deriving DecidableEq, Repr

/-- What the driver is built with. -/
structure Config where
  backend : Backend
  /-- `MAX_PAGES`. -/
  maxPages : Nat
  positive : 0 < maxPages
  /-- The loops of the driver count the bytes of the area with an `int`. -/
  fits : maxPages * pageSize < 2 ^ 31

/-- `MAX_PAGES * PAGE_SIZE`. -/
def Config.size (config : Config) : Nat := config.maxPages * pageSize

theorem Config.size_lt (config : Config) : config.size < 2 ^ 31 := config.fits

theorem Config.size_pos (config : Config) : 0 < config.size :=
  Nat.mul_pos config.positive pageSize_pos

/-- How many pages the driver allocates. -/
def Config.areaPages (config : Config) : Nat :=
  match config.backend with
  | .kmalloc | .vmalloc => config.maxPages
  | .allocPages => 2 ^ allocOrder

theorem Config.areaSize_vmalloc {config : Config} (scattered : config.backend = .vmalloc) :
    config.areaPages * pageSize = config.size := by
  simp only [Config.areaPages, scattered, Config.size]

theorem sixteen_pos : 0 < 16 := by decide

theorem sixteen_fits : 16 * pageSize < 2 ^ 31 := by decide

/-- The driver's own `MAX_PAGES`. -/
def Backend.config (backend : Backend) : Config where
  backend := backend
  maxPages := 16
  positive := sixteen_pos
  fits := sixteen_fits

/-! ## Memory -/

/-- An allocated area, by the frames that hold its pages. Only `vmalloc` scatters them. -/
structure Area (config : Config) where
  frame : Nat → Nat
  apart : ∀ j < config.areaPages, ∀ k < config.areaPages, frame j = frame k → j = k
  contiguous : config.backend ≠ .vmalloc → ∀ k < config.areaPages, frame k = frame 0 + k

/-- Physical memory, by address. -/
abbrev Memory := Nat → UInt8

namespace Area
variable {config : Config}

/-- The physical address of a byte of the area. -/
def byte (area : Area config) (offset : Nat) : Nat :=
  area.frame (offset / pageSize) * pageSize + offset % pageSize

/-- `area[offset] = value`. -/
def store (area : Area config) (memory : Memory) (offset : Nat) (value : UInt8) :
    Except Fault Memory :=
  if offset < config.areaPages * pageSize then
    .ok (Function.update memory (area.byte offset) value)
  else .error .outOfBounds

/-- `virt_to_phys(kmalloc_area) >> PAGE_SHIFT`, or `page_to_pfn(page)`. -/
def firstPfn (area : Area config) : Nat := area.frame 0

/-- `vmalloc_to_pfn(vmalloc_area + offset)`. -/
def vmallocToPfn (area : Area config) (offset : Nat) : Except Fault Nat :=
  if offset < config.areaPages * pageSize then .ok (area.frame (offset / pageSize))
  else .error .outOfBounds

end Area

/-- The value of an `int` as an `unsigned long`. -/
def toUlong (i : BitVec 32) : Nat := (i.signExtend 64).toNat

/-- The value of an `unsigned long` as an `int`. -/
def toInt (value : Nat) : BitVec 32 := BitVec.ofNat 32 value

/-- The loop counters of the driver stay below the sign bit. -/
theorem toUlong_toInt {value : Nat} (low : value < 2 ^ 31) : toUlong (toInt value) = value := by
  have unsigned : (toInt value).msb = false := by
    rw [toInt, BitVec.msb_eq_decide, decide_eq_false_iff_not, BitVec.toNat_ofNat]
    omega
  rw [toUlong, BitVec.signExtend_eq_setWidth_of_msb_false unsigned, toInt, BitVec.toNat_setWidth,
    BitVec.toNat_ofNat]
  omega

theorem toInt_add (value more : Nat) : toInt value + BitVec.ofNat 32 more = toInt (value + more) := by
  rw [toInt, toInt, BitVec.ofNat_add]

/-- `struct vm_area_struct`. -/
structure Vma where
  vmStart : Nat
  vmEnd : Nat
  nonempty : vmStart < vmEnd
  below : vmEnd < 2 ^ 64
  startAligned : pageSize ∣ vmStart
  endAligned : pageSize ∣ vmEnd

namespace Vma

/-- Its length in bytes. -/
def len (vma : Vma) : Nat := vma.vmEnd - vma.vmStart

/-- Its length in pages. -/
def pages (vma : Vma) : Nat := vma.len / pageSize

def firstPage (vma : Vma) : Nat := vma.vmStart / pageSize

variable {vma : Vma}

theorem len_eq (vma : Vma) : vma.len = vma.pages * pageSize :=
  (Nat.div_mul_cancel (Nat.dvd_sub vma.endAligned vma.startAligned)).symm

theorem vmStart_eq (vma : Vma) : vma.vmStart = vma.firstPage * pageSize :=
  (Nat.div_mul_cancel vma.startAligned).symm

theorem vmEnd_eq (vma : Vma) : vma.vmEnd = vma.vmStart + vma.pages * pageSize := by
  rw [← vma.len_eq]
  exact (Nat.add_sub_cancel' (Nat.le_of_lt vma.nonempty)).symm

/-- A mapping that fits the device has no more pages than it. -/
theorem pages_le {config : Config} (fits : vma.len ≤ config.size) : vma.pages ≤ config.maxPages := by
  rw [vma.len_eq] at fits
  exact Nat.le_of_mul_le_mul_right fits pageSize_pos

/-- The counter of the `vmalloc` loop, at a page. -/
theorem index_eq {config : Config} {page : Nat} (fits : vma.len ≤ config.size) (low : page ≤ vma.pages) :
    toUlong (toInt (page * pageSize)) = page * pageSize := by
  apply toUlong_toInt
  have within := Nat.mul_le_mul_right pageSize low
  rw [← vma.len_eq] at within
  exact Nat.lt_of_le_of_lt (Nat.le_trans within fits) config.size_lt

/-- The bound of the `vmalloc` loop, which goes through an `int`. -/
theorem loopBound_eq {config : Config} (fits : vma.len ≤ config.size) :
    toUlong (toInt (vma.len / pageSize)) * pageSize % 2 ^ 64 = vma.len := by
  have small : vma.len < 2 ^ 31 := Nat.lt_of_le_of_lt fits config.size_lt
  have count : toUlong (toInt (vma.len / pageSize)) = vma.pages :=
    toUlong_toInt (Nat.lt_of_le_of_lt (Nat.div_le_self _ _) small)
  rw [count, ← vma.len_eq]
  exact Nat.mod_eq_of_lt (by omega)

end Vma

/-- How `remap_pfn_range` answers, by the address it is asked to map. -/
abbrev RemapAnswers := Nat → ErrorCode

/-- Each call of `remap_pfn_range` succeeds. -/
def remapSucceeds : RemapAnswers := fun _ => ErrorCode.success

/-- `remap_pfn_range`, for a `size` of whole pages. -/
def remapPfnRange (answers : RemapAnswers) (table : PageTable) (address pfn size : Nat) :
    PageTable × Int :=
  if (answers address).1 = 0 then
    (table.mapTo (address / pageSize) (size / pageSize) fun k => pfn + k, 0)
  else (table, (answers address).1)

/-! ## The module -/

/-- Memory, what the kernel holds for the module, and the module's data. -/
structure Kernel (config : Config) where
  memory : Memory
  /-- `MKDEV(MY_MAJOR, MY_MINOR)` is registered. -/
  region : Bool
  cdevs : Nat
  /-- The areas that were allocated and not freed. -/
  allocated : List (Area config)
  /-- The area that `kmalloc_area`, `vmalloc_area` or `page` points to, if it is not `NULL`. -/
  area : Option (Area config)
  /-- `dev.size`. -/
  size : Nat

/-- How the kernel answers the calls of one load. -/
structure Outcomes (config : Config) where
  registerChrdevRegion : ErrorCode
  cdevAdd : ErrorCode
  area : Option (Area config)

section Load
variable {config : Config}

/-- The data of a module that is loaded starts as zeroes, whatever an earlier one left. -/
def Kernel.zeroData (kernel : Kernel config) : Kernel config :=
  { kernel with area := none, size := 0 }

/-- `register_chrdev_region`: a region that is still registered cannot be registered again. -/
def registerChrdevRegion (kernel : Kernel config) (answer : ErrorCode) : Kernel config × Int :=
  if kernel.region then (kernel, -ebusy)
  else if answer.1 = 0 then ({ kernel with region := true }, 0)
  else (kernel, answer.1)

/-- `cdev_add`. -/
def cdevAdd (kernel : Kernel config) (answer : ErrorCode) : Kernel config × Int :=
  if answer.1 = 0 then ({ kernel with cdevs := kernel.cdevs + 1 }, 0) else (kernel, answer.1)

/-- `kmalloc`, `vmalloc` or `alloc_pages`. None of them clears the area. -/
def allocate (kernel : Kernel config) (area : Option (Area config)) : Kernel config :=
  { kernel with area := area, allocated := area.toList ++ kernel.allocated }

/-- The statement `mymmap_init` has reached. -/
inductive InitAt
  | registerChrdevRegion
  | cdevAdd
  | allocate
  /-- The test of the area against `NULL`. -/
  | testArea
  /-- The loop that marks the pages, at the test of `i`. -/
  | stamp (i : BitVec 32)
  /-- `dev.size = MAX_PAGES * PAGE_SIZE`. -/
  | setSize
  | returned (ret : Int)

def InitAt.ret : InitAt → Option Int
  | .returned ret => some ret
  | _ => none

/-- The body of the loop that marks the pages. -/
def stampPage (area : Area config) (memory : Memory) (i : BitVec 32) : Except Fault Memory := do
  let memory ← area.store memory (toUlong i) 0xfa
  let memory ← area.store memory (toUlong (i + 1)) 0xce
  let memory ← area.store memory (toUlong (i + 2)) 0xb0
  area.store memory (toUlong (i + 3)) 0x0c

/-- One statement of `mymmap_init`; an iteration of the loop is one. -/
def initStatement (outcomes : Outcomes config) :
    Kernel config × InitAt → Except Fault (Kernel config × InitAt)
  | (kernel, .registerChrdevRegion) =>
    let (kernel, err) := registerChrdevRegion kernel outcomes.registerChrdevRegion
    .ok (kernel, if err ≠ 0 then .returned err else .cdevAdd)
  | (kernel, .cdevAdd) =>
    -- the result is not looked at
    .ok ((cdevAdd kernel outcomes.cdevAdd).1, .allocate)
  | (kernel, .allocate) => .ok (allocate kernel outcomes.area, .testArea)
  | (kernel, .testArea) =>
    .ok (kernel, if kernel.area.isNone then .returned (-einval) else .stamp 0)
  | (kernel, .stamp i) =>
    if toUlong i < config.size then
      match kernel.area with
      | none => .error .badAccess
      | some area => do
        let memory ← stampPage area kernel.memory i
        return ({ kernel with memory := memory }, .stamp (toInt (toUlong i + pageSize)))
    else .ok (kernel, .setSize)
  | (kernel, .setSize) => .ok ({ kernel with size := config.size }, .returned 0)
  | (kernel, .returned ret) => .ok (kernel, .returned ret)

def mymmapInit (kernel : Kernel config) (outcomes : Outcomes config) :
    Except Fault (Kernel config × Int) := do
  let ((kernel, _), ret) ← Statements.complete (initStatement outcomes) (fun state => state.2.ret)
    (config.maxPages + 7) (kernel.zeroData, .registerChrdevRegion)
  return (kernel, ret)

/-- `mymmap_exit`, which frees no area. -/
def mymmapExit (kernel : Kernel config) : Kernel config :=
  { kernel with cdevs := kernel.cdevs - 1, region := false }

end Load

/-! ## Mapping the area -/

section Map
variable {config : Config}

/-- The statement `mymmap_mmap` has reached. -/
inductive MmapAt
  /-- The test of `size` against zero. -/
  | testSize
  /-- The comparison of `len` with `size`. -/
  | testLen
  /-- The mapping, for `vmalloc` at the test of `i`. -/
  | remap (i : BitVec 32)
  | returned (ret : Int)

def MmapAt.ret : MmapAt → Option Int
  | .returned ret => some ret
  | _ => none

/-- One statement of `mymmap_mmap`; an iteration of the `vmalloc` loop is one. -/
def mmapStatement (kernel : Kernel config) (vma : Vma) (answers : RemapAnswers) :
    PageTable × MmapAt → Except Fault (PageTable × MmapAt)
  | (table, .testSize) => .ok (table, if kernel.size = 0 then .returned (-enomem) else .testLen)
  | (table, .testLen) => .ok (table, if vma.len > kernel.size then .returned (-einval) else .remap 0)
  | (table, .remap i) =>
    match kernel.area, config.backend with
    | none, _ => .error .badAccess
    | some area, .kmalloc | some area, .allocPages =>
      let (table, err) := remapPfnRange answers table vma.vmStart area.firstPfn vma.len
      .ok (table, .returned (if err ≠ 0 then -eagain else 0))
    | some area, .vmalloc =>
      let nrPages := toInt (vma.len / pageSize)
      if toUlong i < toUlong nrPages * pageSize % 2 ^ 64 then do
        let pfn ← area.vmallocToPfn (toUlong i)
        let (table, err) :=
          remapPfnRange answers table ((vma.vmStart + toUlong i) % 2 ^ 64) pfn pageSize
        return (table, if err ≠ 0 then .returned (-eagain) else .remap (toInt (toUlong i + pageSize)))
      else .ok (table, .returned 0)
  | (table, .returned ret) => .ok (table, .returned ret)

def mymmapMmap (kernel : Kernel config) (vma : Vma) (answers : RemapAnswers) (table : PageTable) :
    Except Fault (PageTable × Int) := do
  let ((table, _), ret) ← Statements.complete (mmapStatement kernel vma answers)
    (fun state => state.2.ret) (vma.pages + 4) (table, .testSize)
  return (table, ret)

end Map

end KernelLabs.Mymmap
