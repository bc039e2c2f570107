import Mathlib.Algebra.Order.Group.Nat
import Mathlib.Data.Nat.Basic
import Mathlib.Logic.Function.Basic

/-! Page tables: which frame of physical memory a page of an address space shows.
Mapping a range page by page gives the same table as mapping it at once, where the
frames are the same. -/
namespace KernelLabs

/-- The frame of each page that is mapped. -/
abbrev PageTable := Nat → Option Nat

namespace PageTable

/-- The table after `count` pages from `page` on were mapped to these frames. -/
def mapTo (table : PageTable) (page count : Nat) (frame : Nat → Nat) : PageTable := fun other =>
  if page ≤ other ∧ other < page + count then some (frame (other - page)) else table other

/-- The physical address an address stands for. -/
def translate (pageSize : Nat) (table : PageTable) (address : Nat) : Option Nat :=
  (table (address / pageSize)).map fun frame => frame * pageSize + address % pageSize

variable {table : PageTable} {page count more other : Nat} {frame : Nat → Nat} {pageSize : Nat}

theorem mapTo_zero : table.mapTo page 0 frame = table := by
  funext other
  simp only [mapTo]
  rw [if_neg (by omega)]

theorem mapTo_inside {offset : Nat} (inside : offset < count) :
    table.mapTo page count frame (page + offset) = some (frame offset) := by
  rw [mapTo, if_pos (by omega), Nat.add_sub_cancel_left]

theorem mapTo_outside (outside : other < page ∨ page + count ≤ other) :
    table.mapTo page count frame other = table other := by
  rw [mapTo, if_neg (by omega)]

/-- A range can be mapped in two parts. -/
theorem mapTo_add : table.mapTo page (count + more) frame =
    (table.mapTo page count frame).mapTo (page + count) more fun offset => frame (count + offset) := by
  funext other
  simp only [mapTo]
  by_cases first : page ≤ other ∧ other < page + count
  · rw [if_pos (by omega), if_neg (by omega), if_pos first]
  · by_cases second : page + count ≤ other ∧ other < page + count + more
    · rw [if_pos (by omega), if_pos second, show count + (other - (page + count)) = other - page by omega]
    · rw [if_neg (by omega), if_neg second, if_neg first]

/-- Where the frames agree, so do the tables. -/
theorem mapTo_congr {frame' : Nat → Nat} (same : ∀ offset < count, frame offset = frame' offset) :
    table.mapTo page count frame = table.mapTo page count frame' := by
  funext other
  simp only [mapTo]
  split
  · rw [same _ (by omega)]
  · rfl

/-- An address in a mapped range stands for a byte of the frame its page was mapped to. -/
theorem translate_mapTo {address start : Nat} (positive : 0 < pageSize) (aligned : pageSize ∣ start)
    (low : start ≤ address) (high : address < start + count * pageSize) :
    (table.mapTo (start / pageSize) count frame).translate pageSize address =
      some (frame ((address - start) / pageSize) * pageSize + (address - start) % pageSize) := by
  obtain ⟨page, rfl⟩ := aligned
  obtain ⟨offset, rfl⟩ := Nat.exists_eq_add_of_le low
  have quotient : (pageSize * page + offset) / pageSize = page + offset / pageSize :=
    Nat.mul_add_div positive page offset
  have inside : offset / pageSize < count := by
    apply Nat.div_lt_of_lt_mul
    rw [Nat.mul_comm pageSize count]
    omega
  rw [translate, quotient, Nat.mul_div_cancel_left page positive, mapTo_inside inside,
    Nat.add_sub_cancel_left, Nat.mul_add_mod]
  rfl

end PageTable

end KernelLabs
