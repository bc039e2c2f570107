import KernelLabs.Checked
import Mathlib.Algebra.Order.Group.Nat
import Mathlib.Logic.Function.Basic

/-! Blocks of memory as `kmalloc` hands them out, used as arrays of `int`. Every access is
checked against the size of its block, and no block is handed out twice. -/
namespace KernelLabs.Kmalloc

/-- A block, by its size in bytes and its contents. -/
structure Block where
  bytes : Nat
  int : Nat → Int32

/-- `block[i]` lies in the block. -/
def Block.Inside (block : Block) (i : Int32) : Prop := 0 ≤ i.toInt ∧ 4 * i.toInt + 4 ≤ block.bytes

instance (block : Block) (i : Int32) : Decidable (block.Inside i) := inferInstanceAs (Decidable (_ ∧ _))

/-- `NULL`, or a block. -/
abbrev Ptr := Option Nat

structure Memory where
  /-- The blocks that are allocated. -/
  blocks : Nat → Option Block
  /-- The number of blocks handed out so far. -/
  handedOut : Nat
  /-- The blocks freed so far, with what they held. -/
  freed : List (Nat × Block)
  fresh : ∀ number, handedOut ≤ number → blocks number = none

/-- `KMALLOC_MAX_SIZE`, 4 MiB. -/
def maxSize : Nat := 4 * 2 ^ 20

namespace Memory

def block? (memory : Memory) (p : Ptr) : Option Block := p.bind memory.blocks

/-- Memory in which the contents of a block were changed. -/
def modify (memory : Memory) (p : Ptr) (change : (Nat → Int32) → Nat → Int32) : Memory where
  blocks number :=
    if p = some number then (memory.blocks number).map fun block => { block with int := change block.int }
    else memory.blocks number
  handedOut := memory.handedOut
  freed := memory.freed
  fresh number unissued := by
    simp only [memory.fresh number unissued, Option.map_none, ite_self]

/-- `kmalloc(size)`, with the contents of the block it finds, if it finds one. A request
for no bytes is answered by a pointer to no bytes. -/
def kmalloc (memory : Memory) (size : UInt64) (found : Option (Nat → Int32)) : Memory × Ptr :=
  if maxSize < size.toNat then (memory, none)
  else match found with
    | none => (memory, none)
    | some int =>
      ({ blocks := Function.update memory.blocks memory.handedOut (some ⟨size.toNat, int⟩)
         handedOut := memory.handedOut + 1
         freed := memory.freed
         fresh := fun number unissued => by
          rw [Function.update_of_ne (by omega), memory.fresh number (by omega)] }, some memory.handedOut)

/-- `kfree(p)`. -/
def kfree (memory : Memory) : Ptr → Except Fault Memory
  | none => .ok memory
  | some number =>
    match memory.blocks number with
    | none => .error .badFree
    | some block => .ok
      { blocks := Function.update memory.blocks number none
        handedOut := memory.handedOut
        freed := memory.freed ++ [(number, block)]
        fresh := fun other unissued => by
          by_cases same : other = number
          · rw [same, Function.update_self]
          · rw [Function.update_of_ne same, memory.fresh other unissued] }

/-- `p[i]`. -/
def load (memory : Memory) (p : Ptr) (i : Int32) : Except Fault Int32 :=
  match memory.block? p with
  | none => .error .badAccess
  | some block => if block.Inside i then .ok (block.int i.toInt.toNat) else .error .outOfBounds

/-- `p[i] = value`. -/
def store (memory : Memory) (p : Ptr) (i value : Int32) : Except Fault Memory :=
  match memory.block? p with
  | none => .error .badAccess
  | some block =>
    if block.Inside i then .ok (memory.modify p fun int => Function.update int i.toInt.toNat value)
    else .error .outOfBounds

/-- `get_random_bytes(p, len)`, by the `int`s that the bytes make. -/
def getRandomBytes (memory : Memory) (p : Ptr) (len : UInt64) (random : Nat → Int32) : Except Fault Memory :=
  match memory.block? p with
  | none => .error .badAccess
  | some block =>
    if len.toNat ≤ block.bytes then
      .ok (memory.modify p fun int i => if 4 * i + 4 ≤ len.toNat then random i else int i)
    else .error .outOfBounds

end Memory

/-! ## One block -/

/-- Memory is as it was, but for one block that was handed out since then. -/
structure Lent (before after : Memory) (number : Nat) (block : Block) : Prop where
  here : after.blocks number = some block
  others : ∀ other, other ≠ number → after.blocks other = before.blocks other
  unissued : before.blocks number = none
  freed : after.freed = before.freed

section Lent
variable {before after : Memory} {number : Nat} {block : Block} {i : Int32} {size : UInt64}
  {found : Option (Nat → Int32)}

/-- `kmalloc` lends a block of the requested size, or fails and changes nothing. -/
theorem kmalloc_cases (memory : Memory) (size : UInt64) (found : Option (Nat → Int32)) :
    memory.kmalloc size found = (memory, none) ∨
    size.toNat ≤ maxSize ∧ ∃ after number int, memory.kmalloc size found = (after, some number) ∧
      Lent memory after number ⟨size.toNat, int⟩ := by
  unfold Memory.kmalloc
  by_cases large : maxSize < size.toNat
  · exact .inl (if_pos large)
  rw [if_neg large]
  cases found with
  | none => exact .inl rfl
  | some int =>
    refine .inr ⟨Nat.not_lt.mp large, _, _, int, rfl, Function.update_self .., ?_, ?_, rfl⟩
    · exact fun other elsewhere => Function.update_of_ne elsewhere ..
    · exact memory.fresh _ (Nat.le_refl _)

theorem Lent.block? (lent : Lent before after number block) : after.block? (some number) = some block := lent.here

theorem Lent.modify (lent : Lent before after number block) (change : (Nat → Int32) → Nat → Int32) :
    Lent before (after.modify (some number) change) number { block with int := change block.int } where
  here := by simp [Memory.modify, lent.here]
  others other elsewhere := by
    simp [Memory.modify, Ne.symm elsewhere, lent.others other elsewhere]
  unissued := lent.unissued
  freed := lent.freed

theorem Lent.load (lent : Lent before after number block) (inside : block.Inside i) :
    after.load (some number) i = .ok (block.int i.toInt.toNat) := by
  simp only [Memory.load, lent.block?, if_pos inside]

theorem Lent.store (lent : Lent before after number block) (inside : block.Inside i) (value : Int32) :
    ∃ result, after.store (some number) i value = .ok result ∧
      Lent before result number { block with int := Function.update block.int i.toInt.toNat value } :=
  ⟨_, by simp only [Memory.store, lent.block?, if_pos inside]; rfl, lent.modify _⟩

theorem Lent.getRandomBytes (lent : Lent before after number block) (len : UInt64) (random : Nat → Int32)
    (fits : len.toNat ≤ block.bytes) :
    ∃ result, after.getRandomBytes (some number) len random = .ok result ∧
      Lent before result number
        { block with int := fun i => if 4 * i + 4 ≤ len.toNat then random i else block.int i } :=
  ⟨_, by simp only [Memory.getRandomBytes, lent.block?, if_pos fits]; rfl, lent.modify _⟩

/-- Once the block is freed, the same blocks are allocated as before. -/
theorem Lent.kfree (lent : Lent before after number block) :
    ∃ result, after.kfree (some number) = .ok result ∧ result.blocks = before.blocks ∧
      result.freed = before.freed ++ [(number, block)] := by
  refine ⟨_, by simp only [Memory.kfree, lent.here]; rfl, ?_, ?_⟩
  · funext other
    show Function.update after.blocks number none other = before.blocks other
    by_cases same : other = number
    · subst same
      rw [Function.update_self, lent.unissued]
    · rw [Function.update_of_ne same, lent.others other same]
  · rw [lent.freed]

end Lent

end KernelLabs.Kmalloc
