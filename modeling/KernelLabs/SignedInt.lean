import KernelLabs.Checked
import Mathlib.Algebra.Ring.Int.Defs
import Mathlib.Order.Bounds.Basic

/-! The `int` of C, whose arithmetic has a meaning only where the exact result fits
into 32 bits, and the loops over it. A loop that does not leave after the given
number of turns counts as diverged. -/
namespace KernelLabs.SignedInt

/-- Why a computation has no result. -/
inductive Undefined
  | overflow
  | division
  | diverged
  deriving DecidableEq, Repr

/-- The `int` of this value. -/
def ofExact (value : Int) : Except Undefined Int32 :=
  if -2 ^ 31 ≤ value ∧ value < 2 ^ 31 then .ok (Int32.ofInt value) else .error .overflow

def add (a b : Int32) : Except Undefined Int32 := ofExact (a.toInt + b.toInt)

def mul (a b : Int32) : Except Undefined Int32 := ofExact (a.toInt * b.toInt)

/-- `a % b`, which C defines where the quotient `a / b` is an `int`. -/
def remainder (a b : Int32) : Except Undefined Int32 :=
  if b = 0 then .error .division
  else if a = Int32.minValue ∧ b = -1 then .error .overflow
  else .ok (a % b)

/-- `a % b` where one of the operands is unsigned. -/
def remainderUnsigned (a b : UInt32) : Except Undefined UInt32 :=
  if b = 0 then .error .division else .ok (a % b)

theorem ofExact_fits {value : Int} (low : -2 ^ 31 ≤ value) (high : value < 2 ^ 31) :
    ∃ n, ofExact value = .ok n ∧ n.toInt = value :=
  ⟨_, if_pos ⟨low, high⟩, Int32.toInt_ofInt_of_le low high⟩

theorem ofExact_overflow {value : Int} (above : 2 ^ 31 ≤ value) :
    ofExact value = .error .overflow :=
  if_neg fun range => Int.not_lt.mpr above range.2

theorem remainder_of_pos {a b : Int32} (positive : 0 < b.toInt) :
    ∃ n, remainder a b = .ok n ∧ n.toInt = a.toInt.tmod b.toInt := by
  have nonzero : b ≠ 0 := by
    rintro rfl
    exact Int.lt_irrefl 0 positive
  have regular : ¬(a = Int32.minValue ∧ b = -1) := by
    rintro ⟨-, rfl⟩
    exact absurd positive (by decide)
  exact ⟨a % b, by rw [remainder, if_neg nonzero, if_neg regular], Int32.toInt_mod a b⟩

/-! ## Loops -/

/-- What a turn of a loop comes to. -/
inductive Turn (σ ρ : Type)
  | again (state : σ)
  | leave (result : ρ)

section Loops
variable {σ ρ : Type} {turn : σ → Except Undefined (Turn σ ρ)} {state : σ} {fuel left : Nat}

/-- Takes turns until one leaves the loop. -/
def loop (turn : σ → Except Undefined (Turn σ ρ)) : Nat → σ → Except Undefined ρ
  | 0, _ => .error .diverged
  | fuel + 1, state => do
    match ← turn state with
    | .again next => loop turn fuel next
    | .leave result => return result

/-- A call gives this result from some amount of fuel on. -/
def Returns (call : Nat → Except Undefined ρ) (result : ρ) : Prop :=
  ∃ enough, ∀ fuel, enough ≤ fuel → call fuel = .ok result

theorem Returns.unique {call : Nat → Except Undefined ρ} {one other : ρ}
    (first : Returns call one) (second : Returns call other) : one = other := by
  obtain ⟨enough, gives⟩ := first
  obtain ⟨enough', gives'⟩ := second
  have one := gives (max enough enough') (Nat.le_max_left ..)
  have other := gives' (max enough enough') (Nat.le_max_right ..)
  exact Except.ok.inj (one.symm.trans other)

/-- A call that fails with any fuel above a bound returns nothing. -/
theorem Returns.never {call : Nat → Except Undefined ρ} {result : ρ} {bound : Nat} {why : Undefined}
    (fails : ∀ fuel, bound < fuel → call fuel = .error why) : ¬Returns call result := by
  rintro ⟨enough, gives⟩
  have returned := gives (max enough (bound + 1)) (Nat.le_max_left ..)
  rw [fails _ (Nat.lt_of_succ_le (Nat.le_max_right ..))] at returned
  cases returned

/-- Total correctness of a loop: every turn keeps the invariant with fewer turns
left, or ends the loop, with a result or without, as wanted. -/
theorem loop_ends (Inv : σ → Nat → Prop) (Post : Except Undefined ρ → Prop)
    (turns : ∀ state left, Inv state left →
      (∃ next fewer, turn state = .ok (.again next) ∧ fewer < left ∧ Inv next fewer) ∨
      (∃ result, turn state = .ok (.leave result) ∧ Post (.ok result)) ∨
      ∃ why, turn state = .error why ∧ Post (.error why))
    (start : Inv state left) (enough : left < fuel) : Post (loop turn fuel state) := by
  induction fuel generalizing state left with
  | zero => exact absurd enough (Nat.not_lt_zero left)
  | succ fuel ih =>
    rw [loop]
    rcases turns state left start with ⟨next, fewer, taken, less, inv⟩ | ⟨result, taken, post⟩ |
      ⟨why, taken, post⟩
    · rw [taken, ok_bind]
      exact ih inv (Nat.lt_of_lt_of_le less (Nat.le_of_lt_succ enough))
    · rw [taken, ok_bind]
      exact post
    · rw [taken, error_bind]
      exact post

end Loops

/-! ## Loops that count -/

section Counting
variable {ε σ : Type} {why : Undefined → ε} {size : Int32} {body : Int32 → σ → Except ε σ} {state : σ}

/-- `for (int i = 0; i < size; i++)`, from `i` on, whose body can fail in other ways too. -/
def forInt (why : Undefined → ε) (size : Int32) (body : Int32 → σ → Except ε σ) :
    Nat → Int32 → σ → Except ε σ
  | 0, _, _ => .error (why .diverged)
  | fuel + 1, i, state => do
    if i < size then
      let state ← body i state
      let i ← (add i 1).mapError why
      forInt why size body fuel i state
    else return state

/-- A counter below the bound can be increased. -/
theorem add_one_below {i : Int32} (less : i.toInt < size.toInt) :
    ∃ next, add i 1 = .ok next ∧ next.toInt = i.toInt + 1 := by
  have one : (1 : Int32).toInt = 1 := rfl
  have low := i.le_toInt
  have high := size.toInt_lt
  rw [add, one]
  exact ofExact_fits (by omega) (by omega)

/-- A counting loop whose body keeps an invariant ends with it at the bound. -/
theorem forInt_counts (Inv : Nat → σ → Prop)
    (turns : ∀ (k : Nat) (i : Int32) (state : σ), i.toInt = k → k < size.toInt → Inv k state →
      ∃ next, body i state = .ok next ∧ Inv (k + 1) next)
    (start : Inv 0 state) : ∃ final, Inv size.toInt.toNat final ∧
      ∀ fuel, size.toInt.toNat < fuel → forInt why size body fuel 0 state = .ok final := by
  suffices from_k : ∀ (left k : Nat) (i : Int32) (state : σ), i.toInt = k → k + left = size.toInt.toNat →
      Inv k state → ∃ final, Inv size.toInt.toNat final ∧
        ∀ fuel, left < fuel → forInt why size body fuel i state = .ok final from
    from_k _ 0 0 state rfl (Nat.zero_add _) start
  clear start
  intro left
  induction left with
  | zero =>
    intro k i state counter reached inv
    obtain rfl : k = size.toInt.toNat := reached
    have done : ¬i < size := fun less => by
      have below := Int32.lt_iff_toInt_lt.mp less
      omega
    refine ⟨state, inv, fun fuel enough => ?_⟩
    obtain ⟨fuel, rfl⟩ := Nat.exists_eq_succ_of_ne_zero (Nat.ne_of_gt enough)
    rw [forInt, if_neg done, pure_eq_ok]
  | succ left ih =>
    intro k i state counter within inv
    have going : k < size.toInt := by omega
    have less : i < size := Int32.lt_iff_toInt_lt.mpr (by omega)
    obtain ⟨next, taken, kept⟩ := turns k i state counter going inv
    obtain ⟨i', stepped, value⟩ := add_one_below (show i.toInt < size.toInt by omega)
    obtain ⟨final, ends, ran⟩ := ih (k + 1) i' next (by omega) (by omega) kept
    refine ⟨final, ends, fun fuel enough => ?_⟩
    obtain ⟨fuel, rfl⟩ := Nat.exists_eq_succ_of_ne_zero (Nat.ne_of_gt (Nat.zero_lt_of_lt enough))
    rw [forInt, if_pos less, taken, ok_bind, stepped]
    exact ran fuel (Nat.lt_of_succ_lt_succ enough)

end Counting

end KernelLabs.SignedInt
