import KernelLabs.SignedInt
import Mathlib.Data.Nat.Prime.Basic
import Mathlib.Tactic.Linarith

/-! `prime_user.c` and `prime_kmod.c` of lab 9 find primes by trial division up to a
square root that they search for. The two files have the same functions, but the
kernel module's `check_if_prime` first makes a negative number positive. -/
namespace KernelLabs.Primes
open SignedInt

/-- The loop of `get_nearest_sqrt`. -/
def sqrtTurn (num iter : Int32) : Except Undefined (Turn Int32 Int32) := do
  let square ← mul iter iter
  if square < num then return .again (← add iter 1) else return .leave iter

def getNearestSqrt (fuel : Nat) (num : Int32) : Except Undefined Int32 :=
  loop (sqrtTurn num) fuel 1

/-- The loop of `check_if_prime`. -/
def divisionTurn (num sqrtOfNum iter : Int32) : Except Undefined (Turn Int32 Int32) := do
  if iter ≤ sqrtOfNum then
    let rest ← remainder num iter
    if rest = 0 then return .leave 0 else return .again (← add iter 1)
  else return .leave 1

/-- `check_if_prime`, from the test `num < 2` on. -/
def checkIfPrime (fuel : Nat) (num : Int32) : Except Undefined Int32 := do
  if num < 2 then return 0
  else
    let sqrtOfNum ← getNearestSqrt fuel num
    loop (divisionTurn num sqrtOfNum) fuel 2

namespace PrimeUser

def getNearestSqrt : Nat → Int32 → Except Undefined Int32 := Primes.getNearestSqrt

def checkIfPrime : Nat → Int32 → Except Undefined Int32 := Primes.checkIfPrime

/-- The variables of `count_prime`, and how often it has called `rand`. -/
structure Count where
  i : Int32
  prime : Int32
  drawn : Nat

/-- The loop of `count_prime`. -/
def countTurn (fuel : Nat) (max : Int32) (rand : Nat → Int32) (count : Count) :
    Except Undefined (Turn Count Int32) := do
  if count.i < max then
    let num ← remainder (rand count.drawn) max
    let isPrime ← checkIfPrime fuel num
    let prime ← if isPrime = 0 then pure count.prime else add count.prime 1
    return .again ⟨← add count.i 1, prime, count.drawn + 1⟩
  else return .leave count.prime

/-- `count_prime`, with the numbers `rand` will return. -/
def countPrime (fuel : Nat) (max : Int32) (rand : Nat → Int32) : Except Undefined Int32 :=
  loop (countTurn fuel max rand) fuel ⟨0, 0, 0⟩

end PrimeUser

namespace PrimeKmod

def getNearestSqrt : Nat → Int32 → Except Undefined Int32 := Primes.getNearestSqrt

/-- The kernel is built to wrap where the exact result does not fit; up to there the
two readings of `int` agree. -/
def checkIfPrime (fuel : Nat) (num : Int32) : Except Undefined Int32 := do
  let num ← if num < 0 then mul num (-1) else pure num
  Primes.checkIfPrime fuel num

end PrimeKmod

variable {num sqrtOfNum : Int32} {fuel : Nat}

/-- The numbers whose square an `int` can hold. -/
abbrev Small (num : Int) : Prop := num ≤ 46340 * 46340

/-- The least number whose square is not below this one. -/
abbrev IsNearestSqrt (num root : Int) : Prop := IsLeast {iter : Int | 1 ≤ iter ∧ num ≤ iter * iter} root

theorem square_fits {iter : Int32} (positive : 1 ≤ iter.toInt) (low : iter.toInt ≤ 46340) :
    ∃ square, mul iter iter = .ok square ∧ square.toInt = iter.toInt * iter.toInt :=
  ofExact_fits (by nlinarith) (by nlinarith)

theorem successor_fits (iter : Int32) (positive : 0 ≤ iter.toInt) (low : iter.toInt < 2 ^ 31 - 1) :
    ∃ next, add iter 1 = .ok next ∧ next.toInt = iter.toInt + 1 :=
  ofExact_fits (Int.le_trans (by decide) (Int.le_add_one positive)) (Int.add_lt_of_lt_sub_right low)

/-- The search for the square root finds the least one. -/
theorem getNearestSqrt_least (small : Small num.toInt) (enough : 46340 < fuel) :
    ∃ root, getNearestSqrt fuel num = .ok root ∧ IsNearestSqrt num.toInt root.toInt := by
  let Inv (iter : Int32) (left : Nat) : Prop :=
    1 ≤ iter.toInt ∧ iter.toInt + left = 46340 ∧
      ∀ k : Int, 1 ≤ k → num.toInt ≤ k * k → iter.toInt ≤ k
  let Post (result : Except Undefined Int32) : Prop :=
    ∃ root, result = .ok root ∧ IsNearestSqrt num.toInt root.toInt
  have start : Inv 1 46339 := ⟨by decide, by decide, fun k one _ => one⟩
  refine loop_ends Inv Post ?_ start (by omega)
  rintro iter left ⟨positive, within, lowest⟩
  obtain ⟨square, squared, exactly⟩ := square_fits positive (by omega)
  by_cases below : square < num
  · have less := Int32.lt_iff_toInt_lt.mp below
    have low : iter.toInt < 46340 := by nlinarith
    obtain ⟨next, added, value⟩ := successor_fits iter (by omega) (show iter.toInt < 2 ^ 31 - 1 by omega)
    refine .inl ⟨next, left - 1, by simp [sqrtTurn, squared, below, added], by omega, by omega,
      by omega, fun k one above => ?_⟩
    have reached := lowest k one above
    have other : k ≠ iter.toInt := by
      rintro rfl
      omega
    omega
  · have above : num.toInt ≤ iter.toInt * iter.toInt := by
      rw [← exactly]
      exact Int.not_lt.mp fun less => below (Int32.lt_iff_toInt_lt.mpr less)
    exact .inr (.inl ⟨iter, by simp [sqrtTurn, squared, below], iter, rfl, ⟨positive, above⟩,
      fun k inside => lowest k inside.1 inside.2⟩)

/-- Above the largest square of an `int`, the search squares one number too many. -/
theorem getNearestSqrt_overflow (large : ¬Small num.toInt) (enough : 46341 < fuel) :
    getNearestSqrt fuel num = .error .overflow := by
  let Inv (iter : Int32) (left : Nat) : Prop := 1 ≤ iter.toInt ∧ iter.toInt + left = 46341
  have start : Inv 1 46340 := ⟨by decide, by decide⟩
  refine loop_ends Inv (· = .error .overflow) ?_ start (by omega)
  rintro iter left ⟨positive, within⟩
  by_cases last : iter.toInt = 46341
  · have squared : mul iter iter = .error .overflow := by
      rw [mul, last]
      exact ofExact_overflow (by omega)
    exact .inr (.inr ⟨.overflow, by simp [sqrtTurn, squared], rfl⟩)
  · obtain ⟨square, squared, exactly⟩ := square_fits positive (by omega)
    have above : 46340 * 46340 < num.toInt := Int.not_le.mp large
    have low : iter.toInt ≤ 46340 := by omega
    have below : square < num := Int32.lt_iff_toInt_lt.mpr (by nlinarith)
    obtain ⟨next, added, value⟩ := successor_fits iter (by omega) (show iter.toInt < 2 ^ 31 - 1 by omega)
    exact .inl ⟨next, left - 1, by simp [sqrtTurn, squared, below, added], by omega, by omega,
      by omega⟩

/-- From 3 on, the divisors up to the square root decide. -/
theorem prime_iff_undivided {number root : Int} (three : 3 ≤ number) (nearest : IsNearestSqrt number root) :
    number.toNat.Prime ↔ ∀ d : Int, 2 ≤ d → d ≤ root → ¬d ∣ number := by
  obtain ⟨⟨positive, above⟩, least⟩ := nearest
  have less : root ≤ number - 1 := least ⟨by omega, by nlinarith⟩
  have whole : (number.toNat : Int) = number := Int.toNat_of_nonneg (by omega)
  constructor
  · intro prime d two within divides
    obtain ⟨d, rfl⟩ := Int.eq_ofNat_of_zero_le (show 0 ≤ d by omega)
    rw [← whole] at divides
    rcases (Nat.dvd_prime prime).mp (Int.natCast_dvd_natCast.mp divides) with one | all <;> omega
  · intro undivided
    by_contra composite
    have divisor := Nat.minFac_dvd number.toNat
    have two := (Nat.minFac_prime (show number.toNat ≠ 1 by omega)).two_le
    have square := Nat.minFac_sq_le_self (by omega) composite
    have low : (number.toNat.minFac : Int) ≤ root := by
      have squared : (number.toNat.minFac : Int) ^ 2 ≤ number := by
        rw [← whole]
        exact_mod_cast square
      nlinarith
    refine undivided number.toNat.minFac (by omega) low ?_
    rw [← whole]
    exact Int.natCast_dvd_natCast.mpr divisor

/-- The division loop looks for a divisor up to the square root. -/
theorem division_decides (num root : Int32) (low : root.toInt ≤ 46340) (enough : 46340 < fuel) :
    ∃ verdict, loop (divisionTurn num root) fuel 2 = .ok verdict ∧
      ((∀ d : Int, 2 ≤ d → d ≤ root.toInt → ¬d ∣ num.toInt) ∧ verdict = 1 ∨
        (∃ d : Int, 2 ≤ d ∧ d ≤ root.toInt ∧ d ∣ num.toInt) ∧ verdict = 0) := by
  let Inv (iter : Int32) (left : Nat) : Prop :=
    2 ≤ iter.toInt ∧ iter.toInt + left = 46341 ∧ ∀ d : Int, 2 ≤ d → d < iter.toInt → ¬d ∣ num.toInt
  let Post (result : Except Undefined Int32) : Prop :=
    ∃ verdict, result = .ok verdict ∧
      ((∀ d : Int, 2 ≤ d → d ≤ root.toInt → ¬d ∣ num.toInt) ∧ verdict = 1 ∨
        (∃ d : Int, 2 ≤ d ∧ d ≤ root.toInt ∧ d ∣ num.toInt) ∧ verdict = 0)
  have start : Inv 2 46339 := ⟨by decide, by decide, fun d two below => absurd two (Int.not_le.mpr below)⟩
  refine loop_ends Inv Post ?_ start (by omega)
  rintro iter left ⟨two, within, undivided⟩
  by_cases inside : iter ≤ root
  · have upTo := Int32.le_iff_toInt_le.mp inside
    obtain ⟨rest, divided, exactly⟩ := remainder_of_pos (a := num) (show 0 < iter.toInt by omega)
    by_cases none : rest = 0
    · have divides : iter.toInt ∣ num.toInt := by
        apply Int.dvd_of_tmod_eq_zero
        rw [← exactly, none]
        rfl
      exact .inr (.inl ⟨0, by simp [divisionTurn, inside, divided, none], 0, rfl,
        .inr ⟨⟨iter.toInt, two, upTo, divides⟩, rfl⟩⟩)
    · obtain ⟨next, added, value⟩ := successor_fits iter (by omega) (show iter.toInt < 2 ^ 31 - 1 by omega)
      refine .inl ⟨next, left - 1, by simp [divisionTurn, inside, divided, none, added], by omega,
        by omega, by omega, fun d two below divides => ?_⟩
      by_cases here : d = iter.toInt
      · subst here
        refine none (Int32.toInt_inj.mp ?_)
        rw [exactly]
        exact Int.tmod_eq_zero_of_dvd divides
      · exact undivided d two (by omega) divides
  · have past : root.toInt < iter.toInt :=
      Int.not_le.mp fun upTo => inside (Int32.le_iff_toInt_le.mpr upTo)
    exact .inr (.inl ⟨1, by simp [divisionTurn, inside], 1, rfl,
      .inl ⟨fun d two upTo => undivided d two (by omega), rfl⟩⟩)

/-- The numbers that `check_if_prime` takes for primes. -/
abbrev OddPrime (num : Int) : Prop := num.toNat.Prime ∧ num ≠ 2

/-- `check_if_prime` misses the prime 2, and only that one. -/
theorem checkIfPrime_spec (small : Small num.toInt) (enough : 46340 < fuel) :
    checkIfPrime fuel num = .ok (if OddPrime num.toInt then 1 else 0) := by
  by_cases tiny : num < 2
  · have low : num.toInt < 2 := Int32.lt_iff_toInt_lt.mp tiny
    have unprime : ¬OddPrime num.toInt := fun odd => absurd odd.1.two_le (by omega)
    rw [if_neg unprime]
    simp [checkIfPrime, tiny]
  have two : 2 ≤ num.toInt := Int.not_lt.mp fun low => tiny (Int32.lt_iff_toInt_lt.mpr low)
  obtain ⟨root, searched, nearest⟩ := getNearestSqrt_least small enough
  have low : root.toInt ≤ 46340 := nearest.2 ⟨by decide, small⟩
  obtain ⟨verdict, divided, found⟩ := division_decides num root low enough
  have ran : checkIfPrime fuel num = .ok verdict := by
    simp only [checkIfPrime, tiny, if_false, searched, ok_bind, divided]
  rw [ran]
  by_cases isTwo : num.toInt = 2
  · rw [if_neg fun odd => odd.2 isTwo]
    rcases found with ⟨undivided, -⟩ | ⟨-, rfl⟩
    · refine absurd (dvd_refl (2 : Int)) ?_
      have reached : 2 ≤ root.toInt := by
        obtain ⟨⟨positive, above⟩, -⟩ := nearest
        nlinarith
      simpa [isTwo] using undivided 2 (Int.le_refl 2) reached
    · rfl
  · have decides := prime_iff_undivided (show 3 ≤ num.toInt by omega) nearest
    rcases found with ⟨undivided, rfl⟩ | ⟨⟨d, two, upTo, divides⟩, rfl⟩
    · rw [if_pos ⟨decides.mpr undivided, isTwo⟩]
    · rw [if_neg fun odd => decides.mp odd.1 d two upTo divides]

theorem checkIfPrime_overflow (large : ¬Small num.toInt) (enough : 46341 < fuel) :
    checkIfPrime fuel num = .error .overflow := by
  have big : ¬num < 2 := by
    intro tiny
    have low := Int32.lt_iff_toInt_lt.mp tiny
    exact large (Int.le_trans (Int.le_of_lt low) (by decide))
  simp only [checkIfPrime, big, if_false, getNearestSqrt_overflow large enough, error_bind]

theorem returns_checkIfPrime (small : Small num.toInt) :
    Returns (PrimeUser.checkIfPrime · num) (if OddPrime num.toInt then 1 else 0) :=
  ⟨46341, fun _ enough => checkIfPrime_spec small (by omega)⟩

/-- Of a number that is not negative, both programs say the same. -/
theorem kmod_same (natural : 0 ≤ num.toInt) :
    PrimeKmod.checkIfPrime fuel num = PrimeUser.checkIfPrime fuel num := by
  have positive : ¬num < 0 := fun negative => Int.not_lt.mpr natural (Int32.lt_iff_toInt_lt.mp negative)
  simp only [PrimeKmod.checkIfPrime, positive, if_false, pure_eq_ok, ok_bind]
  rfl

/-! ## Primality -/

/-- `check_if_prime` says of the number whether it is a prime. -/
def Decides (checkIfPrime : Nat → Int32 → Except Undefined Int32) (num : Int32) : Prop :=
  Returns (checkIfPrime · num) (if num.toInt.toNat.Prime then 1 else 0)

theorem decides_iff (small : Small num.toInt) : Decides PrimeUser.checkIfPrime num ↔ num ≠ 2 := by
  have returned := returns_checkIfPrime small
  constructor
  · rintro decided rfl
    have same := decided.unique returned
    simp [OddPrime, Nat.prime_two] at same
  · intro other
    have value : num.toInt ≠ 2 := fun two => other (Int32.toInt_inj.mp two)
    simpa [Decides, OddPrime, value] using returned

/-- **Trial division.** In the whole range in which squares fit, both programs decide
primality of every number but 2. -/
theorem trial_division_iff (natural : 0 ≤ num.toInt) (small : num.toInt ≤ 46340 * 46340) :
    Decides PrimeUser.checkIfPrime num ∧ Decides PrimeKmod.checkIfPrime num ↔ num ≠ 2 := by
  have same : Decides PrimeKmod.checkIfPrime num ↔ Decides PrimeUser.checkIfPrime num := by
    simp only [Decides, kmod_same natural]
  rw [same, and_self]
  exact decides_iff small

theorem trial_division_of_a_square :
    Decides PrimeUser.checkIfPrime 2147395600 ∧ Decides PrimeKmod.checkIfPrime 2147395600 :=
  (trial_division_iff (by decide) (by decide)).mpr (by decide)

/-- The smallest prime is divided by itself. -/
theorem two_is_not_recognised :
    Nat.Prime 2 ∧ Returns (PrimeUser.checkIfPrime · 2) 0 ∧ Returns (PrimeKmod.checkIfPrime · 2) 0 := by
  have returned := returns_checkIfPrime (show Small (2 : Int32).toInt by decide)
  rw [if_neg fun odd => odd.2 rfl] at returned
  refine ⟨Nat.prime_two, returned, ?_⟩
  simpa only [kmod_same (show 0 ≤ (2 : Int32).toInt by decide)] using returned

/-! ## Overflow -/

namespace PrimeUser
variable {max : Int32} {rand : Nat → Int32}

/-- The number that `count_prime` tests in this iteration. -/
def drawn (max : Int32) (rand : Nat → Int32) (i : Nat) : Int := (rand i).toInt.tmod max.toInt

/-- A turn of `count_prime` that can be computed. -/
theorem countTurn_counts {i : Int32} (prime : Int32) {done : Nat} (enough : 46340 < fuel) (counter : i.toInt = done)
    (going : done < max.toInt) (bound : prime.toInt ≤ done) (natural : 0 ≤ prime.toInt)
    (small : Small (drawn max rand done)) :
    ∃ i' prime', countTurn fuel max rand ⟨i, prime, done⟩ = .ok (.again ⟨i', prime', done + 1⟩) ∧
      i'.toInt = done + 1 ∧
      prime'.toInt = prime.toInt + if OddPrime (drawn max rand done) then 1 else 0 := by
  have limit := max.toInt_lt
  have less : i < max := Int32.lt_iff_toInt_lt.mpr (by omega)
  obtain ⟨num, divided, exactly⟩ := remainder_of_pos (a := rand done) (show 0 < max.toInt by omega)
  rw [drawn, ← exactly] at small ⊢
  have checked := checkIfPrime_spec small enough
  obtain ⟨i', stepped, index⟩ := successor_fits i (by omega) (show i.toInt < 2 ^ 31 - 1 by omega)
  by_cases odd : OddPrime num.toInt
  · obtain ⟨prime', more, value⟩ := successor_fits prime natural (by omega)
    rw [if_pos odd] at checked ⊢
    exact ⟨i', prime', by simp [countTurn, less, divided, PrimeUser.checkIfPrime, checked, more, stepped],
      by omega, value⟩
  · rw [if_neg odd] at checked ⊢
    exact ⟨i', prime, by simp [countTurn, less, divided, PrimeUser.checkIfPrime, checked, stepped],
      by omega, by omega⟩

/-- A turn of `count_prime` that squares too large a number. -/
theorem countTurn_overflow {i : Int32} (prime : Int32) {done : Nat} (enough : 46341 < fuel) (counter : i.toInt = done)
    (going : done < max.toInt) (large : ¬Small (drawn max rand done)) :
    countTurn fuel max rand ⟨i, prime, done⟩ = .error .overflow := by
  have less : i < max := Int32.lt_iff_toInt_lt.mpr (by omega)
  obtain ⟨num, divided, exactly⟩ := remainder_of_pos (a := rand done) (show 0 < max.toInt by omega)
  rw [drawn, ← exactly] at large
  simp [countTurn, less, divided, PrimeUser.checkIfPrime, checkIfPrime_overflow large enough]

/-- Every number that `count_prime` draws has its root in the range of `int`. -/
abbrev AllSmall (max : Int32) (rand : Nat → Int32) : Prop :=
  ∀ i : Nat, i < max.toInt → Small (drawn max rand i)

/-- `count_prime` counts the draws that are odd primes, unless one of them is too large. -/
theorem countPrime_spec (max : Int32) (rand : Nat → Int32) (enough : 46341 < fuel) (turns : max.toInt < fuel) :
    (AllSmall max rand ∧ ∃ count, countPrime fuel max rand = .ok count ∧
      count.toInt = (List.range max.toInt.toNat).countP fun i => OddPrime (drawn max rand i)) ∨
    (¬AllSmall max rand ∧ countPrime fuel max rand = .error .overflow) := by
  let total (i : Nat) : Nat := (List.range i).countP fun i => OddPrime (drawn max rand i)
  let Inv (count : Count) (left : Nat) : Prop :=
    count.i.toInt = count.drawn ∧ count.drawn + left = max.toInt.toNat ∧
      count.prime.toInt = total count.drawn ∧ ∀ i < count.drawn, Small (drawn max rand i)
  let Post (result : Except Undefined Int32) : Prop :=
    (AllSmall max rand ∧ ∃ count, result = .ok count ∧ count.toInt = total max.toInt.toNat) ∨
    (¬AllSmall max rand ∧ result = .error .overflow)
  have start : Inv ⟨0, 0, 0⟩ max.toInt.toNat :=
    ⟨rfl, Nat.zero_add _, rfl, fun i none => absurd none (Nat.not_lt_zero i)⟩
  refine loop_ends Inv Post ?_ start (by omega)
  rintro ⟨i, prime, done⟩ left ⟨counter, within, counted, past⟩
  simp only at counter within counted past
  by_cases going : done < max.toInt
  · by_cases small : Small (drawn max rand done)
    · have bound : total done ≤ done := by
        simpa using List.countP_le_length (l := List.range done)
      have next : total (done + 1) = total done + if OddPrime (drawn max rand done) then 1 else 0 := by
        simp [total, List.range_succ]
      obtain ⟨i', prime', taken, index, value⟩ :=
        countTurn_counts prime (Nat.lt_of_succ_lt enough) counter going (by omega) (by omega) small
      have room : done + 1 + (left - 1) = max.toInt.toNat := by omega
      refine .inl ⟨_, left - 1, taken, by omega, index, room, ?_, fun k before => ?_⟩
      · rw [value, counted, next]
        split <;> rfl
      · rcases Nat.lt_succ_iff_lt_or_eq.mp before with old | rfl
        · exact past k old
        · exact small
    · have failed := countTurn_overflow prime enough counter going small
      exact .inr (.inr ⟨.overflow, failed, .inr ⟨fun all => small (all done going), rfl⟩⟩)
  · have reached : ¬i < max := fun less => going (counter ▸ Int32.lt_iff_toInt_lt.mp less)
    refine .inr (.inl ⟨prime, by simp [countTurn, reached], .inl ⟨fun k before => past k (by omega),
      prime, rfl, ?_⟩⟩)
    rw [counted, show done = max.toInt.toNat by omega]

/-- `count_prime` ends with a count, as does every call it makes of the two functions,
and `get_nearest_sqrt` finds the least root. -/
def CountsSafely (max : Int32) (rand : Nat → Int32) : Prop :=
  (∃ count, Returns (countPrime · max rand) count) ∧
  ∀ i : Nat, i < max.toInt → ∃ num root isPrime, remainder (rand i) max = .ok num ∧
    Returns (getNearestSqrt · num) root ∧ IsNearestSqrt num.toInt root.toInt ∧
    Returns (checkIfPrime · num) isPrime

/-- **Counting without overflow.** Whatever `max` is and `rand` returns, `count_prime`
is computed within 32 bits exactly when no remainder is above the square of 46340. -/
theorem count_without_overflow_iff (max : Int32) (rand : Nat → Int32) :
    CountsSafely max rand ↔
      ∀ i : Nat, i < max.toInt → (rand i).toInt.tmod max.toInt ≤ 46340 * 46340 := by
  constructor
  · rintro ⟨⟨count, returned⟩, -⟩
    by_contra large
    have fails : ∀ fuel, 46341 + max.toInt.toNat < fuel → countPrime fuel max rand = .error .overflow := by
      intro fuel enough
      rcases countPrime_spec max rand (show 46341 < fuel by omega) (by omega) with
        ⟨small, -⟩ | ⟨-, failed⟩
      · exact absurd small large
      · exact failed
    exact Returns.never fails returned
  · intro small
    refine ⟨?_, fun i before => ?_⟩
    · have ends : ∀ fuel, 46342 + max.toInt.toNat ≤ fuel → ∃ count, countPrime fuel max rand = .ok count ∧
          count.toInt = (List.range max.toInt.toNat).countP fun i => OddPrime (drawn max rand i) := by
        intro fuel enough
        rcases countPrime_spec max rand (show 46341 < fuel by omega) (by omega) with
          ⟨-, counted⟩ | ⟨large, -⟩
        · exact counted
        · exact absurd small large
      obtain ⟨count, -, value⟩ := ends _ (Nat.le_refl _)
      refine ⟨count, 46342 + max.toInt.toNat, fun fuel enough => ?_⟩
      obtain ⟨other, ran, value'⟩ := ends fuel enough
      exact ran.trans (congrArg Except.ok (Int32.toInt_inj.mp (value'.trans value.symm)))
    · obtain ⟨num, divided, exactly⟩ := remainder_of_pos (a := rand i) (show 0 < max.toInt by omega)
      have fits : Small num.toInt := exactly ▸ small i before
      obtain ⟨root, -, nearest⟩ := getNearestSqrt_least fits (Nat.lt_succ_self 46340)
      refine ⟨num, root, _, divided, ⟨46341, fun fuel enough => ?_⟩, nearest, returns_checkIfPrime fits⟩
      obtain ⟨other, searched, nearest'⟩ := getNearestSqrt_least fits (show 46340 < fuel by omega)
      have same := nearest.unique nearest'
      exact searched.trans (congrArg Except.ok (Int32.toInt_inj.mp same.symm))

/-- The first number whose root `get_nearest_sqrt` cannot reach. -/
theorem count_overflows : ¬CountsSafely 2147483647 fun _ => 2147395601 := by
  rintro ⟨-, each⟩
  obtain ⟨num, root, isPrime, divided, -, -, returned⟩ := each 0 (by decide)
  have drawn : num = 2147395601 := (Except.ok.inj divided).symm
  rw [drawn] at returned
  exact Returns.never (fun fuel enough => checkIfPrime_overflow (by decide) enough) returned

end PrimeUser

end KernelLabs.Primes
