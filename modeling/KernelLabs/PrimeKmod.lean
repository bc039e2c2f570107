import KernelLabs.Kmalloc
import KernelLabs.Primes

/-! `count_rand_prime` of `prime_kmod.c`: it fills a buffer with random numbers, reduces
them and counts the primes among them. The module parameter is any `int`; what bounds it
is that `kmalloc` hands out no large blocks. -/
namespace KernelLabs.Primes.PrimeKmod
open SignedInt Kmalloc

/-- What can stop the function. -/
inductive Failure
  | undefined (why : Undefined)
  | access (fault : Fault)
  deriving DecidableEq, Repr

/-- A computation, as a part of the function. -/
def computed {α : Type} (value : Except Undefined α) : Except Failure α := value.mapError .undefined

/-- A use of memory, as a part of the function. -/
def accessed {α : Type} (value : Except Fault α) : Except Failure α := value.mapError .access

/-- The time that `ktime_get` tells, in nanoseconds since the start of the machine. -/
structure Ktime where
  ns : Int64
  natural : 0 ≤ ns.toInt

/-- `ktime_to_ns(ktime_sub(later, earlier))`, a difference of signed 64-bit numbers. -/
def ktimeSub (later earlier : Ktime) : Except Undefined Int64 :=
  let difference := later.ns.toInt - earlier.ns.toInt
  if -2 ^ 63 ≤ difference ∧ difference < 2 ^ 63 then .ok (Int64.ofInt difference) else .error .overflow

/-- The module's data and the memory it uses. -/
structure Kmod where
  res : Int32
  memory : Memory

/-- What the kernel answers during one call. -/
structure Answers where
  /-- The contents of the block that `kmalloc` finds, if it finds one. -/
  found : Option (Nat → Int32)
  random : Nat → Int32
  start : Ktime
  finish : Ktime

/-- `sizeof(int) * size`: the `int` is extended to an `unsigned long`. -/
def request (size : Int32) : UInt64 := 4 * size.toInt64.toUInt64

/-- `kbuffer[i] = (unsigned int)kbuffer[i] % (size + 1)`. -/
def reduceBody (kbuffer : Ptr) (size i : Int32) (memory : Memory) : Except Failure Memory := do
  let value ← accessed (memory.load kbuffer i)
  let divisor ← computed (add size 1)
  let rest ← computed (remainderUnsigned value.toUInt32 divisor.toUInt32)
  accessed (memory.store kbuffer i rest.toInt32)

/-- `if (check_if_prime(kbuffer[i])) res++`. -/
def countBody (fuel : Nat) (kbuffer : Ptr) (memory : Memory) (i res : Int32) : Except Failure Int32 := do
  let value ← accessed (memory.load kbuffer i)
  let isPrime ← computed (checkIfPrime fuel value)
  if isPrime = 0 then return res else computed (add res 1)

/-- `count_rand_prime`, and the microseconds it returns. -/
def countRandPrime (fuel : Nat) (kmod : Kmod) (answers : Answers) (size : Int32) :
    Except Failure (Kmod × Int64) := do
  let (memory, kbuffer) := kmod.memory.kmalloc (request size) answers.found
  if kbuffer = none then return (⟨kmod.res, memory⟩, -1)
  else
    let memory ← accessed (memory.getRandomBytes kbuffer (request size) answers.random)
    let memory ← forInt .undefined size (reduceBody kbuffer size) fuel 0 memory
    let res ← forInt .undefined size (countBody fuel kbuffer memory) fuel 0 kmod.res
    let memory ← accessed (memory.kfree kbuffer)
    let duration ← computed (ktimeSub answers.finish answers.start)
    return (⟨res, memory⟩, duration / 1000)

@[simp] theorem computed_ok {α : Type} (value : α) : computed (.ok value) = .ok value := rfl

@[simp] theorem accessed_ok {α : Type} (value : α) : accessed (.ok value) = .ok value := rfl

variable {size : Int32} {fuel : Nat} {before memory : Memory} {number : Nat}

/-! ## The sizes -/

theorem ktimeSub_fits (later earlier : Ktime) : ∃ difference, ktimeSub later earlier = .ok difference := by
  have low := later.natural
  have low' := earlier.natural
  have high := later.ns.toInt_lt
  have high' := earlier.ns.toInt_lt
  exact ⟨_, if_pos ⟨by omega, by omega⟩⟩

theorem request_toNat (size : Int32) : ((request size).toNat : Int) = 4 * size.toInt % 2 ^ 64 := by
  have unsigned : size.toInt64.toUInt64.toNat = size.toInt64.toBitVec.toNat := rfl
  have signed : size.toInt64.toBitVec.toInt = size.toInt := Int32.toInt_toInt64 size
  rw [BitVec.toInt_eq_toNat_cond] at signed
  have four : (4 : UInt64).toNat = 4 := rfl
  rw [request, UInt64.toNat_mul, unsigned, four]
  split at signed <;> omega

/-- What `kmalloc` hands out has room for a number of elements that is not negative. -/
theorem request_small (small : (request size).toNat ≤ maxSize) :
    0 ≤ size.toInt ∧ size.toInt ≤ 2 ^ 20 ∧ (request size).toNat = 4 * size.toInt.toNat := by
  have exactly := request_toNat size
  have low := size.le_toInt
  have high := size.toInt_lt
  unfold maxSize at small
  omega

/-- A number that is not negative, as an `unsigned int`. -/
theorem unsigned_natural {n : Int32} (natural : 0 ≤ n.toInt) : (n.toUInt32.toNat : Int) = n.toInt := by
  have unsigned : n.toUInt32.toNat = n.toBitVec.toNat := rfl
  have signed : n.toInt = n.toBitVec.toInt := rfl
  rw [BitVec.toInt_eq_toNat_cond] at signed
  have bound := n.toBitVec.isLt
  rw [unsigned]
  split at signed <;> omega

/-- A small `unsigned int`, as an `int`. -/
theorem signed_small {n : UInt32} (small : n.toNat < 2 ^ 31) : n.toInt32.toInt = n.toNat := by
  have unsigned : n.toInt32.toBitVec.toNat = n.toNat := rfl
  have signed : n.toInt32.toInt = n.toInt32.toBitVec.toInt := rfl
  rw [signed, BitVec.toInt_eq_toNat_cond, unsigned, if_pos (by omega)]

/-! ## The loops -/

/-- A random number in the range that is counted. -/
def reduced (size value : Int32) : Nat := value.toUInt32.toNat % (size.toInt.toNat + 1)

theorem reduced_le (size value : Int32) : reduced size value ≤ size.toInt.toNat :=
  Nat.le_of_lt_succ (Nat.mod_lt _ (Nat.succ_pos _))

/-- The reduction neither overflows nor divides by zero. -/
theorem reduce_value (natural : 0 ≤ size.toInt) (low : size.toInt ≤ 2 ^ 20) (value : Int32) :
    ∃ divisor rest, add size 1 = .ok divisor ∧
      remainderUnsigned value.toUInt32 divisor.toUInt32 = .ok rest ∧ rest.toInt32.toInt = reduced size value := by
  have one : (1 : Int32).toInt = 1 := rfl
  obtain ⟨divisor, added, exactly⟩ : ∃ divisor, add size 1 = .ok divisor ∧ divisor.toInt = size.toInt + 1 := by
    rw [add, one]
    exact ofExact_fits (by omega) (by omega)
  have unsigned := unsigned_natural (show 0 ≤ divisor.toInt by omega)
  have whole : divisor.toUInt32.toNat = size.toInt.toNat + 1 := by omega
  have nonzero : divisor.toUInt32 ≠ 0 := by
    intro zero
    rw [zero] at whole
    exact absurd whole.symm (Nat.succ_ne_zero _)
  have rest : (value.toUInt32 % divisor.toUInt32).toNat = reduced size value := by
    rw [UInt32.toNat_mod, whole, reduced]
  have bound := reduced_le size value
  refine ⟨divisor, _, added, by rw [remainderUnsigned, if_neg nonzero], ?_⟩
  rw [signed_small (by omega), rest]

/-- The buffer of the function, when it holds these `int`s. -/
abbrev Buffer (before memory : Memory) (number : Nat) (size : Int32) (int : Nat → Int32) : Prop :=
  Lent before memory number ⟨4 * size.toInt.toNat, int⟩

section Loops
variable {int random : Nat → Int32} {i : Int32} {k : Nat}

/-- The elements of the buffer lie in its block. -/
theorem element_inside (counter : i.toInt = k) (less : k < size.toInt) :
    Block.Inside ⟨4 * size.toInt.toNat, int⟩ i := by
  refine ⟨by omega, ?_⟩
  show 4 * i.toInt + 4 ≤ (4 * size.toInt.toNat : Nat)
  omega

/-- One element is reduced. -/
theorem reduce_turn (natural : 0 ≤ size.toInt) (low : size.toInt ≤ 2 ^ 20)
    (buffer : Buffer before memory number size int) (counter : i.toInt = k) (less : k < size.toInt) :
    ∃ (next : Memory) (value : Int32), reduceBody (some number) size i memory = .ok next ∧
      value.toInt = reduced size (int k) ∧ Buffer before next number size (Function.update int k value) := by
  have index : i.toInt.toNat = k := by omega
  have inside : Block.Inside ⟨4 * size.toInt.toNat, int⟩ i := element_inside counter less
  have read := buffer.load inside
  obtain ⟨divisor, rest, added, divided, value⟩ := reduce_value natural low (int k)
  obtain ⟨next, written, kept⟩ := buffer.store inside rest.toInt32
  simp only [index] at read kept
  refine ⟨next, rest.toInt32, ?_, value, kept⟩
  simp only [reduceBody, read, accessed_ok, ok_bind, added, computed_ok, divided, written]

/-- The first loop reduces all elements. -/
theorem reduce_loop (natural : 0 ≤ size.toInt) (low : size.toInt ≤ 2 ^ 20)
    (buffer : Buffer before memory number size int) : ∃ after int', Buffer before after number size int' ∧
      (∀ i : Nat, i < size.toInt → (int' i).toInt = reduced size (int i)) ∧
      ∀ fuel, size.toInt.toNat < fuel →
        forInt .undefined size (reduceBody (some number) size) fuel 0 memory = .ok after := by
  let Inv (done : Nat) (memory : Memory) : Prop := ∃ int', Buffer before memory number size int' ∧
    (∀ i < done, (int' i).toInt = reduced size (int i)) ∧ ∀ i, done ≤ i → int' i = int i
  have start : Inv 0 memory := ⟨int, buffer, fun i none => absurd none (Nat.not_lt_zero i), fun _ _ => rfl⟩
  obtain ⟨after, ⟨int', kept, past, -⟩, ran⟩ : ∃ after, Inv size.toInt.toNat after ∧
      ∀ fuel, size.toInt.toNat < fuel →
        forInt .undefined size (reduceBody (some number) size) fuel 0 memory = .ok after := by
    refine forInt_counts Inv ?_ start
    rintro k i memory counter less ⟨int', kept, past, ahead⟩
    obtain ⟨next, value, taken, exactly, kept⟩ := reduce_turn natural low kept counter less
    rw [ahead k (Nat.le_refl k)] at exactly
    refine ⟨next, taken, _, kept, fun j before => ?_, fun j after => ?_⟩
    · by_cases here : j = k
      · subst here
        rw [Function.update_self, exactly]
      · rw [Function.update_of_ne here]
        exact past j (by omega)
    · rw [Function.update_of_ne (by omega)]
      exact ahead j (by omega)
  exact ⟨after, int', kept, fun i below => past i (by omega), ran⟩

/-- The second loop counts the elements that `check_if_prime` accepts. -/
theorem count_loop (low : size.toInt ≤ 2 ^ 20) (buffer : Buffer before memory number size int)
    (ranged : ∀ i : Nat, i < size.toInt → 0 ≤ (int i).toInt ∧ (int i).toInt ≤ size.toInt)
    (deep : 46340 < fuel) (enough : size.toInt.toNat < fuel) :
    ∃ res : Int32, forInt .undefined size (countBody fuel (some number) memory) fuel 0 0 = .ok res ∧
      res.toInt = (List.range size.toInt.toNat).countP fun i => OddPrime (int i).toInt := by
  let total (done : Nat) : Nat := (List.range done).countP fun i => OddPrime (int i).toInt
  suffices counts : ∃ res : Int32, res.toInt = total size.toInt.toNat ∧ ∀ fuel', size.toInt.toNat < fuel' →
      forInt .undefined size (countBody fuel (some number) memory) fuel' 0 0 = .ok res by
    obtain ⟨res, counted, ran⟩ := counts
    exact ⟨res, ran fuel enough, counted⟩
  refine forInt_counts (fun done (res : Int32) => res.toInt = total done) ?_ rfl
  intro k i res counter less counted
  have index : i.toInt.toNat = k := by omega
  have read := buffer.load (element_inside counter less)
  simp only [index] at read
  obtain ⟨natural, bound⟩ := ranged k less
  have checked : checkIfPrime fuel (int k) = .ok (if OddPrime (int k).toInt then 1 else 0) := by
    rw [kmod_same natural]
    exact checkIfPrime_spec (show Small (int k).toInt by unfold Small; omega) deep
  have within : total k ≤ k := by
    simpa using List.countP_le_length (l := List.range k)
  have next : total (k + 1) = total k + if OddPrime (int k).toInt then 1 else 0 := by
    simp only [total, List.range_succ, List.countP_append, List.countP_singleton, decide_eq_true_eq]
  by_cases odd : OddPrime (int k).toInt
  · rw [if_pos odd] at checked next
    obtain ⟨res', more, value⟩ := successor_fits res (by omega) (by omega)
    refine ⟨res', ?_, by omega⟩
    simp [countBody, read, checked, more]
  · rw [if_neg odd] at checked next
    refine ⟨res, ?_, by omega⟩
    simp [countBody, read, checked]

end Loops

/-! ## One call -/

/-- What a call that got its buffer has done: the buffer is freed, once, and held reduced
numbers; of those, `check_if_prime` accepts as many as were counted. -/
structure Counted (before : Kmod) (answers : Answers) (size : Int32) (number : Nat) (after : Kmod) : Prop where
  blocks : after.memory.blocks = before.memory.blocks
  counted : ∃ (buffer : Block) (verdict : Nat → Int32),
    after.memory.freed = before.memory.freed ++ [(number, buffer)] ∧
    (∀ i : Nat, i < size.toInt → (buffer.int i).toInt = reduced size (answers.random i) ∧
      0 ≤ (buffer.int i).toInt ∧ (buffer.int i).toInt ≤ size.toInt ∧
      Returns (checkIfPrime · (buffer.int i)) (verdict i)) ∧
    after.res.toInt = before.res.toInt + (List.range size.toInt.toNat).countP fun i => verdict i ≠ 0

/-- **Counting is safe.** In a module that was just loaded, whatever its parameter is, whatever
the random bytes are and however `kmalloc` answers, `count_rand_prime` returns. If it gets
no buffer, it returns -1 and has changed nothing. Otherwise no access leaves the buffer, no
signed arithmetic overflows and nothing is divided by zero, all reduced values lie in the
range, the buffer is freed once, and `res` counts what `check_if_prime` accepts. -/
theorem counting_is_safe (memory : Memory) (answers : Answers) (n : Int32) : ∃ result,
    (∃ enough, ∀ fuel, enough ≤ fuel → countRandPrime fuel ⟨0, memory⟩ answers n = .ok result) ∧
    ((memory.kmalloc (request n) answers.found).2 = none ∧ result = (⟨0, memory⟩, -1) ∨
      ∃ number, (memory.kmalloc (request n) answers.found).2 = some number ∧
        Counted ⟨0, memory⟩ answers n number result.1) := by
  rcases kmalloc_cases memory (request n) answers.found with refused |
    ⟨small, lent, number, int, granted, buffer⟩
  · refine ⟨(⟨0, memory⟩, -1), ⟨0, fun fuel _ => ?_⟩, .inl ⟨by rw [refused], rfl⟩⟩
    simp [countRandPrime, refused]
  obtain ⟨natural, low, whole⟩ := request_small small
  rw [whole] at buffer
  obtain ⟨filled, fill, buffer⟩ :=
    buffer.getRandomBytes (request n) answers.random (Nat.le_of_eq whole)
  obtain ⟨after, int', buffer, same, reduces⟩ := reduce_loop natural low buffer
  have exactly (i : Nat) (less : i < n.toInt) : (int' i).toInt = reduced n (answers.random i) := by
    rw [same i less, if_pos (by omega)]
  have ranged (i : Nat) (less : i < n.toInt) : 0 ≤ (int' i).toInt ∧ (int' i).toInt ≤ n.toInt := by
    have bound := reduced_le n (answers.random i)
    have value := exactly i less
    omega
  obtain ⟨final, freed, blocks, log⟩ := buffer.kfree
  obtain ⟨duration, elapsed⟩ := ktimeSub_fits answers.finish answers.start
  let enough := 46341 + n.toInt.toNat
  have count {fuel : Nat} (many : enough ≤ fuel) := count_loop low buffer ranged
    (show 46340 < fuel by omega) (by omega)
  obtain ⟨res, -, counted⟩ := count (le_refl enough)
  refine ⟨(⟨res, final⟩, duration / 1000), ⟨enough, fun fuel many => ?_⟩,
    .inr ⟨number, by rw [granted], blocks, ⟨_, int'⟩, fun i => if OddPrime (int' i).toInt then 1 else 0,
      log, fun i less => ⟨exactly i less, (ranged i less).1, (ranged i less).2, ?_⟩, ?_⟩⟩
  · obtain ⟨res', counts, counted'⟩ := count many
    obtain rfl : res' = res := Int32.toInt_inj.mp (counted'.trans counted.symm)
    simp [countRandPrime, granted, fill, reduces fuel (by omega), counts, freed, elapsed]
  · have returned := returns_checkIfPrime (show Small (int' i).toInt by
      have bound := (ranged i less).2
      unfold Small
      omega)
    simpa only [kmod_same (ranged i less).1] using returned
  · rw [counted]
    simp

end KernelLabs.Primes.PrimeKmod
