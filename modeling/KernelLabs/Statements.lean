import KernelLabs.Checked

/-! Functions as the statements they run, one at a time, so that the same definition
says what a whole call does and what others see in the middle of it. -/
namespace KernelLabs.Statements

variable {σ ρ : Type} {next : σ → Except Fault σ} {returned : σ → Option ρ} {state after : σ}
  {fuel : Nat} {ret : ρ}

/-- Runs a function until it returns. The fuel stands for the statements that are left
before the function counts as diverged. -/
def complete (next : σ → Except Fault σ) (returned : σ → Option ρ) :
    Nat → σ → Except Fault (σ × ρ)
  | 0, _ => .error .diverged
  | fuel + 1, state =>
    match returned state with
    | some ret => .ok (state, ret)
    | none => do
      let after ← next state
      complete next returned fuel after

theorem complete_returned (done : returned state = some ret) :
    complete next returned (fuel + 1) state = .ok (state, ret) := by
  rw [complete, done]

theorem complete_next (going : returned state = none) (taken : next state = .ok after) :
    complete next returned (fuel + 1) state = complete next returned fuel after := by
  rw [complete, going]
  simp only [taken, ok_bind]

theorem complete_fault {fault : Fault} (going : returned state = none) (fails : next state = .error fault) :
    complete next returned (fuel + 1) state = .error fault := by
  rw [complete, going]
  simp only [fails, error_bind]

/-- The iterations of a loop. -/
theorem complete_loop (states : Nat → σ) {count : Nat}
    (iterates : ∀ k < count, returned (states k) = none ∧ next (states k) = .ok (states (k + 1))) :
    complete next returned (fuel + count) (states 0) = complete next returned fuel (states count) := by
  induction count generalizing fuel with
  | zero => rfl
  | succ count ih =>
    obtain ⟨going, taken⟩ := iterates count (Nat.lt_succ_self count)
    rw [show fuel + (count + 1) = fuel + 1 + count by omega, ih fun k low => iterates k (by omega),
      complete_next going taken]

/-- A function whose statements count down returns. -/
theorem complete_total (Inv : σ → Nat → Prop) {left : Nat}
    (steps : ∀ state left, Inv state left → returned state = none →
      ∃ after fewer, next state = .ok after ∧ fewer < left ∧ Inv after fewer)
    (start : Inv state left) (enough : left < fuel) :
    ∃ result, complete next returned fuel state = .ok result := by
  induction fuel generalizing state left with
  | zero => exact absurd enough (Nat.not_lt_zero left)
  | succ fuel ih =>
    cases here : returned state with
    | some ret => exact ⟨_, complete_returned here⟩
    | none =>
      obtain ⟨after, fewer, taken, less, inv⟩ := steps state left start here
      rw [complete_next here taken]
      exact ih inv (Nat.lt_of_lt_of_le less (Nat.le_of_lt_succ enough))

end KernelLabs.Statements
