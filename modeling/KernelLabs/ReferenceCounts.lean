import Mathlib.Data.Finset.Card

/-! Counting references. A count is right as long as every holder of a reference to an
object, and every reference that is on its way to a holder, is counted. -/
namespace KernelLabs.ReferenceCounts

variable {Holder Object : Type} [DecidableEq Holder] [DecidableEq Object]
  {holders holders' : Object → Finset Holder} {pending pending' : Object → Nat} {refs : Object → Int}
  {object : Object} {holder : Holder}

/-- There are at least as many references as holders and references on their way. -/
def Counted (holders : Object → Finset Holder) (pending : Object → Nat) (refs : Object → Int) : Prop :=
  ∀ object, (((holders object).card + pending object : Nat) : Int) ≤ refs object

namespace Counted

omit [DecidableEq Holder] [DecidableEq Object] in
/-- Who holds a reference keeps the object. -/
theorem positive (counted : Counted holders pending refs) (holds : holder ∈ holders object) :
    0 < refs object := by
  have enough := counted object
  have some := Finset.card_pos.mpr ⟨holder, holds⟩
  omega

omit [DecidableEq Holder] [DecidableEq Object] in
/-- Holders may go without giving back their references. -/
theorem mono (counted : Counted holders pending refs) (fewer : ∀ object, holders' object ⊆ holders object) :
    Counted holders' pending refs := by
  intro object
  have enough := counted object
  have smaller := Finset.card_le_card (fewer object)
  omega

omit [DecidableEq Holder] in
/-- A reference is taken, and goes on its way. -/
theorem get (object : Object) (counted : Counted holders pending refs)
    (sent : ∀ other, pending' other = pending other + if other = object then 1 else 0) :
    Counted holders pending' (Function.update refs object (refs object + 1)) := by
  intro other
  have enough := counted other
  rw [sent other]
  by_cases same : other = object
  · subst same
    rw [Function.update_self, if_pos rfl]
    omega
  · rw [Function.update_of_ne same, if_neg same]
    exact enough

/-- A reference arrives at a holder. -/
theorem arrive (holder : Holder) (object : Object) (counted : Counted holders pending refs)
    (sent : ∀ other, pending other = pending' other + if other = object then 1 else 0)
    (more : holders' object ⊆ insert holder (holders object))
    (others : ∀ other, other ≠ object → holders' other ⊆ holders other) :
    Counted holders' pending' refs := by
  intro other
  have enough := counted other
  rw [sent other] at enough
  by_cases same : other = object
  · subst same
    rw [if_pos rfl] at enough
    have larger := (Finset.card_le_card more).trans (Finset.card_insert_le holder (holders other))
    omega
  · rw [if_neg same] at enough
    have smaller := Finset.card_le_card (others other same)
    omega

/-- A holder gives its reference back. -/
theorem put (counted : Counted holders pending refs) (holds : holder ∈ holders object)
    (fewer : holders' object ⊆ (holders object).erase holder)
    (others : ∀ other, other ≠ object → holders' other ⊆ holders other) :
    Counted holders' pending (Function.update refs object (refs object - 1)) := by
  intro other
  have enough := counted other
  by_cases same : other = object
  · subst same
    have smaller := Finset.card_le_card fewer
    rw [Finset.card_erase_of_mem holds] at smaller
    have some := Finset.card_pos.mpr ⟨holder, holds⟩
    rw [Function.update_self]
    omega
  · rw [Function.update_of_ne same]
    have smaller := Finset.card_le_card (others other same)
    omega

end Counted

end KernelLabs.ReferenceCounts
