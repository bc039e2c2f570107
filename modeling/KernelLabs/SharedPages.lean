import KernelLabs.Checked
import KernelLabs.PageTable
import Mathlib.Data.List.Induction

/-! An array of pages that processes share. Each process sees some of its pages, at
addresses of its own, and a byte is what was last stored to it, by whomever and through
whichever address. -/
namespace KernelLabs.SharedPages

/-- What a process does with the array. -/
inductive Access (ι : Type)
  /-- `count` pages from `page` on are to show the array from its start. -/
  | map (process : ι) (page count : Nat)
  | load (process : ι) (address : Nat)
  | store (process : ι) (address : Nat) (value : UInt8)
  /-- A `map` that is refused. -/
  | refused
  deriving DecidableEq, Repr

/-- The array, and which of its pages each page of a process shows. -/
structure SharedArray (ι : Type) where
  bytes : Nat → UInt8
  window : ι → PageTable

variable {ι : Type}

/-- An array that nobody has mapped. -/
def SharedArray.start (bytes : Nat → UInt8) : SharedArray ι where
  bytes := bytes
  window _ _ := none

variable {pageSize : Nat} [DecidableEq ι]

/-- One access, and what it loads. -/
def SharedArray.access (pageSize : Nat) (array : SharedArray ι) : Access ι → SharedArray ι × Option UInt8
  | .map process page count =>
    ({ array with
        window := Function.update array.window process ((array.window process).mapTo page count id) }, none)
  | .load process address => (array, ((array.window process).translate pageSize address).map array.bytes)
  | .store process address value =>
    match (array.window process).translate pageSize address with
    | none => (array, none)
    | some place => ({ array with bytes := Function.update array.bytes place value }, none)
  | .refused => (array, none)

/-- The array after a sequence of accesses. -/
def SharedArray.after (pageSize : Nat) (array : SharedArray ι) (accesses : List (Access ι)) : SharedArray ι :=
  accesses.foldl (fun array access => (array.access pageSize access).1) array

/-- What an access stores to a place of the array. -/
def SharedArray.stores (pageSize : Nat) (array : SharedArray ι) (place : Nat) : Access ι → Option UInt8
  | .store process address value =>
    if (array.window process).translate pageSize address = some place then some value else none
  | _ => none

variable {array : SharedArray ι} {access : Access ι} {accesses : List (Access ι)} {place : Nat} {process : ι}

theorem access_bytes : (array.access pageSize access).1.bytes place =
    (array.stores pageSize place access).getD (array.bytes place) := by
  cases access with
  | store process address value =>
    simp only [SharedArray.access, SharedArray.stores]
    cases there : (array.window process).translate pageSize address with
    | none => rfl
    | some other =>
      by_cases same : other = place
      · simp [same]
      · simp [same, Ne.symm same]
  | map | load | refused => rfl

/-- Stores leave the windows alone. -/
theorem store_window {address : Nat} {value : UInt8} :
    (array.access pageSize (.store process address value)).1.window = array.window := by
  simp only [SharedArray.access]
  split <;> rfl

/-- Stores through one window change the places they reach, and those only. -/
theorem stores_bytes {start : Nat} {value : Nat → UInt8} {places : List Nat}
    (shows : ∀ place ∈ places, (array.window process).translate pageSize (start + place) = some place) :
    let after := array.after pageSize (places.map fun place => .store process (start + place) (value place))
    after.window = array.window ∧
      ∀ place, after.bytes place = if place ∈ places then value place else array.bytes place := by
  induction places using List.reverseRecOn with
  | nil => exact ⟨rfl, fun place => rfl⟩
  | append_singleton places last ih =>
    obtain ⟨windows, before⟩ := ih fun place member => shows place (List.mem_append_left _ member)
    have reached := shows last (List.mem_append_right _ List.mem_cons_self)
    simp only [SharedArray.after, List.map_append, List.foldl_append, List.map_cons, List.map_nil,
      List.foldl_cons, List.foldl_nil] at windows before ⊢
    refine ⟨store_window.trans windows, fun place => ?_⟩
    rw [access_bytes, before, SharedArray.stores, windows, reached]
    by_cases same : last = place
    · simp [same]
    · simp [same, Ne.symm same]

end KernelLabs.SharedPages
