import KernelLabs.IrqDriverStatements
import Mathlib.Data.Fintype.Card

/-! Processes on the lab12 driver that increment a counter without its mutex. The load and the
store of an increment come apart then, and increments are lost: as many as the order of the
turns makes of it, but never all. -/
namespace KernelLabs.IrqDriver
open Clients

variable {N : Nat}

/-- `N` processes with one increment each. -/
abbrev Increments (N : Nat) := Machine (Fin N) Shared IoctlCmd IoctlPc Reply

/-- What the counter is. -/
def counter (index : Fin 5) (machine : Increments N) : CInt := machine.dev.driver.devData.num index

/-- The process has not begun. -/
structure Fresh (index : Fin 5) (machine : Increments N) (client : Fin N) : Prop where
  todo : machine.todo client = [.inc index]
  within : machine.within client = none

/-- The process has loaded the counter, and will store this. -/
structure Loaded (index : Fin 5) (value : CInt) (machine : Increments N) (client : Fin N) : Prop where
  todo : machine.todo client = [.inc index]
  within : machine.within client = some (.store index value [])

variable {index : Fin 5} {value : CInt} {machine : Increments N} {client : Fin N} {clients : List (Fin N)}

theorem turn_loads (fresh : Fresh index machine client) : ioctlCode.turn machine client =
    { machine with within :=
        Function.update machine.within client (some (.store index (counter index machine + 1) [])) } := by
  refine turn_goes fresh.todo ?_
  simp only [Code.pc, fresh.within, Option.getD_none, enter_eq]
  rfl

theorem turn_stores (loaded : Loaded index value machine client) : ioctlCode.turn machine client =
    { dev := machine.dev.setNum index value
      todo := Function.update machine.todo client []
      within := Function.update machine.within client none
      history := machine.history ++ [⟨client, .inc index, ⟨0, []⟩⟩] } := by
  refine turn_returns loaded.todo ?_
  simp only [Code.pc, loaded.within, Option.getD_some]
  rfl

theorem turn_done (done : machine.todo client = []) : ioctlCode.turn machine client = machine := by
  simp [Code.turn, done]

/-! ## What is never lost, and what is never gained -/

/-- The counter has gone up by one at least where an increment has returned, and by no more than
have. A process that has loaded it stores no more than that either. -/
structure Counts (base : CInt) (index : Fin 5) (machine : Increments N) : Prop where
  counted : ∃ k ≤ machine.history.length, counter index machine = base + BitVec.ofNat 32 k ∧
    (machine.history ≠ [] → 0 < k)
  left : (Finset.univ.filter fun client => machine.todo client ≠ []).card + machine.history.length = N
  clients : ∀ client, machine.todo client = [] ∨ Fresh index machine client ∨
    ∃ k ≤ machine.history.length, Loaded index (base + BitVec.ofNat 32 (k + 1)) machine client

theorem counts_turn {base : CInt} (counts : Counts base index machine) (client : Fin N) :
    Counts base index (ioctlCode.turn machine client) := by
  obtain ⟨⟨k, low, here, returned⟩, left, clients⟩ := counts
  rcases clients client with done | fresh | ⟨j, small, loaded⟩
  · rw [turn_done done]
    exact ⟨⟨k, low, here, returned⟩, left, clients⟩
  · rw [turn_loads fresh]
    refine ⟨⟨k, low, here, returned⟩, left, fun other => ?_⟩
    by_cases mine : other = client
    · subst mine
      refine .inr (.inr ⟨k, low, fresh.todo, ?_⟩)
      simp [here, BitVec.ofNat_add, BitVec.add_assoc]
    · rcases clients other with done' | fresh' | ⟨j, small, loaded'⟩
      · exact .inl done'
      · exact .inr (.inl ⟨fresh'.todo, by simp [mine, fresh'.within]⟩)
      · exact .inr (.inr ⟨j, small, loaded'.todo, by simp [mine, loaded'.within]⟩)
  · rw [turn_stores loaded]
    have busy : client ∈ Finset.univ.filter fun client => machine.todo client ≠ [] := by
      simp [loaded.todo]
    have fewer : (Finset.univ.filter fun other => Function.update machine.todo client [] other ≠ []) =
        (Finset.univ.filter fun other => machine.todo other ≠ []).erase client := by
      ext other
      by_cases mine : other = client <;> simp [mine]
    refine ⟨⟨j + 1, ?_, ?_, ?_⟩, ?_, fun other => ?_⟩
    · simpa using small
    · simp [counter, Shared.setNum]
    · simp
    · rw [fewer]
      have one := Finset.card_erase_add_one busy
      rw [List.length_append, List.length_singleton]
      omega
    · by_cases mine : other = client
      · exact .inl (by simp [mine])
      · rcases clients other with done' | fresh' | ⟨i, small', loaded'⟩
        · exact .inl (by simp [mine, done'])
        · exact .inr (.inl ⟨by simp [mine, fresh'.todo], by simp [mine, fresh'.within]⟩)
        · refine .inr (.inr ⟨i, ?_, ⟨by simp [mine, loaded'.todo], by simp [mine, loaded'.within]⟩⟩)
          rw [List.length_append]
          omega

/-! ## What can be lost -/

/-- The process has not had a turn. -/
structure Untouched (before after : Increments N) (client : Fin N) : Prop where
  todo : after.todo client = before.todo client
  within : after.within client = before.within client

theorem Untouched.trans {before middle after : Increments N} (first : Untouched before middle client)
    (second : Untouched middle after client) : Untouched before after client :=
  ⟨second.todo.trans first.todo, second.within.trans first.within⟩

theorem Fresh.still {after : Increments N} (fresh : Fresh index machine client)
    (same : Untouched machine after client) : Fresh index after client :=
  ⟨same.todo.trans fresh.todo, same.within.trans fresh.within⟩

theorem Loaded.still {after : Increments N} (loaded : Loaded index value machine client)
    (same : Untouched machine after client) : Loaded index value after client :=
  ⟨same.todo.trans loaded.todo, same.within.trans loaded.within⟩

/-- A turn is nothing to the others. -/
theorem turn_others (machine : Increments N) {other : Fin N} (different : other ≠ client) :
    Untouched machine (ioctlCode.turn machine client) other := by
  unfold Code.turn
  split
  · exact ⟨rfl, rfl⟩
  · split <;> constructor <;> simp [different]

/-- Processes that take their turns together, each load before every store, load the same. -/
theorem turns_load (once : clients.Nodup) (fresh : ∀ client ∈ clients, Fresh index machine client) :
    let after := ioctlCode.turns machine clients
    counter index after = counter index machine ∧
      (∀ client ∈ clients, Loaded index (counter index machine + 1) after client) ∧
      ∀ client ∉ clients, Untouched machine after client := by
  induction clients generalizing machine with
  | nil => exact ⟨rfl, by simp, fun client _ => ⟨rfl, rfl⟩⟩
  | cons first clients ih =>
    obtain ⟨absent, once⟩ := List.nodup_cons.mp once
    obtain ⟨begins, fresh⟩ := List.forall_mem_cons.mp fresh
    have others {client : Fin N} (different : client ≠ first) := turn_others machine different
    have loads : Loaded index (counter index machine + 1) (ioctlCode.turn machine first) first := by
      rw [turn_loads begins]
      exact ⟨begins.todo, by simp⟩
    have same : counter index (ioctlCode.turn machine first) = counter index machine := by
      rw [turn_loads begins]
      rfl
    obtain ⟨counted, loaded, untouched⟩ := ih once fun client member =>
      (fresh client member).still (others fun is => absent (is ▸ member))
    rw [same] at counted loaded
    refine ⟨counted, List.forall_mem_cons.mpr ⟨loads.still (untouched first absent), loaded⟩, ?_⟩
    intro client outside
    obtain ⟨different, outside⟩ := List.ne_and_not_mem_of_not_mem_cons outside
    exact (others different).trans (untouched client outside)

/-- Processes that have loaded the same store the same. -/
theorem turns_store (once : clients.Nodup) (loaded : ∀ client ∈ clients, Loaded index value machine client)
    (any : clients ≠ []) :
    let after := ioctlCode.turns machine clients
    counter index after = value ∧ (∀ client ∈ clients, after.todo client = []) ∧
      ∀ client ∉ clients, Untouched machine after client := by
  induction clients generalizing machine with
  | nil => exact absurd rfl any
  | cons first clients ih =>
    obtain ⟨absent, once⟩ := List.nodup_cons.mp once
    obtain ⟨begins, loaded⟩ := List.forall_mem_cons.mp loaded
    have others {client : Fin N} (different : client ≠ first) := turn_others machine different
    have stores : counter index (ioctlCode.turn machine first) = value ∧
        (ioctlCode.turn machine first).todo first = [] := by
      rw [turn_stores begins]
      simp [counter, Shared.setNum]
    cases clients with
    | nil =>
      refine ⟨stores.1, ?_, fun client outside => others (by simpa using outside)⟩
      exact fun client member => List.mem_singleton.mp member ▸ stores.2
    | cons second clients =>
      obtain ⟨counted, done, untouched⟩ := ih once (fun client member =>
        (loaded client member).still (others fun is => absent (is ▸ member))) (by simp)
      refine ⟨counted, List.forall_mem_cons.mpr ⟨(untouched first absent).todo.trans stores.2, done⟩, ?_⟩
      intro client outside
      obtain ⟨different, outside⟩ := List.ne_and_not_mem_of_not_mem_cons outside
      exact (others different).trans (untouched client outside)

/-- Processes that take turns one after another all count. -/
theorem turns_alone (once : clients.Nodup) (fresh : ∀ client ∈ clients, Fresh index machine client) :
    let after := ioctlCode.turns machine (clients.flatMap fun client => [client, client])
    counter index after = counter index machine + BitVec.ofNat 32 clients.length ∧
      (∀ client ∈ clients, after.todo client = []) ∧
      ∀ client ∉ clients, Untouched machine after client := by
  induction clients generalizing machine with
  | nil => exact ⟨by simp [Code.turns], by simp, fun client _ => ⟨rfl, rfl⟩⟩
  | cons first clients ih =>
    obtain ⟨absent, once⟩ := List.nodup_cons.mp once
    obtain ⟨begins, fresh⟩ := List.forall_mem_cons.mp fresh
    obtain ⟨-, loaded, others⟩ := turns_load (List.nodup_singleton first) (by simpa using begins)
    obtain ⟨counted, done, others'⟩ := turns_store (List.nodup_singleton first) loaded (by simp)
    have both (client : Fin N) (different : client ≠ first) :
        Untouched machine (ioctlCode.turns machine [first, first]) client :=
      (others client (by simpa using different)).trans (others' client (by simpa using different))
    obtain ⟨counted', done', untouched⟩ := ih once fun client member =>
      (fresh client member).still (both client fun is => absent (is ▸ member))
    refine ⟨?_, List.forall_mem_cons.mpr ⟨?_, done'⟩, fun client outside => ?_⟩
    · have whole : counter index (ioctlCode.turns machine [first, first]) = counter index machine + 1 := counted
      rw [whole, BitVec.add_assoc] at counted'
      rw [List.length_cons, Nat.add_comm clients.length, BitVec.ofNat_add]
      exact counted'
    · exact (untouched first absent).todo.trans (done first (by simp))
    · obtain ⟨different, outside⟩ := List.ne_and_not_mem_of_not_mem_cons outside
      exact (both client different).trans (untouched client outside)

/-- **Lost increments.** Where `N` processes each increment a counter once and none of them takes
the mutex, the counter can have gone up by any number from one to `N` when all are done, and by no
other. -/
theorem unlocked_increments (any : 0 < N) (driver : Driver) (index : Fin 5) (value : CInt) :
    (∃ turns, let final := ioctlCode.turns (.start (.idle driver) fun _ : Fin N => [.inc index]) turns
      (∀ client, final.todo client = []) ∧ final.dev.driver.devData.num index = value) ↔
    ∃ k, 1 ≤ k ∧ k ≤ N ∧ value = driver.devData.num index + BitVec.ofNat 32 k := by
  let initial : Increments N := .start (.idle driver) fun _ : Fin N => [.inc index]
  have fresh (client : Fin N) : Fresh index initial client := ⟨rfl, rfl⟩
  constructor
  · rintro ⟨turns, done, rfl⟩
    have counts : Counts (driver.devData.num index) index initial := by
      refine ⟨⟨0, Nat.zero_le _, ?_, fun returned => absurd rfl returned⟩, ?_,
        fun client => .inr (.inl (fresh client))⟩
      · simp [initial, counter, Machine.start, Shared.idle]
      · simp [initial, Machine.start]
    obtain ⟨⟨k, low, counted, returned⟩, left, -⟩ :=
      turns_keeps (Counts (driver.devData.num index) index) (fun _ client counts => counts_turn counts client)
        counts turns
    have all : (ioctlCode.turns initial turns).history.length = N := by
      simpa [initial, done] using left
    refine ⟨k, returned fun empty => ?_, all ▸ low, counted⟩
    rw [empty] at all
    exact absurd all (Nat.ne_of_lt any)
  · rintro ⟨k, pos, low, rfl⟩
    -- all but `k - 1` of them load before the first store
    let early := (List.finRange N).take (N + 1 - k)
    let late := (List.finRange N).drop (N + 1 - k)
    have split : early ++ late = List.finRange N := List.take_append_drop _ _
    have once : (early ++ late).Nodup := split ▸ List.nodup_finRange N
    obtain ⟨onceEarly, onceLate, apart⟩ := List.nodup_append.mp once
    have nonempty : early ≠ [] := by
      intro empty
      have length := congrArg List.length empty
      simp only [early, List.length_take, List.length_finRange, List.length_nil] at length
      omega
    obtain ⟨-, loaded, others⟩ := turns_load onceEarly fun client _ => fresh client
    obtain ⟨counted, done, others'⟩ := turns_store onceEarly loaded nonempty
    have waiting (client : Fin N) (member : client ∈ late) : Fresh index
        (ioctlCode.turns (ioctlCode.turns initial early) early) client := by
      have outside : client ∉ early := fun inside => apart client inside client member rfl
      exact (fresh client).still ((others client outside).trans (others' client outside))
    obtain ⟨counted', done', others''⟩ := turns_alone onceLate waiting
    refine ⟨early ++ early ++ late.flatMap fun client => [client, client], fun client => ?_, ?_⟩
    · rw [turns_append, turns_append]
      by_cases member : client ∈ late
      · exact done' client member
      · have inside : client ∈ early := by
          have among : client ∈ early ++ late := split ▸ List.mem_finRange client
          exact (List.mem_append.mp among).resolve_right member
        exact (others'' client member).todo.trans (done client inside)
    · rw [turns_append, turns_append]
      refine counted'.trans ?_
      rw [counted, BitVec.add_assoc]
      have length : late.length = k - 1 := by
        simp only [late, List.length_drop, List.length_finRange]
        omega
      have total : (1 : CInt) + BitVec.ofNat 32 late.length = BitVec.ofNat 32 k := by
        rw [length, show k = 1 + (k - 1) by omega, BitVec.ofNat_add]
        simp
      rw [total]
      rfl

/-- Of three increments two can be lost. -/
theorem unlocked_increments_three : ∃ turns,
    let final := ioctlCode.turns (.start (.idle loaded) fun _ : Fin 3 => [.inc 0]) turns
    (∀ client, final.todo client = []) ∧ final.dev.driver.devData.num 0 = 1 :=
  (unlocked_increments (by decide) loaded 0 1).mpr ⟨1, by decide, by decide, by decide⟩

end KernelLabs.IrqDriver
