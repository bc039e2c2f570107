import Mathlib.Data.List.Basic
import Mathlib.Data.List.Induction
import Mathlib.Data.Set.Insert
import Mathlib.InformationTheory.Coding.UniquelyDecodable

/-! Texts cut into chunks of limited length, each ended by a mark or by the limit.
The chunks can be told apart in their concatenation, and no other word can be added
to them without losing that. -/
namespace KernelLabs.Chunks
open InformationTheory

/-- A chunk ends at its only mark, or at the limit without any. -/
inductive IsChunk {α : Type} (mark : α) (limit : Nat) : List α → Prop
  | marked {front : List α} (unmarked : mark ∉ front) (short : front.length < limit) :
      IsChunk mark limit (front ++ [mark])
  | full {whole : List α} (unmarked : mark ∉ whole) (length : whole.length = limit) :
      IsChunk mark limit whole

variable {α : Type} {mark : α} {limit : Nat} {word other : List α}

/-- Where no word is a proper beginning of another and none is empty, concatenations
can be read back from the left. -/
theorem uniquelyDecodable_of_prefix {words : Set (List α)} (nonempty : [] ∉ words)
    (alone : ∀ first ∈ words, ∀ second ∈ words, first <+: second → first = second) :
    UniquelyDecodable words := by
  intro left right inLeft inRight same
  induction left generalizing right with
  | nil =>
    cases right with
    | nil => rfl
    | cons word right =>
      obtain ⟨rfl, -⟩ := List.append_eq_nil_iff.mp (List.flatten_cons ▸ same.symm)
      exact absurd (inRight [] List.mem_cons_self) nonempty
  | cons word left ih =>
    cases right with
    | nil =>
      obtain ⟨rfl, -⟩ := List.append_eq_nil_iff.mp (List.flatten_cons ▸ same)
      exact absurd (inLeft [] List.mem_cons_self) nonempty
    | cons word' right =>
      have member := inLeft word List.mem_cons_self
      have member' := inRight word' List.mem_cons_self
      have first : word = word' := by
        have starts : word <+: (word' :: right).flatten := same ▸ List.prefix_append word left.flatten
        have starts' : word' <+: (word' :: right).flatten := List.prefix_append word' right.flatten
        rcases List.prefix_or_prefix_of_prefix starts starts' with before | before
        · exact alone word member word' member' before
        · exact (alone word' member' word member before).symm
      subst first
      congr 1
      refine ih right (fun w inside => inLeft w (List.mem_cons_of_mem _ inside))
        (fun w inside => inRight w (List.mem_cons_of_mem _ inside)) ?_
      simpa using same

theorem IsChunk.length_le (chunk : IsChunk mark limit word) : word.length ≤ limit := by
  cases chunk with
  | marked unmarked short =>
    rw [List.length_append, List.length_singleton]
    exact short
  | full unmarked length => exact length.le

theorem IsChunk.ne_nil (positive : 0 < limit) (chunk : IsChunk mark limit word) : word ≠ [] := by
  cases chunk with
  | marked unmarked short => simp
  | full unmarked length =>
    rintro rfl
    simp only [List.length_nil] at length
    omega

/-- No chunk begins another. -/
theorem IsChunk.prefix_eq (chunk : IsChunk mark limit word) (chunk' : IsChunk mark limit other)
    (before : word <+: other) : word = other := by
  cases chunk with
  | full unmarked length =>
    exact before.eq_of_length_le (by rw [length]; exact chunk'.length_le)
  | marked unmarked short =>
    obtain ⟨rest, whole⟩ := before
    cases chunk' with
    | full unmarked' length' =>
      subst whole
      simp at unmarked'
    | marked unmarked' short' =>
      -- Both fronts end where the mark first stands.
      rw [List.append_assoc, List.singleton_append] at whole
      rw [((List.append_cons_inj_of_notMem unmarked' List.not_mem_nil).mp whole.symm).1]

/-- Every text is a row of chunks and a rest that is none yet. -/
theorem exists_chunks [DecidableEq α] (positive : 0 < limit) (text : List α) :
    ∃ (chunks : List (List α)) (tail : List α), text = chunks.flatten ++ tail ∧
      (∀ chunk ∈ chunks, IsChunk mark limit chunk) ∧ mark ∉ tail ∧ tail.length < limit := by
  induction text using List.reverseRecOn with
  | nil => exact ⟨[], [], rfl, by simp, by simp, positive⟩
  | append_singleton text symbol ih =>
    obtain ⟨chunks, tail, rfl, cut, unmarked, short⟩ := ih
    have closed (last : IsChunk mark limit (tail ++ [symbol])) :
        ∀ chunk ∈ chunks ++ [tail ++ [symbol]], IsChunk mark limit chunk := by
      intro chunk member
      rcases List.mem_append.mp member with before | here
      · exact cut chunk before
      · rw [List.mem_singleton.mp here]
        exact last
    by_cases same : symbol = mark
    · subst same
      exact ⟨chunks ++ [tail ++ [symbol]], [], by simp, closed (.marked unmarked short), by simp, positive⟩
    · have absent : mark ∉ tail ++ [symbol] := by
        simp [unmarked, Ne.symm same]
      by_cases reached : tail.length + 1 = limit
      · refine ⟨chunks ++ [tail ++ [symbol]], [], by simp, closed (.full absent ?_), by simp, positive⟩
        simpa using reached
      · refine ⟨chunks, tail ++ [symbol], by simp, cut, absent, ?_⟩
        simp only [List.length_append, List.length_singleton]
        omega

/-- Chunks can be told apart in their concatenation. -/
theorem chunks_uniquelyDecodable (positive : 0 < limit) :
    UniquelyDecodable {word | IsChunk mark limit word} := by
  apply uniquelyDecodable_of_prefix
  · intro empty
    exact (show IsChunk mark limit [] from empty).ne_nil positive rfl
  · intro first chunk second chunk' before
    exact chunk.prefix_eq chunk' before

/-- A word that is no chunk can be confused with chunks: two rows of it and of chunks,
made of its symbols and the mark, have the same concatenation. -/
theorem confused_of_not_chunk [DecidableEq α] (positive : 0 < limit)
    (unfit : ¬ IsChunk mark limit word) :
    ∃ left right : List (List α), left ≠ right ∧ left.flatten = right.flatten ∧
      (∀ w ∈ left ++ right, w = word ∨ IsChunk mark limit w) ∧
      ∀ symbol ∈ left.flatten, symbol ∈ word ∨ symbol = mark := by
  have cutting : ∃ (chunks : List (List α)) (tail : List α), word = chunks.flatten ++ tail ∧
      (∀ chunk ∈ chunks, IsChunk mark limit chunk) ∧ mark ∉ tail ∧ tail.length < limit :=
    exists_chunks positive word
  obtain ⟨chunks, tail, whole, cut, unmarked, short⟩ := cutting
  cases tail with
  | nil =>
    -- The word is a row of other chunks than itself.
    refine ⟨[word], chunks, ?_, by simpa using whole, ?_, fun symbol member => .inl (by simpa using member)⟩
    · rintro rfl
      exact unfit (cut word (by simp))
    · intro w member
      rcases List.mem_cons.mp member with same | inside
      · exact .inl same
      · exact .inr (cut w inside)
  | cons symbol tail =>
    -- A mark after the word ends its last chunk.
    have closing : IsChunk mark limit [mark] := .marked List.not_mem_nil positive
    have last : IsChunk mark limit (symbol :: tail ++ [mark]) := .marked unmarked short
    refine ⟨[word, [mark]], chunks ++ [symbol :: tail ++ [mark]], ?_, by simp [whole], ?_, by simp⟩
    · intro same
      have ends := congrArg List.getLast? same
      simp at ends
    · intro w member
      simp only [List.cons_append, List.nil_append, List.mem_cons, List.mem_append,
        List.not_mem_nil, or_false] at member
      rcases member with same | rfl | inside | rfl
      · exact .inl same
      · exact .inr closing
      · exact .inr (cut w inside)
      · exact .inr last

end KernelLabs.Chunks
