import KernelLabs.MymmapDisclosure

/-! The place in the device that a request asks for. `mymmap_mmap` never reads `vm_pgoff`:
whatever the request says, the first page of the mapping shows the first page of the area. -/
namespace KernelLabs.Mymmap
open Errno

/-- A `struct vm_area_struct` with its offset in the device. -/
structure FileVma extends Vma where
  /-- `vm_pgoff`, in pages. -/
  vmPgoff : Nat
  pgoffBelow : vmPgoff < 2 ^ 64

section Offset
variable {config : Config} {kernel : Kernel config} {area : Area config} {vma vma' : FileVma}
  {table table' after after' : PageTable}

/-- The mapping shows the pages of the device from the offset on. A request that goes
beyond the device is refused. -/
def HonoursOffset (kernel : Kernel config) (area : Area config) (vma : FileVma) (table : PageTable) : Prop :=
  if vma.vmPgoff * pageSize + vma.len ≤ config.size then
    ∃ after, mymmapMmap kernel vma.toVma remapSucceeds table = .ok (after, 0) ∧
      ∀ k < vma.pages, after (vma.firstPage + k) = some (area.frame (vma.vmPgoff + k))
  else ∃ ret < 0, mymmapMmap kernel vma.toVma remapSucceeds table = .ok (table, ret)

/-- Two mappings show the same bytes wherever they map the same page of the device. -/
def SamePages (vma vma' : FileVma) (after after' : PageTable) : Prop :=
  ∀ k < vma.pages, ∀ k' < vma'.pages, vma.vmPgoff + k = vma'.vmPgoff + k' →
    after (vma.firstPage + k) = after' (vma'.firstPage + k')

theorem Vma.pages_pos (vma : Vma) : 0 < vma.pages := by
  have nonempty : 0 < vma.len := Nat.sub_pos_of_lt vma.nonempty
  rw [vma.len_eq] at nonempty
  exact Nat.pos_of_mul_pos_right nonempty

/-- Only the offset zero is honoured, unless the range does not fit at all. -/
theorem honoursOffset_iff (covers : config.Covers) (ready : Ready kernel area) (vma : FileVma)
    (table : PageTable) : HonoursOffset kernel area vma table ↔ vma.vmPgoff = 0 ∨ config.size < vma.len := by
  by_cases fits : vma.len ≤ config.size
  · obtain ⟨after, ran, shows⟩ := mmap_shows covers ready vma.toVma table fits
    have inArea := (shows.inside 0 vma.pages_pos).1
    have first := (shows.inside 0 vma.pages_pos).2
    rw [or_iff_left (Nat.not_lt.mpr fits)]
    constructor
    · intro honoured
      by_cases whole : vma.vmPgoff * pageSize + vma.len ≤ config.size
      · rw [HonoursOffset, if_pos whole] at honoured
        obtain ⟨other, same, shown⟩ := honoured
        rw [ran] at same
        cases same
        have asked := shown 0 vma.pages_pos
        rw [first] at asked
        have within : vma.vmPgoff * pageSize < config.maxPages * pageSize := by
          have nonempty : 0 < vma.len := Nat.sub_pos_of_lt vma.nonempty
          unfold Config.size at whole
          omega
        have low : vma.vmPgoff < config.maxPages := Nat.lt_of_mul_lt_mul_right within
        exact (area.apart 0 inArea _ (Nat.lt_of_lt_of_le low covers) (Option.some.inj asked)).symm
      · rw [HonoursOffset, if_neg whole] at honoured
        obtain ⟨ret, negative, same⟩ := honoured
        rw [ran] at same
        cases same
        cases negative
    · intro zero
      have whole : vma.vmPgoff * pageSize + vma.len ≤ config.size := by rwa [zero, Nat.zero_mul, Nat.zero_add]
      rw [HonoursOffset, if_pos whole]
      refine ⟨after, ran, fun k low => ?_⟩
      rw [zero, Nat.zero_add]
      exact (shows.inside k low).2
  · have long := Nat.not_le.mp fits
    refine iff_of_true ?_ (.inr long)
    rw [HonoursOffset, if_neg (by omega)]
    exact ⟨-einval, neg_einval, mymmapMmap_long ready long⟩

/-- Mappings that overlap in the device agree there exactly when they start at the same page. -/
theorem samePages_iff (shows : Shows area vma.toVma table after) (shows' : Shows area vma'.toVma table' after')
    (overlap : ∃ k < vma.pages, ∃ k' < vma'.pages, vma.vmPgoff + k = vma'.vmPgoff + k') :
    SamePages vma vma' after after' ↔ vma.vmPgoff = vma'.vmPgoff := by
  constructor
  · intro same
    obtain ⟨k, low, k', low', page⟩ := overlap
    have shown := same k low k' low' page
    rw [(shows.inside k low).2, (shows'.inside k' low').2] at shown
    have distance := area.apart k (shows.inside k low).1 k' (shows'.inside k' low').1 (Option.some.inj shown)
    omega
  · intro offset k low k' low' page
    obtain rfl : k = k' := by omega
    rw [(shows.inside k low).2, (shows'.inside k low').2]

end Offset

/-- **File offsets.** A request for no more than the size of the device succeeds, and page
`k` of the mapping shows page `k` of the area, whatever the offset; a longer one is refused.
So the offset is honoured exactly when it is zero or the request is too long anyway, and
mappings that overlap in the device agree there exactly when their offsets are the same. -/
theorem mmap_ignores_offset {backend : Backend} {kernel : Kernel backend.config}
    {area : Area backend.config} (ready : Ready kernel area) (vma : FileVma) (table : PageTable) :
    (vma.len ≤ backend.config.size → ∃ after,
      mymmapMmap kernel vma.toVma remapSucceeds table = .ok (after, 0) ∧
      Shows area vma.toVma table after ∧
      ∀ (vma' : FileVma) (table' : PageTable), vma'.len ≤ backend.config.size → ∃ after',
        mymmapMmap kernel vma'.toVma remapSucceeds table' = .ok (after', 0) ∧
        ((∃ k < vma.pages, ∃ k' < vma'.pages, vma.vmPgoff + k = vma'.vmPgoff + k') →
          (SamePages vma vma' after after' ↔ vma.vmPgoff = vma'.vmPgoff))) ∧
    (backend.config.size < vma.len → ∀ answers,
      mymmapMmap kernel vma.toVma answers table = .ok (table, -einval)) ∧
    (HonoursOffset kernel area vma table ↔ vma.vmPgoff = 0 ∨ backend.config.size < vma.len) := by
  have covers := backend.config_covers
  refine ⟨fun fits => ?_, fun long answers => mymmapMmap_long ready long,
    honoursOffset_iff covers ready vma table⟩
  obtain ⟨after, ran, shows⟩ := mmap_shows covers ready vma.toVma table fits
  refine ⟨after, ran, shows, fun vma' table' fits' => ?_⟩
  obtain ⟨after', ran', shows'⟩ := mmap_shows covers ready vma'.toVma table' fits'
  exact ⟨after', ran', samePages_iff shows shows'⟩

theorem one_below : 1 < 2 ^ 64 := by decide

/-- One page, the second of the device. -/
def secondPage : FileVma where
  toVma := onePage
  vmPgoff := 1
  pgoffBelow := one_below

theorem mmap_ignores_offset_second : ∃ after,
    mymmapMmap (Area.bottom Backend.kmalloc.config).published secondPage.toVma remapSucceeds
      (fun _ => none) = .ok (after, 0) ∧ after 0 = some 0 := by
  have ready : Ready (Area.bottom Backend.kmalloc.config).published (Area.bottom _) := ⟨rfl, rfl⟩
  obtain ⟨after, ran, shows, -⟩ := (mmap_ignores_offset ready secondPage fun _ => none).1 (by decide)
  exact ⟨after, ran, (shows.inside 0 (by decide)).2⟩

/-- The second page of the device is there, and a request for it shows the first one. -/
theorem second_page_shows_first :
    secondPage.vmPgoff * pageSize + secondPage.len ≤ Backend.kmalloc.config.size ∧
    ¬ HonoursOffset (Area.bottom Backend.kmalloc.config).published (.bottom _) secondPage fun _ => none := by
  refine ⟨by decide, fun honoured => ?_⟩
  rw [honoursOffset_iff Backend.kmalloc.config_covers ⟨rfl, rfl⟩] at honoured
  exact absurd honoured (by decide)

end KernelLabs.Mymmap
