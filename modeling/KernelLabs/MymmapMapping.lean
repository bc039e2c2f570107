import KernelLabs.MymmapInit

/-! What `mymmap_mmap` maps. The area is contiguous in memory for `kmalloc` and
`alloc_pages`, and is looked up page by page for `vmalloc`, but user space sees the
same bytes at the same addresses. -/
namespace KernelLabs.Mymmap
open Errno Statements

variable {config : Config} {kernel : Kernel config} {area : Area config} {vma : Vma}
  {table after : PageTable} {answers : RemapAnswers}

/-! ## One call -/

/-- The frames that the pages of a mapping are given. -/
def Area.mapped (area : Area config) (page : Nat) : Nat :=
  match config.backend with
  | .kmalloc | .allocPages => area.frame 0 + page
  | .vmalloc => area.frame page

/-- Within the area, they are its own. -/
theorem Area.mapped_eq {page : Nat} (inside : page < config.areaPages) :
    area.mapped page = area.frame page := by
  unfold Area.mapped
  split
  · next backend =>
    exact (area.contiguous (fun same => by rw [backend] at same; cases same) page inside).symm
  · next backend =>
    exact (area.contiguous (fun same => by rw [backend] at same; cases same) page inside).symm
  · rfl

theorem remapPfnRange_succeeds (address pfn size : Nat) :
    remapPfnRange remapSucceeds table address pfn size =
      (table.mapTo (address / pageSize) (size / pageSize) fun k => pfn + k, 0) := rfl

theorem mmap_returned {fuel : Nat} {ret : Int} :
    complete (mmapStatement kernel vma answers) (fun state => state.2.ret) (fuel + 1)
      (table, .returned ret) = .ok ((table, .returned ret), ret) := complete_returned rfl

theorem testSize_passes (ready : Ready kernel area) :
    mmapStatement kernel vma answers (table, .testSize) = .ok (table, .testLen) := by
  have nonzero : kernel.size ≠ 0 := by
    rw [ready.size]
    exact Nat.ne_of_gt config.size_pos
  rw [mmapStatement, if_neg nonzero]

/-- The `vmalloc` loop, at a page. -/
def Area.remapping (area : Area config) (vma : Vma) (table : PageTable) (page : Nat) :
    PageTable × MmapAt :=
  (table.mapTo vma.firstPage page area.mapped, .remap (toInt (page * pageSize)))

theorem Area.remapping_zero : area.remapping vma table 0 = (table, .remap 0) := by
  rw [Area.remapping, PageTable.mapTo_zero, Nat.zero_mul]
  rfl

/-- One iteration of the `vmalloc` loop. -/
theorem vmalloc_iteration {page : Nat} (ready : Ready kernel area) (fits : vma.len ≤ config.size)
    (scattered : config.backend = .vmalloc) (more : page < vma.pages) :
    mmapStatement kernel vma remapSucceeds (area.remapping vma table page) =
      .ok (area.remapping vma table (page + 1)) := by
  have index := Vma.index_eq fits (Nat.le_of_lt more)
  have inside : page * pageSize < vma.len := by
    rw [vma.len_eq]
    exact (Nat.mul_lt_mul_right pageSize_pos).mpr more
  have frame : area.frame page = area.mapped page := by
    simp only [Area.mapped, scattered]
  have target : (vma.vmStart + page * pageSize) % 2 ^ 64 = (vma.firstPage + page) * pageSize := by
    rw [Nat.add_mul, ← vma.vmStart_eq]
    have room := vma.vmEnd_eq
    rw [← vma.len_eq] at room
    have below := vma.below
    exact Nat.mod_eq_of_lt (by omega)
  have mapped : (table.mapTo vma.firstPage page area.mapped).mapTo (vma.firstPage + page) 1
      (fun k => area.mapped page + k) = table.mapTo vma.firstPage (page + 1) area.mapped := by
    rw [PageTable.mapTo_add]
    apply PageTable.mapTo_congr
    intro offset first
    obtain rfl := Nat.lt_one_iff.mp first
    rfl
  rw [Area.remapping, ready.remap_vmalloc scattered fits (by rwa [index]), index, target]
  simp only [remapPfnRange_succeeds, Nat.mul_div_cancel _ pageSize_pos, Nat.div_self pageSize_pos,
    frame, mapped]
  rw [if_neg (not_not.mpr rfl), Area.remapping, Nat.add_mul page, Nat.one_mul]

/-- The `vmalloc` loop maps each page of the range. -/
theorem vmalloc_remaps (ready : Ready kernel area) (fits : vma.len ≤ config.size)
    (scattered : config.backend = .vmalloc) :
    complete (mmapStatement kernel vma remapSucceeds) (fun state => state.2.ret)
      (2 + vma.pages) (table, .remap 0) =
      .ok ((table.mapTo vma.firstPage vma.pages area.mapped, .returned 0), 0) := by
  have ends : mmapStatement kernel vma remapSucceeds (area.remapping vma table vma.pages) =
      .ok (table.mapTo vma.firstPage vma.pages area.mapped, .returned 0) := by
    have index := Vma.index_eq fits (le_refl vma.pages)
    exact ready.remap_vmalloc_end scattered fits (by rw [index, ← vma.len_eq])
  rw [← Area.remapping_zero, complete_loop (area.remapping vma table) fun page more =>
    ⟨rfl, vmalloc_iteration ready fits scattered more⟩]
  rw [complete_next rfl ends, mmap_returned]

/-- Elsewhere one call of `remap_pfn_range` maps the range. -/
theorem contiguous_remaps (ready : Ready kernel area) (contiguous : config.backend ≠ .vmalloc) :
    mmapStatement kernel vma remapSucceeds (table, .remap 0) =
      .ok (table.mapTo vma.firstPage vma.pages area.mapped, .returned 0) := by
  have frames : area.mapped = fun page => area.frame 0 + page := by
    funext page
    cases backend : config.backend with
    | kmalloc | allocPages => simp only [Area.mapped, backend]
    | vmalloc => exact absurd backend contiguous
  rw [frames, ready.remap_contiguous contiguous]
  rfl

/-- A call for a range that fits maps every page of it. -/
theorem mymmapMmap_fits (ready : Ready kernel area) (fits : vma.len ≤ config.size) :
    mymmapMmap kernel vma remapSucceeds table =
      .ok (table.mapTo vma.firstPage vma.pages area.mapped, 0) := by
  have short : ¬ vma.len > kernel.size := by
    rw [ready.size]
    exact Nat.not_lt.mpr fits
  have compared : mmapStatement kernel vma remapSucceeds (table, .testLen) =
      .ok (table, .remap 0) := by
    rw [mmapStatement, if_neg short]
  rw [mymmapMmap, complete_next rfl (testSize_passes ready), complete_next rfl compared, Nat.add_comm]
  by_cases scattered : config.backend = .vmalloc
  · rw [vmalloc_remaps ready fits scattered]
    rfl
  · rw [Nat.add_comm, complete_next rfl (contiguous_remaps ready scattered), mmap_returned]
    rfl

/-- A call for a longer range is refused. -/
theorem mymmapMmap_long (ready : Ready kernel area) (long : config.size < vma.len) :
    mymmapMmap kernel vma answers table = .ok (table, -einval) := by
  have refused : mmapStatement kernel vma answers (table, .testLen) =
      .ok (table, .returned (-einval)) := by
    rw [mmapStatement, if_pos (by rwa [ready.size])]
  rw [mymmapMmap, complete_next rfl (testSize_passes ready), complete_next rfl refused, mmap_returned]
  rfl

/-- How many statements a call has left at most. -/
def MmapLeft (config : Config) (vma : Vma) : MmapAt → Nat → Prop
  | .testSize, left => left = vma.pages + 3
  | .testLen, left => left = vma.pages + 2
  | .remap i, left => vma.len ≤ config.size ∧
      ∃ page ≤ vma.pages, i = toInt (page * pageSize) ∧ left = vma.pages - page + 1
  | .returned _, _ => True

/-- A call on a published device returns, whatever `remap_pfn_range` answers. -/
theorem mymmapMmap_total (ready : Ready kernel area) (vma : Vma) (answers : RemapAnswers)
    (table : PageTable) : ∃ result, mymmapMmap kernel vma answers table = .ok result := by
  obtain ⟨⟨⟨after, reached⟩, ret⟩, ran⟩ : ∃ result, complete (mmapStatement kernel vma answers)
      (fun state => state.2.ret) (vma.pages + 4) (table, .testSize) = .ok result := by
    refine complete_total (fun state left => MmapLeft config vma state.2 left) ?_ rfl
      (Nat.lt_succ_self (vma.pages + 3))
    rintro ⟨table, reached⟩ left inv going
    cases reached with
    | testSize =>
      obtain rfl := inv
      exact ⟨_, _, testSize_passes ready, Nat.lt_succ_self _, rfl⟩
    | testLen =>
      obtain rfl := inv
      by_cases long : vma.len > kernel.size
      · refine ⟨(table, .returned (-einval)), 0, ?_, Nat.succ_pos _, trivial⟩
        rw [mmapStatement, if_pos long]
      · refine ⟨(table, .remap 0), vma.pages + 1, ?_, Nat.lt_succ_self _, ?_⟩
        · rw [mmapStatement, if_neg long]
        · exact ⟨ready.size ▸ Nat.not_lt.mp long, 0, Nat.zero_le _, by rw [Nat.zero_mul]; rfl, rfl⟩
    | remap i =>
      obtain ⟨fits, page, low, rfl, rfl⟩ := inv
      by_cases scattered : config.backend = .vmalloc
      · have index := Vma.index_eq fits low
        by_cases more : page * pageSize < vma.len
        · have more' : page < vma.pages := by
            rw [vma.len_eq] at more
            exact Nat.lt_of_mul_lt_mul_right more
          refine ⟨_, vma.pages - page, ready.remap_vmalloc scattered fits (by rwa [index]),
            Nat.lt_succ_self _, ?_⟩
          show MmapLeft config vma (ite _ _ _) _
          split
          · trivial
          · refine ⟨fits, page + 1, more', ?_, by omega⟩
            rw [index, Nat.add_mul, Nat.one_mul]
        · exact ⟨_, 0, ready.remap_vmalloc_end scattered fits (by rw [index]; omega), Nat.succ_pos _, trivial⟩
      · exact ⟨_, 0, ready.remap_contiguous scattered, Nat.succ_pos _, trivial⟩
    | returned ret => cases going
  exact ⟨(after, ret), by rw [mymmapMmap, ran]; rfl⟩

/-! ## The three backends -/

/-- The pages of a range show the area from its first page on, and nothing else changed. -/
structure Shows (area : Area config) (vma : Vma) (before after : PageTable) : Prop where
  inside : ∀ k < vma.pages, k < config.areaPages ∧ after (vma.firstPage + k) = some (area.frame k)
  outside : ∀ page, page < vma.firstPage ∨ vma.firstPage + vma.pages ≤ page → after page = before page
  bytes : ∀ address, vma.vmStart ≤ address → address < vma.vmEnd →
    after.translate pageSize address = some (area.byte (address - vma.vmStart))

/-- A range within the area shows it, whichever way its frames were found. -/
theorem shows_of_mapTo (within : vma.pages ≤ config.areaPages) :
    Shows area vma table (table.mapTo vma.firstPage vma.pages area.mapped) := by
  rw [PageTable.mapTo_congr fun k low => Area.mapped_eq (Nat.lt_of_lt_of_le low within)]
  refine ⟨fun k low => ⟨Nat.lt_of_lt_of_le low within, PageTable.mapTo_inside low⟩,
    fun page apart => PageTable.mapTo_outside apart, fun address low high => ?_⟩
  exact PageTable.translate_mapTo pageSize_pos vma.startAligned low (vma.vmEnd_eq ▸ high)

/-- A range that fits is mapped from the start of the area. -/
theorem mmap_shows (covers : config.Covers) (ready : Ready kernel area) (vma : Vma)
    (table : PageTable) (fits : vma.len ≤ config.size) : ∃ after,
      mymmapMmap kernel vma remapSucceeds table = .ok (after, 0) ∧ Shows area vma table after :=
  ⟨_, mymmapMmap_fits ready fits, shows_of_mapTo (Nat.le_trans (Vma.pages_le fits) covers)⟩

/-- The area at the bottom of memory. -/
def Area.bottom (config : Config) : Area config where
  frame := id
  apart := fun _ _ _ _ same => same
  contiguous := fun _ k _ => (Nat.zero_add k).symm

/-- A published device that was given this area. -/
def Area.published (area : Area config) : Kernel config where
  memory := fun _ => 0
  region := true
  cdevs := 1
  allocated := [area]
  area := some area
  size := config.size

/-- The longest range that fits, at the bottom of an address space. -/
def Config.wholeArea (config : Config) : Vma where
  vmStart := 0
  vmEnd := config.size
  nonempty := config.size_pos
  below := Nat.lt_trans config.size_lt (by decide)
  startAligned := Nat.dvd_zero pageSize
  endAligned := Nat.dvd_mul_left pageSize config.maxPages

theorem Config.wholeArea_pages (config : Config) : config.wholeArea.pages = config.maxPages :=
  Nat.mul_div_cancel config.maxPages pageSize_pos

/-- **The backends agree.** However the driver was built, a range that fits the device
shows the pages of the area in order, byte for byte and nothing else, and a longer one
is refused; except that `alloc_pages` is asked for sixteen pages and no more. -/
theorem mmap_shows_area_iff (config : Config) :
    (∀ (kernel : Kernel config) (area : Area config), Ready kernel area →
      ∀ (vma : Vma) (table : PageTable),
        (vma.len ≤ config.size → ∃ after,
          mymmapMmap kernel vma remapSucceeds table = .ok (after, 0) ∧ Shows area vma table after) ∧
        (config.size < vma.len → ∀ answers,
          mymmapMmap kernel vma answers table = .ok (table, -einval))) ↔
    (config.backend = .allocPages → config.maxPages ≤ 16) := by
  constructor
  · intro shows backend
    have ready : Ready (Area.bottom config).published (Area.bottom config) := ⟨rfl, rfl⟩
    obtain ⟨after, -, shown⟩ := (shows _ _ ready config.wholeArea fun _ => none).1 (le_refl config.size)
    by_contra more
    -- the seventeenth page lies behind the sixteen of the block
    have behind := (shown.inside 16 (by rw [config.wholeArea_pages]; omega)).1
    simp only [Config.areaPages, backend, allocOrder] at behind
    omega
  · intro bounded kernel area ready vma table
    have covers : config.Covers := by
      unfold Config.Covers
      cases backend : config.backend with
      | kmalloc | vmalloc => simp only [Config.areaPages, backend, le_refl]
      | allocPages =>
        simp only [Config.areaPages, backend]
        exact bounded backend
    exact ⟨mmap_shows covers ready vma table, fun long answers => mymmapMmap_long ready long⟩

theorem seventeen_pos : 0 < 17 := by decide

theorem seventeen_fits : 17 * pageSize < 2 ^ 31 := by decide

/-- The driver with one page more than `alloc_pages` is asked for. -/
def seventeenPages : Config where
  backend := .allocPages
  maxPages := 17
  positive := seventeen_pos
  fits := seventeen_fits

/-- There the last page of a mapping shows the frame behind the area. -/
theorem mmap_exposes_next_frame :
    ∃ after, mymmapMmap (Area.bottom seventeenPages).published seventeenPages.wholeArea remapSucceeds
        (fun _ => none) = .ok (after, 0) ∧
      seventeenPages.wholeArea.len ≤ seventeenPages.size ∧ after 16 = some 16 ∧
      ∀ k < seventeenPages.areaPages, (Area.bottom seventeenPages).frame k ≠ 16 := by
  refine ⟨_, mymmapMmap_fits ⟨rfl, rfl⟩ (le_refl seventeenPages.size), le_refl _, rfl, ?_⟩
  intro k inside
  exact Nat.ne_of_lt inside

end KernelLabs.Mymmap
