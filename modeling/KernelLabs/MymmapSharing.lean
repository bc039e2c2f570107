import KernelLabs.MymmapRead
import KernelLabs.SharedPages

/-! What processes make of the mapped area: one array of bytes that they share. Neither
the frames behind the area nor the allocator they come from can be told from what is
loaded, and what processes store stays inside. -/
namespace KernelLabs.Mymmap
open CBytes SharedPages

variable {config : Config} {ι : Type} {area : Area config} {memory : Memory}
  {session : Session config ι} {array : SharedArray ι} {kernel : Kernel config} {outcomes : Outcomes config}

/-- What an action of a process is to an array of as many pages. -/
def Config.access (config : Config) : UserAction ι → Access ι
  | .mmap process vma => if vma.len ≤ config.size then .map process vma.firstPage vma.pages else .refused
  | .load process address => .load process address
  | .store process address value => .store process address value

/-- The area holds the array, each window shows the area where it shows the array, and
memory outside the area is as it was. -/
structure Refines (area : Area config) (memory : Memory) (session : Session config ι) (array : SharedArray ι) :
    Prop where
  ready : Ready session.kernel area
  tables : ∀ process page, session.tables process page = (array.window process page).map area.frame
  within : ∀ process page k, array.window process page = some k → k < config.maxPages
  bytes : ∀ offset < config.size, session.kernel.memory (area.byte offset) = array.bytes offset
  outside : ∀ address, (∀ offset < config.size, area.byte offset ≠ address) →
    session.kernel.memory address = memory address

theorem page_of_offset {offset : Nat} (low : offset < config.size) : offset / pageSize < config.maxPages :=
  Nat.div_lt_of_lt_mul (Nat.mul_comm config.maxPages pageSize ▸ low)

/-- Different bytes of the area are at different addresses. -/
theorem byte_injective (covers : config.Covers) {offset other : Nat} (low : offset < config.size)
    (low' : other < config.size) (same : area.byte offset = area.byte other) : offset = other := by
  have pages : offset / pageSize = other / pageSize := by
    refine area.apart _ (Nat.lt_of_lt_of_le (page_of_offset low) covers) _
      (Nat.lt_of_lt_of_le (page_of_offset low') covers) ?_
    have left : area.byte offset / pageSize = area.frame (offset / pageSize) := Area.byte_div offset
    have right : area.byte other / pageSize = area.frame (other / pageSize) := Area.byte_div other
    rw [← left, same, right]
  have left : area.byte offset % pageSize = offset % pageSize := Area.byte_mod offset
  have right : area.byte other % pageSize = other % pageSize := Area.byte_mod other
  have rests : offset % pageSize = other % pageSize := by rw [← left, same, right]
  rw [← Nat.div_add_mod' offset pageSize, ← Nat.div_add_mod' other pageSize, pages, rests]

/-- An address stands for the byte of the area that its place in the array does. -/
theorem Refines.translate (refines : Refines area memory session array) (process : ι) (address : Nat) :
    (session.tables process).translate pageSize address =
      ((array.window process).translate pageSize address).map area.byte := by
  rw [PageTable.translate, PageTable.translate, refines.tables, Option.map_map, Option.map_map]
  refine congrArg (Option.map · _) (funext fun page => ?_)
  exact (Area.byte_of_page (Nat.mod_lt address pageSize_pos)).symm

theorem Refines.place (refines : Refines area memory session array) {process : ι} {address place : Nat}
    (translated : (array.window process).translate pageSize address = some place) : place < config.size := by
  obtain ⟨page, entry, rfl⟩ := Option.map_eq_some_iff.mp translated
  have low := refines.within process _ page entry
  have rest := Nat.mod_lt address pageSize_pos
  have room := Nat.mul_le_mul_right pageSize (Nat.succ_le_of_lt low)
  rw [Nat.succ_mul] at room
  unfold Config.size
  omega

section Actions
variable [DecidableEq ι]

/-- Each action is an access of the array. -/
theorem act_refines (covers : config.Covers) (refines : Refines area memory session array)
    (action : UserAction ι) : ∃ next,
      session.act action = .ok (next, (array.access pageSize (config.access action)).2) ∧
        Refines area memory next (array.access pageSize (config.access action)).1 := by
  cases action with
  | mmap process vma =>
    by_cases fits : vma.len ≤ config.size
    · have pages := Vma.pages_le fits
      let tables := Function.update session.tables process
        ((session.tables process).mapTo vma.firstPage vma.pages area.mapped)
      refine ⟨{ session with tables := tables }, ?_, refines.ready, fun other page => ?_,
        fun other page k entry => ?_, ?_, refines.outside⟩
      · rw [Session.act, mymmapMmap_fits refines.ready fits]
        simp only [Config.access, if_pos fits, SharedArray.access]
        rfl
      · simp only [Config.access, if_pos fits, SharedArray.access]
        by_cases here : other = process
        · subst here
          simp only [tables, Function.update_self, PageTable.mapTo]
          split
          · have low : page - vma.firstPage < config.areaPages := Nat.lt_of_lt_of_le (by omega) covers
            simp [Area.mapped_eq low]
          · exact refines.tables other page
        · simp only [tables, Function.update_of_ne here]
          exact refines.tables other page
      · simp only [Config.access, if_pos fits, SharedArray.access] at entry
        by_cases here : other = process
        · subst here
          simp only [Function.update_self, PageTable.mapTo] at entry
          split at entry
          · cases entry
            exact Nat.lt_of_lt_of_le (by simp only [id]; omega) pages
          · exact refines.within other page k entry
        · simp only [Function.update_of_ne here] at entry
          exact refines.within other page k entry
      · simp only [Config.access, if_pos fits, SharedArray.access]
        exact refines.bytes
    · refine ⟨session, ?_, by simpa only [Config.access, if_neg fits, SharedArray.access] using refines⟩
      rw [Session.act, mymmapMmap_long refines.ready (Nat.not_le.mp fits)]
      simp only [Config.access, if_neg fits, SharedArray.access, ok_bind, pure_eq_ok, Function.update_eq_self]
  | load process address =>
    refine ⟨session, ?_, refines⟩
    simp only [Session.act, Config.access, SharedArray.access, refines.translate]
    cases translated : (array.window process).translate pageSize address with
    | none => rfl
    | some place => simp [refines.bytes place (refines.place translated)]
  | store process address value =>
    simp only [Session.act, Config.access, SharedArray.access, refines.translate]
    cases translated : (array.window process).translate pageSize address with
    | none => exact ⟨session, rfl, refines⟩
    | some place =>
      have low := refines.place translated
      refine ⟨_, rfl, ⟨refines.ready.area, refines.ready.size⟩, refines.tables, refines.within,
        fun offset inside => ?_, fun other apart => ?_⟩
      · by_cases same : offset = place
        · simp [same]
        · have differ : area.byte offset ≠ area.byte place := fun equal => same (byte_injective covers inside low equal)
          simp only [Function.update_of_ne differ, Function.update_of_ne same]
          exact refines.bytes offset inside
      · have differ : other ≠ area.byte place := Ne.symm (apart place low)
        simp only [Function.update_of_ne differ]
        exact refines.outside other apart

/-- So is a sequence of them. -/
theorem run_refines (covers : config.Covers) (actions : List (UserAction ι))
    (refines : Refines area memory session array) : ∃ next,
      run (settle Session.act) session actions = .ok next ∧
        Refines area memory next (array.after pageSize (actions.map config.access)) := by
  induction actions generalizing session array with
  | nil => exact ⟨session, rfl, refines⟩
  | cons action actions ih =>
    obtain ⟨middle, acted, refined⟩ := act_refines covers refines action
    obtain ⟨next, ran, done⟩ := ih refined
    refine ⟨next, ?_, done⟩
    simp only [run_cons, settle, acted, ok_bind, pure_eq_ok]
    exact ran

end Actions

/-- The array as a load of the driver leaves it: the marks, and what the allocator left. -/
def Area.contents (area : Area config) (memory : Memory) : Nat → UInt8 := fun offset =>
  if offset % pageSize < 4 then mark (offset % pageSize) else memory (area.byte offset)

theorem start_refines (found : outcomes.area = some area) :
    Refines area kernel.memory (Session.start (ι := ι) (kernel.loaded outcomes area))
      (SharedArray.start (area.contents kernel.memory)) := by
  refine ⟨loaded_ready found, fun process page => rfl, fun process page k entry => ?_, fun offset low => ?_,
    fun address apart => ?_⟩
  · cases entry
  · have page : ∃ k < config.maxPages, area.frame k = area.byte offset / pageSize :=
      ⟨_, page_of_offset low, area.byte_div offset |>.symm⟩
    simp only [Session.start, Kernel.loaded, Area.stamped, SharedArray.start, Area.contents, Area.byte_mod, page,
      and_true]
  · simp only [Session.start, Kernel.loaded]
    refine Area.stamped_of_not_mark ?_
    rintro ⟨low, k, inside, frame⟩
    refine apart (k * pageSize + address % pageSize) ?_ ?_
    · have room := Nat.mul_le_mul_right pageSize (Nat.succ_le_of_lt inside)
      have rest := Nat.mod_lt address pageSize_pos
      rw [Nat.succ_mul] at room
      unfold Config.size
      omega
    · rw [Area.byte_of_page (Nat.mod_lt address pageSize_pos), frame, Nat.div_add_mod']

/-- `test_string`. -/
def testString : Bytes := characters "Welcome to mmap() world!"

/-- The places the loop of `test_write_read` writes to, from `mmap_addr` on. -/
def testPlaces (pages : Nat) : List Nat :=
  (List.range pages).flatMap fun page => (List.range testString.length).map fun j => page * pageSize + j

/-- The stores of its `memcpy` calls. -/
def testStores (process : ι) (mmapAddr pages : Nat) : List (UserAction ι) :=
  (testPlaces pages).map fun place => .store process (mmapAddr + place) (testString.getD (place % pageSize) 0)

/-- `test_write_read`, for a mapping of whole pages: what the session becomes, what the
driver prints and what is returned. The buffer of the `read` stays as it was. -/
def testWriteRead [DecidableEq ι] (session : Session config ι) (process : ι) (mmapAddr pages : Nat) :
    Except Fault (Session config ι × Bytes × Int) := do
  let session ← run (settle Session.act) session (testStores process mmapAddr pages)
  let (text, bytesRead) ← mymmapRead session.kernel
  return (session, text, if bytesRead < 0 then -1 else 0)

theorem testString_length : testString.length = 24 := by decide

theorem testString_nonzero {j : Nat} (low : j < 24) : testString.getD j 0 ≠ 0 := by
  revert j
  decide

theorem mem_testPlaces {pages place : Nat} :
    place ∈ testPlaces pages ↔ place / pageSize < pages ∧ place % pageSize < 24 := by
  have small {j : Nat} (low : j < 24) : j < pageSize := Nat.lt_trans low (by decide)
  simp only [testPlaces, List.mem_flatMap, List.mem_map, List.mem_range, testString_length]
  constructor
  · rintro ⟨page, inside, j, low, rfl⟩
    rw [page_div (small low), page_mod (small low)]
    exact ⟨inside, low⟩
  · rintro ⟨inside, low⟩
    exact ⟨_, inside, _, low, Nat.div_add_mod' place pageSize⟩

/-- What the test leaves in the array. -/
theorem test_array [DecidableEq ι] {process : ι} {start pages : Nat}
    (shows : ∀ offset < pages * pageSize, (array.window process).translate pageSize (start + offset) = some offset) :
    ∀ offset < pages * pageSize,
      (array.after pageSize ((testStores process start pages).map config.access)).bytes offset =
        if offset % pageSize < 24 then testString.getD (offset % pageSize) 0 else array.bytes offset := by
  intro offset low
  have inside : offset / pageSize < pages := Nat.div_lt_of_lt_mul (Nat.mul_comm pages pageSize ▸ low)
  have stores : (testStores process start pages).map config.access = (testPlaces pages).map fun place =>
      Access.store process (start + place) (testString.getD (place % pageSize) 0) := by
    rw [testStores, List.map_map]
    rfl
  have reaches : ∀ place ∈ testPlaces pages,
      (array.window process).translate pageSize (start + place) = some place := by
    intro place member
    exact shows place ((Nat.div_lt_iff_lt_mul pageSize_pos).mp (mem_testPlaces.mp member).1)
  rw [stores, (stores_bytes reaches).2 offset]
  simp only [mem_testPlaces, inside, true_and]

/-- A string that is followed by a `NUL` somewhere is printed as far as that. -/
theorem mymmapRead_begins {count : Nat} (whole : config.areaPages * pageSize = config.size)
    (allocated : kernel.area = some area) (clean : ∀ k < count, kernel.memory (area.byte k) ≠ 0)
    (nul : area.HasNul kernel.memory) : ∃ rest, mymmapRead kernel =
      .ok (characters "[mymmap_read] current: " ++ ((List.range count).map fun k => kernel.memory (area.byte k)) ++
        rest ++ [0x0a], 0) := by
  classical
  obtain ⟨inside, ends⟩ := Nat.find_spec nul
  have after : count ≤ Nat.find nul := by
    by_contra before
    exact clean _ (Nat.not_le.mp before) ends
  obtain ⟨more, split⟩ := Nat.exists_eq_add_of_le after
  have stops : area.scan kernel.memory (config.areaPages * pageSize + 1) 0 =
      .ok ((List.range (Nat.find nul)).map fun k => kernel.memory (area.byte (0 + k))) := by
    refine scan_stops (fun k low zero => ?_) (by rwa [Nat.zero_add]) (by omega) (by omega)
    exact Nat.find_min nul low ⟨by omega, by rwa [Nat.zero_add] at zero⟩
  refine ⟨(List.range more).map fun k => kernel.memory (area.byte (count + k)), ?_⟩
  rw [mymmapRead, allocated]
  simp only [stops, ok_bind, pure_eq_ok, Nat.zero_add]
  rw [split, List.range_add, List.map_append, List.map_map]
  simp [Function.comp_def]

/-- `main` of the test program, whose `mmap` asks for the pages of the whole area. -/
def testMain [DecidableEq ι] (session : Session config ι) (process : ι) (vma : Vma) :
    Except Fault (Session config ι × Bytes × Int) := do
  let session ← settle Session.act session (.mmap process vma)
  testWriteRead session process vma.vmStart vma.pages

/-- **What `mmap-test` does.** After any actions of any processes, however the driver was
built, the test's stores leave its string at the start of each page of the area and the
rest of the area as it was. The `read` that follows prints a text that begins with the
string, and the test returns zero, if there is a `NUL` in the area outside the first 24
bytes of its pages; otherwise the `read` runs over the end of the area. -/
theorem test_write_read [DecidableEq ι] (backend : Backend) (kernel : Kernel backend.config)
    (outcomes : Outcomes backend.config) (loaded : Kernel backend.config)
    (ran : mymmapInit kernel outcomes = .ok (loaded, 0)) (actions : List (UserAction ι))
    (reached : Session backend.config ι)
    (acted : run (settle Session.act) (Session.start loaded) actions = .ok reached) (process : ι) (vma : Vma)
    (whole : vma.len = backend.config.size) : ∃ area stored, outcomes.area = some area ∧
    run (settle Session.act) reached (.mmap process vma :: testStores process vma.vmStart vma.pages) =
      .ok stored ∧
    (∀ offset < backend.config.size, stored.kernel.memory (area.byte offset) =
      if offset % pageSize < 24 then testString.getD (offset % pageSize) 0
      else reached.kernel.memory (area.byte offset)) ∧
    ((∃ text rest, testMain reached process vma = .ok (stored, text, 0) ∧
      (∃ offset < backend.config.size, 24 ≤ offset % pageSize ∧ reached.kernel.memory (area.byte offset) = 0) ∧
      text = characters "[mymmap_read] current: " ++ testString ++ rest ++ [0x0a]) ∨
    (testMain reached process vma = .error .outOfBounds ∧
      ¬ ∃ offset < backend.config.size, 24 ≤ offset % pageSize ∧ reached.kernel.memory (area.byte offset) = 0)) := by
  have covers := backend.config_covers
  rcases mymmapInit_cases covers kernel outcomes with ⟨-, err, negative, same⟩ | ⟨-, -, -, same⟩ |
    ⟨area, -, -, found, same⟩
  · rw [same] at ran
    cases ran
    cases negative
  · rw [same] at ran
    cases ran
  rw [same] at ran
  cases ran
  have start : Refines area kernel.memory (Session.start (ι := ι) (kernel.loaded outcomes area)) _ :=
    start_refines found
  obtain ⟨array, before⟩ : ∃ array, Refines area kernel.memory reached array := by
    obtain ⟨reached', ran', refines⟩ := run_refines covers actions start
    cases acted.symm.trans ran'
    exact ⟨_, refines⟩
  obtain ⟨mapped, mmapped, maps⟩ := act_refines covers before (.mmap process vma)
  have fits : vma.len ≤ backend.config.size := Nat.le_of_eq whole
  have pages : vma.pages * pageSize = backend.config.size := vma.len_eq.symm.trans whole
  have windows : (array.access pageSize (backend.config.access (.mmap process vma))).1.bytes = array.bytes := by
    simp only [Config.access, if_pos fits, SharedArray.access]
  have shows : ∀ offset < vma.pages * pageSize,
      (((array.access pageSize (backend.config.access (.mmap process vma))).1.window process).translate pageSize
        (vma.vmStart + offset)) = some offset := by
    intro offset low
    simp only [Config.access, if_pos fits, SharedArray.access, Function.update_self]
    rw [Vma.firstPage, PageTable.translate_mapTo pageSize_pos vma.startAligned (Nat.le_add_right _ _)
      (Nat.add_lt_add_left low _), Nat.add_sub_cancel_left, id, Nat.div_add_mod']
  obtain ⟨after, stored, holds⟩ := run_refines covers (testStores process vma.vmStart vma.pages) maps
  have contents : ∀ offset < backend.config.size, after.kernel.memory (area.byte offset) =
      if offset % pageSize < 24 then testString.getD (offset % pageSize) 0
      else reached.kernel.memory (area.byte offset) := by
    intro offset low
    rw [holds.bytes offset low, test_array shows offset (by rw [pages]; exact low), windows, before.bytes offset low]
  have nul_iff : area.HasNul after.kernel.memory ↔
      ∃ offset < backend.config.size, 24 ≤ offset % pageSize ∧ reached.kernel.memory (area.byte offset) = 0 := by
    refine exists_congr fun offset => and_congr_right fun low => ?_
    rw [contents offset low]
    by_cases small : offset % pageSize < 24
    · rw [if_pos small]
      exact iff_of_false (testString_nonzero small) fun other => absurd small (Nat.not_lt.mpr other.1)
    · rw [if_neg small]
      exact (and_iff_right (Nat.not_lt.mp small)).symm
  have begins : ∀ k < 24, after.kernel.memory (area.byte k) = testString.getD k 0 := by
    intro k low
    have small : k < pageSize := Nat.lt_trans low (by decide)
    have first : k < backend.config.size := Nat.lt_of_lt_of_le small
      (Nat.le_mul_of_pos_left pageSize backend.config.positive)
    rw [contents k first, Nat.mod_eq_of_lt small, if_pos low]
  have program : testMain reached process vma = do
      let (text, bytesRead) ← mymmapRead after.kernel
      return (after, text, if bytesRead < 0 then -1 else 0) := by
    simp only [testMain, testWriteRead, settle, mmapped, stored, ok_bind, pure_eq_ok]
  refine ⟨area, after, found, by simp only [run_cons, settle, mmapped, ok_bind, pure_eq_ok]; exact stored,
    contents, ?_⟩
  rw [program]
  by_cases nul : area.HasNul after.kernel.memory
  · obtain ⟨rest, printed⟩ := mymmapRead_begins backend.config_whole holds.ready.area
      (fun k low => by rw [begins k low]; exact testString_nonzero low) nul
    have text : ((List.range 24).map fun k => after.kernel.memory (area.byte k)) = testString := by
      rw [List.map_congr_left fun k member => begins k (List.mem_range.mp member)]
      decide
    rw [text] at printed
    exact .inl ⟨_, rest, by rw [printed]; rfl, nul_iff.mp nul, rfl⟩
  · rcases mymmapRead_cases backend.config_whole holds.ready.area with ⟨has, -⟩ | ⟨-, leaves⟩
    · exact absurd has nul
    · rw [leaves]
      exact .inr ⟨rfl, mt nul_iff.mpr nul⟩

/-- Another process maps the area and stores a `NUL`. -/
def terminated : List (UserAction Bool) :=
  [.mmap true Backend.kmalloc.config.wholeArea, .store true (Backend.kmalloc.config.wholeArea.vmStart + 30) 0]

/-- The test, on an area that has no other `NUL`. -/
theorem test_write_read_terminated : ∃ loaded reached after text,
    mymmapInit (.beforeLoad fun _ => 1) (.allSucceed (.bottom Backend.kmalloc.config)) = .ok (loaded, 0) ∧
    run (settle Session.act) (Session.start loaded) terminated = .ok reached ∧
    testMain reached false Backend.kmalloc.config.wholeArea = .ok (after, text, 0) := by
  let kernel : Kernel Backend.kmalloc.config := .beforeLoad fun _ => 1
  let outcomes : Outcomes Backend.kmalloc.config := .allSucceed (.bottom _)
  have ran : mymmapInit kernel outcomes = .ok (_, 0) :=
    mymmapInit_with_area Backend.kmalloc.config_covers rfl rfl rfl
  obtain ⟨reached, acted, refines⟩ := run_refines Backend.kmalloc.config_covers terminated
    (start_refines (show outcomes.area = some _ from rfl))
  obtain ⟨area, stored, found, -, -, tested⟩ := test_write_read Backend.kmalloc kernel outcomes _ ran terminated
    reached acted false Backend.kmalloc.config.wholeArea rfl
  cases found
  rcases tested with ⟨text, rest, printed, -⟩ | ⟨-, none_left⟩
  · exact ⟨_, reached, stored, text, ran, acted, printed⟩
  · refine absurd ⟨30, by decide, by decide, ?_⟩ none_left
    rw [refines.bytes 30 (by decide)]
    decide +kernel

end KernelLabs.Mymmap
