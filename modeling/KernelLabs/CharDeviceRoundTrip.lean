import KernelLabs.CharDeviceBounds

/-! What one process writes to the device, however it cuts it up, another reads
back, however it asks for it. Both directions move a position through the
device's size; a call that straddles the end is short, and later ones move
nothing. -/
namespace KernelLabs.CharDevice
open CBytes Errno

/-- What successive writes offer, as one string. -/
def offered (writes : List (UserBuffer × UInt64)) : Bytes :=
  (writes.map fun write => write.1.bytes write.2.toNat).flatten

/-- How much successive reads ask for. -/
def requested (reads : List (UserBuffer × UInt64)) : Nat := (reads.map fun read => read.2.toNat).sum

def writeCalls (fd : Nat) (writes : List (UserBuffer × UInt64)) : List Call :=
  writes.map fun write => .write fd write.1 write.2

def readCalls (fd : Nat) (reads : List (UserBuffer × UInt64)) : List Call :=
  reads.map fun read => .read fd read.1 read.2

/-- No user copy failed. -/
def Copied (replies : List Reply) : Prop := ∀ reply ∈ replies, reply.ret ≠ -efault

/-- Every further call returns 0 and changes nothing. -/
def Exhausted (state : Cdev) (fd : Nat) : Prop :=
  ∀ user size, serve state (.read fd user size) = .ok (state, ⟨0, []⟩) ∧
    serve state (.write fd user size) = .ok (state, ⟨0, []⟩)

/-- The device's buffer. -/
def Cdev.buffer (state : Cdev) (minor : Fin myMaxMinors) : Bytes :=
  (state.devs minor).deviceBuffer.1

/-- The file is open at a position within its device's size. -/
structure OpenAt (state : Cdev) (fd : Nat) (minor : Fin myMaxMinors) (limit pos : Nat) : Prop where
  file : ∃ offset, state.files fd = some ⟨minor, offset⟩ ∧ offset.toNat = pos
  size : (state.devs minor).size.toNat = limit
  fits : limit ≤ bufsiz
  inside : pos ≤ limit

variable {state next : Cdev} {fd : Nat} {minor : Fin myMaxMinors} {limit pos : Nat}
  {myData : MyDeviceData} {user : UserBuffer} {size offset : UInt64}

/-! ## One call -/

section Transfers
variable (inside : offset.toNat ≤ myData.size.toNat) (bounded : myData.size.toNat ≤ bufsiz)
include inside bounded

/-- The number of bytes a transfer within the device's size moves. -/
private theorem length_moved (size : UInt64) :
    (min (myData.size - offset) (min size maxRwCount)).toNat =
      min (myData.size.toNat - offset.toNat) size.toNat := by
  have most : maxRwCount.toNat = 0x7ffff000 := rfl
  unfold bufsiz at bounded
  rw [length_inside _ inside, toNat_min]
  omega

private theorem offset_moved (size : UInt64) :
    (offset + min (myData.size - offset) (min size maxRwCount)).toNat =
      offset.toNat + min (myData.size.toNat - offset.toNat) size.toNat := by
  have moved := length_moved inside bounded size
  unfold bufsiz at bounded
  rw [UInt64.toNat_add, moved]
  omega

theorem myWrite_inside (user : UserBuffer) (size : UInt64) :
    ∃ after moved ret, myWrite myData user (min size maxRwCount) offset = .ok (after, moved, ret) ∧
      after.size = myData.size ∧ moved.toNat ≤ myData.size.toNat ∧
      (user.fault = none → ret ≠ -efault) ∧
      (ret ≠ -efault →
        ret = min (myData.size.toNat - offset.toNat) size.toNat ∧
        moved.toNat = offset.toNat + min (myData.size.toNat - offset.toNat) size.toNat ∧
        after.deviceBuffer.1 = overwrite myData.deviceBuffer.1 offset.toNat
          (user.bytes (min (myData.size.toNat - offset.toNat) size.toNat))) := by
  have moved := length_moved inside bounded size
  have position := offset_moved inside bounded size
  have signed := ssize_length (request_le size) (myData.size - offset)
  by_cases nothing : min (myData.size - offset) (min size maxRwCount) ≤ 0
  · have zero : min (myData.size.toNat - offset.toNat) size.toNat = 0 := by
      rw [← moved]
      exact Nat.le_zero.mp (UInt64.le_iff_toNat_le.mp nothing)
    exact ⟨myData, offset, 0, by rw [myWrite, if_pos nothing]; rfl, rfl, inside, fun _ => by decide,
      fun _ =>
      ⟨by rw [zero]; rfl, by rw [zero]; rfl, by rw [zero]; exact (overwrite_nil _ _).symm⟩⟩
  · obtain ⟨⟨buffer, left⟩, copied⟩ := (copyFromUser_ok_iff myData.deviceBuffer offset.toNat user
      (min (myData.size - offset) (min size maxRwCount)).toNat).mpr (.inr (by rw [moved]; omega))
    by_cases whole : left = 0
    · subst whole
      refine ⟨{ myData with deviceBuffer := buffer }, _, _,
        by rw [myWrite, if_neg nothing, copied]; rfl, rfl, by rw [position]; omega, fun _ => ?_,
        fun _ => ⟨by rw [signed, moved], position, by rw [← moved]; exact copyFromUser_whole copied⟩⟩
      unfold efault
      omega
    · refine ⟨{ myData with deviceBuffer := buffer }, offset, -efault,
        by rw [myWrite, if_neg nothing, copied]; simp [whole], rfl, inside, fun fine => ?_,
        fun fine => absurd rfl fine⟩
      rw [copyFromUser_left copied, reach_of_no_fault fine, Nat.sub_self] at whole
      exact absurd rfl whole

theorem myRead_inside (user : UserBuffer) (size : UInt64) :
    ∃ received moved ret, myRead myData user (min size maxRwCount) offset = .ok (received, moved, ret) ∧
      moved.toNat ≤ myData.size.toNat ∧ (user.fault = none → ret ≠ -efault) ∧
      (ret ≠ -efault →
        ret = min (myData.size.toNat - offset.toNat) size.toNat ∧
        moved.toNat = offset.toNat + min (myData.size.toNat - offset.toNat) size.toNat ∧
        received = (myData.deviceBuffer.1.drop offset.toNat).take
          (min (myData.size.toNat - offset.toNat) size.toNat)) := by
  have moved := length_moved inside bounded size
  have position := offset_moved inside bounded size
  have signed := ssize_length (request_le size) (myData.size - offset)
  by_cases nothing : ssize (min (myData.size - offset) (min size maxRwCount)) ≤ 0
  · have zero : min (myData.size.toNat - offset.toNat) size.toNat = 0 := by omega
    exact ⟨[], offset, 0, by rw [myRead, if_pos nothing]; rfl, inside, fun _ => by decide,
      fun _ =>
      ⟨by rw [zero]; rfl, by rw [zero]; rfl, by rw [zero]; rfl⟩⟩
  · have short := reach_le user (min (myData.size - offset) (min size maxRwCount)).toNat
    obtain ⟨⟨received, left⟩, copied⟩ := (copyToUser_ok_iff myData.deviceBuffer offset.toNat user
      (min (myData.size - offset) (min size maxRwCount)).toNat).mpr (.inr (by omega))
    by_cases whole : left = 0
    · subst whole
      refine ⟨received, _, _, by rw [myRead, if_neg nothing, copied]; rfl,
        by rw [position]; omega, fun _ => ?_,
        fun _ => ⟨by rw [signed, moved], position, by rw [← moved]; exact copyToUser_whole copied⟩⟩
      unfold efault
      omega
    · refine ⟨received, offset, -efault, by rw [myRead, if_neg nothing, copied]; simp [whole], inside,
        fun fine => ?_, fun fine => absurd rfl fine⟩
      rw [copyToUser_left copied, reach_of_no_fault fine, Nat.sub_self] at whole
      exact absurd rfl whole

end Transfers

/-- One `write` from a position within the device's size. -/
theorem serve_write (opened : OpenAt state fd minor limit pos) (user : UserBuffer) (size : UInt64) :
    ∃ next reply moved, serve state (.write fd user size) = .ok (next, reply) ∧
      OpenAt next fd minor limit moved ∧
      (∀ other, other ≠ fd → next.files other = state.files other) ∧
      (user.fault = none → reply.ret ≠ -efault) ∧
      (reply.ret ≠ -efault → reply.ret = min (limit - pos) size.toNat ∧
        moved = pos + min (limit - pos) size.toNat ∧
        next.buffer minor = overwrite (state.buffer minor) pos ((user.bytes size.toNat).take (limit - pos))) := by
  obtain ⟨⟨offset, found, rfl⟩, rfl, fits, inside⟩ := opened
  obtain ⟨after, moved, ret, ran, same, near, fine, exactly⟩ := myWrite_inside inside fits user size
  refine ⟨(state.setDevice minor after).setFile fd (some ⟨minor, moved⟩), ⟨ret, []⟩, moved.toNat, ?_,
    ⟨⟨moved, ?_, rfl⟩, ?_, fits, near⟩, ?_, fine, ?_⟩
  · simp only [serve, onFile, found, vfsWrite, ran, ok_bind]
    rfl
  · simp
  · simp [same]
  · intro other different
    simp [different]
  · intro copied
    rw [← bytes_min]
    simpa [Cdev.buffer] using exactly copied

/-- One `read` from a position within the device's size. -/
theorem serve_read (opened : OpenAt state fd minor limit pos) (user : UserBuffer) (size : UInt64) :
    ∃ next reply moved, serve state (.read fd user size) = .ok (next, reply) ∧
      OpenAt next fd minor limit moved ∧ next.devs = state.devs ∧
      (user.fault = none → reply.ret ≠ -efault) ∧
      (reply.ret ≠ -efault → reply.ret = min (limit - pos) size.toNat ∧
        moved = pos + min (limit - pos) size.toNat ∧
        reply.received = ((state.buffer minor).drop pos).take (min (limit - pos) size.toNat)) := by
  obtain ⟨⟨offset, found, rfl⟩, rfl, fits, inside⟩ := opened
  obtain ⟨received, moved, ret, ran, near, fine, exactly⟩ := myRead_inside inside fits user size
  refine ⟨state.setFile fd (some ⟨minor, moved⟩), ⟨ret, received⟩, moved.toNat, ?_,
    ⟨⟨moved, ?_, rfl⟩, ?_, fits, near⟩, ?_, fine, exactly⟩
  · simp only [serve, onFile, found, vfsRead, ran, ok_bind]
    rfl
  · simp
  · rfl
  · rfl

/-- At the end of the device nothing moves any more. -/
theorem exhausted_at_end (opened : OpenAt state fd minor limit pos) (atEnd : limit = pos) :
    Exhausted state fd := by
  obtain ⟨⟨offset, found, here⟩, size, -, -⟩ := opened
  intro user count
  have same : (state.devs minor).size = offset := UInt64.toNat_inj.mp (by omega)
  have zero : min (offset - offset) (min count maxRwCount) = 0 := by
    rw [← UInt64.toNat_inj, toNat_min, UInt64.sub_self]
    exact Nat.zero_min _
  have kept : state.setFile fd (some ⟨minor, offset⟩) = state := by
    rw [← found, Cdev.setFile_self]
  constructor
  · have nothing : myRead (state.devs minor) user (min count maxRwCount) offset =
        .ok ([], offset, 0) := by
      rw [myRead, same, zero]
      rfl
    simp only [serve, onFile, found, vfsRead, nothing, ok_bind, pure_eq_ok, kept]
  · have nothing : myWrite (state.devs minor) user (min count maxRwCount) offset =
        .ok (state.devs minor, offset, 0) := by
      rw [myWrite, same, zero]
      rfl
    simp only [serve, onFile, found, vfsWrite, nothing, ok_bind, pure_eq_ok, Cdev.setDevice_self, kept]

/-! ## Successive calls -/

/-- However they are cut, writes store the string they make up, as far as the
device's size goes. -/
theorem serve_writes (writes : List (UserBuffer × UInt64)) (opened : OpenAt state fd minor limit pos) :
    ∃ final replies last, answers serve state (writeCalls fd writes) = .ok (final, replies) ∧
      OpenAt final fd minor limit last ∧
      (∀ other, other ≠ fd → final.files other = state.files other) ∧
      ((∀ write ∈ writes, write.1.fault = none) → Copied replies) ∧
      (Copied replies →
        (replies.map Reply.ret).sum = min (limit - pos) (offered writes).length ∧
        last = pos + min (limit - pos) (offered writes).length ∧
        final.buffer minor =
          overwrite (state.buffer minor) pos ((offered writes).take (limit - pos))) := by
  induction writes generalizing state pos with
  | nil => exact ⟨state, [], pos, rfl, opened, fun _ _ => rfl, fun _ => nofun, fun _ => by simp [offered]⟩
  | cons write writes ih =>
    obtain ⟨user, size⟩ := write
    obtain ⟨next, reply, moved, ran, still, others, fine, exactly⟩ := serve_write opened user size
    obtain ⟨final, replies, last, rest, done, others', fine', exactly'⟩ := ih still
    refine ⟨final, reply :: replies, last, ?_, done, ?_, fun clear => ?_, fun copied => ?_⟩
    · simp only [writeCalls, List.map_cons, answers, ran, ok_bind]
      simp only [writeCalls] at rest
      rw [rest]
      rfl
    · exact fun other different => (others' other different).trans (others other different)
    · exact List.forall_mem_cons.mpr ⟨fine (clear (user, size) (by simp)),
        fine' fun write member => clear write (List.mem_cons_of_mem _ member)⟩
    · obtain ⟨returned, rfl, written⟩ := exactly (copied reply (by simp))
      obtain ⟨returned', rfl, written'⟩ :=
        exactly' fun reply member => copied reply (List.mem_cons_of_mem _ member)
      have length : (offered ((user, size) :: writes)).length =
          size.toNat + (offered writes).length := by
        simp [offered]
      have inside := opened.inside
      refine ⟨?_, by omega, ?_⟩
      · simp only [List.map_cons, List.sum_cons, returned, returned', length]
        omega
      · have room : pos ≤ (state.buffer minor).length := by
          have := (state.devs minor).deviceBuffer.2
          have := opened.fits
          unfold Cdev.buffer
          omega
        have stored : ((user.bytes size.toNat).take (limit - pos)).length =
            min (limit - pos) size.toNat := by simp
        have joined := overwrite_overwrite ((user.bytes size.toNat).take (limit - pos))
          ((offered writes).take (limit - pos - size.toNat)) room
        rw [stored] at joined
        rw [written', written, show limit - (pos + min (limit - pos) size.toNat) =
          limit - pos - size.toNat by omega, joined]
        simp [offered, List.take_append]

/-- However they are cut, reads return what is at the position, as far as the
device's size goes. -/
theorem serve_reads (reads : List (UserBuffer × UInt64)) (opened : OpenAt state fd minor limit pos) :
    ∃ final replies last, answers serve state (readCalls fd reads) = .ok (final, replies) ∧
      OpenAt final fd minor limit last ∧ final.devs = state.devs ∧
      ((∀ read ∈ reads, read.1.fault = none) → Copied replies) ∧
      (Copied replies →
        (replies.map Reply.ret).sum = min (limit - pos) (requested reads) ∧
        last = pos + min (limit - pos) (requested reads) ∧
        (replies.map Reply.received).flatten =
          ((state.buffer minor).drop pos).take (min (limit - pos) (requested reads))) := by
  induction reads generalizing state pos with
  | nil => exact ⟨state, [], pos, rfl, opened, rfl, fun _ => nofun, fun _ => by simp [requested]⟩
  | cons read reads ih =>
    obtain ⟨user, size⟩ := read
    obtain ⟨next, reply, moved, ran, still, same, fine, exactly⟩ := serve_read opened user size
    obtain ⟨final, replies, last, rest, done, same', fine', exactly'⟩ := ih still
    refine ⟨final, reply :: replies, last, ?_, done, same'.trans same, fun clear => ?_, fun copied => ?_⟩
    · simp only [readCalls, List.map_cons, answers, ran, ok_bind]
      simp only [readCalls] at rest
      rw [rest]
      rfl
    · exact List.forall_mem_cons.mpr ⟨fine (clear (user, size) (by simp)),
        fine' fun read member => clear read (List.mem_cons_of_mem _ member)⟩
    · obtain ⟨returned, rfl, received⟩ := exactly (copied reply (by simp))
      obtain ⟨returned', rfl, received'⟩ :=
        exactly' fun reply member => copied reply (List.mem_cons_of_mem _ member)
      have total : requested ((user, size) :: reads) = size.toNat + requested reads := by
        simp [requested]
      have inside := opened.inside
      have split : min (limit - pos) (size.toNat + requested reads) =
          min (limit - pos) size.toNat +
            min (limit - (pos + min (limit - pos) size.toNat)) (requested reads) := by omega
      rw [total, split]
      refine ⟨?_, by omega, ?_⟩
      · simp only [List.map_cons, List.sum_cons, returned, returned']
        omega
      · simp only [List.map_cons, List.flatten_cons, received, received', Cdev.buffer, same]
        rw [List.take_add, List.drop_drop]

/-! ## The round trip -/

theorem serve_openFile (free : state.files fd = none) (idle : (state.devs minor).access = 0)
    (bounded : (state.devs minor).size.toNat ≤ bufsiz) :
    ∃ next, serve state (.openFile fd minor) = .ok (next, ⟨0, []⟩) ∧
      OpenAt next fd minor (state.devs minor).size.toNat 0 ∧
      next.buffer minor = state.buffer minor ∧
      ∀ other, other ≠ fd → next.files other = state.files other := by
  let myData : MyDeviceData := { state.devs minor with access := 1 }
  have opens : myOpen (state.devs minor) = (myData, 0) := by
    simp [myOpen, atomicCmpxchg, idle, myData]
  refine ⟨(state.setDevice minor myData).setFile fd (some ⟨minor, 0⟩),
    by simp [serve, free, opens], ⟨⟨0, by simp, rfl⟩, by simp [myData], bounded, Nat.zero_le _⟩,
    by simp [Cdev.buffer, myData], fun other different => by simp [different]⟩

theorem serve_closeFile (opened : OpenAt state fd minor limit pos) :
    ∃ next, serve state (.closeFile fd) = .ok (next, ⟨0, []⟩) ∧ next.files fd = none ∧
      (next.devs minor).access = 0 ∧ (next.devs minor).size = (state.devs minor).size ∧
      next.buffer minor = state.buffer minor ∧
      ∀ other, other ≠ fd → next.files other = state.files other := by
  obtain ⟨⟨offset, found, -⟩, -, -, -⟩ := opened
  refine ⟨(state.setDevice minor (myRelease (state.devs minor))).setFile fd none,
    by simp [serve, onFile, found], by simp, by simp [myRelease], by simp [myRelease],
    by simp [Cdev.buffer, myRelease], fun other different => by simp [different]⟩

/-- **Round trip.** A string written in any pieces through a fresh file is stored
as far as the device's size goes, over the old bytes; through the next file, reads
of any sizes return the buffer from its start, as far as the device's size goes;
and once a file has come to the end, nothing moves any more. -/
theorem write_read_round_trip (fd' : Nat) (writes reads : List (UserBuffer × UInt64))
    (bounded : (state.devs minor).size.toNat ≤ bufsiz) (idle : (state.devs minor).access = 0)
    (free : state.files fd = none) (free' : state.files fd' = none) :
    ∃ middle wrote final got,
      answers serve state (.openFile fd minor :: writeCalls fd writes) =
        .ok (middle, ⟨0, []⟩ :: wrote) ∧
      answers serve middle (.closeFile fd :: .openFile fd' minor :: readCalls fd' reads) =
        .ok (final, ⟨0, []⟩ :: ⟨0, []⟩ :: got) ∧
      ((∀ write ∈ writes, write.1.fault = none) → Copied wrote) ∧
      ((∀ read ∈ reads, read.1.fault = none) → Copied got) ∧
      (Copied wrote →
        (wrote.map Reply.ret).sum = min (offered writes).length (state.devs minor).size.toNat ∧
        middle.buffer minor =
          (offered writes).take (min (offered writes).length (state.devs minor).size.toNat) ++
            (state.buffer minor).drop
              (min (offered writes).length (state.devs minor).size.toNat) ∧
        ((state.devs minor).size.toNat ≤ (offered writes).length → Exhausted middle fd)) ∧
      (Copied got →
        (got.map Reply.ret).sum = min (requested reads) (state.devs minor).size.toNat ∧
        (got.map Reply.received).flatten =
          (middle.buffer minor).take (min (requested reads) (state.devs minor).size.toNat) ∧
        ((state.devs minor).size.toNat ≤ requested reads → Exhausted final fd')) := by
  obtain ⟨first, opened, openAt, kept, others⟩ := serve_openFile free idle bounded
  obtain ⟨middle, wrote, last, ran, openAt', others', fine, exactly⟩ := serve_writes writes openAt
  obtain ⟨closed, released, gone, idle', size, kept', others''⟩ := serve_closeFile openAt'
  have same : (closed.devs minor).size.toNat = (state.devs minor).size.toNat := by
    rw [size, openAt'.size]
  have free'' : closed.files fd' = none := by
    by_cases again : fd' = fd
    · rw [again, gone]
    · rw [others'' fd' again, others' fd' again, others fd' again, free']
  obtain ⟨second, reopened, openAt'', kept'', -⟩ := serve_openFile free'' idle'
    (by rw [same]; exact bounded)
  rw [same] at openAt''
  obtain ⟨final, got, last', ran', atLast, -, fine', exactly'⟩ := serve_reads reads openAt''
  refine ⟨middle, wrote, final, got, ?_, ?_, fine, fine', fun copied => ?_, fun copied => ?_⟩
  · simp only [answers, opened, ran, ok_bind, pure_eq_ok]
  · simp only [answers, released, reopened, ran', ok_bind, pure_eq_ok]
  · obtain ⟨sum, rfl, stored⟩ := exactly copied
    rw [Nat.sub_zero, Nat.min_comm] at sum
    refine ⟨sum, ?_, fun whole => exhausted_at_end openAt' (by omega)⟩
    have cut : (offered writes).take (state.devs minor).size.toNat =
        (offered writes).take (min (offered writes).length (state.devs minor).size.toNat) := by
      rw [Nat.min_comm]
      exact List.take_eq_take_min
    rw [stored, kept, overwrite, Nat.sub_zero, List.take_zero, List.nil_append, Nat.zero_add,
      List.length_take, Nat.min_comm, cut]
  · obtain ⟨sum, rfl, received⟩ := exactly' copied
    rw [Nat.sub_zero, Nat.min_comm] at sum
    refine ⟨sum, ?_, fun whole => exhausted_at_end atLast (by omega)⟩
    rw [received, kept'', kept', List.drop_zero, Nat.sub_zero, Nat.min_comm]

/-- User memory that holds a text and is accessible throughout. -/
def holding (text : Bytes) : UserBuffer := ⟨fun i => text.getD i 0, none⟩

/-- `Hello`, written in two pieces and read back in two others. -/
theorem write_read_round_trip_hello :
    ∃ middle wrote final got,
      answers serve loaded (.openFile 3 0 ::
          writeCalls 3 [(holding [0x48, 0x65], 2), (holding [0x6c, 0x6c, 0x6f], 3)]) =
        .ok (middle, ⟨0, []⟩ :: wrote) ∧
      answers serve middle (.closeFile 3 :: .openFile 3 0 ::
          readCalls 3 [(holding [], 1), (holding [], 4)]) =
        .ok (final, ⟨0, []⟩ :: ⟨0, []⟩ :: got) ∧
      (wrote.map Reply.ret).sum = 5 ∧
      (got.map Reply.received).flatten = [0x48, 0x65, 0x6c, 0x6c, 0x6f] := by
  obtain ⟨middle, wrote, final, got, ran, ran', fine, fine', stored, received⟩ :=
    write_read_round_trip 3 [(holding [0x48, 0x65], 2), (holding [0x6c, 0x6c, 0x6f], 3)]
      [(holding [], 1), (holding [], 4)] (show (loaded.devs 0).size.toNat ≤ bufsiz by decide) rfl
      (show loaded.files 3 = none from rfl) rfl
  obtain ⟨sum, buffer, -⟩ := stored (fine (by simp [holding]))
  obtain ⟨-, bytes, -⟩ := received (fine' (by simp [holding]))
  have text : offered [(holding [0x48, 0x65], 2), (holding [0x6c, 0x6c, 0x6f], 3)] =
      [0x48, 0x65, 0x6c, 0x6c, 0x6f] := by decide
  have device : (loaded.devs 0).size.toNat = 4096 := rfl
  rw [text, device] at sum buffer
  rw [buffer, device] at bytes
  exact ⟨middle, wrote, final, got, ran, ran', sum, bytes⟩

end KernelLabs.CharDevice
