import KernelLabs.NameListWrite

/-! What `list_write` tells its caller. It calls the helper of the command and drops what
the helper returns, so a command that failed is reported like one that took effect. -/
namespace KernelLabs.NameList
open CBytes LinuxList Errno

variable {heap : Heap NameArray} {entries : List (Ptr × Bytes)} {call : WriteCall}

/-- What a successful command does to the names. -/
def Inst.TookEffect (inst : Inst) (name : Bytes) (before after : List Bytes) : Prop :=
  match inst with
  | .addf => after = name :: before
  | .adde => after = before ++ [name]
  | .delf => name ∈ before ∧ after = before.erase name
  | .dela => after = before.filter (· ≠ name)

/-- The command can be carried out: an entry that is added gets its memory, and a name
whose first occurrence is deleted is there. -/
def Inst.Possible (inst : Inst) (allocated : Bool) (name : Bytes) (names : List Bytes) : Prop :=
  match inst with
  | .addf | .adde => allocated = true
  | .delf => name ∈ names
  | .dela => True

/-- A call that returns no error has changed the list as its command says, and a call
whose helper returns an error returns one. -/
def ReportsTruly (heap : Heap NameArray) (entries : List (Ptr × Bytes)) (call : WriteCall) : Prop :=
  ∃ after ret entries', listWrite heap call = .ok (after, ret) ∧ Represents after entries' ∧
    (0 ≤ ret → ∃ inst, call.Copied ∧ call.Accepted inst ∧
      inst.TookEffect call.argument (entries.map Prod.snd) (entries'.map Prod.snd)) ∧
    ∀ inst (name : CharArray (nameMaxSize + 1)) helped err, call.Copied → call.Accepted inst →
      0 ∈ name.1 → cString name.1 = call.argument →
      inst.helper heap call.memory name = .ok (helped, err) → err < 0 → ret < 0

/-- A helper fails exactly where its command cannot be carried out. -/
theorem helperResult_nonneg_iff (inst : Inst) (allocated : Bool) (name : Bytes) (names : List Bytes) :
    0 ≤ inst.helperResult allocated name names ↔ inst.Possible allocated name names := by
  cases inst with
  | addf | adde =>
    cases allocated with
    | true => exact iff_of_true (Int.le_refl 0) rfl
    | false => exact iff_of_false (Int.not_le.mpr neg_enomem) Bool.false_ne_true
  | delf =>
    by_cases member : name ∈ names
    · simp [Inst.helperResult, Inst.Possible, member]
    · simp [Inst.helperResult, Inst.Possible, member]
  | dela => exact iff_of_true (Int.le_refl 0) trivial

/-- What can be carried out takes effect. -/
theorem tookEffect_of_possible {inst : Inst} {allocated : Bool} {name : Bytes} {names : List Bytes}
    (possible : inst.Possible allocated name names) :
    inst.TookEffect name names (inst.onNames allocated name names) := by
  cases inst with
  | addf | adde =>
    obtain rfl := possible
    rfl
  | delf => exact ⟨possible, rfl⟩
  | dela => rfl

/-- What a call that tells the truth was asked to do can be done. -/
theorem ReportsTruly.possible {inst : Inst} (truly : ReportsTruly heap entries call)
    (held : Represents heap entries) (copied : call.Copied) (accepted : call.Accepted inst) :
    inst.Possible call.memory.isSome call.argument (entries.map Prod.snd) := by
  obtain ⟨after, ret, entries', ran, -, -, errors⟩ := truly
  obtain ⟨name, after, ends, spelled, helper, written, -⟩ := listWrite_accepted held copied accepted
  rw [ran] at written
  cases written
  rw [← helperResult_nonneg_iff]
  by_contra failed
  have refused := errors inst name after _ copied accepted ends spelled helper (Int.not_le.mp failed)
  omega

/-- **Reports.** On every list, `list_write` tells the truth about a call exactly when the
command of the call, if it is accepted, can be carried out. -/
theorem reports_truly_iff (held : Represents heap entries) (call : WriteCall) :
    ReportsTruly heap entries call ↔ ∀ inst, call.Copied → call.Accepted inst →
      inst.Possible call.memory.isSome call.argument (entries.map Prod.snd) := by
  constructor
  · intro truly inst copied accepted
    exact truly.possible held copied accepted
  · intro possible
    obtain ⟨after, ran, held'⟩ := listWrite_spec call held
    refine ⟨after, _, _, ran, held', fun accepted => ?_, ?_⟩
    · cases commanded : call.command with
      | none =>
        have refused : call.result < 0 := by
          rw [WriteCall.result, commanded]
          split
          · decide
          · exact neg_einval
        exact absurd accepted (Int.not_le.mpr refused)
      | some command =>
        obtain ⟨inst, name⟩ := command
        obtain ⟨copied, accepted, rfl⟩ := WriteCall.command_eq_some_iff.mp commanded
        refine ⟨inst, copied, accepted, ?_⟩
        rw [call_onEntries_names, WriteCall.onNames, commanded]
        exact tookEffect_of_possible (possible inst copied accepted)
    · intro inst name helped err copied accepted ends spelled helper failed
      obtain ⟨after', ran', -⟩ := helper_spec inst call.memory held ends
        (by rw [spelled]; exact argument_short accepted.2.1)
      rw [helper, spelled] at ran'
      cases ran'
      exact absurd ((helperResult_nonneg_iff ..).mpr (possible inst copied accepted)) (Int.not_le.mpr failed)

/-- A name that was added is deleted, and the call says so. -/
theorem reports_truly_iff_delf :
    ∃ added, listWrite loaded (sampleCall ['a', 'd', 'd', 'f', ' ', 'x']) = .ok (added, 6) ∧
      ReportsTruly added [(.slab 0, [0x78])] (sampleCall ['d', 'e', 'l', 'f', ' ', 'x']) := by
  obtain ⟨added, ran, one⟩ := listWrite_spec (sampleCall ['a', 'd', 'd', 'f', ' ', 'x']) loaded_represents
  have shape : (sampleCall ['a', 'd', 'd', 'f', ' ', 'x']).onEntries
      (loaded.handedOut) [] = [(.slab 0, [0x78])] := by decide
  rw [shape] at one
  refine ⟨added, ran, (reports_truly_iff one _).mpr fun inst _ accepted => ?_⟩
  obtain rfl : inst = .delf := by
    cases inst with
    | delf => rfl
    | addf | adde | dela => exact absurd accepted.2.2 (by decide)
  exact List.mem_singleton.mpr (by decide)

/-- A call that writes `characters` when there is no memory. -/
def starvedCall (characters : List Char) : WriteCall := { sampleCall characters with memory := none }

/-- An `addf` that gets no memory and a `delf` of a name that is not there report success,
and the list stays empty. -/
theorem failures_reported_as_success :
    (¬ ReportsTruly loaded [] (starvedCall ['a', 'd', 'd', 'f', ' ', 'x']) ∧
      ∃ after, listWrite loaded (starvedCall ['a', 'd', 'd', 'f', ' ', 'x']) = .ok (after, 6) ∧
        Represents after []) ∧
    ¬ ReportsTruly loaded [] (sampleCall ['d', 'e', 'l', 'f', ' ', 'x']) ∧
      ∃ after, listWrite loaded (sampleCall ['d', 'e', 'l', 'f', ' ', 'x']) = .ok (after, 6) ∧
        Represents after [] := by
  have dropped (inst : Inst) (call : WriteCall) (copied : call.Copied) (accepted : call.Accepted inst)
      (six : call.count = 6) (impossible : ¬ inst.Possible call.memory.isSome call.argument [])
      (same : ∀ new, inst.onEntries (call.memory.map new) call.argument [] = []) :
      ¬ ReportsTruly loaded [] call ∧
        ∃ after, listWrite loaded call = .ok (after, 6) ∧ Represents after [] := by
    refine ⟨fun truly => impossible (truly.possible loaded_represents copied accepted), ?_⟩
    obtain ⟨-, after, -, -, -, ran, held⟩ := listWrite_accepted loaded_represents copied accepted
    rw [six] at ran
    rw [same] at held
    exact ⟨after, ran, held⟩
  constructor
  · exact dropped .addf _ rfl ⟨by decide, by decide, by decide⟩ rfl Bool.false_ne_true fun _ => rfl
  · exact dropped .delf _ rfl ⟨by decide, by decide, by decide⟩ rfl List.not_mem_nil fun _ => rfl

end KernelLabs.NameList
