import KernelLabs.CBytes
import KernelLabs.LinuxList

/-! `labs/lab10/api_assignment/kernel-api/list.c`: the list of names behind
`/proc/list/management` and `/proc/list/preview`. The functions follow the
source statement by statement; memory is the checked heap of `LinuxList`. -/
namespace KernelLabs.NameList
open CBytes LinuxList Errno

def procfsMaxSize : Nat := 1024
def nameMaxSize : Nat := 128

/-- `entry->name`. -/
abbrev NameArray := CharArray nameMaxSize

/-- `static LIST_HEAD(name_list)`. -/
def nameList : Ptr := .static 0

/-- The module's memory after `LIST_HEAD`. -/
def loaded : Heap NameArray := Heap.init nameList

def addToList {size : Nat} (heap : Heap NameArray) (memory : Option (Block NameArray))
    (name : CharArray size) (mode : Char) : Except Fault (Heap NameArray × Int) := do
  if mode ≠ 'f' ∧ mode ≠ 'e' then return (heap, -1)
  if (← strlen name) ≥ nameMaxSize then return (heap, -1)
  let (heap, entry) := kmalloc heap memory
  if entry = .null then return (heap, -enomem)
  let copied ← strcpy (← heap.load entry) name
  let heap ← heap.store entry copied
  let heap ← initListHead heap entry
  if mode = 'f' then return (← listAdd heap entry nameList, 0)
  else if mode = 'e' then return (← listAddTail heap entry nameList, 0)
  else return (heap, 0)

/-- The loop body of `delete_first_from_list`: it returns at the first match. -/
def deleteFirstBody {size : Nat} (name : CharArray size) (heap : Heap NameArray) (entry : Ptr) :
    Except Fault (Flow (Heap NameArray) Int) := do
  if (← strcmp (← heap.load entry).1 name.1) = 0 then
    let heap ← listDel heap entry
    let heap ← kfree heap entry
    return .done heap 0
  else return .next heap

def deleteFirstFromList {size : Nat} (heap : Heap NameArray) (name : CharArray size) :
    Except Fault (Heap NameArray × Int) := do
  match ← listForEachEntrySafe id nameList (deleteFirstBody name) heap with
  | .done heap result => return (heap, result)
  | .next heap => return (heap, -1)

/-- The loop body of `delete_all_from_list`. -/
def deleteAllBody {size : Nat} (name : CharArray size) (heap : Heap NameArray) (entry : Ptr) :
    Except Fault (Flow (Heap NameArray) Int) := do
  if (← strcmp (← heap.load entry).1 name.1) = 0 then
    let heap ← listDel heap entry
    let heap ← kfree heap entry
    return .next heap
  else return .next heap

def deleteAllFromList {size : Nat} (heap : Heap NameArray) (name : CharArray size) :
    Except Fault (Heap NameArray × Int) := do
  match ← listForEachEntrySafe id nameList (deleteAllBody name) heap with
  | .done heap result => return (heap, result)
  | .next heap => return (heap, 0)

/-- The loop body of `destroy_list`. -/
def destroyBody (heap : Heap NameArray) (entry : Ptr) :
    Except Fault (Flow (Heap NameArray) Int) := do
  let heap ← listDel heap entry
  let heap ← kfree heap entry
  return .next heap

def destroyList (heap : Heap NameArray) : Except Fault (Heap NameArray × Int) := do
  match ← listForEachEntrySafe id nameList destroyBody heap with
  | .done heap result => return (heap, result)
  | .next heap => return (heap, 0)

/-- `seq_printf(m, "%s", name)`. -/
def seqPrintf (m : Bytes) (name : NameArray) : Except Fault Bytes := do
  let length ← strlen name
  return m ++ name.1.take length

/-- The loop body of `list_proc_show`. -/
def showBody (heap : Heap NameArray) (m : Bytes) (entry : Ptr) : Except Fault Bytes := do
  seqPrintf m (← heap.load entry)

/-- The text `list_proc_show` prints. -/
def listProcShow (heap : Heap NameArray) : Except Fault Bytes :=
  listForEachEntry heap nameList (showBody heap) []

/-- One call of `list_write`, with all it does not decide itself: the user's
buffer and count, what its uninitialised arrays contain, and the block `kmalloc`
will return, if any. -/
structure WriteCall where
  buffer : UserBuffer
  count : UInt64
  localBuffer : CharArray procfsMaxSize
  inst : CharArray 5
  name : CharArray (nameMaxSize + 1)
  memory : Option (Block NameArray)

/-- `local_buffer_size`. -/
def WriteCall.localBufferSize (call : WriteCall) : UInt64 :=
  if call.count > UInt64.ofNat procfsMaxSize then UInt64.ofNat procfsMaxSize else call.count

/-- `name_size`: the difference wraps around in 64 bits and is then cut to 32. -/
def WriteCall.nameSize (call : WriteCall) : UInt32 := (call.localBufferSize - 5).toUInt32

def listWrite (heap : Heap NameArray) (call : WriteCall) : Except Fault (Heap NameArray × Int) := do
  let localBuffer ← memset call.localBuffer 0 procfsMaxSize
  let (localBuffer, left) ← copyFromUser localBuffer 0 call.buffer call.localBufferSize.toNat
  if left ≠ 0 then return (heap, -efault)
  let inst ← strncpy call.inst localBuffer 0 4
  let inst ← inst.write 4 [0]
  if call.nameSize ≥ UInt32.ofNat nameMaxSize then return (heap, -einval)
  let name ← strncpy call.name localBuffer 5 call.nameSize.toNat
  let name ← name.write call.nameSize.toNat [0]
  if (← strcmp inst.1 (literal ['a', 'd', 'd', 'f'])) = 0 then
    let (heap, _) ← addToList heap call.memory name 'f'
    return (heap, call.localBufferSize.toNat)
  else if (← strcmp inst.1 (literal ['a', 'd', 'd', 'e'])) = 0 then
    let (heap, _) ← addToList heap call.memory name 'e'
    return (heap, call.localBufferSize.toNat)
  else if (← strcmp inst.1 (literal ['d', 'e', 'l', 'f'])) = 0 then
    let (heap, _) ← deleteFirstFromList heap name
    return (heap, call.localBufferSize.toNat)
  else if (← strcmp inst.1 (literal ['d', 'e', 'l', 'a'])) = 0 then
    let (heap, _) ← deleteAllFromList heap name
    return (heap, call.localBufferSize.toNat)
  else return (heap, -einval)

end KernelLabs.NameList
