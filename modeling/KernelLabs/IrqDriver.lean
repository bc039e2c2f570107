import KernelLabs.Checked
import Mathlib.Data.Fin.VecNotation

/-! `labs/lab12/driver/driver.c`: five counters, their sum, an interrupt handler
that overwrites them, and a mutex that user programs lock and unlock by `ioctl`.
The scripts of its test client, `ioctl_test.c`, follow. -/
namespace KernelLabs.IrqDriver
open Errno

/-- `int`, which wraps around in the kernel. -/
abbrev CInt := BitVec 32

/-- `struct my_device_data`, without the `cdev` the kernel finds it by. -/
structure MyDeviceData where
  num : Fin 5 → CInt
  sum : CInt

/-- The module's data: `dev_data`, and whether `dev_mutex` is locked. -/
structure Driver where
  devData : MyDeviceData
  devMutex : Bool

/-- A line in the kernel log: `"IRQ, sum: %d"`, or `"IOCTL<n>, sum: %d"`. -/
inductive Line
  | irq (sum : Int)
  | ioctl (number : Fin 3) (sum : Int)
  deriving DecidableEq, Repr

/-- What an `ioctl` returns, and what is printed before it returns. -/
structure Reply where
  ret : Int
  printed : List Line
  deriving DecidableEq, Repr

/-- The commands of `driver.h`. -/
inductive IoctlCmd
  | print (number : Fin 3)
  | inc (index : Fin 5)
  | incAll
  | int
  | sum
  | reset
  | lock
  | unlock
  deriving DecidableEq, Repr

namespace IoctlCmd

def nr : IoctlCmd → UInt32
  | .print number => 1 + UInt32.ofNat number
  | .inc index => 4 + UInt32.ofNat index
  | .incAll => 9
  | .int => 10
  | .sum => 11
  | .reset => 12
  | .lock => 13
  | .unlock => 14

def code (cmd : IoctlCmd) : UInt32 := ioc 0 0x6b cmd.nr 0

def all : List IoctlCmd :=
  [.print 0, .print 1, .print 2, .inc 0, .inc 1, .inc 2, .inc 3, .inc 4, .incAll, .int, .sum,
    .reset, .lock, .unlock]

/-- The `case` a command code selects. -/
def ofCode (code : UInt32) : Option IoctlCmd := all.find? (·.code = code)

theorem ofCode_code (cmd : IoctlCmd) : ofCode cmd.code = some cmd := by
  cases cmd with
  | print number => revert number; decide
  | inc index => revert index; decide
  | _ => decide

end IoctlCmd

/-- `for (i = 0; i < 5; i++) sum += num[i]`. -/
def addNums (num : Fin 5 → CInt) (sum : CInt) : CInt :=
  (List.finRange 5).foldl (fun sum i => sum + num i) sum

/-- The handler adds to the sum it finds. -/
def myIrqHandler (devData : MyDeviceData) : MyDeviceData × List Line :=
  let num : Fin 5 → CInt := ![-1, -2, -3, -4, -5]
  let devData : MyDeviceData := { num := num, sum := addNums num devData.sum }
  (devData, [.irq devData.sum.toInt])

/-- The `switch` of `my_ioctl`; `none` while `mutex_lock` waits. `int $0x3B` runs the
handler before it returns. -/
def runCommand (driver : Driver) : IoctlCmd → Option (Driver × Reply)
  | .print number => some (driver, ⟨0, [.ioctl number driver.devData.sum.toInt]⟩)
  | .inc index =>
    let myData := driver.devData
    let num := Function.update myData.num index (myData.num index + 1)
    some ({ driver with devData := { myData with num := num } }, ⟨0, []⟩)
  | .incAll =>
    let myData := driver.devData
    some ({ driver with devData := { myData with num := fun i => myData.num i + 1 } }, ⟨0, []⟩)
  | .int =>
    let (devData, printed) := myIrqHandler driver.devData
    some ({ driver with devData := devData }, ⟨0, printed⟩)
  | .sum =>
    let myData := driver.devData
    some ({ driver with devData := { myData with sum := addNums myData.num 0 } }, ⟨0, []⟩)
  | .reset => some ({ driver with devData := { num := fun _ => 0, sum := 0 } }, ⟨0, []⟩)
  | .lock => if driver.devMutex then none else some ({ driver with devMutex := true }, ⟨0, []⟩)
  | .unlock => some ({ driver with devMutex := false }, ⟨0, []⟩)

def myIoctl (driver : Driver) (cmd : UInt32) : Option (Driver × Reply) :=
  match IoctlCmd.ofCode cmd with
  | some cmd => runCommand driver cmd
  | none => some (driver, ⟨-einval, []⟩)

/-- A user program's `ioctl` with a command of `driver.h`. -/
def ioctl (driver : Driver) (cmd : IoctlCmd) : Option (Driver × Reply) := myIoctl driver cmd.code

/-- The state `my_driver_init` leaves. -/
def loaded : Driver where
  devData := { num := fun _ => 0, sum := 0 }
  devMutex := false

theorem ioctl_eq_runCommand : ioctl = runCommand := by
  funext driver cmd
  simp [ioctl, myIoctl, IoctlCmd.ofCode_code]

/-! ## `ioctl_test.c` -/

/-- Five increments of one counter, and the sum. -/
def incrementsThenSum (index : Fin 5) : List IoctlCmd := List.replicate 5 (.inc index) ++ [.sum]

/-- The parent's commands between `MY_IOCTL_LOCK` and `MY_IOCTL_UNLOCK`. -/
def parentBody : List IoctlCmd :=
  incrementsThenSum 0 ++ incrementsThenSum 1 ++ incrementsThenSum 2 ++ [.print 0, .reset] ++
    [.incAll, .incAll, .sum, .print 1, .reset]

/-- The child's commands between `MY_IOCTL_LOCK` and `MY_IOCTL_UNLOCK`. -/
def childBody : List IoctlCmd :=
  [.int, .reset] ++ incrementsThenSum 0 ++ incrementsThenSum 1 ++ incrementsThenSum 2 ++
    incrementsThenSum 3 ++ incrementsThenSum 4 ++ [.print 2, .reset]

/-- The two processes `fork` leaves. -/
inductive Role
  | parent
  | child
  deriving DecidableEq, Repr

/-- What `main` does in each of them; nothing where `fork` failed. -/
def ioctlTest (forked : Bool) : Role → List IoctlCmd
  | .parent => if forked then [.lock] ++ parentBody ++ [.unlock] else []
  | .child => if forked then [.lock] ++ childBody ++ [.unlock] else []

/-- What each command of the test client prints. -/
def expectedLines : IoctlCmd → List Line
  | .print 0 => [.ioctl 0 15]
  | .print 1 => [.ioctl 1 10]
  | .print 2 => [.ioctl 2 25]
  | .int => [.irq (-15)]
  | .inc _ | .incAll | .sum | .reset | .lock | .unlock => []

end KernelLabs.IrqDriver
