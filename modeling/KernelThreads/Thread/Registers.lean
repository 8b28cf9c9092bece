import KernelThreads.Memory.Stacks

/-!
The saved registers of a thread that is not running, and the two ways in which
a first image is made: empty, and ready to enter a function.
-/
namespace KernelThreads

/-- A function that threads start in, known by name. Of its address only one thing
is known: it is not zero. -/
structure EntryPoint where
  name : String
deriving DecidableEq, Repr

inductive CodePointer where
  | entry (f : EntryPoint)
  | address (w : UInt64)
deriving DecidableEq, Repr

/-- The registers that the owner of a clone may load. -/
inductive Register where
  | rbx | rbp | r12 | r13 | r14 | r15 | rdi | rsi | rip | rsp | rflags
deriving DecidableEq, Repr

structure Context where
  rbx : UInt64 := 0
  rbp : UInt64 := 0
  r12 : UInt64 := 0
  r13 : UInt64 := 0
  r14 : UInt64 := 0
  r15 : UInt64 := 0
  /-- First argument. -/
  rdi : UInt64 := 0
  /-- Second argument. -/
  rsi : UInt64 := 0
  rip : CodePointer := .address 0
  rsp : UInt64 := 0
  rflags : UInt64 := 0
  /-- Root of the address space. -/
  pageDirectory : PhysAddr := .zero
  stackBottom : VirtAddr
  stackSize : UInt64
deriving DecidableEq

namespace Context

/-- Interrupts on; bit 1 is always set. -/
def initialFlags : UInt64 := 0x202

def empty (stack : Stack) : Except AddressError Context := do
  return { stackBottom := ← stack.bottom, stackSize := stack.size }

/-- Starts in `entry arg1 arg2` at the top of `stack`, rounded down to 16 bytes,
below the return address that a caller would have pushed. -/
def start (entry : EntryPoint) (arg1 : Int64) (arg2 : UInt64) (stack : Stack)
    (pageDirectory : PhysAddr) : Except AddressError Context := do
  let context ← empty stack
  let top := (← stack.top).toNat / 16 * 16
  if 8 ≤ top then
    return { context with
      rdi := arg1.toUInt64
      rsi := arg2
      rip := .entry entry
      rsp := (top - 8).toUInt64
      rflags := initialFlags
      pageDirectory }
  else .error .overflow

/-- A register image has been loaded. -/
def isPopulated (c : Context) : Bool := c.rip ≠ .address 0

def load (c : Context) (r : Register) (w : UInt64) : Context :=
  match r with
  | .rbx => { c with rbx := w }
  | .rbp => { c with rbp := w }
  | .r12 => { c with r12 := w }
  | .r13 => { c with r13 := w }
  | .r14 => { c with r14 := w }
  | .r15 => { c with r15 := w }
  | .rdi => { c with rdi := w }
  | .rsi => { c with rsi := w }
  | .rip => { c with rip := .address w }
  | .rsp => { c with rsp := w }
  | .rflags => { c with rflags := w }

end Context

end KernelThreads
