import KernelThreads.Memory.Source

/-!
Kernel stacks: an extent of pages whose lowest is an unmapped guard, with the
working area above it. Stacks grow down from `top`.
-/
namespace KernelThreads

open Logged (ensure)

structure Stack where
  /-- Where the guard starts. -/
  base : VirtAddr
  /-- All pages of the extent, the guard included. -/
  pages : Nat
deriving DecidableEq

namespace Stack

/-- The lowest usable address. -/
def bottom (s : Stack) : Except AddressError VirtAddr := s.base.offset (pagesToBytes guardPages)

def top (s : Stack) : Except AddressError VirtAddr := s.base.offset (pagesToBytes s.pages)

def size (s : Stack) : UInt64 := pagesToBytes (s.pages - guardPages)

def inGuard (s : Stack) (addr : VirtAddr) : Except AddressError Bool :=
  if s.base.toNat ≤ addr.toNat then do
    return addr.toNat < (← s.bottom).toNat
  else return false

def overlaps (s t : Stack) : Except AddressError Bool := do
  if s.base.toNat < (← t.top).toNat then
    return t.base.toNat < (← s.top).toNat
  else return false

end Stack

namespace StackConfig

/-- A stack must have working pages, and whole ones. -/
def validate (c : StackConfig) : Logged Unit := do
  ensure (c.stackSize ≠ 0) .stackSizeZero
  ensure (c.stackSize.toNat % pageSize = 0) (.stackSizeUnaligned c.stackSize)

variable {P : Type} [PageSource P]

def acquire (c : StackConfig) (pages : P) : Logged (Except Exhausted Stack × P) := do
  let (base?, pages) ← PageSource.alloc pages c.extentPages
  match base? with
  | some base => return (.ok ⟨base, c.extentPages⟩, pages)
  | none => return (.error .kernelStack, pages)

/-- Takes back a stack of the size it hands out. -/
def release (c : StackConfig) (pages : P) (s : Stack) : Logged P := do
  ensure (s.pages = c.extentPages) (.foreignStack s.base s.pages c.extentPages)
  PageSource.free pages s.base s.pages

end StackConfig

end KernelThreads
