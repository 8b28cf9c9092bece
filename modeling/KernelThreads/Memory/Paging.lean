import KernelThreads.Memory.Address

/-!
Pages, and the size of the stacks that every thread is given.
-/
namespace KernelThreads

def pageSize : Nat := 4096

/-- Bits of an offset within a page. -/
def pageShift : Nat := 12

/-- Pages left unmapped below every stack. -/
def guardPages : Nat := 1

def defaultStackSize : UInt64 := 16384

/-- Thread slots that a pool has unless its owner chooses otherwise. -/
def defaultThreadSlots : Nat := 1024

/-- Rounds up. The page size is added before one is taken off again, so the
last page of the word range cannot be rounded. -/
def bytesToPages (bytes : UInt64) : Except AddressError Nat :=
  if bytes.toNat + pageSize < UInt64.size then .ok ((bytes.toNat + pageSize - 1) / pageSize)
  else .error .overflow

/-- Bits beyond the word are lost. -/
def pagesToBytes (pages : Nat) : UInt64 := (pages * pageSize).toUInt64

/-- The usable size, guard not counted, of every stack. -/
structure StackConfig where
  stackSize : UInt64 := defaultStackSize
deriving DecidableEq, Repr

namespace StackConfig

def stackPages (c : StackConfig) : Nat := c.stackSize.toNat / pageSize

/-- Pages of one stack, the guard included. -/
def extentPages (c : StackConfig) : Nat := guardPages + c.stackPages

end StackConfig

theorem pagesToBytes_toNat (pages : Nat) :
    (pagesToBytes pages).toNat = pages * pageSize % UInt64.size := by
  simp [pagesToBytes]

end KernelThreads
