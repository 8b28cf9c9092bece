import KernelThreads.Text.Hex

/-!
Virtual and physical addresses of a machine with 48-bit virtual and 52-bit
physical addresses. An address is a number together with the proof that the
machine can hold it, so only the readers and the sum `offset` can fail.
-/
namespace KernelThreads

inductive AddressError where
  /-- A sum or difference of words leaves the 64-bit range. -/
  | overflow
  /-- A word has bits set that no address of its kind can have. -/
  | badAddress
deriving DecidableEq, Repr

/-- Bits 47 to 63 agree: the lower half, or the upper half of the space. -/
def Canonical (w : Nat) : Prop :=
  w ≤ 0x7fffffffffff ∨ 0xffff800000000000 ≤ w ∧ w ≤ 0xffffffffffffffff

instance (w : Nat) : Decidable (Canonical w) := inferInstanceAs (Decidable (_ ∨ _))

@[ext] structure VirtAddr where
  toNat : Nat
  canonical : Canonical toNat
deriving DecidableEq

namespace VirtAddr

theorem lt_size (a : VirtAddr) : a.toNat < UInt64.size := by
  rcases a.canonical with h | h <;> unfold UInt64.size <;> omega

/-- Bit 47 alone is taken as a lost sign and extended upwards; any other
disagreement of bits 47 to 63 is refused. -/
def ofNat (w : Nat) : Except AddressError VirtAddr :=
  if h : Canonical w then .ok ⟨w, h⟩
  else if h : w / 0x800000000000 = 1 then .ok ⟨w + 0xffff000000000000, by unfold Canonical; omega⟩
  else .error .badAddress

def ofWord (w : UInt64) : Except AddressError VirtAddr := ofNat w.toNat

/-- The address `bytes` above `a`. -/
def offset (a : VirtAddr) (bytes : UInt64) : Except AddressError VirtAddr :=
  if a.toNat + bytes.toNat < UInt64.size then ofNat (a.toNat + bytes.toNat) else .error .overflow

theorem ofNat_of_canonical {w : Nat} (h : Canonical w) : ofNat w = .ok ⟨w, h⟩ := dif_pos h

def text (a : VirtAddr) : String := Hex.render a.toNat

end VirtAddr

structure PhysAddr where
  toNat : Nat
  lt : toNat < 0x10000000000000
deriving DecidableEq

namespace PhysAddr

def zero : PhysAddr := ⟨0, by decide⟩

def ofWord (w : UInt64) : Except AddressError PhysAddr :=
  if h : w.toNat < 0x10000000000000 then .ok ⟨w.toNat, h⟩ else .error .badAddress

end PhysAddr

end KernelThreads
