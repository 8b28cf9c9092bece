/-!
Where a thread stands: its state, the one structure it is linked into, and its
bookkeeping flags.
-/
namespace KernelThreads

inductive State where
  | runnable
  | sleeping
  | sleepingCancellable
  | exited
deriving DecidableEq, Repr

namespace State

def all : List State := [.runnable, .sleeping, .sleepingCancellable, .exited]

def number : State → Nat
  | .runnable => 0
  | .sleeping => 1
  | .sleepingCancellable => 2
  | .exited => 3

def name : State → String
  | .runnable => "Runnable"
  | .sleeping => "Sleeping"
  | .sleepingCancellable => "SleepingCancellable"
  | .exited => "Exited"

def isSleeping : State → Bool
  | .sleeping | .sleepingCancellable => true
  | .runnable | .exited => false

def isExited : State → Bool
  | .exited => true
  | .runnable | .sleeping | .sleepingCancellable => false

end State

/-- Names a wait queue. -/
structure Channel where
  number : Nat
deriving DecidableEq, Repr

namespace Channel

def text (c : Channel) : String := s!"wchan{c.number}"

instance : ToString Channel := ⟨text⟩

def name (c : Channel) : String := s!"WaitChannel({c.number})"

/-- Ascending, repetitions kept. -/
def sort (cs : List Channel) : List Channel := cs.mergeSort fun a b => a.number ≤ b.number

end Channel

/-- A thread is in at most one of these places at a time. -/
inductive Link where
  | unlinked
  | runQueue
  | onCpu (id : UInt32)
  | waitQueue (channel : Channel)
deriving DecidableEq, Repr

namespace Link

def isLinked : Link → Bool
  | .unlinked => false
  | .runQueue | .onCpu _ | .waitQueue _ => true

def isOnCpu : Link → Bool
  | .onCpu _ => true
  | .unlinked | .runQueue | .waitQueue _ => false

def channel? : Link → Option Channel
  | .waitQueue c => some c
  | .unlinked | .runQueue | .onCpu _ => none

def name : Link → String
  | .unlinked => "Unlinked"
  | .runQueue => "RunQueue"
  | .onCpu id => s!"OnCpu({id.toNat})"
  | .waitQueue c => s!"WaitQueue({c.name})"

end Link

structure Flags where
  /-- Another thread has asked this one to terminate. -/
  cancelRequested : Bool := false
  /-- Cloned, and not yet attached to a process. -/
  cloned : Bool := false
deriving DecidableEq, Repr

namespace Flags

def empty : Flags := {}
def all : Flags := ⟨true, true⟩

/-- Bit 0 is `cancelRequested`, bit 1 is `cloned`; other bits are dropped. -/
def ofBits (w : UInt32) : Flags := ⟨w.toNat.testBit 0, w.toNat.testBit 1⟩

def bits (f : Flags) : Nat := f.cancelRequested.toNat + 2 * f.cloned.toNat

/-- No bit beyond the known ones is set. -/
def known (w : UInt32) : Bool := w.toNat < 4

/-- Applies a Boolean operation to each flag. -/
def zip (op : Bool → Bool → Bool) (f g : Flags) : Flags :=
  ⟨op f.cancelRequested g.cancelRequested, op f.cloned g.cloned⟩

def union : Flags → Flags → Flags := zip or
def inter : Flags → Flags → Flags := zip and
def diff : Flags → Flags → Flags := zip fun a b => a && !b
def symmDiff : Flags → Flags → Flags := zip xor
def compl (f : Flags) : Flags := all.diff f

def contains (f g : Flags) : Bool := f.inter g = g
def intersects (f g : Flags) : Bool := f.inter g ≠ empty
def isEmpty (f : Flags) : Bool := f = empty
def isAll (f : Flags) : Bool := f = all

/-- The set flags, low bit first. -/
def names (f : Flags) : List String :=
  (if f.cancelRequested then ["CANCEL_REQUESTED"] else []) ++ if f.cloned then ["CLONED"] else []

end Flags

end KernelThreads
