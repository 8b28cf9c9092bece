/-!
Names of threads. A handle names a slot of the thread registry together with
the generation of its occupant; once that thread is gone the generation has
moved on and the handle names nothing.
-/
namespace KernelThreads

@[ext] structure Handle where
  slot : UInt32
  generation : UInt32
deriving DecidableEq, Repr

namespace Handle

def text (h : Handle) : String := s!"kt{h.slot.toNat}.{h.generation.toNat}"

instance : ToString Handle := ⟨text⟩

def number? (cs : List Char) : Option UInt32 :=
  if cs ≠ [] ∧ cs.all Char.isDigit then
    let n := cs.foldl (fun n c => 10 * n + (c.toNat - '0'.toNat)) 0
    if n < UInt32.size then some n.toUInt32 else none
  else none

def ofText? (s : String) : Option Handle :=
  match s.toList with
  | 'k' :: 't' :: cs =>
    match cs.dropWhile (· ≠ '.') with
    | '.' :: ds => do return ⟨← number? (cs.takeWhile (· ≠ '.')), ← number? ds⟩
    | _ => none
  | _ => none

/-- Slots first, then generations. -/
def le (a b : Handle) : Bool :=
  a.slot < b.slot || a.slot = b.slot && a.generation ≤ b.generation

/-- The distinct handles of `hs` in ascending order. -/
def sortUnique (hs : List Handle) : List Handle := (hs.mergeSort le).eraseReps

end Handle

end KernelThreads
