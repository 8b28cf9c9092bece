/-!
The life of a process. Only its first two phases take in threads.
-/
namespace KernelThreads

inductive Phase where
  | creating
  | running
  | exiting
  | dead
deriving DecidableEq, Repr

namespace Phase

def all : List Phase := [.creating, .running, .exiting, .dead]

def number : Phase → Nat
  | .creating => 0
  | .running => 1
  | .exiting => 2
  | .dead => 3

def name : Phase → String
  | .creating => "Creating"
  | .running => "Running"
  | .exiting => "Exiting"
  | .dead => "Dead"

def acceptsThreads : Phase → Bool
  | .creating | .running => true
  | .exiting | .dead => false

end Phase

/-- Processes are numbered from 1 and their numbers are never used again. -/
abbrev ProcessId := Nat

end KernelThreads
