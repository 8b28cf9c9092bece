import KernelThreads.Process.Phase
import KernelThreads.Thread.Handle

/-!
Processors. A processor knows the thread it runs and that thread's process, and
is idle otherwise.
-/
namespace KernelThreads

structure Running where
  thread : Handle
  process : Option ProcessId
deriving DecidableEq, Repr

structure Cpu where
  id : UInt32
  running : Option Running := none
deriving DecidableEq, Repr

namespace Cpu

def isIdle (c : Cpu) : Bool := c.running.isNone

def thread? (c : Cpu) : Option Handle := c.running.map (·.thread)

def process? (c : Cpu) : Option ProcessId := c.running.bind (·.process)

def run (c : Cpu) (thread : Handle) (process : Option ProcessId) : Cpu :=
  { c with running := some ⟨thread, process⟩ }

def clear (c : Cpu) : Cpu := { c with running := none }

end Cpu

end KernelThreads
