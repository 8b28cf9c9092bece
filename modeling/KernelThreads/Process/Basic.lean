import KernelThreads.Diagnostics.Logged
import KernelThreads.Numbered

/-!
Processes and their member threads. A process that has been dropped is gone,
but its number stays taken.
-/
namespace KernelThreads

open Logged (ensure fail)

structure Process where
  /-- Root of the address space. -/
  directory : PhysAddr
  phase : Phase := .creating
  /-- In the order in which they joined. -/
  members : List Handle := []
  name : Option String := none
deriving DecidableEq

namespace Process

/-- `pid` is the number of the process, for the report. -/
def join (p : Process) (pid : ProcessId) (h : Handle) : Logged Process := do
  ensure (h ∉ p.members) (.joinedTwice h pid)
  return { p with members := p.members ++ [h] }

/-- Of a thread that is no member nothing changes. -/
def leave (p : Process) (h : Handle) : Process := { p with members := p.members.erase h }

end Process

structure Processes where
  entries : Numbered (Option Process)
deriving DecidableEq

namespace Processes

def empty : Processes := ⟨.empty⟩

def get? (ps : Processes) (pid : ProcessId) : Option Process := (ps.entries.get? pid).join

/-- The process of a call that cannot be made without one. -/
def find (ps : Processes) (pid : ProcessId) : Logged Process :=
  match ps.get? pid with
  | some p => pure p
  | none => fail (.noProcess pid)

def add (ps : Processes) (p : Process) : ProcessId × Processes :=
  let entries := ps.entries.add (some p)
  (entries.size, ⟨entries⟩)

/-- Replaces a process that is there. -/
def set (ps : Processes) (pid : ProcessId) (p : Process) : Processes :=
  if (ps.get? pid).isSome then ⟨ps.entries.set pid (some p)⟩ else ps

def drop (ps : Processes) (pid : ProcessId) : Processes := ⟨ps.entries.set pid none⟩

/-- The processes that are there, with their numbers. -/
def live (ps : Processes) : List (ProcessId × Process) :=
  ps.entries.items.zipIdx.filterMap fun (p?, i) => p?.map (i + 1, ·)

theorem get?_set (ps : Processes) (pid pid' : ProcessId) (p : Process) :
    (ps.set pid p).get? pid' =
      if pid = pid' then (ps.get? pid).map fun _ => p else ps.get? pid' := by
  unfold set
  cases h : ps.get? pid with
  | none =>
    by_cases e : pid = pid'
    · subst e
      simp [h]
    · simp [e]
  | some q =>
    simp only [Option.isSome_some, if_true, get?, Numbered.get?_set]
    by_cases e : pid = pid'
    · subst e
      cases hn : ps.entries.get? pid with
      | none => simp [get?, hn] at h
      | some o => simp
    · simp [e]

theorem get?_drop (ps : Processes) (pid pid' : ProcessId) :
    (ps.drop pid).get? pid' = if pid = pid' then none else ps.get? pid' := by
  simp only [drop, get?, Numbered.get?_set]
  by_cases e : pid = pid'
  · subst e
    cases ps.entries.get? pid <;> simp
  · simp [e]

theorem get?_add (ps : Processes) (p : Process) (pid : ProcessId) :
    (ps.add p).2.get? pid = if pid = (ps.add p).1 then some p else ps.get? pid := by
  simp only [add, get?, Numbered.get?_add]
  by_cases e : pid = (ps.entries.add (some p)).size <;> simp [e]

end Processes

end KernelThreads
