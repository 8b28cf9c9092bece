import KernelThreads.Proofs.Kernel.Transition
import Mathlib.Data.List.Induction

/-!
Runs: what a kernel is after a list of calls, and what occurred on the way there.
-/
namespace KernelThreads

/-- Goes through the scheduler and the life cycle. The other calls are for a
process layer that keeps its members, a thread or a processor by itself. -/
def Call.isManaged {n : Nat} : Call n → Bool
  | .newProcess _ _ | .dropProcess _ | .setPhase _ _ | .setName _ _ | .create _ _ _ _ | .clone _
  | .attach _ _ | .destroy _ | .cancel _ _ _ | .exit _ _ | .dispatch _ | .yieldCpu _ | .sleep _ _
  | .cancellableSleep _ _ | .wakeup _ | .broadcast _ | .newChannel | .setErrno _ _
  | .loadRegisters _ _ => true
  | .addMember _ _ | .removeMember _ _ | .makeRunnable _ | .interrupt _ | .enqueue _
  | .startOn _ _ | .block _ _ _ | .wake _ | .setRunning _ _ _ | .clearRunning _ => false

/-- A managed call is one of these. -/
@[elab_as_elim]
theorem Call.managed_cases {n : Nat}
    {motive : (call : Call n) → call.isManaged = true → Prop}
    (newProcess : ∀ directory phase, motive (.newProcess directory phase) rfl)
    (dropProcess : ∀ pid, motive (.dropProcess pid) rfl)
    (setPhase : ∀ pid phase, motive (.setPhase pid phase) rfl)
    (setName : ∀ pid name, motive (.setName pid name) rfl)
    (create : ∀ pid entry arg1 arg2, motive (.create pid entry arg1 arg2) rfl)
    (clone : ∀ source, motive (.clone source) rfl)
    (attach : ∀ h pid, motive (.attach h pid) rfl)
    (destroy : ∀ h, motive (.destroy h) rfl)
    (cancel : ∀ i target result, motive (.cancel i target result) rfl)
    (exit : ∀ i result, motive (.exit i result) rfl)
    (dispatch : ∀ i, motive (.dispatch i) rfl)
    (yieldCpu : ∀ i, motive (.yieldCpu i) rfl)
    (sleep : ∀ i c, motive (.sleep i c) rfl)
    (cancellableSleep : ∀ i c, motive (.cancellableSleep i c) rfl)
    (wakeup : ∀ c, motive (.wakeup c) rfl)
    (broadcast : ∀ c, motive (.broadcast c) rfl)
    (newChannel : motive .newChannel rfl)
    (setErrno : ∀ h errno, motive (.setErrno h errno) rfl)
    (loadRegisters : ∀ h registers, motive (.loadRegisters h registers) rfl)
    {call : Call n} (hmanaged : call.isManaged = true) : motive call hmanaged := by
  cases call with
  | newProcess directory phase => exact newProcess directory phase
  | dropProcess pid => exact dropProcess pid
  | setPhase pid phase => exact setPhase pid phase
  | setName pid name => exact setName pid name
  | create pid entry arg1 arg2 => exact create pid entry arg1 arg2
  | clone source => exact clone source
  | attach h pid => exact attach h pid
  | destroy h => exact destroy h
  | cancel i target result => exact cancel i target result
  | exit i result => exact exit i result
  | dispatch i => exact dispatch i
  | yieldCpu i => exact yieldCpu i
  | sleep i c => exact sleep i c
  | cancellableSleep i c => exact cancellableSleep i c
  | wakeup c => exact wakeup c
  | broadcast c => exact broadcast c
  | newChannel => exact newChannel
  | setErrno h errno => exact setErrno h errno
  | loadRegisters h registers => exact loadRegisters h registers
  | _ => cases hmanaged

namespace Kernel

variable {P O : Type} [PageSource P] [SlotSource O] {n : Nat} {k k₁ k' : Kernel P O n}
  {call : Call n} {calls before after : List (Call n)} {reply : Reply}

def run : Kernel P O n → List (Call n) → Except Fault (Kernel P O n)
  | k, [] => .ok k
  | k, call :: calls =>
    match (k.perform call).result with
    | .ok (_, k') => run k' calls
    | .error e => .error e

/-- At some point of a run, a call with its reply is as `E` says of the states
before and after it. -/
def Occurs (E : Kernel P O n → Call n → Reply → Kernel P O n → Prop) :
    Kernel P O n → List (Call n) → Prop
  | _, [] => False
  | k, call :: calls =>
    match (k.perform call).result with
    | .ok (reply, k') => E k call reply k' ∨ Occurs E k' calls
    | .error _ => False

instance Occurs.decidable (E : Kernel P O n → Call n → Reply → Kernel P O n → Prop)
    [∀ k call reply k', Decidable (E k call reply k')] (k : Kernel P O n) :
    ∀ calls, Decidable (Occurs E k calls)
  | [] => inferInstanceAs (Decidable False)
  | call :: calls =>
    match h : (k.perform call).result with
    | .ok (reply, k') =>
      have := Occurs.decidable E k' calls
      decidable_of_iff (E k call reply k' ∨ Occurs E k' calls) (by rw [Occurs, h])
    | .error e => isFalse (by rw [Occurs, h]; exact not_false)

theorem run_cons_eq_ok : k.run (call :: calls) = .ok k' ↔
    ∃ reply k₁, (k.perform call).result = .ok (reply, k₁) ∧ k₁.run calls = .ok k' := by
  rw [run]
  cases (k.perform call).result with
  | ok x =>
    obtain ⟨reply, k₁⟩ := x
    simp
  | error e => simp

theorem run_append_eq_ok : k.run (before ++ after) = .ok k' ↔
    ∃ k₁, k.run before = .ok k₁ ∧ k₁.run after = .ok k' := by
  induction before generalizing k with
  | nil => simp [run]
  | cons call before ih =>
    rw [List.cons_append, run_cons_eq_ok]
    constructor
    · rintro ⟨reply, k₂, hcall, hrest⟩
      obtain ⟨k₁, hbefore, hafter⟩ := ih.mp hrest
      exact ⟨k₁, run_cons_eq_ok.mpr ⟨reply, k₂, hcall, hbefore⟩, hafter⟩
    · rintro ⟨k₁, hbefore, hafter⟩
      obtain ⟨reply, k₂, hcall, hbefore⟩ := run_cons_eq_ok.mp hbefore
      exact ⟨reply, k₂, hcall, ih.mpr ⟨k₁, hbefore, hafter⟩⟩

theorem run_concat_eq_ok : k.run (calls ++ [call]) = .ok k' ↔
    ∃ k₁ reply, k.run calls = .ok k₁ ∧ (k₁.perform call).result = .ok (reply, k') := by
  rw [run_append_eq_ok]
  apply exists_congr
  intro k₁
  rw [run_cons_eq_ok]
  simp [run]

theorem run_rest (hrun : k.run (before ++ after) = .ok k') (hbefore : k.run before = .ok k₁) :
    k₁.run after = .ok k' := by
  obtain ⟨k₂, hk₂, hafter⟩ := run_append_eq_ok.mp hrun
  cases hbefore.symm.trans hk₂
  exact hafter

theorem run_tail (hrun : k.run (call :: calls) = .ok k')
    (hcall : (k.perform call).result = .ok (reply, k₁)) : k₁.run calls = .ok k' := by
  obtain ⟨reply', k₂, hcall', hrest⟩ := run_cons_eq_ok.mp hrun
  cases hcall.symm.trans hcall'
  exact hrest

section Occurs
variable {E : Kernel P O n → Call n → Reply → Kernel P O n → Prop}

theorem occurs_append (hrun : k.run before = .ok k₁) :
    Occurs E k (before ++ after) ↔ Occurs E k before ∨ Occurs E k₁ after := by
  induction before generalizing k with
  | nil =>
    cases hrun
    simp [Occurs]
  | cons call before ih =>
    obtain ⟨reply, k₂, hcall, hrest⟩ := run_cons_eq_ok.mp hrun
    simp only [List.cons_append, Occurs, hcall, ih hrest, or_assoc]

theorem occurs_concat (hrun : k.run calls = .ok k₁)
    (hcall : (k₁.perform call).result = .ok (reply, k')) :
    Occurs E k (calls ++ [call]) ↔ Occurs E k calls ∨ E k₁ call reply k' := by
  rw [occurs_append hrun]
  simp [Occurs, hcall]

theorem not_occurs_concat (hrun : k.run calls = .ok k₁)
    (hcall : (k₁.perform call).result = .ok (reply, k')) (hnever : ¬ Occurs E k (calls ++ [call])) :
    ¬ Occurs E k calls ∧ ¬ E k₁ call reply k' := by
  rwa [occurs_concat hrun hcall, not_or] at hnever

/-- What occurs in a run, occurs between one part of it and the rest. -/
theorem occurs_iff : Occurs E k calls ↔
    ∃ before call after k₁ reply k₂, calls = before ++ call :: after ∧ k.run before = .ok k₁ ∧
      (k₁.perform call).result = .ok (reply, k₂) ∧ E k₁ call reply k₂ := by
  constructor
  · intro h
    induction calls generalizing k with
    | nil => cases h
    | cons call calls ih =>
      rw [Occurs] at h
      cases hcall : (k.perform call).result with
      | error e => simp [hcall] at h
      | ok x =>
        obtain ⟨reply, k₂⟩ := x
        rw [hcall] at h
        rcases h with hnow | hlater
        · exact ⟨[], call, calls, k, reply, k₂, rfl, rfl, hcall, hnow⟩
        · obtain ⟨before, call', after, k₃, reply', k₄, rfl, hbefore, hcall', hE⟩ := ih hlater
          exact ⟨call :: before, call', after, k₃, reply', k₄, rfl,
            run_cons_eq_ok.mpr ⟨reply, k₂, hcall, hbefore⟩, hcall', hE⟩
  · rintro ⟨before, call, after, k₁, reply, k₂, rfl, hbefore, hcall, hE⟩
    rw [occurs_append hbefore, Occurs, hcall]
    exact .inr (.inl hE)

end Occurs

/-- What `f` tells of the calls of a run, in their order. -/
def gather {α : Type} (f : Kernel P O n → Call n → Reply → List α) :
    Kernel P O n → List (Call n) → List α
  | _, [] => []
  | k, call :: calls =>
    match (k.perform call).result with
    | .ok (reply, k') => f k call reply ++ gather f k' calls
    | .error _ => []

theorem gather_append {α : Type} {f : Kernel P O n → Call n → Reply → List α}
    (hrun : k.run before = .ok k₁) :
    gather f k (before ++ after) = gather f k before ++ gather f k₁ after := by
  induction before generalizing k with
  | nil =>
    cases hrun
    rfl
  | cons call before ih =>
    obtain ⟨reply, k₂, hcall, hrest⟩ := run_cons_eq_ok.mp hrun
    simp only [List.cons_append, gather, hcall, ih hrest, List.append_assoc]

theorem gather_concat {α : Type} {f : Kernel P O n → Call n → Reply → List α}
    (hrun : k.run calls = .ok k₁) (hcall : (k₁.perform call).result = .ok (reply, k')) :
    gather f k (calls ++ [call]) = gather f k calls ++ f k₁ call reply := by
  rw [gather_append hrun]
  simp [gather, hcall]

/-- How many calls of a run are as `E` says. -/
def count (E : Kernel P O n → Call n → Reply → Bool) (k : Kernel P O n) (calls : List (Call n)) :
    Nat :=
  (gather (fun k call reply => if E k call reply then [call] else []) k calls).length

theorem count_concat {E : Kernel P O n → Call n → Reply → Bool} (hrun : k.run calls = .ok k₁)
    (hcall : (k₁.perform call).result = .ok (reply, k')) :
    count E k (calls ++ [call]) = count E k calls + if E k₁ call reply then 1 else 0 := by
  rw [count, gather_concat hrun hcall, List.length_append]
  split <;> rfl

/-- Induction on a run, call after call. -/
@[elab_as_elim]
theorem run_induction {motive : (k' : Kernel P O n) → (calls : List (Call n)) →
      k.run calls = .ok k' → Prop}
    (start : motive k [] rfl)
    (call : ∀ k₁ calls call reply k' (hbefore : k.run calls = .ok k₁)
      (hcall : (k₁.perform call).result = .ok (reply, k')), motive k₁ calls hbefore →
      motive k' (calls ++ [call]) (run_concat_eq_ok.mpr ⟨k₁, reply, hbefore, hcall⟩))
    (hrun : k.run calls = .ok k') : motive k' calls hrun := by
  induction calls using List.reverseRecOn generalizing k' with
  | nil =>
    cases hrun
    exact start
  | append_singleton calls last ih =>
    obtain ⟨k₁, reply, hbefore, hcall⟩ := run_concat_eq_ok.mp hrun
    exact call k₁ calls last reply k' hbefore hcall (ih hbefore)

/-- Induction on a run of managed calls. -/
@[elab_as_elim]
theorem managed_induction {motive : (k' : Kernel P O n) → (calls : List (Call n)) →
      k.run calls = .ok k' → (∀ call ∈ calls, call.isManaged = true) → Prop}
    (start : motive k [] rfl (List.forall_mem_nil _))
    (call : ∀ k₁ calls call reply k' (hbefore : k.run calls = .ok k₁)
      (hearlier : ∀ call ∈ calls, call.isManaged = true) (hnext : call.isManaged = true)
      (hcall : (k₁.perform call).result = .ok (reply, k')), motive k₁ calls hbefore hearlier →
      motive k' (calls ++ [call]) (run_concat_eq_ok.mpr ⟨k₁, reply, hbefore, hcall⟩)
        (List.forall_mem_append.mpr
          ⟨hearlier, List.forall_mem_cons.mpr ⟨hnext, List.forall_mem_nil _⟩⟩))
    (hrun : k.run calls = .ok k') (hmanaged : ∀ call ∈ calls, call.isManaged = true) :
    motive k' calls hrun hmanaged := by
  induction hrun using run_induction with
  | start => exact start
  | call k₁ calls last reply k' hbefore hcall ih =>
    obtain ⟨hearlier, hnext⟩ := List.forall_mem_append.mp hmanaged
    exact call k₁ calls last reply k' hbefore hearlier (hnext last List.mem_cons_self) hcall
      (ih hearlier)

/-- What holds at the start and survives every call of a run, holds at its end. -/
theorem run_invariant {I : Kernel P O n → Prop} (hrun : k.run calls = .ok k') (hk : I k)
    (hstep : ∀ k call reply k', call ∈ calls → I k →
      (k.perform call).result = .ok (reply, k') → I k') : I k' := by
  induction hrun using run_induction with
  | start => exact hk
  | call k₁ calls call reply k' hbefore hcall ih =>
    refine hstep k₁ call reply k' (by simp) (ih fun k call reply k' hmem => ?_) hcall
    exact hstep k call reply k' (List.mem_append_left _ hmem)

/-- What is seen of the outcome of a run, is seen of a state that the run ends in. -/
theorem run_observe {α : Type} (k : Kernel P O n) (calls : List (Call n)) (f : Kernel P O n → α)
    {a : α} (h : (k.run calls).toOption.map f = some a) :
    ∃ k', k.run calls = .ok k' ∧ f k' = a :=
  observe_ok f h

end Kernel

/-- Six pages at 1 MiB. -/
def Arena.small : Arena where
  base := ⟨0x100000, by decide⟩
  total := 6
  taken := .clear 6
  extents := []
  available := 6

theorem Arena.new_small : (new Arena.small.base 6).result = .ok small := by
  rfl

/-- A kernel on the small arena, with two thread slots and the processors 0 and 1. -/
def Kernel.small : Kernel Arena SlotPool 2 where
  config := ⟨4096⟩
  hooks := .fifo
  exitClearsCpu := true
  pages := .small
  slots := .new 2
  machine := ⟨.new 2, {}, #v[0, 1].map fun id => { id := id }⟩
  processes := .empty
  handoffs := []

theorem Kernel.boot_small :
    (boot ⟨4096⟩ Arena.small (SlotPool.new 2) #v[0, 1]).result = .ok small := by
  rfl

end KernelThreads
