import KernelThreads.Kernel.Interleaving

/-!
The steps of a call, one after the other. A call that is left alone ends as `perform`
does, so what is split into steps is the call itself.
-/
namespace KernelThreads

open Logged (ensure result_pure result_bind)

/-- What is left of a call. -/
def Stage.tasks : Stage → List Task
  | .replied _ => []
  | .pending task => [task]

namespace Kernel
variable {P O : Type} [PageSource P] [SlotSource O] {n : Nat} (k : Kernel P O n)

/-- Reserves for a planned thread and lets it in. -/
def make (plan : Plan) : Logged (Except Exhausted Handle × Kernel P O n) := do
  let (reserved, k) ← k.reserve
  match reserved with
  | .error e => return (.error e, k)
  | .ok (h, stack) =>
    let k ← k.realize h stack plan
    return (.ok h, k)

theorem create_result (pid : ProcessId) (entry : EntryPoint) (arg1 : Int64) (arg2 : UInt64) :
    (k.create pid entry arg1 arg2).result =
      (k.processes.find pid).result.bind fun p =>
        (ensure (p.phase.acceptsThreads = true) (.createdInClosed pid p.phase)).result.bind
          fun _ => (k.make (.start pid p.directory entry arg1 arg2)).result := by
  simp only [create, make, result_bind, Except.bind]
  cases (k.processes.find pid).result with
  | error e => rfl
  | ok p =>
    simp only
    cases (ensure (p.phase.acceptsThreads = true) (.createdInClosed pid p.phase)).result with
    | error e => rfl
    | ok u =>
      simp only
      cases k.reserve.result with
      | error e => rfl
      | ok x =>
        obtain ⟨r, k₁⟩ := x
        cases r with
        | error e => rfl
        | ok r =>
          obtain ⟨h, stack⟩ := r
          simp only [realize, result_bind, Logged.liftM_eq]
          cases (Logged.ofAddress (Context.start entry arg1 arg2 stack p.directory)).result with
          | error e => rfl
          | ok context =>
            simp only [Except.bind]
            cases (k₁.publish pid { id := h, process := some pid, stack, context }).result <;> rfl

theorem clone_result (source : Handle) :
    (k.clone source).result =
      (k.sample source).result.bind fun t => (k.make (.copy source t)).result := by
  simp only [clone, make, result_bind, Except.bind]
  cases (k.sample source).result with
  | error e => rfl
  | ok t =>
    simp only
    cases k.reserve.result with
    | error e => rfl
    | ok x =>
      obtain ⟨r, k₁⟩ := x
      cases r with
      | error e => rfl
      | ok r =>
        obtain ⟨h, stack⟩ := r
        simp only [realize, result_bind, Logged.liftM_eq]
        cases (Logged.ofAddress (Context.empty stack)).result with
        | error e => rfl
        | ok context =>
          simp only [Except.bind]
          cases (k₁.house (t.copy h stack context)).result <;> rfl

end Kernel

namespace Traffic

variable {P O : Type} [PageSource P] [SlotSource O] {n : Nat} (k : Kernel P O n)

theorem run_call (call : Call n) (actions : List (Action n)) :
    run { kernel := k } (.call call :: actions) =
      (k.enter call).result.bind fun x => run { kernel := x.2, tasks := x.1.tasks } actions := by
  simp only [run, step, result_bind]
  cases (k.enter call).result with
  | error e => rfl
  | ok x =>
    obtain ⟨stage, k'⟩ := x
    cases stage <;> rfl

theorem run_advance (task : Task) (actions : List (Action n)) :
    run { kernel := k, tasks := [task] } (.advance 0 :: actions) =
      (k.advance task).result.bind fun x => run { kernel := x.2, tasks := x.1.tasks } actions := by
  simp only [run, step, List.getElem?_cons_zero, result_bind]
  cases (k.advance task).result with
  | error e => rfl
  | ok x =>
    obtain ⟨stage, k'⟩ := x
    cases stage <;> rfl

theorem run_idle (m : Nat) :
    run { kernel := k } (List.replicate m (.advance 0)) = .ok { kernel := k } := by
  induction m with
  | zero => rfl
  | succ m ih => exact ih

theorem run_evicted (h : Handle) (t : Thread) (m : Nat) :
    run { kernel := k, tasks := [.evicted h t] } (List.replicate (m + 2) (.advance 0)) =
      ((k.delist h t.process).returnStack t.stack).result.map ({ kernel := · }) := by
  rw [List.replicate_succ, run_advance, List.replicate_succ]
  change run { kernel := k.delist h t.process, tasks := [.delisted h t.stack] } _ = _
  rw [run_advance]
  simp only [Kernel.advance, result_bind]
  cases ((k.delist h t.process).returnStack t.stack).result with
  | error e => rfl
  | ok k' => exact run_idle k' m

theorem run_equipped (plan : Plan) (h : Handle) (stack : Stack) :
    run { kernel := k, tasks := [.equipped plan h stack] } [.advance 0] =
      (k.realize h stack plan).result.map ({ kernel := · }) := by
  rw [run_advance]
  simp only [Kernel.advance, result_bind]
  cases (k.realize h stack plan).result <;> rfl

theorem run_refused (h : Handle) (e : Exhausted) :
    run { kernel := k, tasks := [.refused h e] } [.advance 0] =
      (k.returnSlot h).result.map ({ kernel := · }) := by
  rw [run_advance]
  simp only [Kernel.advance, result_bind]
  cases (k.returnSlot h).result <;> rfl

/-- A planned thread that nothing comes in between is made. -/
theorem run_admitted (plan : Plan) :
    run { kernel := k, tasks := [.admitted plan] } (List.replicate 4 (.advance 0)) =
      (k.make plan).result.map fun x => { kernel := x.2 } := by
  rw [List.replicate_succ, run_advance]
  simp only [Kernel.advance, Kernel.make, Kernel.reserve, result_bind]
  cases k.takeSlot.result with
  | error e => rfl
  | ok x =>
    obtain ⟨slot?, k₁⟩ := x
    cases slot? with
    | none => rfl
    | some slot =>
      change run { kernel := k₁, tasks := [.slotted plan slot] } (List.replicate 3 (.advance 0)) = _
      rw [List.replicate_succ, run_advance]
      simp only [Kernel.advance, Except.bind, result_bind]
      cases (k₁.issueHandle slot).result with
      | error e => rfl
      | ok x =>
        obtain ⟨h, k₂⟩ := x
        change run { kernel := k₂, tasks := [.named plan h] } (List.replicate 2 (.advance 0)) = _
        rw [List.replicate_succ, run_advance]
        simp only [Kernel.advance, Except.bind, result_bind]
        cases k₂.takeStack.result with
        | error e => rfl
        | ok x =>
          obtain ⟨stack?, k₃⟩ := x
          cases stack? with
          | error e =>
            refine (run_refused k₃ h e).trans ?_
            simp only [result_bind]
            cases (k₃.returnSlot h).result <;> rfl
          | ok stack =>
            refine (run_equipped k₃ plan h stack).trans ?_
            simp only [result_pure, result_bind]
            cases (k₃.realize h stack plan).result <;> rfl

/-- A call that no other comes in between ends as `perform` does. -/
theorem run_alone (call : Call n) :
    run { kernel := k } (.call call :: List.replicate 4 (.advance 0)) =
      (k.perform call).result.map fun x => { kernel := x.2 } := by
  rw [run_call]
  cases call with
  | create pid entry arg1 arg2 =>
    simp only [Kernel.enter, Kernel.perform, result_bind, Kernel.create_result]
    cases (k.processes.find pid).result with
    | error e => rfl
    | ok p =>
      simp only [Except.bind]
      cases (ensure (p.phase.acceptsThreads = true) (.createdInClosed pid p.phase)).result with
      | error e => rfl
      | ok u =>
        refine (run_admitted k (.start pid p.directory entry arg1 arg2)).trans ?_
        simp only
        cases (k.make (.start pid p.directory entry arg1 arg2)).result <;> rfl
  | clone source =>
    simp only [Kernel.enter, Kernel.perform, result_bind, Kernel.clone_result]
    cases (k.sample source).result with
    | error e => rfl
    | ok t =>
      refine (run_admitted k (.copy source t)).trans ?_
      simp only [Except.bind]
      cases (k.make (.copy source t)).result <;> rfl
  | destroy h =>
    simp only [Kernel.enter, Kernel.perform, Kernel.done, Kernel.destroy, result_bind]
    cases (k.evict h).result with
    | error e => rfl
    | ok x =>
      obtain ⟨t, k₁⟩ := x
      refine (run_evicted k₁ h t 2).trans ?_
      simp only [Except.bind]
      cases ((k₁.delist h t.process).returnStack t.stack).result <;> rfl
  | _ =>
    simp only [Kernel.enter, result_bind]
    generalize (k.perform _).result = x
    cases x <;> rfl

end Traffic

end KernelThreads
