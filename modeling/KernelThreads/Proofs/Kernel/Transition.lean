import KernelThreads.Proofs.Kernel.Turns

/-!
What one call can do to a kernel. Most calls only let threads make progress; the
others open a channel, reserve what a thread needs, let a thread in, take one out
or hand one over.
-/
namespace KernelThreads.Kernel

variable {P O : Type} {n : Nat} {k k₁ k' : Kernel P O n} {t u : Thread} {pid : ProcessId}
  {reply : Reply} {R : Thread → Thread → Prop}

/-- Nothing is taken or given back, nobody exits, and threads make progress. -/
def Continues (k k' : Kernel P O n) : Prop := k.Proceeds Thread.Step k'

theorem Proceeds.continues (hk : k.Proceeds R k') (hR : ∀ t u, R t u → t.Becomes u) :
    k.Continues k' := { hk with machine := hk.machine.evolves hR }

theorem Continues.machine (hk : k.Continues k') : k.machine.Evolves k'.machine :=
  Proceeds.machine hk

theorem Continues.refl (k : Kernel P O n) : k.Continues k :=
  Proceeds.ofProcesses k k.processes

theorem Continues.enlist (ht : k.thread? t.id = some t)
    (hk : (k.enlist pid t).result = .ok k') : k.Continues k' := by
  obtain ⟨p, v, q, -, -, hq, rfl⟩ := enlist_eq_ok.mp hk
  obtain ⟨hv, hsize⟩ := Hooks.makeRunnable_shifts hq
  exact (Proceeds.ofMachine (.put ht hv hsize) _).continues fun _ _ => Thread.Shift.becomes

variable [PageSource P] [SlotSource O] {call : Call n}

inductive Transition (k : Kernel P O n) : Call n → Reply → Kernel P O n → Prop
  | quiet {call : Call n} {reply : Reply} {k' : Kernel P O n} (hk : k.Continues k')
      (hreply : reply.isPlain = true) : Transition k call reply k'
  | opened : Transition k .newChannel (.channel k.machine.queues.newChannel.1)
      { k with machine := { k.machine with queues := k.machine.queues.newChannel.2 } }
  | refused {call : Call n} {e : Exhausted} {k' : Kernel P O n}
      (hreserve : k.reserve.result = .ok (.error e, k')) : Transition k call (.made (.error e)) k'
  | made {call : Call n} {t : Thread} {k₁ k₂ k' : Kernel P O n}
      (hreserve : k.reserve.result = .ok (.ok (t.id, t.stack), k₁))
      (hstate : t.state = .runnable) (hlink : t.link = .unlinked)
      (hhouse : (k₁.house t).result = .ok k₂) (hrest : k₂.Continues k') :
      Transition k call (.made (.ok t.id)) k'
  | destroyed {h : Handle} {k' : Kernel P O n} (hdestroy : (k.destroy h).result = .ok k') :
      Transition k (.destroy h) .done k'
  | ended {call : Call n} {i : Fin n} {h : Handle} {result : UInt64} {x : Handoff}
      {k' : Kernel P O n} (hcall : call = .exit i result ∨ call = .cancel i h result)
      (hcpu : (k.machine.cpu i).thread? = some h)
      (hexit : (k.exit i result).result = .ok (x, k')) : Transition k call (.handoff (some x)) k'

theorem Turn.transition (hk : k.Turn call reply k') : k.Transition call reply k' := by
  cases hk with
  | quiet hcall hk hreply => exact .quiet (hk.continues fun _ _ => Thread.Move.becomes) hreply
  | blocked hk =>
    exact .quiet (hk.continues fun _ _ hblock => (Thread.Step.block hblock).becomes) rfl
  | opened => exact .opened
  | refused hcall hreserve => exact .refused hreserve
  | @created pid _ _ _ h stack context _ _ _ hreserve hhouse henlist =>
    exact .made (t := { id := h, process := some pid, stack, context }) hreserve rfl rfl hhouse
      (.enlist (house_thread hhouse) henlist)
  | @cloned _ h t stack context _ _ ht hstate hreserve hhouse =>
    exact .made (t := t.copy h stack context) hreserve rfl rfl hhouse (.refl k')
  | destroyed hdestroy => exact .destroyed hdestroy
  | ended hcall hcpu hexit => exact .ended hcall hcpu hexit

/-- Every call that returns is one of the transitions. -/
theorem perform_transition (hk : k.machine.threads.Named)
    (hcall : (k.perform call).result = .ok (reply, k')) : k.Transition call reply k' :=
  (perform_turn hk hcall).transition

end KernelThreads.Kernel
