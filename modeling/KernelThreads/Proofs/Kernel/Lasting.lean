import KernelThreads.Proofs.Kernel.History

/-!
What all live threads of a run have in common, from what every new thread has and
no step of a thread loses.
-/
namespace KernelThreads

variable {P O : Type} {n : Nat} {k₀ k k' : Kernel P O n} {call : Call n} {calls : List (Call n)}
  {reply : Reply} {h : Handle} {t u : Thread} {hooks : Hooks} {R : Thread → Thread → Prop}

/-- Threads are made with `I`, by either way of making them, and keep it in all that is
done to them, a block past the scheduler apart. -/
structure Thread.Lasting (hooks : Hooks) (I : Thread → Prop) : Prop where
  move : ∀ t u, t.Move hooks u → I t → I u
  created : ∀ (h : Handle) (pid : ProcessId) (stack : Stack) (context : Context) (q r : Queues)
    (u : Thread), (hooks.makeRunnable q { id := h, process := some pid, stack, context }).result =
      .ok (u, r) → I u
  copied : ∀ (t : Thread) (h : Handle) (stack : Stack) (context : Context),
    t.state = .runnable → I t → I (t.copy h stack context)
  finished : ∀ (t u : Thread) (result : UInt64), (t.finish result).result = .ok u → I t → I u

namespace Kernel

/-- Every live thread has `I`. -/
def All (I : Thread → Prop) (k : Kernel P O n) : Prop := ∀ h t, k.thread? h = some t → I t

namespace All
variable {I : Thread → Prop}

theorem congr (hk : k.All I) (hsame : ∀ h, k'.thread? h = k.thread? h) : k'.All I :=
  fun h t ht => hk h t ((hsame h).symm.trans ht)

theorem carries (hk : k.All I) (hR : ∀ t u, R t u → I t → I u)
    (hcarries : k.machine.Carries R k'.machine) : k'.All I := by
  intro h u hu
  rcases Registry.rel_cases (hcarries.threads.get? h) with ⟨-, hnone⟩ | ⟨t, u', ht, hu', hsteps⟩
  · cases hnone.symm.trans hu
  · cases hu'.symm.trans hu
    have hstart := hk h t ht
    clear ht hu hu'
    induction hsteps with
    | refl => exact hstart
    | tail _ hstep ih => exact hR _ _ hstep ih

/-- Where one slot gets a new content, that content and the other threads have to have `I`. -/
theorem change (o : Option Thread) (hget : ∀ g, k'.thread? g = if h = g then o else k.thread? g)
    (hothers : ∀ g t, g ≠ h → k.thread? g = some t → I t) (ho : ∀ u, o = some u → I u) :
    k'.All I := by
  intro g u hu
  rw [hget] at hu
  by_cases hg : h = g
  · rw [if_pos hg] at hu
    exact ho u hu
  · rw [if_neg hg] at hu
    exact hothers g u (Ne.symm hg) hu

theorem update (hk : k.All I) (o : Option Thread)
    (hget : ∀ g, k'.thread? g = if h = g then o else k.thread? g) (ho : ∀ u, o = some u → I u) :
    k'.All I :=
  .change o hget (fun g t _ ht => hk g t ht) ho

theorem house (hk : k.All I) (hhouse : (k.house t).result = .ok k') (ht : I t) : k'.All I := by
  refine hk.update (some t) (house_thread? hhouse) fun u hu => ?_
  cases hu
  exact ht

variable [PageSource P] [SlotSource O]

theorem turn (hk : k.All I) (hlasting : Thread.Lasting k.hooks I) (hturn : k.Turn call reply k')
    (hblock : ∀ h c cancellable, call = .block h c cancellable →
      ∀ t u, (t.block c cancellable).result = .ok u → I t → I u) : k'.All I := by
  cases hturn with
  | quiet hcall hproceeds hreply => exact hk.carries hlasting.move hproceeds.machine
  | blocked hproceeds => exact hk.carries (hblock _ _ _ rfl) hproceeds.machine
  | opened => exact hk.congr fun _ => rfl
  | refused hcall hreserve => exact hk.congr (reserve_thread? hreserve)
  | @created _ _ _ _ h stack context k₁ k₂ _ hreserve hhouse henlist =>
    -- the new thread has no place until it is enlisted, so the two steps are one here
    obtain ⟨u, q, r, hq, hget⟩ := enlist_thread? (house_thread hhouse) henlist
    have hhooks := (house_hooks hhouse).trans (reserve_hooks hreserve)
    have hcreated (g : Handle) : k'.thread? g = if h = g then some u else k.thread? g := by
      rw [hget, house_thread? hhouse, reserve_thread? hreserve]
      split <;> rfl
    refine hk.update (some u) hcreated fun v hv => ?_
    cases hv
    exact hlasting.created _ _ _ _ _ _ _ (hhooks ▸ hq)
  | cloned ht hstate hreserve hhouse =>
    have hreserved := hk.congr (reserve_thread? hreserve)
    exact hreserved.house hhouse (hlasting.copied _ _ _ _ hstate (hk _ _ ht))
  | destroyed hdestroy =>
    exact hk.update none (destroy_thread? hdestroy) fun u hu => nomatch hu
  | ended hcall hcpu hexit =>
    obtain ⟨h, t, u, -, ht, -, -, hfinish, -, rfl⟩ := exit_eq_ok.mp hexit
    refine hk.update (some u) (ended_thread? ht _ _) fun v hv => ?_
    cases hv
    exact hlasting.finished t u _ hfinish (hk h t ht)

theorem run {config : StackConfig} {pages : P} {slots : O} {ids : Vector UInt32 n}
    {exitClearsCpu : Bool} (hlasting : Thread.Lasting hooks I)
    (hboot : (boot config pages slots ids hooks exitClearsCpu).result = .ok k₀)
    (hrun : k₀.run calls = .ok k)
    (hblock : ∀ h c cancellable, .block h c cancellable ∈ calls →
      ∀ t u, (t.block c cancellable).result = .ok u → I t → I u) : k.All I := by
  have hnamed := named_boot hboot
  have hhooks : k₀.hooks = hooks := by
    obtain ⟨-, rfl⟩ := boot_eq_ok.mp hboot
    rfl
  have hfresh : k₀.All I := by
    intro h t ht
    obtain ⟨-, rfl⟩ := boot_eq_ok.mp hboot
    cases (Registry.get?_new _ h).symm.trans ht
  induction hrun using run_induction with
  | start => exact hfresh
  | call k calls call reply k' hbefore hcall ih =>
    have hk := ih fun h c cancellable hmem => hblock h c cancellable (List.mem_append_left _ hmem)
    have hsame : k.hooks = hooks := (settings_run hnamed hbefore).2.1.trans hhooks
    refine hk.turn (hsame ▸ hlasting) (perform_turn (named_run hnamed hbefore) hcall) ?_
    rintro h c cancellable rfl
    exact hblock h c cancellable (List.mem_append_right _ (List.mem_singleton_self _))

end All

variable [PageSource P] [SlotSource O]

/-- Who is live and is not destroyed by a call stays live. -/
theorem Transition.stays (hk : k.Transition call reply k') (ht : k.thread? h = some t)
    (hcall : call ≠ .destroy h) :
    ∃ u, k'.thread? h = some u ∧ (t.Becomes u ∨ ∃ result, (t.finish result).result = .ok u) := by
  cases hk with
  | quiet hcontinues hreply =>
    obtain ⟨u, hu, hbecomes⟩ := hcontinues.machine.thread ht
    exact ⟨u, hu, .inl hbecomes⟩
  | opened => exact ⟨t, ht, .inl (.refl t)⟩
  | refused hreserve => exact ⟨t, (reserve_thread? hreserve h).trans ht, .inl (.refl t)⟩
  | @made _ v k₁ k₂ _ hreserve hstate hlink hhouse hrest =>
    have hreserved := (reserve_thread? hreserve h).trans ht
    have hother : v.id ≠ h := by
      rintro rfl
      cases (house_vacant hhouse).symm.trans hreserved
    have hhoused := (house_thread? hhouse h).trans ((if_neg hother).trans hreserved)
    obtain ⟨u, hu, hbecomes⟩ := hrest.machine.thread hhoused
    exact ⟨u, hu, .inl hbecomes⟩
  | @destroyed g _ hdestroy =>
    have hother : g ≠ h := by
      rintro rfl
      exact hcall rfl
    exact ⟨t, (destroy_thread? hdestroy h).trans ((if_neg hother).trans ht), .inl (.refl t)⟩
  | ended hcall' hcpu hexit =>
    obtain ⟨g, v, u, -, hv, -, -, hfinish, -, rfl⟩ := exit_eq_ok.mp hexit
    rw [ended_thread? hv]
    by_cases hg : g = h
    · subst hg
      cases hv.symm.trans ht
      exact ⟨u, if_pos rfl, .inr ⟨_, hfinish⟩⟩
    · exact ⟨t, (if_neg hg).trans ht, .inl (.refl t)⟩

end Kernel

end KernelThreads
