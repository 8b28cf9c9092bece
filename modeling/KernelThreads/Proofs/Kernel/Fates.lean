import KernelThreads.Proofs.Kernel.History
import KernelThreads.Proofs.Thread.Generations

/-!
What one call makes of one handle. The thread behind it is let in, makes progress,
is handed over to the process layer, or is taken out.
-/
namespace KernelThreads.Kernel

variable {P O : Type} {n : Nat} {k k' : Kernel P O n} {call : Call n} {reply : Reply}
  {h : Handle} {x : Handoff}

/-- With this call the thread `t` of `x` ends itself, or is told to end, on the
processor `i` that runs it in its own process, and is handed over. -/
structure HandsOver (x : Handoff) (k : Kernel P O n) (call : Call n) (reply : Reply)
    (k' : Kernel P O n) (i : Fin n) (t : Thread) : Prop where
  call : call = .exit i x.result ∨ call = .cancel i x.thread x.result
  reply : reply = .handoff (some x)
  current : (k.machine.cpu i).thread? = some x.thread
  cpu : (k.machine.cpu i).id = x.cpu
  thread : k.thread? x.thread = some t
  link : t.link = .onCpu x.cpu
  process : t.process = (k.machine.cpu i).process?
  going : t.state ≠ .exited
  ended : k'.thread? x.thread =
    some { t with pending := some x.result, state := .exited, link := .unlinked }
  recorded : k'.handoffs = k.handoffs ++ [x]

def HasExited (k : Kernel P O n) (h : Handle) : Prop :=
  ∃ t, k.thread? h = some t ∧ t.state = .exited

inductive Fate (k : Kernel P O n) (call : Call n) (reply : Reply) (k' : Kernel P O n)
    (h : Handle) : Prop
  | absent (hk : k.thread? h = none) (hk' : k'.thread? h = none)
  | lives {t u : Thread} (ht : k.thread? h = some t) (hu : k'.thread? h = some u)
      (hbecomes : t.Becomes u)
  | born {u : Thread} {g : UInt32} (hk : k.thread? h = none) (hu : k'.thread? h = some u)
      (hstate : u.state ≠ .exited) (hg : k.machine.threads.generation? h.slot.toNat = some g)
      (hnext : h.generation = g + 1)
      (hg' : k'.machine.threads.generation? h.slot.toNat = some (g + 1))
  | ends {t : Thread} {x : Handoff} {i : Fin n} (hx : HandsOver x k call reply k' i t)
      (hthread : x.thread = h)
  | leaves {t : Thread} (hcall : call = .destroy h) (ht : k.thread? h = some t)
      (hk' : k'.thread? h = none)

theorem Fate.ofContinues (hk : k.Continues k') (h : Handle) : k.Fate call reply k' h := by
  rcases Registry.rel_cases (hk.machine.threads.get? h) with ⟨hr, hs⟩ | ⟨t, u, ht, hu, hbecomes⟩
  · exact .absent hr hs
  · exact .lives ht hu hbecomes

theorem Fate.ofSame (hsame : k'.thread? h = k.thread? h) : k.Fate call reply k' h := by
  cases ht : k.thread? h with
  | none => exact .absent ht (hsame.trans ht)
  | some t => exact .lives ht (hsame.trans ht) (.refl t)

theorem handsOver_exit {i : Fin n} {result : UInt64}
    (hcall : call = .exit i result ∨ call = .cancel i h result)
    (hcpu : (k.machine.cpu i).thread? = some h)
    (hexit : (k.exit i result).result = .ok (x, k')) :
    ∃ t u, HandsOver x k call (.handoff (some x)) k' i t ∧ x.thread = h ∧
      k'.machine.threads = k.machine.threads.set h u := by
  obtain ⟨g, t, u, hg, ht, hlink, hprocess, hfinish, rfl, rfl⟩ := exit_eq_ok.mp hexit
  cases hg.symm.trans hcpu
  obtain ⟨hstate, rfl⟩ := Thread.finish_eq_ok.mp hfinish
  refine ⟨t, _, ⟨hcall, rfl, hcpu, rfl, ht, hlink, hprocess, hstate, ?_, rfl⟩, rfl,
    ended_threads ..⟩
  rw [thread?, ended_threads, Registry.get?_set_live ht, if_pos rfl]

theorem HandsOver.hasExited {i : Fin n} {t : Thread} (hx : HandsOver x k call reply k' i t) :
    k'.HasExited x.thread := ⟨_, hx.ended, rfl⟩

/-- Nothing but its destruction changes a thread that has exited. -/
theorem Fate.rests {t : Thread} (hfate : k.Fate call reply k' h) (ht : k.thread? h = some t)
    (hend : t.state = .exited) (hcall : call ≠ .destroy h) :
    ∃ u, k'.thread? h = some u ∧ t.Unmoved u := by
  cases hfate with
  | absent hk _ => cases hk.symm.trans ht
  | lives hs hu hbecomes =>
    cases hs.symm.trans ht
    exact ⟨_, hu, hbecomes.unmoved hend⟩
  | born hk _ _ _ _ _ => cases hk.symm.trans ht
  | ends hx hthread =>
    subst hthread
    cases hx.thread.symm.trans ht
    exact absurd hend hx.going
  | leaves hdestroy _ _ => exact absurd hdestroy hcall

theorem Fate.hasExited (hfate : k.Fate call reply k' h) (hk : k.HasExited h) :
    k'.HasExited h ∨ call = .destroy h := by
  obtain ⟨t, ht, hend⟩ := hk
  apply or_iff_not_imp_right.mpr
  intro hcall
  obtain ⟨u, hu, hunmoved⟩ := hfate.rests ht hend hcall
  exact ⟨u, hu, hunmoved.state.trans hend⟩

/-- Who has exited had done so before, or is handed over now. -/
theorem Fate.of_hasExited (hfate : k.Fate call reply k' h) (hk' : k'.HasExited h) :
    k.HasExited h ∨ ∃ x i t, HandsOver x k call reply k' i t ∧ x.thread = h := by
  obtain ⟨u, hu, hend⟩ := hk'
  cases hfate with
  | absent _ hnone => cases hnone.symm.trans hu
  | lives ht hv hbecomes =>
    cases hv.symm.trans hu
    exact .inl ⟨_, ht, hbecomes.exited hend⟩
  | born _ hv hstate _ _ _ =>
    cases hv.symm.trans hu
    exact absurd hend hstate
  | ends hx hthread => exact .inr ⟨_, _, _, hx, hthread⟩
  | leaves _ _ hnone => cases hnone.symm.trans hu

variable [PageSource P] [SlotSource O]

theorem Transition.fate (hcapacity : k.machine.threads.capacity ≤ UInt32.size)
    (hk : k.Transition call reply k') (h : Handle) : k.Fate call reply k' h := by
  cases hk with
  | quiet hcontinues hreply => exact .ofContinues hcontinues h
  | opened => exact .ofSame rfl
  | refused hreserve => exact .ofSame (reserve_thread? hreserve h)
  | @made _ t k₁ k₂ _ hreserve hstate hlink hhouse hrest =>
    have hvacant := (reserve_thread? hreserve t.id).symm.trans (house_vacant hhouse)
    obtain ⟨slot, hissue⟩ := reserve_issued hreserve
    obtain ⟨s, hinsert, hk₂⟩ := house_eq_ok.mp hhouse
    by_cases hid : t.id = h
    · subst hid
      obtain ⟨u, hu, hbecomes⟩ := hrest.machine.thread (house_thread hhouse)
      obtain ⟨g, hg, hnext, hg₁⟩ := Registry.generation?_issue hissue hcapacity
      refine .born hvacant hu (fun hend => ?_) hg hnext ?_
      · cases hstate.symm.trans (hbecomes.exited hend)
      · rw [hrest.machine.threads.generation?_eq, hk₂, Registry.generation?_insert hinsert, hg₁]
    · have hsame : k₂.thread? h = k.thread? h := by
        rw [← reserve_thread? hreserve h, hk₂]
        exact (Registry.get?_insert hinsert h).trans (if_neg hid)
      rcases Registry.rel_cases (hrest.machine.threads.get? h) with
        ⟨hr, hs⟩ | ⟨v, u, hv, hu, hbecomes⟩
      · exact .absent (hsame.symm.trans hr) hs
      · exact .lives (hsame.symm.trans hv) hu hbecomes
  | @destroyed g _ hdestroy =>
    obtain ⟨t, ht, -, -, hk'⟩ := destroy_frame hdestroy
    have hthread : k'.thread? h = if g = h then none else k.thread? h := by
      rw [hk']
      exact Registry.get?_erase _ g h
    by_cases hg : g = h
    · subst hg
      exact .leaves rfl ht (hthread.trans (if_pos rfl))
    · exact .ofSame (hthread.trans (if_neg hg))
  | @ended _ i g result x _ hcall hcpu hexit =>
    obtain ⟨t, u, hx, rfl, hthreads⟩ := handsOver_exit hcall hcpu hexit
    by_cases hg : x.thread = h
    · exact .ends hx hg
    · apply Fate.ofSame
      rw [thread?, hthreads, Registry.get?_set_live hx.thread, if_neg hg]
      rfl

/-- The record grows by whom a call hands over, and by nobody else. -/
theorem Transition.handoffs (hk : k.Transition call reply k') :
    k'.handoffs = k.handoffs ∨ ∃ x i t, HandsOver x k call reply k' i t := by
  cases hk with
  | quiet hcontinues hreply => exact .inl hcontinues.handoffs
  | opened => exact .inl rfl
  | refused hreserve => exact .inl (reserve_handoffs hreserve)
  | made hreserve hstate hlink hhouse hrest =>
    obtain ⟨s, -, hk₂⟩ := house_eq_ok.mp hhouse
    exact .inl ((hrest.handoffs.trans (by rw [hk₂])).trans (reserve_handoffs hreserve))
  | destroyed hdestroy =>
    obtain ⟨t, -, -, -, hk'⟩ := destroy_frame hdestroy
    rw [hk']
    exact .inl rfl
  | ended hcall hcpu hexit =>
    obtain ⟨t, -, hx, -⟩ := handsOver_exit hcall hcpu hexit
    exact .inr ⟨_, _, t, hx⟩

theorem Transition.mem_record (hk : k.Transition call reply k') :
    x ∈ k'.handoffs ↔ x ∈ k.handoffs ∨ ∃ i t, HandsOver x k call reply k' i t := by
  constructor
  · intro hx
    rcases hk.handoffs with hsame | ⟨y, i, t, hy⟩
    · exact .inl (hsame ▸ hx)
    · rw [hy.recorded] at hx
      rcases List.mem_append.mp hx with hold | hnew
      · exact .inl hold
      · cases List.mem_singleton.mp hnew
        exact .inr ⟨i, t, hy⟩
  · rintro (hold | ⟨i, t, hx⟩)
    · rcases hk.handoffs with hsame | ⟨y, i, t, hy⟩
      · exact hsame ▸ hold
      · rw [hy.recorded]
        exact List.mem_append_left _ hold
    · rw [hx.recorded]
      exact List.mem_append_right _ (List.mem_singleton_self x)

theorem Transition.mem_handoffs (hk : k.Transition call reply k') :
    h ∈ k'.handoffs.map (·.thread) ↔ h ∈ k.handoffs.map (·.thread) ∨
      ∃ x i t, HandsOver x k call reply k' i t ∧ x.thread = h := by
  simp only [List.mem_map, hk.mem_record]
  constructor
  · rintro ⟨x, hold | ⟨i, t, hx⟩, hthread⟩
    · exact .inl ⟨x, hold, hthread⟩
    · exact .inr ⟨x, i, t, hx, hthread⟩
  · rintro (⟨x, hold, hthread⟩ | ⟨x, i, t, hx, hthread⟩)
    · exact ⟨x, .inl hold, hthread⟩
    · exact ⟨x, .inr ⟨i, t, hx⟩, hthread⟩

theorem Transition.capacity_eq (hk : k.Transition call reply k') :
    k'.machine.threads.capacity = k.machine.threads.capacity := by
  cases hk with
  | quiet hcontinues hreply => exact hcontinues.machine.threads.capacity_eq
  | opened => rfl
  | refused hreserve => exact reserve_capacity hreserve
  | made hreserve hstate hlink hhouse hrest =>
    obtain ⟨s, hinsert, rfl⟩ := house_eq_ok.mp hhouse
    obtain ⟨-, rfl⟩ := Registry.insert_eq_ok.mp hinsert
    rw [hrest.machine.threads.capacity_eq, Registry.capacity_modify, reserve_capacity hreserve]
  | destroyed hdestroy =>
    obtain ⟨t, -, -, -, hk'⟩ := destroy_frame hdestroy
    rw [hk']
    exact Registry.capacity_modify ..
  | ended hcall hcpu hexit =>
    obtain ⟨t, u, -, -, hthreads⟩ := handsOver_exit hcall hcpu hexit
    rw [hthreads]
    exact Registry.capacity_modify ..

end KernelThreads.Kernel
