import KernelThreads.Proofs.Kernel.Fates
import Mathlib.Data.List.Nodup

/-!
Exits over a run of any calls. Each thread that ends is handed over once, stays as
it is until it is destroyed, and nobody else ends.
-/
namespace KernelThreads.Kernel

variable {P O : Type} {n : Nat} {k₀ k k' : Kernel P O n} {call : Call n} {calls : List (Call n)}
  {reply : Reply} {h : Handle} {t : Thread}

/-- Some slot of the kernel comes back to an earlier generation. -/
def Wraps (k : Kernel P O n) (_ : Call n) (_ : Reply) (k' : Kernel P O n) : Prop :=
  k.machine.threads.Wraps k'.machine.threads

instance Wraps.decidable (k : Kernel P O n) (call : Call n) (reply : Reply) (k' : Kernel P O n) :
    Decidable (k.Wraps call reply k') :=
  inferInstanceAs (Decidable (k.machine.threads.Wraps k'.machine.threads))

/-- The record lists, each once, threads that have been there and have ended for good. -/
structure Recorded (k : Kernel P O n) : Prop where
  named : k.machine.threads.Named
  bound : k.machine.threads.capacity ≤ UInt32.size
  issued : ∀ x ∈ k.handoffs, k.machine.threads.Issued x.thread
  ended : ∀ x ∈ k.handoffs, ∀ t, k.thread? x.thread = some t → t.state = .exited
  once : (k.handoffs.map (·.thread)).Nodup

namespace Recorded

theorem boot [SlotSource O] {config : StackConfig} {pages : P} {slots : O} {ids : Vector UInt32 n}
    {hooks : Hooks} {exitClearsCpu : Bool} (hcapacity : SlotSource.capacity slots ≤ UInt32.size)
    (hboot : (boot config pages slots ids hooks exitClearsCpu).result = .ok k) : k.Recorded := by
  have hnamed := named_boot hboot
  obtain ⟨-, rfl⟩ := boot_eq_ok.mp hboot
  refine ⟨hnamed, ?_, by simp, by simp, List.nodup_nil⟩
  rwa [Registry.capacity, Registry.new, Array.size_replicate]

/-- A thread on the record does not come back under its handle. -/
theorem stays_ended {x : Handoff} (hk : k.Recorded) (hx : x ∈ k.handoffs)
    (hfate : k.Fate call reply k' x.thread) (hwraps : ¬ k.Wraps call reply k')
    (ht : k'.thread? x.thread = some t) : t.state = .exited := by
  cases hfate with
  | absent _ hk' => cases hk'.symm.trans ht
  | lives hs hu hbecomes =>
    cases hu.symm.trans ht
    have hend := hk.ended x hx _ hs
    exact (hbecomes.unmoved hend).state.trans hend
  | born _ _ _ hg hnext hg' =>
    exact absurd (hk.issued x hx) (Registry.not_issued hg hnext hg' hwraps)
  | ends hy hthread =>
    rw [← hthread, hy.ended] at ht
    cases ht
    rfl
  | leaves _ _ hk' => cases hk'.symm.trans ht

variable [PageSource P] [SlotSource O]

theorem perform (hk : k.Recorded) (hcall : (k.perform call).result = .ok (reply, k'))
    (hwraps : ¬ k.Wraps call reply k') : k'.Recorded := by
  have htransition := perform_transition hk.named hcall
  have hcapacity := htransition.capacity_eq
  refine ⟨htransition.named hk.named, hcapacity ▸ hk.bound, ?_, ?_, ?_⟩
  · intro x hx
    rcases htransition.mem_record.mp hx with hold | ⟨i, t, hnew⟩
    · exact (hk.issued x hold).mono hcapacity hwraps
    · exact Registry.issued_of_live hnew.ended
  · intro x hx u hu
    rcases htransition.mem_record.mp hx with hold | ⟨i, t, hnew⟩
    · exact hk.stays_ended hold (htransition.fate hk.bound x.thread) hwraps hu
    · cases hnew.ended.symm.trans hu
      rfl
  · rcases htransition.handoffs with hsame | ⟨y, i, t, hy⟩
    · rw [hsame]
      exact hk.once
    · -- a thread on the record does not run, so it is not handed over again
      have hnew : y.thread ∉ k.handoffs.map (·.thread) := by
        intro hold
        obtain ⟨x, hx, hsame⟩ := List.mem_map.mp hold
        exact hy.going (hk.ended x hx t (hsame ▸ hy.thread))
      rw [hy.recorded, List.map_append, List.map_singleton, ← List.concat_eq_append]
      exact hk.once.concat hnew

theorem run (hk₀ : k₀.Recorded) (hrun : k₀.run calls = .ok k) (hwraps : ¬ Occurs Wraps k₀ calls) :
    k.Recorded := by
  induction hrun using run_induction with
  | start => exact hk₀
  | call k calls call reply k' hbefore hcall ih =>
    obtain ⟨hearlier, hnow⟩ := not_occurs_concat hbefore hcall hwraps
    exact (ih hearlier).perform hcall hnow

/-- On the record are those who have exited, and of them also those destroyed since. -/
theorem mem_handoffs (hk₀ : k₀.Recorded) (hfresh : ∀ h, ¬ k₀.HasExited h)
    (hnone : k₀.handoffs = []) (hrun : k₀.run calls = .ok k) (hwraps : ¬ Occurs Wraps k₀ calls)
    (h : Handle) : h ∈ k.handoffs.map (·.thread) ↔
      k.HasExited h ∨ Occurs (fun k call _ _ => call = .destroy h ∧ k.HasExited h) k₀ calls := by
  induction hrun using run_induction with
  | start => simp [hnone, Occurs, hfresh h]
  | call k calls call reply k' hbefore hcall ih =>
    obtain ⟨hearlier, hnow⟩ := not_occurs_concat hbefore hcall hwraps
    have hk := hk₀.run hbefore hearlier
    have htransition := perform_transition hk.named hcall
    have hfate := htransition.fate hk.bound h
    rw [occurs_concat hbefore hcall, htransition.mem_handoffs, ih hearlier]
    constructor
    · rintro ((hexited | hgone) | ⟨x, i, t, hx, rfl⟩)
      · rcases hfate.hasExited hexited with hstill | hdestroy
        · exact .inl hstill
        · exact .inr (.inr ⟨hdestroy, hexited⟩)
      · exact .inr (.inl hgone)
      · exact .inl hx.hasExited
    · rintro (hexited | hgone | ⟨-, hexited⟩)
      · exact (hfate.of_hasExited hexited).imp_left .inl
      · exact .inl (.inr hgone)
      · exact .inl (.inl hexited)

/-- In a run in which nobody destroys it, a thread that has exited stays as it is. -/
theorem rests (hk₀ : k₀.Recorded) (ht : k₀.thread? h = some t) (hend : t.state = .exited)
    (hkept : .destroy h ∉ calls) (hrun : k₀.run calls = .ok k) (hwraps : ¬ Occurs Wraps k₀ calls) :
    ∃ u, k.thread? h = some u ∧ t.Unmoved u := by
  induction hrun using run_induction with
  | start => exact ⟨t, ht, .refl t⟩
  | call k calls call reply k' hbefore hcall ih =>
    obtain ⟨hearlier, -⟩ := not_occurs_concat hbefore hcall hwraps
    have hk := hk₀.run hbefore hearlier
    obtain ⟨u, hu, hunmoved⟩ := ih (fun hmem => hkept (List.mem_append_left _ hmem)) hearlier
    have hfate := (perform_transition hk.named hcall).fate hk.bound h
    have hcalled : call ≠ .destroy h := fun e => hkept (by simp [e])
    obtain ⟨v, hv, hrests⟩ := hfate.rests hu (hunmoved.state.trans hend) hcalled
    exact ⟨v, hv, hunmoved.trans hrests⟩

theorem recorded_occurs (hk₀ : k₀.Recorded) (hnone : k₀.handoffs = [])
    (hrun : k₀.run calls = .ok k) (hwraps : ¬ Occurs Wraps k₀ calls) {x : Handoff}
    (hx : x ∈ k.handoffs) :
    Occurs (fun k call reply k' => ∃ i t, HandsOver x k call reply k' i t) k₀ calls := by
  induction hrun using run_induction with
  | start =>
    rw [hnone] at hx
    cases hx
  | call k calls call reply k' hbefore hcall ih =>
    obtain ⟨hearlier, -⟩ := not_occurs_concat hbefore hcall hwraps
    rw [occurs_concat hbefore hcall]
    have hk := hk₀.run hbefore hearlier
    exact ((perform_transition hk.named hcall).mem_record.mp hx).imp_left (ih hearlier)

end Recorded

/-- Over a run in which no slot comes back to an earlier generation, a thread is
handed over once if it has exited, and destroyed since or not, and otherwise never;
from its exit until its destruction it stays as it is. -/
theorem handed_over_once [PageSource P] [SlotSource O] {config : StackConfig} {pages : P}
    {slots : O} {ids : Vector UInt32 n} {hooks : Hooks} {exitClearsCpu : Bool}
    (hcapacity : SlotSource.capacity slots ≤ UInt32.size)
    (hboot : (boot config pages slots ids hooks exitClearsCpu).result = .ok k₀)
    (hrun : k₀.run calls = .ok k) (hwraps : ¬ Occurs Wraps k₀ calls) :
    (∀ h, (k.HasExited h ∨
        Occurs (fun k call _ _ => call = .destroy h ∧ k.HasExited h) k₀ calls →
          (k.handoffs.map (·.thread)).count h = 1) ∧
      (¬ (k.HasExited h ∨
        Occurs (fun k call _ _ => call = .destroy h ∧ k.HasExited h) k₀ calls) →
          (k.handoffs.map (·.thread)).count h = 0)) ∧
    (∀ x ∈ k.handoffs,
      Occurs (fun k call reply k' => ∃ i t, HandsOver x k call reply k' i t) k₀ calls) ∧
    ∀ before call after k₁ reply k₂, calls = before ++ call :: after → k₀.run before = .ok k₁ →
      (k₁.perform call).result = .ok (reply, k₂) →
        (∀ x i t, HandsOver x k₁ call reply k₂ i t → .destroy x.thread ∉ after →
          ∃ u, k.thread? x.thread = some u ∧ u.state = .exited ∧ u.link = .unlinked ∧
            u.pending = some x.result ∧ u.flags = t.flags ∧ u.process = t.process ∧
              u.stack = t.stack) ∧
        ∀ h, k₂.HasExited h → ¬ k₁.HasExited h →
          ∃ x i t, HandsOver x k₁ call reply k₂ i t ∧ x.thread = h := by
  have hk₀ : k₀.Recorded := .boot hcapacity hboot
  have hk := hk₀.run hrun hwraps
  have hnone : k₀.handoffs = [] := by
    obtain ⟨-, rfl⟩ := boot_eq_ok.mp hboot
    rfl
  have hfresh : ∀ h, ¬ k₀.HasExited h := by
    rintro h ⟨t, ht, -⟩
    obtain ⟨-, rfl⟩ := boot_eq_ok.mp hboot
    cases (Registry.get?_new _ h).symm.trans ht
  have hmem := hk₀.mem_handoffs hfresh hnone hrun hwraps
  refine ⟨fun h => ⟨fun hends => ?_, fun hgoing => ?_⟩, ?_, ?_⟩
  · exact List.count_eq_one_of_mem hk.once ((hmem h).mpr hends)
  · exact List.count_eq_zero_of_not_mem fun hh => hgoing ((hmem h).mp hh)
  · exact fun x hx => hk₀.recorded_occurs hnone hrun hwraps hx
  · rintro before call after k₁ reply k₂ rfl hbefore hcall
    obtain ⟨hearlier, hlater⟩ := not_or.mp (mt (occurs_append hbefore).mpr hwraps)
    have hk₁ := hk₀.run hbefore hearlier
    have hrest : k₂.run after = .ok k := by
      obtain ⟨k₃, hk₃, hrest⟩ := run_append_eq_ok.mp hrun
      cases hbefore.symm.trans hk₃
      obtain ⟨reply', k₄, hcall', hrest⟩ := run_cons_eq_ok.mp hrest
      cases hcall.symm.trans hcall'
      exact hrest
    rw [Occurs, hcall] at hlater
    obtain ⟨hnow, hlater⟩ := not_or.mp hlater
    refine ⟨fun x i t hx hkept => ?_, fun h hh hgoing => ?_⟩
    · obtain ⟨u, hu, hunmoved⟩ :=
        (hk₁.perform hcall hnow).rests hx.ended rfl hkept hrest hlater
      exact ⟨u, hu, hunmoved.state, hunmoved.link, hunmoved.pending, hunmoved.flags,
        hunmoved.process, hunmoved.stack⟩
    · have hfate := (perform_transition hk₁.named hcall).fate hk₁.bound h
      exact (hfate.of_hasExited hh).resolve_left hgoing

theorem handed_over_once_small : ∃ k, small.run [.newProcess .zero .running,
      .create 1 ⟨"first"⟩ 0 0, .dispatch 0, .exit 0 7, .dispatch 0, .setErrno ⟨0, 1⟩ 3] = .ok k ∧
    (k.handoffs.map (·.thread)).count ⟨0, 1⟩ = 1 := by
  obtain ⟨k, hrun, hstate⟩ := run_observe small
    [.newProcess .zero .running, .create 1 ⟨"first"⟩ 0 0, .dispatch 0, .exit 0 7,
      .dispatch 0, .setErrno ⟨0, 1⟩ 3]
    (fun k => (k.thread? ⟨0, 1⟩).map (·.state)) (a := some .exited) (by decide +kernel)
  obtain ⟨honce, -⟩ := handed_over_once (by decide) boot_small hrun (by decide +kernel)
  refine ⟨k, hrun, (honce ⟨0, 1⟩).1 (.inl ?_)⟩
  exact Option.map_eq_some_iff.mp hstate

end KernelThreads.Kernel
