import KernelThreads.Proofs.Kernel.Membership

/-!
How a process gets its members. A thread that joins as it is made has found the process
open; a clone that is attached joins a process in any phase.
-/
namespace KernelThreads.Kernel

variable {P O : Type} {n : Nat} {k₀ k k₁ k' : Kernel P O n} {call : Call n}
  {before after : List (Call n)} {reply : Reply} {h : Handle} {pid : ProcessId} {p p' : Process}

/-- Of the process `pid`, which was `p` once, the phase is the same and no member is new. -/
structure Dwindles (pid : ProcessId) (p : Process) (k : Kernel P O n) : Prop where
  named : k.machine.threads.Named
  enrolled : k.Enrolled
  known : pid ≤ k.processes.count
  phase : ∀ p', k.processes.get? pid = some p' → p'.phase = p.phase
  members : ∀ p', k.processes.get? pid = some p' → p'.members.Sublist p.members

variable [PageSource P] [SlotSource O] {config : StackConfig} {pages : P} {slots : O}
  {ids : Vector UInt32 n}

theorem Dwindles.perform (hk : k.Dwindles pid p) (hclosed : p.phase.acceptsThreads = false)
    (hmanaged : call.isManaged = true) (hcall : (k.perform call).result = .ok (reply, k'))
    (hphase : ∀ phase, call ≠ .setPhase pid phase) (hattach : ∀ h, call ≠ .attach h pid) :
    k'.Dwindles pid p := by
  have heffect := perform_effect hk.named hmanaged hcall
  have hnone : call.newcomers pid reply = [] := by
    apply List.eq_nil_iff_forall_not_mem.mpr
    intro h hh
    obtain ⟨q, hq, -, -, haccepts | hattached, -⟩ := heffect.newcomer hh
    · rw [hk.phase q hq, hclosed] at haccepts
      cases haccepts
    · exact hattach h hattached
  have hlasts (p' : Process) (hp' : k'.processes.get? pid = some p') :
      p'.phase = p.phase ∧ p'.members.Sublist p.members := by
    cases heffect.succeeds hk.enrolled hp' with
    | @kept q hq hdirectory hsame hmembers =>
      refine ⟨?_, ?_⟩
      · rcases hsame with hsame | ⟨phase, hset⟩
        · exact hsame.trans (hk.phase q hq)
        · exact absurd hset (hphase phase)
      · rw [hmembers, hnone, List.append_nil]
        exact List.filter_sublist.trans (hk.members q hq)
    | founded hnew hmembers => exact absurd hk.known (Nat.not_le.mpr hnew)
  exact {
    named := (perform_transition hk.named hcall).named hk.named
    enrolled := hk.enrolled.perform hk.named hmanaged hcall
    known := Nat.le_trans hk.known heffect.count_le
    phase := fun p' hp' => (hlasts p' hp').1
    members := fun p' hp' => (hlasts p' hp').2 }

/-- A call that puts a thread on the list of a process has found the process open, or is the
attachment of that thread. A closed process to which no clone is attached gets no members. -/
theorem members_gain {k₀ : Kernel P O n} (hboot : (boot config pages slots ids).result = .ok k₀)
    (hmanaged : ∀ call ∈ before ++ after, call.isManaged = true)
    (hbefore : k₀.run before = .ok k₁) (hp : k₁.processes.get? pid = some p) :
    (∀ call reply k' p', call.isManaged = true → (k₁.perform call).result = .ok (reply, k') →
      k'.processes.get? pid = some p' →
        p'.members.Sublist p.members ∨
          ∃ h, h ∉ p.members ∧ p'.members = p.members ++ [h] ∧
            (p.phase.acceptsThreads = true ∨ call = .attach h pid)) ∧
    ∀ k p', k₁.run after = .ok k → k.processes.get? pid = some p' →
      p.phase.acceptsThreads = false → (∀ phase, .setPhase pid phase ∉ after) →
        (∀ h, .attach h pid ∉ after) → p'.members.Sublist p.members := by
  obtain ⟨hearlier, hlater⟩ := List.forall_mem_append.mp hmanaged
  have hnamed := named_run (named_boot hboot) hbefore
  have henrolled := (Enrolled.boot hboot).run (named_boot hboot) hearlier hbefore
  refine ⟨?_, ?_⟩
  · intro call reply k' p' hnext hcall hp'
    have heffect := perform_effect hnamed hnext hcall
    cases heffect.succeeds henrolled hp' with
    | @kept q hq hdirectory hphase hmembers =>
      cases hp.symm.trans hq
      by_cases hnone : call.newcomers pid reply = []
      · rw [hmembers, hnone, List.append_nil]
        exact .inl List.filter_sublist
      · obtain ⟨h, hh⟩ := List.exists_mem_of_ne_nil _ hnone
        obtain ⟨q, hq, hfree, hnew, hopen, -⟩ := heffect.newcomer hh
        cases hp.symm.trans hq
        have hspared := List.filter_eq_self.mpr fun g (_ : g ∈ p.members) =>
          Call.spares_of_newcomers hnone g
        rw [hspared, hnew] at hmembers
        exact .inr ⟨h, hfree, hmembers, hopen⟩
    | founded hnew hmembers => exact absurd (Processes.le_count hp) (Nat.not_le.mpr hnew)
  · intro k p' hafter hp' hclosed hphase hattach
    have hstart : k₁.Dwindles pid p := by
      refine ⟨hnamed, henrolled, Processes.le_count hp, fun q hq => ?_, fun q hq => ?_⟩
      · cases hp.symm.trans hq
        rfl
      · cases hp.symm.trans hq
        exact .refl _
    have hend : k.Dwindles pid p := by
      refine run_invariant hafter hstart fun k call reply k' hmem hk hcall => ?_
      apply hk.perform hclosed (hlater call hmem) hcall
      · rintro phase rfl
        exact hphase phase hmem
      · rintro h rfl
        exact hattach h hmem
    exact hend.members p' hp'

theorem members_gain_small : ∃ k₁ k p p', small.run [.newProcess .zero .running,
      .create 1 ⟨"sum"⟩ 0 0, .dispatch 0, .setPhase 1 .exiting] = .ok k₁ ∧
    k₁.processes.get? 1 = some p ∧ p.phase.acceptsThreads = false ∧
    k₁.run [.exit 0 7, .destroy ⟨0, 1⟩] = .ok k ∧ k.processes.get? 1 = some p' ∧
    p'.members.Sublist p.members := by
  obtain ⟨k₁, hbefore, hp⟩ := run_observe small
    [.newProcess .zero .running, .create 1 ⟨"sum"⟩ 0 0, .dispatch 0, .setPhase 1 .exiting]
    (fun k => k.processes.get? 1) (a := some ⟨.zero, .exiting, [⟨0, 1⟩], none⟩) (by decide +kernel)
  obtain ⟨k, hrun, hp'⟩ := run_observe small
    ([.newProcess .zero .running, .create 1 ⟨"sum"⟩ 0 0, .dispatch 0, .setPhase 1 .exiting] ++
      [.exit 0 7, .destroy ⟨0, 1⟩])
    (fun k => k.processes.get? 1) (a := some ⟨.zero, .exiting, [], none⟩) (by decide +kernel)
  have hafter := run_rest hrun hbefore
  exact ⟨k₁, k, _, _, hbefore, hp, rfl, hafter, hp', (members_gain boot_small (by decide) hbefore
    hp).2 k _ hafter hp' rfl (by simp) (by simp)⟩

/-- A clone that is attached joins a process that is exiting. -/
theorem exiting_gains_clone : ∃ k k' p p', small.run [.newProcess .zero .running,
      .create 1 ⟨"sum"⟩ 0 0, .clone ⟨0, 1⟩, .setPhase 1 .exiting] = .ok k ∧
    (k.perform (.attach ⟨1, 1⟩ 1)).result = .ok (.done, k') ∧
    k.processes.get? 1 = some p ∧ p.phase.acceptsThreads = false ∧
    k'.processes.get? 1 = some p' ∧ p'.members = p.members ++ [⟨1, 1⟩] := by
  obtain ⟨k, hrun, hp⟩ := run_observe small
    [.newProcess .zero .running, .create 1 ⟨"sum"⟩ 0 0, .clone ⟨0, 1⟩, .setPhase 1 .exiting]
    (fun k => k.processes.get? 1) (a := some ⟨.zero, .exiting, [⟨0, 1⟩], none⟩) (by decide +kernel)
  obtain ⟨k', hall, hp'⟩ := run_observe small
    ([.newProcess .zero .running, .create 1 ⟨"sum"⟩ 0 0, .clone ⟨0, 1⟩, .setPhase 1 .exiting] ++
      [.attach ⟨1, 1⟩ 1])
    (fun k => k.processes.get? 1) (a := some ⟨.zero, .exiting, [⟨0, 1⟩, ⟨1, 1⟩], none⟩)
    (by decide +kernel)
  obtain ⟨reply, k₂, hattach, hlast⟩ := run_cons_eq_ok.mp (run_rest hall hrun)
  cases hlast
  obtain ⟨-, rfl⟩ := done_eq_ok.mp hattach
  exact ⟨k, k', _, _, hrun, hattach, hp, rfl, hp', rfl⟩

end KernelThreads.Kernel
