import KernelThreads.Diagnostics.Logged

/-!
Requests made one after the other, each of what the one before has left. Whoever makes them
may be bound to rules, such as to give back only what it has: a session is fair if no request
breaks them when its turn comes.
-/
namespace KernelThreads.Logged

variable {S R : Type} {f : S → R → Logged S} {may : S → R → Prop} {I : S → Prop} {s t : S}
  {r : R} {rs before after : List R}

theorem foldlM_cons_eq_ok : ((r :: rs).foldlM f s).result = .ok t ↔
    ∃ u, (f s r).result = .ok u ∧ (rs.foldlM f u).result = .ok t := by
  rw [List.foldlM_cons, bind_eq_ok]

theorem foldlM_append_eq_ok : ((before ++ after).foldlM f s).result = .ok t ↔
    ∃ u, (before.foldlM f s).result = .ok u ∧ (after.foldlM f u).result = .ok t := by
  induction before generalizing s with
  | nil => simp
  | cons r before ih =>
    rw [List.cons_append, foldlM_cons_eq_ok]
    constructor
    · rintro ⟨v, hfirst, hrest⟩
      obtain ⟨u, hbefore, hafter⟩ := ih.mp hrest
      exact ⟨u, foldlM_cons_eq_ok.mpr ⟨v, hfirst, hbefore⟩, hafter⟩
    · rintro ⟨u, hbefore, hafter⟩
      obtain ⟨v, hfirst, hbefore⟩ := foldlM_cons_eq_ok.mp hbefore
      exact ⟨v, hfirst, ih.mpr ⟨u, hbefore, hafter⟩⟩

/-- Each request is one that may be made when its turn comes. -/
def Fair (f : S → R → Logged S) (may : S → R → Prop) : S → List R → Prop
  | _, [] => True
  | s, r :: rs => may s r ∧ ∀ t, (f s r).result = .ok t → Fair f may t rs

instance Fair.decidable (f : S → R → Logged S) (may : S → R → Prop) [∀ s r, Decidable (may s r)]
    (s : S) : ∀ rs, Decidable (Fair f may s rs)
  | [] => inferInstanceAs (Decidable True)
  | r :: rs =>
    match h : (f s r).result with
    | .ok t =>
      have := Fair.decidable f may t rs
      decidable_of_iff (may s r ∧ Fair f may t rs) (by simp [Fair, h])
    | .error e => decidable_of_iff (may s r) (by simp [Fair, h])

/-- What survives every request that may be made, survives a fair session. -/
theorem Fair.invariant (hfair : Fair f may s rs) (hrun : (rs.foldlM f s).result = .ok t)
    (hs : I s) (hstep : ∀ s r t, I s → may s r → (f s r).result = .ok t → I t) : I t := by
  induction rs generalizing s with
  | nil =>
    cases hrun
    exact hs
  | cons r rs ih =>
    obtain ⟨u, hfirst, hrest⟩ := foldlM_cons_eq_ok.mp hrun
    exact ih (hfair.2 u hfirst) hrest (hstep s r u hs hfair.1 hfirst)

/-- Without rules every session is fair. -/
theorem fair_of_free (hfree : ∀ s r, may s r) : Fair f may s rs := by
  induction rs generalizing s with
  | nil => trivial
  | cons r rs ih => exact ⟨hfree s r, fun _ _ => ih⟩

theorem foldlM_invariant (hrun : (rs.foldlM f s).result = .ok t) (hs : I s)
    (hstep : ∀ s r t, I s → (f s r).result = .ok t → I t) : I t := by
  have hfair : Fair f (fun _ _ => True) s rs := fair_of_free fun _ _ => trivial
  exact hfair.invariant hrun hs fun s r t hs _ => hstep s r t hs

/-- Where every request that may be made is answered, a fair session comes to its end. -/
theorem Fair.served (hfair : Fair f may s rs) (hs : I s)
    (hanswer : ∀ s r, I s → may s r → ∃ t, (f s r).result = .ok t ∧ I t) :
    ∃ t, (rs.foldlM f s).result = .ok t ∧ I t := by
  induction rs generalizing s with
  | nil => exact ⟨s, rfl, hs⟩
  | cons r rs ih =>
    obtain ⟨u, hfirst, hu⟩ := hanswer s r hs hfair.1
    obtain ⟨t, hrest, ht⟩ := ih (hfair.2 u hfirst) hu
    exact ⟨t, foldlM_cons_eq_ok.mpr ⟨u, hfirst, hrest⟩, ht⟩

end KernelThreads.Logged
