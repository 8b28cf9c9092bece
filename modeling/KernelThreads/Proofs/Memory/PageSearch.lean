import KernelThreads.Memory.Bitmap
import Mathlib.Data.List.Basic

/-!
Filling a range of pages, and the search for a run of free ones. The search is
exact: it gives the lowest run there is, and fails only if there is none.
-/
namespace KernelThreads.Bitmap

/-- None of the pages `start`, …, `start + count - 1` is set. -/
def Free (b : Bitmap) (start count : Nat) : Prop :=
  ∀ p, start ≤ p → p < start + count → b.get p = false

theorem size_fill (b : Bitmap) (start count : Nat) (v : Bool) :
    (b.fill start count v).words.size = b.words.size := by
  unfold fill
  induction count generalizing b start with
  | zero => rfl
  | succ count ih => rw [List.range'_succ, List.foldl_cons, ih, size_set]

/-- A fill is read back inside its range and nowhere else. -/
theorem get_fill (b : Bitmap) (start count : Nat) (v : Bool) (q : Nat)
    (h : start + count ≤ 64 * b.words.size) :
    (b.fill start count v).get q = if start ≤ q ∧ q < start + count then v else b.get q := by
  unfold fill
  induction count generalizing b start with
  | zero =>
    rw [if_neg (by omega)]
    rfl
  | succ count ih =>
    rw [List.range'_succ, List.foldl_cons, ih _ _ (by rw [size_set]; omega),
      get_set _ _ _ _ (by omega)]
    by_cases hq : start = q
    · rw [if_pos hq, if_neg (by omega), if_pos (by omega)]
    · rw [if_neg hq]
      exact if_congr (by omega) rfl rfl

theorem get_clear (pages p : Nat) : (clear pages).get p = false := by
  simp only [get, clear, Array.getElem?_replicate]
  split <;> simp

theorem size_clear (pages : Nat) : pages ≤ 64 * (clear pages).words.size := by
  simp only [clear, Array.size_replicate]
  omega

theorem firstSet?_eq_none {b : Bitmap} {start count : Nat} :
    b.firstSet? start count = none ↔ b.Free start count := by
  simp [firstSet?, Free, List.find?_eq_none]

theorem firstSet?_eq_some {b : Bitmap} {start count p : Nat}
    (h : b.firstSet? start count = some p) :
    start ≤ p ∧ p < start + count ∧ b.get p = true := by
  obtain ⟨hlow, hhigh⟩ := List.mem_range'_1.mp (List.mem_of_find?_eq_some h)
  exact ⟨hlow, hhigh, List.find?_some h⟩

/-- A set page is in no free run. -/
theorem not_free {b : Bitmap} {start count p : Nat} (hp : b.get p = true) (hlow : start ≤ p)
    (hhigh : p < start + count) : ¬ b.Free start count := by
  intro h
  rw [h p hlow hhigh] at hp
  exact Bool.false_ne_true hp

theorem findRun?_eq_some {b : Bitmap} {total count start s : Nat}
    (h : b.findRun? total count start = some s) :
    start ≤ s ∧ s + count ≤ total ∧ b.Free s count ∧
      ∀ r, start ≤ r → r < s → ¬ b.Free r count := by
  fun_induction findRun? b total count start with
  | case1 start hroom busy hbusy ih =>
    obtain ⟨hlow, hhigh, hset⟩ := firstSet?_eq_some hbusy
    obtain ⟨hs, htotal, hfree, hfirst⟩ := ih h
    refine ⟨by omega, htotal, hfree, fun r hr hrs => ?_⟩
    -- every run from `start` to the busy page holds that page
    by_cases hb : r ≤ busy
    · exact not_free hset hb (by omega)
    · exact hfirst r (by omega) hrs
  | case2 start hroom hnone =>
    cases h
    exact ⟨Nat.le_refl _, hroom, firstSet?_eq_none.mp hnone, fun r hr hrs => by omega⟩
  | case3 start hroom => cases h

theorem findRun?_eq_none {b : Bitmap} {total count start : Nat}
    (h : b.findRun? total count start = none) (r : Nat) (hr : start ≤ r)
    (htotal : r + count ≤ total) : ¬ b.Free r count := by
  fun_induction findRun? b total count start with
  | case1 start hroom busy hbusy ih =>
    obtain ⟨hlow, hhigh, hset⟩ := firstSet?_eq_some hbusy
    by_cases hb : r ≤ busy
    · exact not_free hset hb (by omega)
    · exact ih h (by omega)
  | case2 start hroom hnone => cases h
  | case3 start hroom => omega

end KernelThreads.Bitmap
