import KernelThreads.Memory.Arena
import KernelThreads.Proofs.Memory.PageSearch
import Mathlib.Algebra.GroupWithZero.Nat
import Mathlib.Data.List.Pairwise

/-!
The book-keeping of a page arena. Bitmap, extents and count of free pages agree,
live extents never meet, and an allocation and the matching free add and remove
exactly one extent. Of addresses nothing is assumed here.
-/
namespace KernelThreads

open Logged (bind_eq_ok demand_eq_ok emit_eq_ok ensure_eq_ok ofAddress_eq_ok pure_eq_ok)

namespace Extent

def Holds (e : Extent) (page : Nat) : Prop := e.first ≤ page ∧ page < e.first + e.count

/-- `e` ends before `f` starts. -/
def Before (e f : Extent) : Prop := e.first + e.count ≤ f.first

theorem place_perm (e : Extent) (xs : List Extent) : (e.place xs).Perm (e :: xs) := by
  induction xs with
  | nil => exact .refl _
  | cons x xs ih =>
    unfold place
    split
    · exact .refl _
    · exact (ih.cons x).trans (.swap e x xs)

theorem place_pairwise {e : Extent} {xs : List Extent} (he : 0 < e.count)
    (hpos : ∀ x ∈ xs, 0 < x.count) (hxs : xs.Pairwise Before)
    (happart : ∀ x ∈ xs, e.Before x ∨ x.Before e) : (e.place xs).Pairwise Before := by
  induction xs with
  | nil => exact List.pairwise_singleton Before e
  | cons x xs ih =>
    obtain ⟨hhead, htail⟩ := List.pairwise_cons.mp hxs
    have hx := happart x List.mem_cons_self
    have hxpos := hpos x List.mem_cons_self
    simp only [Before] at hx hhead
    unfold place
    split
    · refine List.pairwise_cons.mpr ⟨fun y hy => ?_, hxs⟩
      rcases List.mem_cons.mp hy with rfl | hy
      · simp only [Before]
        omega
      · have := hhead y hy
        simp only [Before]
        omega
    · refine List.pairwise_cons.mpr ⟨fun y hy => ?_, ?_⟩
      · rcases List.mem_cons.mp ((place_perm e xs).mem_iff.mp hy) with rfl | hy
        · simp only [Before]
          omega
        · exact hhead y hy
      · exact ih (fun y hy => hpos y (List.mem_cons_of_mem x hy)) htail
          fun y hy => happart y (List.mem_cons_of_mem x hy)

/-- Dropping what starts where `e` starts drops `e` and nothing else. -/
theorem filter_perm {e : Extent} {xs : List Extent} (hpos : ∀ x ∈ xs, 0 < x.count)
    (hxs : xs.Pairwise Before) (he : e ∈ xs) :
    xs.Perm (e :: xs.filter fun x => x.first ≠ e.first) := by
  induction xs with
  | nil => cases he
  | cons x xs ih =>
    obtain ⟨hhead, htail⟩ := List.pairwise_cons.mp hxs
    simp only [Before] at hhead
    have hxpos := hpos x List.mem_cons_self
    rcases List.mem_cons.mp he with rfl | he
    · have hkeep : xs.filter (fun x => x.first ≠ e.first) = xs := by
        apply List.filter_eq_self.mpr
        intro y hy
        have := hhead y hy
        simp only [ne_eq, decide_eq_true_eq]
        omega
      rw [List.filter_cons_of_neg (by simp), hkeep]
    · have hne : x.first ≠ e.first := by
        have := hhead e he
        omega
      rw [List.filter_cons_of_pos (by simpa using hne)]
      exact ((ih (fun y hy => hpos y (List.mem_cons_of_mem x hy)) htail he).cons x).trans
        (.swap e x _)

end Extent

namespace Arena
variable {a b : Arena}

/-- Bitmap, extents and free count tell the same story, and no two extents meet. -/
structure Valid (a : Arena) : Prop where
  room : a.total ≤ 64 * a.taken.words.size
  inside : ∀ e ∈ a.extents, 0 < e.count ∧ e.first + e.count ≤ a.total
  apart : a.extents.Pairwise Extent.Before
  taken : ∀ p, p < a.total → (a.taken.get p = true ↔ ∃ e ∈ a.extents, e.Holds p)
  balance : a.available + (a.extents.map (·.count)).sum = a.total

theorem new_eq_ok {base : VirtAddr} {pages : Nat} : (new base pages).result = .ok a ↔
    base.toNat % pageSize = 0 ∧ pages + 63 < UInt64.size ∧
      a = { base, total := pages, taken := .clear pages, extents := [], available := pages } := by
  unfold new
  simp only [bind_eq_ok, ensure_eq_ok, exists_and_left, exists_const]
  split
  · rename_i h
    simp [h, eq_comm]
  · rename_i h
    simp [h]

theorem valid_new {base : VirtAddr} {pages : Nat} (h : (new base pages).result = .ok a) :
    a.Valid := by
  obtain ⟨-, -, rfl⟩ := new_eq_ok.mp h
  exact ⟨Bitmap.size_clear pages, by simp, List.Pairwise.nil,
    fun p _ => by simp [Bitmap.get_clear], by simp⟩

theorem Valid.positive (h : a.Valid) : ∀ e ∈ a.extents, 0 < e.count := fun e he => (h.inside e he).1

/-- A free run meets no live extent. -/
theorem Valid.before_or_after (h : a.Valid) {first count : Nat} (hcount : 0 < count)
    (htotal : first + count ≤ a.total) (hfree : a.taken.Free first count) (x : Extent)
    (hx : x ∈ a.extents) : Extent.Before ⟨first, count⟩ x ∨ x.Before ⟨first, count⟩ := by
  simp only [Extent.Before]
  by_contra hmeet
  obtain ⟨hxpos, hxin⟩ := h.inside x hx
  -- the later of the two starts lies in both
  have hlow := hfree (max x.first first) (by omega) (by omega)
  have hset := (h.taken (max x.first first) (by omega)).mpr
    ⟨x, hx, by simp only [Extent.Holds]; omega⟩
  rw [hlow] at hset
  exact Bool.false_ne_true hset

theorem take_perm (a : Arena) (e : Extent) : (a.take e).extents.Perm (e :: a.extents) :=
  e.place_perm a.extents

theorem Valid.take (h : a.Valid) {first count : Nat} (hcount : 0 < count)
    (hroom : count ≤ a.available) (htotal : first + count ≤ a.total)
    (hfree : a.taken.Free first count) : (a.take ⟨first, count⟩).Valid := by
  have hperm := a.take_perm ⟨first, count⟩
  refine ⟨?_, fun e he => ?_, ?_, fun p hp => ?_, ?_⟩
  · simpa only [Arena.take, Bitmap.size_fill] using h.room
  · rcases List.mem_cons.mp (hperm.mem_iff.mp he) with rfl | he
    · exact ⟨hcount, htotal⟩
    · exact h.inside e he
  · exact Extent.place_pairwise hcount h.positive h.apart
      (h.before_or_after hcount htotal hfree)
  · have hroom := h.room
    simp only [Arena.take] at hp ⊢
    rw [Bitmap.get_fill _ _ _ _ _ (by omega)]
    simp only [(Extent.place_perm _ _).mem_iff, List.exists_mem_cons_iff, ← h.taken p hp]
    by_cases hin : first ≤ p ∧ p < first + count
    · simp [hin, Extent.Holds]
    · simp [hin, Extent.Holds]
  · have hsum := (hperm.map (·.count)).sum_nat
    have hbalance := h.balance
    simp only [List.map_cons, List.sum_cons] at hsum
    rw [hsum]
    simp only [Arena.take]
    omega

theorem Valid.giveBack_perm (h : a.Valid) {e : Extent} (he : e ∈ a.extents) :
    a.extents.Perm (e :: (a.giveBack e).extents) :=
  Extent.filter_perm h.positive h.apart he

theorem Valid.giveBack (h : a.Valid) {e : Extent} (he : e ∈ a.extents) : (a.giveBack e).Valid := by
  have hperm := h.giveBack_perm he
  have hsub : (a.giveBack e).extents.Sublist a.extents := List.filter_sublist
  refine ⟨?_, fun x hx => h.inside x (hsub.subset hx), h.apart.sublist hsub, fun p hp => ?_, ?_⟩
  · simpa only [Arena.giveBack, Bitmap.size_fill] using h.room
  · obtain ⟨hpos, hin⟩ := h.inside e he
    have hroom := h.room
    have hsplit := hperm.pairwise_iff (R := fun x y => x.Before y ∨ y.Before x)
      (fun hxy => hxy.symm)
    obtain ⟨hapart, -⟩ := List.pairwise_cons.mp (hsplit.mp (h.apart.imp fun hxy => .inl hxy))
    have htaken := h.taken p hp
    simp only [hperm.mem_iff, List.exists_mem_cons_iff] at htaken
    simp only [Arena.giveBack] at hp hapart htaken ⊢
    rw [Bitmap.get_fill _ _ _ _ _ (by omega)]
    by_cases hp : e.first ≤ p ∧ p < e.first + e.count
    · rw [if_pos hp]
      apply iff_of_false Bool.false_ne_true
      rintro ⟨x, hx, hhold⟩
      have := hapart x hx
      simp only [Extent.Before, Extent.Holds] at this hhold
      omega
    · rw [if_neg hp, htaken]
      exact or_iff_right hp
  · have hsum := (hperm.map (·.count)).sum_nat
    have hbalance := h.balance
    simp only [List.map_cons, List.sum_cons] at hsum
    rw [hsum] at hbalance
    simp only [Arena.giveBack] at hbalance ⊢
    omega

theorem Valid.extentAt?_eq_some (h : a.Valid) {page : Nat} {e : Extent} :
    a.extentAt? page = some e ↔ e ∈ a.extents ∧ e.first = page := by
  constructor
  · intro he
    exact ⟨List.mem_of_find?_eq_some he, by simpa using List.find?_some he⟩
  · rintro ⟨he, rfl⟩
    -- live extents start at different pages
    have hperm := h.giveBack_perm he
    cases hfound : a.extentAt? e.first with
    | none => exact absurd (List.find?_eq_none.mp hfound e he) (by simp)
    | some x =>
      have hx := List.mem_of_find?_eq_some hfound
      have hfirst : x.first = e.first := by simpa using List.find?_some hfound
      rcases List.mem_cons.mp (hperm.mem_iff.mp hx) with rfl | hx
      · rfl
      · have := (List.mem_filter.mp hx).2
        simp [hfirst] at this

theorem alloc_eq_ok {count : Nat} {r : Option VirtAddr} : (a.alloc count).result = .ok (r, b) ↔
    (r = none ∧ b = a ∧
        (count = 0 ∨ a.available < count ∨ a.taken.findRun? a.total count = none)) ∨
      ∃ first addr, r = some addr ∧ b = a.take ⟨first, count⟩ ∧ 0 < count ∧ count ≤ a.available ∧
        a.taken.findRun? a.total count = some first ∧ a.addressOf first = .ok addr := by
  unfold alloc
  by_cases hnone : count = 0 ∨ a.available < count
  · rw [if_pos hnone, pure_eq_ok]
    grind
  · rw [if_neg hnone]
    cases hrun : a.taken.findRun? a.total count with
    | none =>
      simp only [pure_eq_ok]
      grind
    | some first =>
      simp only [Logged.liftM_eq, bind_eq_ok, ofAddress_eq_ok, emit_eq_ok, pure_eq_ok, true_and,
        exists_const]
      grind

theorem free_eq_ok {addr : VirtAddr} {count : Nat} : (a.free addr count).result = .ok b ↔
    ∃ first, a.pageAt? addr = some first ∧ a.extentAt? first = some ⟨first, count⟩ ∧
      b = a.giveBack ⟨first, count⟩ := by
  unfold free
  simp only [bind_eq_ok, demand_eq_ok, ensure_eq_ok, emit_eq_ok, pure_eq_ok, true_and,
    exists_const]
  refine exists_congr fun first => and_congr_right fun _ => ?_
  constructor
  · rintro ⟨e, he, rfl, rfl⟩
    have hfirst : e.first = first := by simpa [extentAt?] using List.find?_some he
    subst hfirst
    exact ⟨he, rfl⟩
  · rintro ⟨he, rfl⟩
    exact ⟨_, he, rfl, rfl⟩

end Arena

end KernelThreads
