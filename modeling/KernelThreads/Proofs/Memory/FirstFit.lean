import KernelThreads.Proofs.Memory.Spans
import Mathlib.Order.Interval.Finset.Nat

/-!
First fit. An arena that serves requests gives the lowest run of free pages that is
long enough, refuses only where there is none, and takes back exactly the extents
it gave. What it counts as free are the clear bits of its map.
-/
namespace KernelThreads

open Logged (bind_eq_ok pure_eq_ok)

namespace Extent

theorem Before.disjoint {e f : Extent} (h : e.Before f) (p : Nat) : ¬ (e.Holds p ∧ f.Holds p) := by
  simp only [Before, Holds] at h ⊢
  omega

/-- Extents that never meet hold as many pages as their counts say. -/
theorem card_eq_sum {xs : List Extent} (hxs : xs.Pairwise Before) (pages : Finset Nat)
    (hpages : ∀ p, p ∈ pages ↔ ∃ e ∈ xs, e.Holds p) : pages.card = (xs.map (·.count)).sum := by
  induction xs generalizing pages with
  | nil =>
    have hempty : pages = ∅ := Finset.eq_empty_of_forall_notMem fun p hp => by
      simpa using (hpages p).mp hp
    rw [hempty]
    rfl
  | cons e xs ih =>
    obtain ⟨hhead, htail⟩ := List.pairwise_cons.mp hxs
    have hown (p : Nat) : p ∈ Finset.Ico e.first (e.first + e.count) ↔ e.Holds p := Finset.mem_Ico
    have hsub : Finset.Ico e.first (e.first + e.count) ⊆ pages := fun p hp =>
      (hpages p).mpr ⟨e, List.mem_cons_self, (hown p).mp hp⟩
    -- what is left belongs to the other extents, which all start behind `e`
    have hrest : ∀ p, p ∈ pages \ Finset.Ico e.first (e.first + e.count) ↔
        ∃ x ∈ xs, x.Holds p := by
      intro p
      rw [Finset.mem_sdiff, hpages p, hown p, List.exists_mem_cons_iff]
      constructor
      · rintro ⟨he | hx, hne⟩
        · exact absurd he hne
        · exact hx
      · rintro ⟨x, hx, hhold⟩
        exact ⟨.inr ⟨x, hx, hhold⟩, fun he => (hhead x hx).disjoint p ⟨he, hhold⟩⟩
    rw [← Finset.card_sdiff_add_card_eq_card hsub, ih htail _ hrest, Nat.card_Ico, List.map_cons,
      List.sum_cons]
    omega

end Extent

namespace Arena
variable {a b : Arena} {addr : VirtAddr} {count first : Nat}

/-- The pages from `first` are the lowest run of `count` free ones. -/
structure FirstRun (a : Arena) (count first : Nat) : Prop where
  inside : first + count ≤ a.total
  free : a.taken.Free first count
  least : ∀ r, r < first → ¬ a.taken.Free r count

/-- No `count` free pages follow one another. -/
def Crowded (a : Arena) (count : Nat) : Prop :=
  ∀ first, first + count ≤ a.total → ¬ a.taken.Free first count

/-- `b` has one extent more than `a`: only the bits of its pages differ, and it
fills the difference in free pages. -/
structure Adds (a : Arena) (e : Extent) (b : Arena) : Prop where
  base : b.base = a.base
  total : b.total = a.total
  clear : ∀ p, e.Holds p → a.taken.get p = false
  set : ∀ p, e.Holds p → b.taken.get p = true
  others : ∀ p, ¬ e.Holds p → b.taken.get p = a.taken.get p
  extents : b.extents.Perm (e :: a.extents)
  available : a.available = b.available + e.count

/-- The arena counts its clear bits. -/
theorem Valid.available_eq (h : a.Valid) :
    a.available = ((Finset.range a.total).filter fun p => a.taken.get p = false).card := by
  have hset : ((Finset.range a.total).filter fun p => a.taken.get p = true).card =
      (a.extents.map (·.count)).sum := by
    refine Extent.card_eq_sum h.apart _ fun p => ?_
    rw [Finset.mem_filter, Finset.mem_range]
    constructor
    · rintro ⟨hp, hget⟩
      exact (h.taken p hp).mp hget
    · rintro ⟨e, he, hhold⟩
      have hp : p < a.total := Nat.lt_of_lt_of_le hhold.2 (h.inside e he).2
      exact ⟨hp, (h.taken p hp).mpr ⟨e, he, hhold⟩⟩
  have hsplit := Finset.card_filter_add_card_filter_not (s := Finset.range a.total)
    (fun p => a.taken.get p = true)
  simp only [Bool.not_eq_true, Finset.card_range] at hsplit
  have hbalance := h.balance
  omega

/-- A free run is no longer than the free pages are many. -/
theorem Valid.count_le_available (h : a.Valid) (htotal : first + count ≤ a.total)
    (hfree : a.taken.Free first count) : count ≤ a.available := by
  have hsub : Finset.Ico first (first + count) ⊆
      (Finset.range a.total).filter fun p => a.taken.get p = false := by
    intro p hp
    obtain ⟨hlow, hhigh⟩ := Finset.mem_Ico.mp hp
    exact Finset.mem_filter.mpr ⟨Finset.mem_range.mpr (by omega), hfree p hlow hhigh⟩
  have hcard := Finset.card_le_card hsub
  rw [Nat.card_Ico, ← h.available_eq] at hcard
  omega

theorem crowded_of_findRun? (h : a.taken.findRun? a.total count = none) : a.Crowded count :=
  fun first hfirst => Bitmap.findRun?_eq_none h first (Nat.zero_le first) hfirst

theorem firstRun_of_findRun? (h : a.taken.findRun? a.total count = some first) :
    a.FirstRun count first := by
  obtain ⟨-, htotal, hfree, hleast⟩ := Bitmap.findRun?_eq_some h
  exact ⟨htotal, hfree, fun r => hleast r (Nat.zero_le r)⟩

theorem alloc_of_crowded (h : a.Crowded count) : (a.alloc count).result = .ok (none, a) := by
  refine alloc_eq_ok.mpr (.inl ⟨rfl, rfl, .inr (.inr ?_)⟩)
  cases hfind : a.taken.findRun? a.total count with
  | none => rfl
  | some first =>
    have hrun := firstRun_of_findRun? hfind
    exact absurd hrun.free (h first hrun.inside)

/-- Neither short cut of the search refuses a run that exists. -/
theorem Valid.alloc_eq_none (h : a.Valid) (hr : (a.alloc count).result = .ok (none, b)) :
    b = a ∧ (count = 0 ∨ a.Crowded count) := by
  rcases alloc_eq_ok.mp hr with ⟨-, rfl, hzero | hfew | hnone⟩ | ⟨_, _, hsome, -⟩
  · exact ⟨rfl, .inl hzero⟩
  · refine ⟨rfl, .inr fun first hfirst hfree => ?_⟩
    have := h.count_le_available hfirst hfree
    omega
  · exact ⟨rfl, .inr (crowded_of_findRun? hnone)⟩
  · cases hsome

theorem Valid.take_adds (h : a.Valid) (hroom : count ≤ a.available)
    (hrun : a.FirstRun count first) : a.Adds ⟨first, count⟩ (a.take ⟨first, count⟩) := by
  have hinside := hrun.inside
  have hget (p : Nat) := Bitmap.get_fill a.taken first count true p (by have := h.room; omega)
  refine ⟨rfl, rfl, fun p hp => hrun.free p hp.1 hp.2, fun p hp => ?_, fun p hp => ?_,
    a.take_perm _, ?_⟩
  · exact (hget p).trans (if_pos hp)
  · exact (hget p).trans (if_neg hp)
  · simp only [Arena.take]
    omega

theorem Valid.giveBack_adds (h : a.Valid) {e : Extent} (he : e ∈ a.extents) :
    (a.giveBack e).Adds e a := by
  obtain ⟨-, hin⟩ := h.inside e he
  have hget (p : Nat) := Bitmap.get_fill a.taken e.first e.count false p
    (by have := h.room; omega)
  refine ⟨rfl, rfl, fun p hp => ?_, fun p hp => ?_, fun p hp => ?_, h.giveBack_perm he, rfl⟩
  · exact (hget p).trans (if_pos hp)
  · exact (h.taken p (Nat.lt_of_lt_of_le hp.2 hin)).mpr ⟨e, he, hp⟩
  · exact ((hget p).trans (if_neg hp)).symm

theorem Valid.alloc_eq_some (h : a.Valid) (hr : (a.alloc count).result = .ok (some addr, b)) :
    ∃ first, 0 < count ∧ a.addressOf first = .ok addr ∧ a.FirstRun count first ∧
      a.Adds ⟨first, count⟩ b ∧ b.Valid := by
  rcases alloc_eq_ok.mp hr with ⟨hnone, -⟩ | ⟨first, addr', haddr, rfl, hpos, hroom, hfind, hat⟩
  · cases hnone
  · cases haddr
    have hrun := firstRun_of_findRun? hfind
    exact ⟨first, hpos, hat, hrun, h.take_adds hroom hrun,
      h.take hpos hroom hrun.inside hrun.free⟩

/-- An allocation fails exactly if it asks for nothing or for more than any gap holds. -/
theorem Valid.alloc_none_iff (h : a.Valid) {answer : Option VirtAddr}
    (hr : (a.alloc count).result = .ok (answer, b)) :
    answer = none ↔ count = 0 ∨ a.Crowded count := by
  constructor
  · rintro rfl
    exact (h.alloc_eq_none hr).2
  · intro hrefused
    cases answer with
    | none => rfl
    | some addr =>
      obtain ⟨first, hpos, -, hrun, -⟩ := h.alloc_eq_some hr
      rcases hrefused with hzero | hcrowded
      · omega
      · exact absurd hrun.free (hcrowded first hrun.inside)

/-- Taken back is what lives, as a whole and by its base; everything else is fatal. -/
theorem Valid.free_ok_iff (h : a.Valid) : (∃ b, (a.free addr count).result = .ok b) ↔
    ∃ e ∈ a.extents, addr.toNat = a.base.toNat + e.first * pageSize ∧ count = e.count := by
  constructor
  · rintro ⟨b, hb⟩
    obtain ⟨first, hpage, hextent, -⟩ := free_eq_ok.mp hb
    exact ⟨_, (h.extentAt?_eq_some.mp hextent).1, (pageAt?_eq_some.mp hpage).1, rfl⟩
  · rintro ⟨e, he, haddr, rfl⟩
    exact h.free_ok (List.mem_map.mpr ⟨e, he, by rw [haddr]⟩)

theorem Valid.free_adds (h : a.Valid) (hr : (a.free addr count).result = .ok b) :
    b.Valid ∧ ∃ first, addr.toNat = a.base.toNat + first * pageSize ∧ b.Adds ⟨first, count⟩ a := by
  obtain ⟨first, hpage, hextent, rfl⟩ := free_eq_ok.mp hr
  obtain ⟨hmem, -⟩ := h.extentAt?_eq_some.mp hextent
  exact ⟨h.giveBack hmem, first, (pageAt?_eq_some.mp hpage).1, h.giveBack_adds hmem⟩

/-- What is asked of an arena. -/
inductive Request where
  | alloc (count : Nat)
  | free (addr : VirtAddr) (count : Nat)

def answer (a : Arena) : Request → Logged Arena
  | .alloc count => do return (← a.alloc count).2
  | .free addr count => a.free addr count

/-- The arena after all requests, none of them fatal. -/
def serve (a : Arena) (requests : List Request) : Logged Arena := requests.foldlM answer a

theorem serve_cons_eq_ok {r : Request} {requests : List Request} :
    (a.serve (r :: requests)).result = .ok b ↔
      ∃ a', (a.answer r).result = .ok a' ∧ (a'.serve requests).result = .ok b := by
  rw [serve, List.foldlM_cons, bind_eq_ok]
  rfl

theorem Valid.alloc (h : a.Valid) {answer : Option VirtAddr}
    (hr : (a.alloc count).result = .ok (answer, b)) :
    b.Valid ∧ b.base = a.base ∧ b.total = a.total := by
  cases answer with
  | none =>
    obtain ⟨rfl, -⟩ := h.alloc_eq_none hr
    exact ⟨h, rfl, rfl⟩
  | some addr =>
    obtain ⟨_, -, -, -, hadds, hvalid⟩ := h.alloc_eq_some hr
    exact ⟨hvalid, hadds.base, hadds.total⟩

theorem Valid.answer (h : a.Valid) {r : Request} (hr : (a.answer r).result = .ok b) :
    b.Valid ∧ b.base = a.base ∧ b.total = a.total := by
  cases r with
  | alloc count =>
    obtain ⟨⟨answer, a'⟩, halloc, hb⟩ := bind_eq_ok.mp hr
    cases pure_eq_ok.mp hb
    exact h.alloc halloc
  | free addr count =>
    obtain ⟨hvalid, _, -, hadds⟩ := h.free_adds hr
    exact ⟨hvalid, hadds.base.symm, hadds.total.symm⟩

theorem Valid.serve (h : a.Valid) {requests : List Request}
    (hrun : (a.serve requests).result = .ok b) :
    b.Valid ∧ b.base = a.base ∧ b.total = a.total := by
  induction requests generalizing a with
  | nil =>
    cases hrun
    exact ⟨h, rfl, rfl⟩
  | cons r requests ih =>
    obtain ⟨a', ha', hrest⟩ := serve_cons_eq_ok.mp hrun
    obtain ⟨hvalid, hbase, htotal⟩ := h.answer ha'
    obtain ⟨hb, hbase', htotal'⟩ := ih hvalid hrest
    exact ⟨hb, hbase'.trans hbase, htotal'.trans htotal⟩

/-- The live extents can be taken back in any order, and then none is left. -/
theorem Valid.serve_frees (h : a.Valid) {frees : List (VirtAddr × Nat)}
    (hall : (frees.map fun f => (f.1.toNat, f.2)).Perm a.regions) :
    ∃ b, (a.serve (frees.map fun f => .free f.1 f.2)).result = .ok b ∧ b.extents = [] := by
  induction frees generalizing a with
  | nil =>
    refine ⟨a, rfl, ?_⟩
    simpa [regions] using hall.symm.eq_nil
  | cons f frees ih =>
    obtain ⟨a', ha'⟩ := h.free_ok (hall.mem_iff.mp List.mem_cons_self)
    obtain ⟨hvalid, -, -, hperm⟩ := h.free_perm ha'
    obtain ⟨b, hb, hempty⟩ := ih hvalid (List.perm_cons _ |>.mp (hall.trans hperm))
    exact ⟨b, serve_cons_eq_ok.mpr ⟨a', ha', hb⟩, hempty⟩

theorem addressOf_zero (a : Arena) : a.addressOf 0 = .ok a.base := by
  have hbytes : (pagesToBytes 0).toNat = 0 := by
    rw [pagesToBytes_toNat, Nat.zero_mul]
    rfl
  have hsize := a.base.lt_size
  unfold addressOf VirtAddr.offset
  rw [hbytes, if_pos (by omega)]
  exact VirtAddr.ofNat_of_canonical a.base.canonical

/-- With nothing live, the whole arena is one extent away. -/
theorem Valid.alloc_all (h : a.Valid) (hempty : a.extents = []) (hpos : 0 < a.total) :
    ∃ b, (a.alloc a.total).result = .ok (some a.base, b) := by
  have hfirst : a.FirstRun a.total 0 := by
    refine ⟨by omega, fun p _ hp => ?_, fun r hr => absurd hr (Nat.not_lt_zero r)⟩
    rw [← Bool.not_eq_true, h.taken p (by omega), hempty]
    simp
  cases hfind : a.taken.findRun? a.total a.total with
  | none => exact absurd hfirst.free (crowded_of_findRun? hfind 0 hfirst.inside)
  | some first =>
    have hzero : first = 0 := by
      have := (firstRun_of_findRun? hfind).inside
      omega
    subst hzero
    exact ⟨_, alloc_eq_ok.mpr (.inr ⟨0, a.base, rfl, rfl, hpos,
      h.count_le_available hfirst.inside hfirst.free, hfind, a.addressOf_zero⟩)⟩

/-- After any requests that were not fatal, an arena over a canonical span has its
books in order, every further request has a definite outcome, and taking back what
lives, in any order, makes the whole arena available. -/
theorem first_fit {base : VirtAddr} {pages : Nat} {requests : List Request} {a₀ a : Arena}
    (hspan : CanonicalSpan base pages) (hnew : (new base pages).result = .ok a₀)
    (hserve : (a₀.serve requests).result = .ok a) :
    a.base = base ∧ a.total = pages ∧
    (∀ e ∈ a.extents, 0 < e.count ∧ e.first + e.count ≤ pages ∧
      ∃ addr, a.addressOf e.first = .ok addr ∧ addr.toNat = base.toNat + e.first * pageSize) ∧
    (a.extents.Pairwise fun e f => ∀ p, ¬ (e.Holds p ∧ f.Holds p)) ∧
    (∀ p, p < pages → (a.taken.get p = true ↔ ∃ e ∈ a.extents, e.Holds p)) ∧
    a.available = ((Finset.range pages).filter fun p => a.taken.get p = false).card ∧
    (∀ count, ∃ answer b, (a.alloc count).result = .ok (answer, b) ∧
      (answer = none ↔ count = 0 ∨ a.Crowded count) ∧ (answer = none → b = a) ∧
      ∀ addr, answer = some addr → ∃ first, addr.toNat = base.toNat + first * pageSize ∧
        a.FirstRun count first ∧ a.Adds ⟨first, count⟩ b) ∧
    (∀ addr count,
      ((∃ fault, (a.free addr count).result = .error fault) ↔
        ¬ ∃ e ∈ a.extents, addr.toNat = base.toNat + e.first * pageSize ∧ count = e.count) ∧
      ∀ b, (a.free addr count).result = .ok b → ∃ first,
        addr.toNat = base.toNat + first * pageSize ∧ b.Adds ⟨first, count⟩ a) ∧
    ∀ frees : List (VirtAddr × Nat), (frees.map fun f => (f.1.toNat, f.2)).Perm a.regions →
      ∃ b, (a.serve (frees.map fun f => .free f.1 f.2)).result = .ok b ∧ b.extents = [] ∧
        (0 < pages → ∃ c, (b.alloc pages).result = .ok (some base, c)) := by
  obtain ⟨h, hbase, htotal⟩ := (valid_new hnew).serve hserve
  obtain ⟨-, -, rfl⟩ := new_eq_ok.mp hnew
  dsimp only at hbase htotal
  subst hbase htotal
  refine ⟨rfl, rfl, fun e he => ?_, h.apart.imp Extent.Before.disjoint, h.taken, h.available_eq,
    fun count => ?_, fun addr count => ⟨?_, fun b hb => (h.free_adds hb).2⟩, fun frees hall => ?_⟩
  · obtain ⟨hpos, hin⟩ := h.inside e he
    exact ⟨hpos, hin, hspan.offset (by omega)⟩
  · obtain ⟨answer, b, halloc⟩ := Valid.alloc_ok hspan count
    refine ⟨answer, b, halloc, h.alloc_none_iff halloc, ?_, ?_⟩
    · rintro rfl
      exact (h.alloc_eq_none halloc).1
    · rintro addr rfl
      obtain ⟨first, -, hat, hrun, hadds, -⟩ := h.alloc_eq_some halloc
      have hinside := hrun.inside
      obtain ⟨addr', hoffset, hvalue⟩ := hspan.offset (show first ≤ a.total by omega)
      cases hat.symm.trans hoffset
      exact ⟨first, hvalue, hrun, hadds⟩
  · rw [← h.free_ok_iff]
    cases (a.free addr count).result <;> simp
  · obtain ⟨b, hb, hempty⟩ := h.serve_frees hall
    obtain ⟨hvalid, hbase, htotal⟩ := h.serve hb
    refine ⟨b, hb, hempty, fun hpos => ?_⟩
    rw [← hbase, ← htotal]
    exact hvalid.alloc_all hempty (htotal ▸ hpos)

/-- Two extents taken, the first of them given back, and then the second. -/
theorem first_fit_small : ∃ a₀ a b c, (new ⟨0x100000, by decide⟩ 8).result = .ok a₀ ∧
    (a₀.serve [.alloc 2, .alloc 3, .free ⟨0x100000, by decide⟩ 2]).result = .ok a ∧
    a.regions = [(0x102000, 3)] ∧
    (a.serve [.free ⟨0x102000, by decide⟩ 3]).result = .ok b ∧
    (b.alloc 8).result = .ok (some ⟨0x100000, by decide⟩, c) := by
  have hspan : CanonicalSpan ⟨0x100000, by decide⟩ 8 := by
    intro w hlow hhigh
    simp only [pageSize] at hhigh
    unfold Canonical
    omega
  obtain ⟨a₀, hnew, -⟩ := observe_ok (x := (new ⟨0x100000, by decide⟩ 8).result) (fun _ => ())
    (b := ()) (by decide +kernel)
  obtain ⟨-, -, rfl⟩ := new_eq_ok.mp hnew
  obtain ⟨a, hserve, hregions⟩ := observe_ok regions (b := [(0x102000, 3)])
    (x := (serve ⟨⟨0x100000, by decide⟩, 8, .clear 8, [], 8⟩
      [.alloc 2, .alloc 3, .free ⟨0x100000, by decide⟩ 2]).result) (by decide +kernel)
  obtain ⟨-, -, -, -, -, -, -, -, hdrain⟩ := first_fit hspan hnew hserve
  obtain ⟨b, hb, -, hall⟩ := hdrain [(⟨0x102000, by decide⟩, 3)] (by rw [hregions]; rfl)
  obtain ⟨c, hc⟩ := hall (by decide)
  exact ⟨_, a, b, c, hnew, hserve, hregions, hb, hc⟩

end Arena

end KernelThreads
