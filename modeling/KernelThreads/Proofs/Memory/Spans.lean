import KernelThreads.Memory.Stacks
import KernelThreads.Proofs.Memory.Extents
import KernelThreads.Thread.Registers

/-!
Addresses of pages and stacks. Over a span that the machine can address whole,
no address computation fails, and an arena can be read as a list of regions, each
the address of an extent with its page count.
-/
namespace KernelThreads

open Logged (bind_eq_ok ensure_eq_ok pure_eq_ok)

/-- Where a page has an address, the sum that leads there does not fail. -/
theorem VirtAddr.offset_pages {base : VirtAddr} {first : Nat}
    (h : Canonical (base.toNat + first * pageSize)) :
    base.offset (pagesToBytes first) = .ok ⟨_, h⟩ := by
  have hlt : base.toNat + first * pageSize < UInt64.size := lt_size ⟨_, h⟩
  have hbytes : (pagesToBytes first).toNat = first * pageSize := by
    rw [pagesToBytes_toNat, Nat.mod_eq_of_lt (by omega)]
  unfold offset
  rw [hbytes, if_pos hlt, ofNat_of_canonical h]

/-- The `pages` pages from `base` start at canonical addresses. Their end may be none. -/
def CanonicalPages (base : VirtAddr) (pages : Nat) : Prop :=
  ∀ i < pages, Canonical (base.toNat + i * pageSize)

instance (base : VirtAddr) (pages : Nat) : Decidable (CanonicalPages base pages) :=
  inferInstanceAs (Decidable (∀ i < pages, Canonical (base.toNat + i * pageSize)))

namespace CanonicalPages
variable {base addr : VirtAddr} {pages first count : Nat}

theorem offset (h : CanonicalPages base pages) (hp : first < pages) :
    ∃ addr, base.offset (pagesToBytes first) = .ok addr ∧
      addr.toNat = base.toNat + first * pageSize :=
  ⟨_, VirtAddr.offset_pages (h first hp), rfl⟩

theorem within (h : CanonicalPages base pages)
    (haddr : addr.toNat = base.toNat + first * pageSize) (hin : first + count ≤ pages) :
    CanonicalPages addr count := by
  intro i hi
  rw [haddr, Nat.add_assoc, ← Nat.add_mul]
  exact h (first + i) (by omega)

end CanonicalPages

/-- Every address of the `pages` pages from `base`, their end included, is canonical. -/
def CanonicalSpan (base : VirtAddr) (pages : Nat) : Prop :=
  ∀ w, base.toNat ≤ w → w ≤ base.toNat + pages * pageSize → Canonical w

namespace CanonicalSpan
variable {base addr : VirtAddr} {pages first count : Nat}

theorem canonicalPages (h : CanonicalSpan base pages) : CanonicalPages base pages := by
  intro i hi
  have hle : i * pageSize ≤ pages * pageSize := Nat.mul_le_mul_right pageSize (Nat.le_of_lt hi)
  exact h _ (by omega) (by omega)

theorem offset (h : CanonicalSpan base pages) (hp : first ≤ pages) :
    ∃ addr, base.offset (pagesToBytes first) = .ok addr ∧
      addr.toNat = base.toNat + first * pageSize := by
  have hle : first * pageSize ≤ pages * pageSize := Nat.mul_le_mul_right pageSize hp
  exact ⟨_, VirtAddr.offset_pages (h _ (by omega) (by omega)), rfl⟩

theorem within (h : CanonicalSpan base pages) (haddr : addr.toNat = base.toNat + first * pageSize)
    (hin : first + count ≤ pages) : CanonicalSpan addr count := by
  intro w hlow hhigh
  have hle := Nat.mul_le_mul_right pageSize hin
  rw [Nat.add_mul] at hle
  exact h w (by omega) (by omega)

end CanonicalSpan

namespace Stack
variable {s t : Stack}

/-- The address of the extent with its page count. -/
def region (s : Stack) : Nat × Nat := (s.base.toNat, s.pages)

theorem top_eq (hs : CanonicalSpan s.base s.pages) :
    ∃ top, s.top = .ok top ∧ top.toNat = s.base.toNat + s.pages * pageSize :=
  hs.offset (Nat.le_refl _)

theorem overlaps_eq (hs : CanonicalSpan s.base s.pages) (ht : CanonicalSpan t.base t.pages) :
    s.overlaps t = .ok (decide (s.base.toNat < t.base.toNat + t.pages * pageSize ∧
      t.base.toNat < s.base.toNat + s.pages * pageSize)) := by
  obtain ⟨stop, hstop, hs⟩ := top_eq hs
  obtain ⟨ttop, httop, ht⟩ := top_eq ht
  simp only [overlaps, httop, hstop, bind, Except.bind, pure, Except.pure, hs, ht]
  by_cases h : s.base.toNat < t.base.toNat + t.pages * pageSize
  · simp only [h, if_true, true_and]
  · simp only [h, if_false, false_and, decide_false]

end Stack

namespace Context

/-- On a stack of canonical addresses with at least one page no first image fails. -/
theorem start_ok {stack : Stack} (hs : CanonicalSpan stack.base stack.pages)
    (hpages : 0 < stack.pages) (entry : EntryPoint) (arg1 : Int64) (arg2 : UInt64)
    (directory : PhysAddr) : ∃ c, start entry arg1 arg2 stack directory = .ok c := by
  obtain ⟨bottom, hbottom, -⟩ := hs.offset (show guardPages ≤ _ from hpages)
  obtain ⟨top, htop, hvalue⟩ := Stack.top_eq hs
  have hroom : 8 ≤ top.toNat / 16 * 16 := by
    have : pageSize ≤ stack.pages * pageSize := Nat.le_mul_of_pos_left pageSize hpages
    simp only [pageSize] at this hvalue
    omega
  simp only [start, empty, Stack.bottom, hbottom, htop, bind, Except.bind, pure, Except.pure,
    if_pos hroom]
  exact ⟨_, rfl⟩

theorem empty_ok {stack : Stack} (hs : CanonicalSpan stack.base stack.pages)
    (hpages : 0 < stack.pages) : ∃ c, empty stack = .ok c := by
  obtain ⟨bottom, hbottom, -⟩ := hs.offset (show guardPages ≤ _ from hpages)
  simp only [empty, Stack.bottom, hbottom, bind, Except.bind, pure, Except.pure]
  exact ⟨_, rfl⟩

end Context

namespace Arena
variable {a b : Arena} {addr : VirtAddr} {count : Nat}

/-- The live extents, each as its address and its page count. -/
def regions (a : Arena) : List (Nat × Nat) :=
  a.extents.map fun e => (a.base.toNat + e.first * pageSize, e.count)

theorem pageAt?_eq_some {page : Nat} : a.pageAt? addr = some page ↔
    addr.toNat = a.base.toNat + page * pageSize ∧ page < a.total := by
  unfold pageAt?
  split
  · simp only [Option.ite_none_right_eq_some, Option.some.injEq]
    simp only [pageSize]
    omega
  · simp only [reduceCtorEq, false_iff]
    omega

/-- Where every page has an address, an allocation does not stop the kernel. -/
theorem alloc_returns (hpages : CanonicalPages a.base a.total) (count : Nat) :
    ∃ r b, (a.alloc count).result = .ok (r, b) := by
  by_cases hnone : count = 0 ∨ a.available < count ∨ a.taken.findRun? a.total count = none
  · exact ⟨none, a, alloc_eq_ok.mpr (.inl ⟨rfl, rfl, hnone⟩)⟩
  · simp only [not_or] at hnone
    obtain ⟨hpos, hroom, hrun⟩ := hnone
    obtain ⟨first, hfirst⟩ := Option.ne_none_iff_exists'.mp hrun
    obtain ⟨-, htotal, -, -⟩ := Bitmap.findRun?_eq_some hfirst
    obtain ⟨addr, haddr, -⟩ := hpages.offset (show first < _ by omega)
    exact ⟨some addr, _, alloc_eq_ok.mpr
      (.inr ⟨first, addr, rfl, rfl, by omega, by omega, hfirst, haddr⟩)⟩

theorem Valid.alloc_ok (hspan : CanonicalSpan a.base a.total) (count : Nat) :
    ∃ r b, (a.alloc count).result = .ok (r, b) := alloc_returns hspan.canonicalPages count

/-- What is allocated are pages of the arena. -/
theorem alloc_pages (hpages : CanonicalPages a.base a.total)
    (halloc : (a.alloc count).result = .ok (some addr, b)) :
    ∃ first, first + count ≤ a.total ∧ addr.toNat = a.base.toNat + first * pageSize := by
  rcases alloc_eq_ok.mp halloc with ⟨hnone, -⟩ | ⟨first, addr', haddr, -, hpos, -, hrun, hat⟩
  · cases hnone
  · cases haddr
    obtain ⟨-, htotal, -, -⟩ := Bitmap.findRun?_eq_some hrun
    obtain ⟨addr', hoffset, hvalue⟩ := hpages.offset (show first < _ by omega)
    cases hat.symm.trans hoffset
    exact ⟨first, htotal, hvalue⟩

theorem Valid.alloc_none (hr : (a.alloc count).result = .ok (none, b)) : b = a := by
  rcases alloc_eq_ok.mp hr with ⟨-, rfl, -⟩ | ⟨first, addr, h, -⟩
  · rfl
  · cases h

/-- An allocation adds one region. -/
theorem Valid.alloc_some (h : a.Valid) (hspan : CanonicalSpan a.base a.total)
    (hr : (a.alloc count).result = .ok (some addr, b)) :
    b.Valid ∧ b.base = a.base ∧ b.total = a.total ∧ CanonicalSpan addr count ∧
      b.regions.Perm ((addr.toNat, count) :: a.regions) := by
  rcases alloc_eq_ok.mp hr with ⟨hnone, -⟩ | ⟨first, addr', haddr, rfl, hpos, hroom, hrun, hat⟩
  · cases hnone
  · cases haddr
    obtain ⟨-, htotal, hfree, -⟩ := Bitmap.findRun?_eq_some hrun
    obtain ⟨addr'', hoffset, hvalue⟩ := hspan.offset (show first ≤ _ by omega)
    cases hat.symm.trans hoffset
    refine ⟨h.take hpos hroom htotal hfree, rfl, rfl, hspan.within hvalue htotal, ?_⟩
    rw [hvalue]
    exact (a.take_perm ⟨first, count⟩).map _

/-- A free takes one region away. -/
theorem Valid.free_perm (h : a.Valid) (hr : (a.free addr count).result = .ok b) :
    b.Valid ∧ b.base = a.base ∧ b.total = a.total ∧
      a.regions.Perm ((addr.toNat, count) :: b.regions) := by
  obtain ⟨first, hpage, hextent, rfl⟩ := free_eq_ok.mp hr
  obtain ⟨hmem, -⟩ := h.extentAt?_eq_some.mp hextent
  obtain ⟨haddr, -⟩ := pageAt?_eq_some.mp hpage
  refine ⟨h.giveBack hmem, rfl, rfl, ?_⟩
  rw [haddr]
  exact (h.giveBack_perm hmem).map _

/-- A live extent goes back under the address of its first page. -/
theorem Valid.free_extent {e : Extent} (h : a.Valid) (he : e ∈ a.extents)
    (haddr : addr.toNat = a.base.toNat + e.first * pageSize) :
    (a.free addr e.count).result = .ok (a.giveBack e) := by
  obtain ⟨hpos, hin⟩ := h.inside e he
  exact free_eq_ok.mpr ⟨e.first, pageAt?_eq_some.mpr ⟨haddr, by omega⟩,
    h.extentAt?_eq_some.mpr ⟨he, rfl⟩, rfl⟩

theorem Valid.free_ok (h : a.Valid) (hmem : (addr.toNat, count) ∈ a.regions) :
    ∃ b, (a.free addr count).result = .ok b := by
  obtain ⟨e, he, hregion⟩ := List.mem_map.mp hmem
  obtain ⟨haddr, rfl⟩ := Prod.mk.inj hregion
  exact ⟨_, h.free_extent he haddr.symm⟩

theorem Valid.span_of_mem (h : a.Valid) (hspan : CanonicalSpan a.base a.total)
    (hmem : (addr.toNat, count) ∈ a.regions) : CanonicalSpan addr count := by
  obtain ⟨e, he, hregion⟩ := List.mem_map.mp hmem
  obtain ⟨haddr, rfl⟩ := Prod.mk.inj hregion
  exact hspan.within haddr.symm (h.inside e he).2

theorem Valid.regions_apart (h : a.Valid) :
    a.regions.Pairwise fun x y => x.1 + x.2 * pageSize ≤ y.1 := by
  refine List.pairwise_map.mpr (h.apart.imp fun {e f} hef => ?_)
  have := Nat.mul_le_mul_right pageSize hef
  rw [Nat.add_mul] at this
  simp only
  omega

end Arena

namespace StackConfig
variable {c : StackConfig} {a b : Arena} {s : Stack}

/-- The guard is part of an extent. -/
theorem extentPages_pos (c : StackConfig) : 0 < c.extentPages :=
  Nat.lt_of_lt_of_le Nat.zero_lt_one (Nat.le_add_right _ _)

theorem validate_eq_ok : c.validate.result = .ok () ↔
    c.stackSize ≠ 0 ∧ c.stackSize.toNat % pageSize = 0 := by
  simp only [validate, bind_eq_ok, ensure_eq_ok, exists_const]

theorem guard_lt_extentPages (h : c.validate.result = .ok ()) : guardPages < c.extentPages := by
  obtain ⟨hzero, hwhole⟩ := validate_eq_ok.mp h
  have hpos : c.stackSize.toNat ≠ 0 := fun hsize => hzero (UInt64.toNat_inj.mp hsize)
  unfold extentPages stackPages
  simp only [pageSize] at hwhole ⊢
  omega

/-- An extent is the guard and the working pages, which fill the size that was asked for. -/
theorem extentPages_bytes (h : c.validate.result = .ok ()) :
    c.extentPages * pageSize = pageSize + c.stackSize.toNat := by
  obtain ⟨-, hwhole⟩ := validate_eq_ok.mp h
  rw [extentPages, Nat.add_mul, guardPages, Nat.one_mul, stackPages,
    Nat.div_mul_cancel (Nat.dvd_of_mod_eq_zero hwhole)]

/-- The working pages of a stack have the size that was asked for. -/
theorem size_eq (h : c.validate.result = .ok ()) {s : Stack} (hpages : s.pages = c.extentPages) :
    s.size = c.stackSize := by
  have hbytes : (s.pages - guardPages) * pageSize = c.stackSize.toNat := by
    rw [hpages, Nat.sub_mul, extentPages_bytes h, guardPages, Nat.one_mul, Nat.add_sub_cancel_left]
  rw [Stack.size, pagesToBytes, hbytes]
  exact UInt64.ofNat_toNat

theorem acquire_eq_ok {P : Type} [PageSource P] {p q : P} {r : Except Exhausted Stack} :
    (c.acquire p).result = .ok (r, q) ↔
      ∃ base?, (PageSource.alloc p c.extentPages).result = .ok (base?, q) ∧
        r = match base? with
          | some base => .ok ⟨base, c.extentPages⟩
          | none => .error .kernelStack := by
  unfold acquire
  simp only [bind_eq_ok, Prod.exists]
  constructor
  · rintro ⟨base?, q', halloc, hr⟩
    cases base? <;> cases hr <;> exact ⟨_, halloc, rfl⟩
  · rintro ⟨base?, halloc, rfl⟩
    refine ⟨base?, q, halloc, ?_⟩
    cases base? <;> rfl

theorem release_eq_ok {P : Type} [PageSource P] {p q : P} : (c.release p s).result = .ok q ↔
    s.pages = c.extentPages ∧ (PageSource.free p s.base s.pages).result = .ok q := by
  simp only [release, bind_eq_ok, ensure_eq_ok, exists_and_left, exists_const]

end StackConfig

end KernelThreads
