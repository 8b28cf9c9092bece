import KernelThreads.Proofs.Memory.FirstFit

/-!
Stacks up to the last address. All pages of an arena may have addresses where its end has
none: behind the lower half, where the sum of addresses goes on in the upper half, and behind
the last byte, where it fails.
-/
namespace KernelThreads

/-- Where the lower half ends. -/
def VirtAddr.lowerEnd : Nat := 0x800000000000

namespace CanonicalPages
variable {base : VirtAddr} {pages first : Nat}

/-- Neither half of the space holds more pages. -/
theorem pages_le (h : CanonicalPages base pages) : pages ≤ 0x800000000 := by
  by_contra hlarge
  -- half a space above the first page lies in the gap, or past the end
  have hpast := h 0x800000000 (by omega)
  have hbase := base.canonical
  simp only [Canonical, pageSize] at hpast hbase
  omega

/-- The end of the pages has an address, or is the end of a half. -/
theorem end_cases (h : CanonicalPages base pages) (haligned : base.toNat % pageSize = 0)
    (hpos : 0 < pages) : Canonical (base.toNat + pages * pageSize) ∨
      base.toNat + pages * pageSize = VirtAddr.lowerEnd ∨
      base.toNat + pages * pageSize = UInt64.size := by
  have hlast := h (pages - 1) (by omega)
  unfold UInt64.size
  simp only [Canonical, VirtAddr.lowerEnd, pageSize] at hlast haligned ⊢
  omega

/-- Only the end of all pages can be the end of a half. -/
theorem end_eq (h : CanonicalPages base pages) (hin : first ≤ pages)
    (hend : base.toNat + first * pageSize = VirtAddr.lowerEnd ∨
      base.toNat + first * pageSize = UInt64.size) : first = pages := by
  by_contra hne
  have hcanonical := h first (by omega)
  unfold UInt64.size at hend
  simp only [Canonical, VirtAddr.lowerEnd, pageSize] at hcanonical hend
  omega

end CanonicalPages

namespace Stack
variable {s : Stack}

/-- One past the last byte, which need not have an address. -/
def limit (s : Stack) : Nat := s.base.toNat + s.pages * pageSize

theorem top_eq_limit (hs : CanonicalPages s.base s.pages) :
    s.top = if s.limit < UInt64.size then VirtAddr.ofNat s.limit else .error .overflow := by
  have hbytes : (pagesToBytes s.pages).toNat = s.pages * pageSize := by
    have hpages := hs.pages_le
    rw [pagesToBytes_toNat]
    refine Nat.mod_eq_of_lt ?_
    unfold UInt64.size pageSize
    omega
  rw [top, VirtAddr.offset, hbytes, limit]

end Stack

namespace Context
variable {s : Stack} {c : Context} {entry : EntryPoint} {arg1 : Int64} {arg2 : UInt64}
  {directory : PhysAddr}

/-- `c` calls `entry arg1 arg2` on the stack `s`, in the address space of `directory`. -/
structure Enters (c : Context) (entry : EntryPoint) (arg1 : Int64) (arg2 : UInt64) (s : Stack)
    (directory : PhysAddr) : Prop where
  rip : c.rip = .entry entry
  rdi : c.rdi = arg1.toUInt64
  rsi : c.rsi = arg2
  pageDirectory : c.pageDirectory = directory
  bottom : c.stackBottom.toNat = s.base.toNat + pageSize
  size : c.stackSize = s.size
  aligned : c.rsp.toNat % 16 = 8

/-- A first image stands eight bytes below the top, whatever the top is. -/
theorem start_below_top {top : VirtAddr} (hs : CanonicalPages s.base s.pages)
    (hguarded : guardPages < s.pages) (htop : s.top = .ok top) (hpos : 0 < top.toNat)
    (haligned : top.toNat % 16 = 0) :
    ∃ c, start entry arg1 arg2 s directory = .ok c ∧ c.Enters entry arg1 arg2 s directory ∧
      c.rsp.toNat + 8 = top.toNat := by
  obtain ⟨bottom, hbottom, hvalue⟩ := hs.offset hguarded
  have hround : top.toNat / 16 * 16 = top.toNat := by omega
  have hroom : 8 ≤ top.toNat := by omega
  have hrsp : (top.toNat - 8).toUInt64.toNat = top.toNat - 8 := by
    have := top.lt_size
    simp only [Nat.toUInt64_eq, UInt64.toNat_ofNat']
    exact Nat.mod_eq_of_lt (by unfold UInt64.size at this; omega)
  simp only [start, empty, Stack.bottom, hbottom, htop, bind, Except.bind, pure, Except.pure,
    hround, if_pos hroom, Except.ok.injEq, exists_eq_left']
  refine ⟨⟨rfl, rfl, rfl, rfl, ?_, rfl, ?_⟩, ?_⟩
  · rw [hvalue, guardPages, Nat.one_mul]
  · rw [hrsp]
    omega
  · rw [hrsp]
    omega

/-- A first image stands at the limit of its stack, or behind the gap between the halves. -/
theorem start_enters (hs : CanonicalPages s.base s.pages) (haligned : s.base.toNat % pageSize = 0)
    (hguarded : guardPages < s.pages) (hlimit : s.limit ≠ UInt64.size) :
    ∃ c, start entry arg1 arg2 s directory = .ok c ∧ c.Enters entry arg1 arg2 s directory ∧
      (s.limit ≠ VirtAddr.lowerEnd → c.rsp.toNat + 8 = s.limit) ∧
      (s.limit = VirtAddr.lowerEnd → c.rsp = 0xffff7ffffffffff8) := by
  have hpages : 0 < s.pages := Nat.zero_lt_of_lt hguarded
  have hpage : s.limit % 16 = 0 := by
    simp only [Stack.limit, pageSize] at haligned ⊢
    omega
  rcases hs.end_cases haligned hpages with hcanonical | hlower | hend
  · have hlt : s.limit < UInt64.size := VirtAddr.lt_size ⟨_, hcanonical⟩
    have htop : s.top = .ok ⟨s.limit, hcanonical⟩ := by
      rw [Stack.top_eq_limit hs, if_pos hlt]
      exact VirtAddr.ofNat_of_canonical hcanonical
    have hpos : 0 < s.limit := by
      simp only [Stack.limit, pageSize]
      omega
    obtain ⟨c, hstart, henters, hrsp⟩ := start_below_top hs hguarded htop hpos hpage
    refine ⟨c, hstart, henters, fun _ => hrsp, fun hlower => ?_⟩
    rw [show s.base.toNat + s.pages * pageSize = _ from hlower] at hcanonical
    exact absurd hcanonical (by decide)
  · have hextended : VirtAddr.ofNat VirtAddr.lowerEnd = .ok ⟨0xffff800000000000, by decide⟩ := rfl
    have htop : s.top = .ok ⟨0xffff800000000000, by decide⟩ := by
      rw [Stack.top_eq_limit hs, show s.limit = _ from hlower, if_pos (by decide), hextended]
    obtain ⟨c, hstart, henters, hrsp⟩ :=
      start_below_top hs hguarded htop (by decide) (by decide)
    refine ⟨c, hstart, henters, fun hother => absurd hlower hother, fun _ => ?_⟩
    exact UInt64.toNat_inj.mp (Nat.add_right_cancel hrsp)
  · exact absurd hend hlimit

theorem start_overflows (hs : CanonicalPages s.base s.pages) (hguarded : guardPages < s.pages)
    (hlimit : s.limit = UInt64.size) :
    start entry arg1 arg2 s directory = .error .overflow := by
  obtain ⟨bottom, hbottom, -⟩ := hs.offset hguarded
  have htop : s.top = .error .overflow := by
    rw [Stack.top_eq_limit hs, if_neg (Nat.not_lt.mpr (Nat.le_of_eq hlimit.symm))]
  simp [start, empty, Stack.bottom, hbottom, htop, bind, Except.bind, pure, Except.pure]

end Context

end KernelThreads
