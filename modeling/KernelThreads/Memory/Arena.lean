import KernelThreads.Diagnostics.Logged
import KernelThreads.Memory.Bitmap
import KernelThreads.Memory.Paging

/-!
A first-fit allocator of page extents over a fixed virtual range. Live extents
are kept in ascending order, so arenas with the same extents are equal.
-/
namespace KernelThreads

open Logged (emit ensure demand fail)

structure Extent where
  first : Nat
  count : Nat
deriving DecidableEq, Repr

/-- Puts `e` before the first extent that starts after it. -/
def Extent.place (e : Extent) : List Extent → List Extent
  | [] => [e]
  | x :: xs => if e.first < x.first then e :: x :: xs else x :: e.place xs

structure Arena where
  base : VirtAddr
  total : Nat
  taken : Bitmap
  extents : List Extent
  available : Nat
deriving DecidableEq

namespace Arena

/-- An arena of `pages` free pages. Its bitmap is sized by rounding up to
whole words, which a page count near the end of the word range overflows. -/
def new (base : VirtAddr) (pages : Nat) : Logged Arena := do
  ensure (base.toNat % pageSize = 0) (.arenaUnaligned base)
  if pages + 63 < UInt64.size then
    return { base, total := pages, taken := .clear pages, extents := [], available := pages }
  else fail (.address .overflow)

def addressOf (a : Arena) (page : Nat) : Except AddressError VirtAddr :=
  a.base.offset (pagesToBytes page)

/-- The page that starts at `addr`. -/
def pageAt? (a : Arena) (addr : VirtAddr) : Option Nat :=
  if a.base.toNat ≤ addr.toNat then
    let bytes := addr.toNat - a.base.toNat
    if bytes % pageSize = 0 ∧ bytes / pageSize < a.total then some (bytes / pageSize) else none
  else none

def extentAt? (a : Arena) (page : Nat) : Option Extent := a.extents.find? (·.first = page)

def take (a : Arena) (e : Extent) : Arena :=
  { a with
    taken := a.taken.fill e.first e.count true
    extents := e.place a.extents
    available := a.available - e.count }

def giveBack (a : Arena) (e : Extent) : Arena :=
  { a with
    taken := a.taken.fill e.first e.count false
    extents := a.extents.filter (·.first ≠ e.first)
    available := a.available + e.count }

/-- The base of the first run of `count` free pages. -/
def alloc (a : Arena) (count : Nat) : Logged (Option VirtAddr × Arena) :=
  if count = 0 ∨ a.available < count then pure (none, a)
  else
    match a.taken.findRun? a.total count with
    | none => pure (none, a)
    | some first => do
      let addr ← a.addressOf first
      emit (.pagesAllocated count addr)
      return (some addr, a.take ⟨first, count⟩)

/-- Only a live extent can be freed, by its base and its exact page count. -/
def free (a : Arena) (addr : VirtAddr) (count : Nat) : Logged Arena := do
  let first ← demand (a.pageAt? addr) (.freeOutsideArena addr)
  let e ← demand (a.extentAt? first) (.freeOfNoExtent addr)
  ensure (e.count = count) (.freeOfWrongCount addr count e.count)
  emit (.pagesFreed count addr)
  return a.giveBack ⟨first, count⟩

end Arena

end KernelThreads
