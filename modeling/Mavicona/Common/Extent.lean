import Mathlib.Order.CompletePartialOrder
import Mathlib.Order.Interval.Set.Disjoint

/-!
# Extents

An extent is a half-open range of byte offsets. Allocators that hand out extents in increasing order
keep them disjoint; `disjoint_of_stop_le` is the one fact such a proof needs.
-/

/-- The byte range `[start, start + len)`. -/
structure Extent where
  start : ℕ
  len : ℕ

namespace Extent

/-- The first offset behind the extent. -/
def stop (e : Extent) : ℕ := e.start + e.len

/-- The offsets of the extent. -/
def bytes (e : Extent) : Set ℕ := Set.Ico e.start e.stop

/-- An extent that ends before another one starts does not meet it. -/
theorem disjoint_of_stop_le {a b : Extent} (h : a.stop ≤ b.start) : Disjoint a.bytes b.bytes :=
  Set.disjoint_left.mpr fun i ha hb => by
    simp only [bytes, Set.mem_Ico] at ha hb
    omega

theorem disjoint_of_le_start {a b : Extent} (h : b.stop ≤ a.start) : Disjoint a.bytes b.bytes :=
  (disjoint_of_stop_le h).symm

end Extent
