import Mathlib.Order.Lattice

/-!
# Viewports on a growing log

A log has had `total` items, of which the last `keep` are retained, and a pane of
`height` lines shows some of those.  Where the pane ends is stored as an offset from the
newest item, which may be larger than what the pane can follow: it is clamped so that
the oldest retained item is not below the first line.

Items are counted from the first one that the log ever had.

Main definitions:

- `retained`, `stop`, `top`: how many items are retained and which ones are shown.

Main results:

- Theorem `top_arrive`: an offset that is raised with every new item keeps the pane still.
-/

namespace DtCore
namespace Foundation
namespace Viewport

variable (keep height : Nat)

/-- How many of the items are retained. -/
def retained (total : Nat) : Nat :=
  min keep total

/-- The items in front of the end of the pane. -/
def stop (offset total : Nat) : Nat :=
  total - min offset (retained keep total - height)

/-- The number of items that are shown. -/
def shown (total : Nat) : Nat :=
  min height (retained keep total)

/-- The items in front of the first line. -/
def top (offset total : Nat) : Nat :=
  stop keep height offset total - shown keep height total

variable {keep height} {offset total n : Nat}

/-- As items arrive and the offset follows them, the first line shows the same item as
long as that item is retained. -/
theorem top_arrive (h : total + n ≤ top keep height offset total + keep) :
    top keep height (offset + n) (total + n) = top keep height offset total := by
  unfold top stop shown retained at *
  omega

/-- The pane shows no less when items arrive. -/
theorem shown_mono : shown keep height total ≤ shown keep height (total + n) := by
  unfold shown retained
  omega

/-- As long as its first item is retained, a pane has followed few items. -/
theorem offset_bound (hoffset : offset ≤ total)
    (h : total + n ≤ top keep height offset total + keep) : n = 0 ∨ offset + n ≤ 2 * keep := by
  unfold top stop shown retained at h
  omega

end Viewport
end Foundation
end DtCore
