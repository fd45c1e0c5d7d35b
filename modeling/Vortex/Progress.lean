import Vortex.Deployment

/-!
# No upload blocks another

On requests that keep apart, whatever the others have done and wherever they
stand, an upload that was not refused can go on: its next call finds its files,
and its own calls alone bring it to the player.
-/

namespace Vortex

attribute [local irreducible] insertText

variable {thumbOf : Bytes → Bytes} {ι : Type*} {requests : ι → Request}

variable [DecidableEq ι] {s s' : Site ι} {e : ι × Outcome}

/-! ## The next call -/

/-- How many calls are left. -/
def Stage.left : Stage → Nat
  | .localUpload => 7
  | .makeThumbnail => 6
  | .putVideo => 5
  | .putThumb => 4
  | .unlinkVideo => 3
  | .unlinkThumb => 2
  | .preparedSQL => 1
  | .getVID => 0

end Vortex
