import UkfsFuse.Logic.OptRender
import UkfsFuse.Source.Helper

/-!
# What the command line's parser keeps

Options never touch the mountpoint, and an argument that is no option is never
kept: the first is the mountpoint and a second one ends the parse.
-/

namespace UkfsFuse

open UkfsFuse.Core AllocM

/-! ## What options leave alone -/

section Frame

variable {σ β : Type}

/-- Nothing a parser does for an option changes `f` of its data. -/
structure OptParser.Leaves (P : OptParser σ) (f : σ → β) : Prop where
  setInt : ∀ data var value, f (P.setInt data var value) = f data
  setString : ∀ data var s, f (P.setString data var s) = f data
  sscanf : ∀ data var format param data',
    P.sscanf data var format param = some data' → f data' = f data
  proc : ∀ proc ∈ P.proc, ∀ data arg key outargs, key ≠ FUSE_OPT_KEY_NONOPT →
    Returns (proc data arg key outargs) fun r => f r.2.1 = f data
  keys : ∀ o ∈ P.opt, o.offset = none → o.value ≠ FUSE_OPT_KEY_NONOPT

variable {P : OptParser σ} {f : σ → β} (hleaves : P.Leaves f)

include hleaves

end Frame

/-! ## The parser of the command line -/

section Helper

variable {sscanf : CStr → CStr → Option UInt32}

end Helper

/-! ## The separator -/

section Separator

variable {items kept : List OptItem}

end Separator

end UkfsFuse
