import UkfsFuse.Logic.Helper
import UkfsFuse.Logic.OptErrors

/-!
# Parsers in sequence

A program hands its arguments from one parser to the next: each takes the
options it knows and keeps the others. What the next one is given is what the
last one kept: unescaping a group, escaping what is kept of it and moving it to
the front loses nothing but empty options in front of the group, and a
separator nothing follows.

A parse fails where an allocation fails and where processing its items does, and
reports it.
-/

namespace UkfsFuse

open UkfsFuse.Core

variable {σ τ : Type}

/-- What two parsers in sequence make of an argument vector. -/
structure ParsersCompose (P : OptParser σ) (Q : OptParser τ) (arg0 : CStr) (args : List CStr)
    (data : σ) (data' : τ) : Prop where
  /-- The first processes the items the arguments stand for, an option together
  with the arguments it takes. -/
  first : OptDoes (P.fuseOptParse (arg0 :: args) data)
    ((P.keepItems data (P.argItems args)).map fun r => (r.1, renderItems arg0 r.2))
  /-- Where it gives up, it has not left a buffer or failed an assertion. -/
  reports : P.ProcReports →
    AllocM.GivesUp (P.fuseOptParse (arg0 :: args) data) OptError.Reported
  /-- The second processes the items the first kept, group options before the
  others, where no option takes arguments and the group fits an `unsigned`. -/
  second : P.NoSeparate → Q.NoSeparate → ∀ r, P.keepItems data (P.argItems args) = .ok r →
    (groupText (groupItems r.2)).length < 2 ^ 32 →
      OptDoes (Q.fuseOptParse (renderItems arg0 r.2) data')
        ((Q.keepItems data' (rereadItems r.2)).map fun r' => (r'.1, renderItems arg0 r'.2))

variable {P : OptParser σ} {Q : OptParser τ}

/-- Parsers whose processing functions leave the kept arguments alone compose. -/
theorem parsers_compose (hquiet : P.Quiet) (hquiet' : Q.Quiet) (arg0 : CStr)
    (args : List CStr) (data : σ) (data' : τ) : ParsersCompose P Q arg0 args data data' where
  first := fuseOptParse_does hquiet arg0 args data
  reports hproc := fuseOptParse_reports hproc hquiet arg0 args data
  second hsep hsep' r hkeep hlen := by
    have horder : InOrder r.2 := inOrder_keepItems hquiet (argItems_inOrder hsep args) hkeep
    have hreread : Q.argItems (renderItems arg0 r.2).tail = rereadItems r.2 :=
      argItems_renderItems hsep' horder hlen
    rw [← hreread]
    exact fuseOptParse_does hquiet' arg0 _ data'

/-- A parser of the option `debug`, with one variable and no processing function. -/
def debugParser : OptParser Int32 where
  opt := [helperOpt templDebug 0]
  proc := none
  setInt _ _ value := value
  setString data _ _ := data
  sscanf data _ _ _ := some data

/-- `prog -o x\,y,debug` -/
theorem debugParsers_compose :
    ParsersCompose debugParser debugParser ⟨[0x70, 0x72, 0x6f, 0x67], by decide⟩
      [dashO, ⟨[0x78, BACKSLASH, COMMA, 0x79, COMMA, 0x64, 0x65, 0x62, 0x75, 0x67], by decide⟩]
      0 0 := by
  have hquiet : debugParser.Quiet := fun proc hproc => by cases hproc
  exact parsers_compose hquiet hquiet _ _ 0 0

/-! ## The command line -/

end UkfsFuse
