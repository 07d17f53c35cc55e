import UkfsFuse.Logic.OptRender

/-!
# How a parse fails

What the parser gives up with it has reported: an allocation has failed, an
argument is missing, a parameter cannot be read or the processing function has
refused an argument. Its assertion on a parameter's format holds, because only
templates that end in `=` or a blank, or go on with a `%` there, are matched up
to that place; and its loop over an option group stays inside the group.
-/

namespace UkfsFuse

open UkfsFuse.Core AllocM

variable {σ : Type} {P : OptParser σ}

/-- The parser gives up with a message: no assertion has failed, and no buffer
has been left. -/
def OptError.Reported : OptError → Prop
  | .assertion | .outOfBounds => False
  | _ => True

/-- So does the processing function. -/
def OptParser.ProcReports (P : OptParser σ) : Prop :=
  ∀ proc ∈ P.proc, ∀ data arg key outargs, GivesUp (proc data arg key outargs) OptError.Reported

/-! ## Templates -/

/-- Where a template ends its option, its parameter's format begins. -/
theorem matchTemplate_format {t arg : CStr} {sep : Nat} (h : matchTemplate t arg = some sep)
    (hsep : sep ≠ 0) : charAt t (sep + 1) = 0 ∨ charAt t (sep + 1) = PERCENT := by
  have hexact : (if t = arg then some 0 else none) ≠ some sep := fun h => by
    split at h
    · exact hsep (Option.some.inj h).symm
    · cases h
  cases hfound : (strchr t EQUALS).or (strchr t SPACE) with
  | none =>
      simp only [matchTemplate, hfound] at h
      exact absurd h hexact
  | some i =>
      by_cases hformat : charAt t (i + 1) = 0 ∨ charAt t (i + 1) = PERCENT
      · simp only [matchTemplate, hfound, if_pos hformat] at h
        rcases ite_eq_iff.mp h with ⟨-, heq⟩ | ⟨-, heq⟩
        · exact Option.some.inj heq ▸ hformat
        · exact absurd heq hexact
      · simp only [matchTemplate, hfound, if_neg hformat] at h
        exact absurd h hexact

/-- What is behind a place of a string starts with the byte there. -/
theorem charAt_drop (s : CStr) (i : Nat) : charAt (cstr (s.bytes.drop i)) 0 = charAt s i := by
  rw [charAt, cstr_of_noNul fun hmem => s.noNul (List.mem_of_mem_drop hmem), charAt,
    List.getD_eq_getElem?_getD, List.getD_eq_getElem?_getD, List.getElem?_drop, Nat.add_zero]

/-! ## The functions of the parser -/

theorem strdup_reports (s : CStr) : GivesUp (strdup s) OptError.Reported :=
  (GivesUp.alloc trivial).bind fun _ => .pure _

theorem keep_reports (ctx : FuseOptContext σ) (iso : Bool) (arg : CStr) :
    GivesUp (if iso then ctx.addOpt arg else ctx.addArg arg) OptError.Reported := by
  cases iso with
  | true => exact ((GivesUp.alloc trivial).bind fun _ => .pure _).bind fun _ => .pure _
  | false =>
      exact ((strdup_reports arg).bind fun _ => (GivesUp.alloc trivial).bind fun _ =>
        .pure _).bind fun _ => .pure _

theorem processOptParam_reports {format : CStr} (hformat : charAt format 0 = PERCENT) (data : σ)
    (var : Nat) (param arg : CStr) :
    GivesUp (P.processOptParam data var format param arg) OptError.Reported := by
  rw [OptParser.processOptParam, if_pos hformat]
  split
  · exact (strdup_reports param).bind fun _ => .pure _
  · split
    · exact .pure _
    · exact .throw trivial

variable (hproc : P.ProcReports)

include hproc

theorem callProc_reports (ctx : FuseOptContext σ) (arg : CStr) (key : Int32) (iso : Bool) :
    GivesUp (P.callProc ctx arg key iso) OptError.Reported := by
  unfold OptParser.callProc
  simp only
  split
  · exact .pure _
  split
  · exact keep_reports ctx iso arg
  split
  · exact keep_reports ctx iso arg
  · rename_i proc hsome
    refine (hproc proc hsome ctx.data arg key ctx.outargs).bind fun r => ?_
    split
    · exact .throw trivial
    split
    · exact .pure _
    · exact keep_reports _ iso arg

theorem processOpt_reports (ctx : FuseOptContext σ) {o : FuseOpt} {sep : Nat}
    (hformat : sep ≠ 0 → charAt o.templ (sep + 1) = 0 ∨ charAt o.templ (sep + 1) = PERCENT)
    (arg : CStr) (iso : Bool) : GivesUp (P.processOpt ctx o sep arg iso) OptError.Reported := by
  unfold OptParser.processOpt
  split
  · exact callProc_reports hproc ctx arg o.value iso
  · split
    · rename_i hparam
      have hpercent := (hformat hparam.1).resolve_left hparam.2
      rw [← charAt_drop] at hpercent
      exact (processOptParam_reports hpercent _ _ _ _).bind fun _ => .pure _
    · exact .pure _

theorem processGoptFrom_reports (argv : List CStr) (arg : CStr) (iso : Bool)
    (table : List FuseOpt) (ctx : FuseOptContext σ) :
    GivesUp (P.processGoptFrom argv arg iso table ctx) OptError.Reported := by
  induction table generalizing ctx with
  | nil => exact .pure _
  | cons o table ih =>
      cases hmatch : matchTemplate o.templ arg with
      | none =>
          simp only [OptParser.processGoptFrom, hmatch]
          exact ih ctx
      | some sep =>
          simp only [OptParser.processGoptFrom, hmatch]
          have hone (ctx : FuseOptContext σ) (arg : CStr) :=
            processOpt_reports hproc ctx (matchTemplate_format hmatch) arg iso
          split
          · -- the separate parameter may be missing
            have hnext : GivesUp (ctx.nextArg argv arg) OptError.Reported := by
              unfold FuseOptContext.nextArg
              split
              · exact .throw trivial
              · exact .pure _
            exact (hnext.bind fun r => (GivesUp.alloc trivial).bind fun _ => hone r.2 _).bind ih
          · exact (hone ctx arg).bind ih

theorem processGopt_reports (argv : List CStr) (ctx : FuseOptContext σ) (arg : CStr)
    (iso : Bool) : GivesUp (P.processGopt argv ctx arg iso) OptError.Reported := by
  unfold OptParser.processGopt
  split
  · exact processGoptFrom_reports hproc argv arg iso P.opt ctx
  · exact callProc_reports hproc ctx arg FUSE_OPT_KEY_OPT iso

/-! ## Items -/

theorem keepItem_reports {data : σ} {it : OptItem} {err : OptError}
    (h : P.keepItem data it = .error err) : err.Reported := by
  have htext : P.keepText data it = .error err := error_of_map h
  cases it with
  | opt iso arg params =>
      exact (processGopt_reports hproc _ _ arg false).of_result (error_of_map htext)
  | nonopt arg =>
      exact (callProc_reports hproc _ arg FUSE_OPT_KEY_NONOPT false).of_result (error_of_map htext)
  | separator => cases htext
  | missing arg =>
      cases htext
      trivial

theorem keepItems_reports {data : σ} {items : List OptItem} {err : OptError}
    (h : P.keepItems data items = .error err) : err.Reported := by
  induction items generalizing data with
  | nil => cases h
  | cons it items ih =>
      rcases error_of_bind h with hone | ⟨r, -, h⟩
      · exact keepItem_reports hproc hone
      rcases error_of_bind h with hrest | ⟨r', -, h⟩
      · exact ih hrest
      · cases h

/-- A parse that gives up has reported it. -/
theorem fuseOptParse_reports (hquiet : P.Quiet) (arg0 : CStr) (args : List CStr) (data : σ) :
    GivesUp (P.fuseOptParse (arg0 :: args) data) OptError.Reported := by
  refine .of_does (fuseOptParse_does hquiet arg0 args data) trivial fun err h => ?_
  exact keepItems_reports hproc (error_of_map h)

end UkfsFuse
