import UkfsFuse.Logic.OptItems

/-!
# Processing an argument vector

The parser processes the items its arguments stand for, one after the other
(`processArgs_does`). It does so as long as its allocations succeed, and gives
up where one fails.
-/

namespace UkfsFuse

open UkfsFuse.Core AllocM

variable {σ : Type}

/-- `x` does `r`, or gives up where it gets no memory. -/
abbrev OptDoes {α : Type} (x : OptM α) (r : Except OptError α) : Prop := Does .allocFailed x r

theorem strdup_does (s : CStr) : OptDoes (strdup s) (.ok s) := Does.alloc.bind_ok (.pure s)

theorem fuseOptAddArg_does (args : List CStr) (arg : CStr) :
    OptDoes (fuseOptAddArg args arg) (.ok (args ++ [arg])) :=
  (strdup_does arg).bind_ok (Does.alloc.bind_ok (.pure _))

theorem addOptCommon_does (opts : Option CStr) (opt : CStr) (esc : Bool) :
    OptDoes (addOptCommon opts opt esc) (.ok (joinOpt opts opt esc)) :=
  Does.alloc.bind_ok (.pure _)

theorem addArg_does (ctx : FuseOptContext σ) (arg : CStr) :
    OptDoes (ctx.addArg arg) (.ok { ctx with outargs := ctx.outargs ++ [arg] }) :=
  (fuseOptAddArg_does ctx.outargs arg).bind_ok (.pure _)

theorem keep_does (ctx : FuseOptContext σ) (iso : Bool) (arg : CStr) :
    OptDoes (if iso then ctx.addOpt arg else ctx.addArg arg)
      (.ok (ctx.takeItem (.opt iso arg []))) := by
  cases iso with
  | true => exact (addOptCommon_does ctx.opts arg true).bind_ok (.pure _)
  | false => exact addArg_does ctx arg

/-! ## One item

What a step of the parser does is read off a context that has kept nothing: it
takes some of the arguments behind it, changes `data` and keeps some texts. -/

/-- The options that say the texts kept of an option. -/
def keptOpts (iso : Bool) (texts : List CStr) : List OptItem := texts.map fun s => .opt iso s []

theorem keptOpts_append (iso : Bool) (texts texts' : List CStr) :
    keptOpts iso (texts ++ texts') = keptOpts iso texts ++ keptOpts iso texts' :=
  List.map_append

theorem outargs_keptOpts {ctx : FuseOptContext σ} {texts : List CStr} :
    (ctx.takeItems (keptOpts false texts)).outargs = ctx.outargs ++ texts := by
  induction texts generalizing ctx with
  | nil => exact (List.append_nil _).symm
  | cons s texts ih =>
      show ((ctx.takeItem (.opt false s [])).takeItems (keptOpts false texts)).outargs = _
      rw [ih]
      exact List.append_assoc ctx.outargs [s] texts

/-- `f` takes `k` arguments. What it does to `data` and which texts it keeps
depends on these and on `data` alone; where it takes none it keeps `arg` only. -/
def Framed (arg : CStr) (k : Nat)
    (f : List CStr → Bool → FuseOptContext σ → OptM (FuseOptContext σ)) : Prop :=
  ∃ g : σ → List CStr → Except OptError (σ × List CStr),
    (∀ data r, g data [] = .ok r → ∀ s ∈ r.2, s = arg) ∧
    ∀ argv iso ctx, OptDoes (f argv iso ctx)
      ((g ctx.data ((argv.drop (ctx.argctr + 1)).take k)).map fun r =>
        ctx.after k (r.1, keptOpts iso r.2))

namespace Framed

variable {arg : CStr} {k k' : Nat}
  {f f' : List CStr → Bool → FuseOptContext σ → OptM (FuseOptContext σ)}

theorem store {x : σ → OptM σ} (hx : ∀ data, ∃ r, OptDoes (x data) r) :
    Framed arg 0 fun _ _ ctx => do
      let data ← x ctx.data
      return { ctx with data := data } := by
  choose r hr using hx
  refine ⟨fun data _ => (r data).map fun data => (data, []), fun data q hq s hs => ?_,
    fun argv iso ctx => ?_⟩
  · obtain ⟨data', -, rfl⟩ := ok_of_map hq
    cases hs
  · have hone := hr ctx.data
    show OptDoes _ (((r ctx.data).map fun data => (data, [])).map _)
    cases hres : r ctx.data with
    | error e =>
        rw [hres] at hone
        exact hone.bind_error
    | ok data =>
        rw [hres] at hone
        exact hone.bind_ok (.pure _)

theorem nop : Framed arg 0 fun _ _ (ctx : FuseOptContext σ) => pure ctx := by
  refine ⟨fun data _ => .ok (data, []), fun data q hq s hs => ?_, fun argv iso ctx => .pure ctx⟩
  cases hq
  cases hs

theorem keep : Framed arg 0 fun _ iso (ctx : FuseOptContext σ) =>
    if iso then ctx.addOpt arg else ctx.addArg arg := by
  refine ⟨fun data _ => .ok (data, [arg]), fun data q hq s hs => ?_, fun argv iso ctx => ?_⟩
  · cases hq
    exact List.mem_singleton.mp hs
  · have hone := keep_does ctx iso arg
    cases iso <;> exact hone

/-- The second step takes the arguments behind those the first took. -/
theorem bind (hf : Framed arg k f) (hf' : Framed arg k' f') :
    Framed arg (k + k') fun argv iso ctx => f argv iso ctx >>= f' argv iso := by
  obtain ⟨g, hself, hg⟩ := hf
  obtain ⟨g', hself', hg'⟩ := hf'
  refine ⟨fun data params => do
    let r ← g data (params.take k)
    let r' ← g' r.1 (params.drop k)
    return (r'.1, r.2 ++ r'.2), fun data q hq s hs => ?_, fun argv iso ctx => ?_⟩
  · obtain ⟨r, hr, hq⟩ := ok_of_bind hq
    obtain ⟨r', hr', hq⟩ := ok_of_bind hq
    cases hq
    rw [List.take_nil] at hr
    rw [List.drop_nil] at hr'
    exact (List.mem_append.mp hs).elim (hself data r hr s) (hself' r.1 r' hr' s)
  · have hone := hg argv iso ctx
    simp only [List.take_take, Nat.min_eq_left (Nat.le_add_right k k')]
    cases hres : g ctx.data ((argv.drop (ctx.argctr + 1)).take k) with
    | error e =>
        rw [hres] at hone
        exact hone.bind_error
    | ok r =>
        rw [hres] at hone
        refine hone.bind_ok ?_
        have hnext := hg' argv iso (ctx.after k (r.1, keptOpts iso r.2))
        have hbehind : ((argv.drop (ctx.argctr + 1)).take (k + k')).drop k =
            (argv.drop (ctx.argctr + k + 1)).take k' := by
          rw [List.drop_take, List.drop_drop, Nat.add_sub_cancel_left]
          congr 2
          omega
        rw [hbehind]
        show OptDoes _ (Except.map _ (g' r.1 ((argv.drop (ctx.argctr + k + 1)).take k') >>= _))
        have hdata : g' (ctx.after k (r.1, keptOpts iso r.2)).data
            ((argv.drop ((ctx.after k (r.1, keptOpts iso r.2)).argctr + 1)).take k') =
            g' r.1 ((argv.drop (ctx.argctr + k + 1)).take k') := rfl
        rw [hdata] at hnext
        cases hres' : g' r.1 ((argv.drop (ctx.argctr + k + 1)).take k') with
        | error e =>
            rw [hres'] at hnext
            exact hnext
        | ok r' =>
            rw [hres'] at hnext
            have hboth : (ctx.after k (r.1, keptOpts iso r.2)).after k' (r'.1, keptOpts iso r'.2) =
                ctx.after (k + k') (r'.1, keptOpts iso (r.2 ++ r'.2)) := by
              rw [FuseOptContext.after_after, keptOpts_append]
            show OptDoes _ (.ok (ctx.after (k + k') (r'.1, keptOpts iso (r.2 ++ r'.2))))
            rw [← hboth]
            exact hnext

/-- The step, from what it does to a context that has kept nothing. -/
theorem does_blank (hf : Framed arg k f) (argv : List CStr) (iso : Bool)
    (ctx : FuseOptContext σ) :
    OptDoes (f argv iso ctx)
      (((f (arg :: (argv.drop (ctx.argctr + 1)).take k) false (.blank ctx.data)).result.map
        fun ctx => (ctx.data, ctx.outargs)).map fun r => ctx.after k (r.1, keptOpts iso r.2)) := by
  obtain ⟨g, -, hg⟩ := hf
  have hone := hg argv iso ctx
  generalize hparams : (argv.drop (ctx.argctr + 1)).take k = params at hone ⊢
  have htake : params.take k = params := by rw [← hparams, List.take_take, Nat.min_self]
  have hblank := (hg (arg :: params) false (.blank ctx.data)).result_eq
  have hread : ((arg :: params).drop ((FuseOptContext.blank ctx.data).argctr + 1)).take k =
      params := htake
  rw [hread] at hblank
  rw [hblank]
  have hdata : (FuseOptContext.blank ctx.data).data = ctx.data := rfl
  rw [hdata]
  cases hres : g ctx.data params with
  | error e =>
      rw [hres] at hone
      exact hone
  | ok r =>
      rw [hres] at hone
      have houtargs : ((FuseOptContext.blank ctx.data).after k (r.1, keptOpts false r.2)).outargs =
          r.2 := outargs_keptOpts
      show OptDoes _ (.ok (ctx.after k (r.1, keptOpts iso
        ((FuseOptContext.blank ctx.data).after k (r.1, keptOpts false r.2)).outargs)))
      rw [houtargs]
      exact hone

/-- Where it takes no arguments it keeps its own text only. -/
theorem text_of_blank (hf : Framed arg k f) {data : σ} {r : σ × List CStr}
    (h : (f [arg] false (.blank data)).result.map (fun ctx => (ctx.data, ctx.outargs)) = .ok r) :
    ∀ s ∈ r.2, s = arg := by
  obtain ⟨g, hself, hg⟩ := hf
  have hblank := (hg [arg] false (.blank data)).result_eq
  have hread : ([arg].drop ((FuseOptContext.blank data).argctr + 1)).take k = [] := List.take_nil
  rw [hread] at hblank
  rw [hblank] at h
  obtain ⟨ctx, hctx, rfl⟩ := ok_of_map h
  obtain ⟨q, hq, rfl⟩ := ok_of_map hctx
  show ∀ s ∈ ((FuseOptContext.blank data).takeItems (keptOpts false q.2)).outargs, s = arg
  rw [outargs_keptOpts]
  exact hself data q hq

end Framed

namespace OptParser

/-- The processing function neither looks at `outargs` nor changes them, and
gives up where it gets no memory. -/
def Quiet (P : OptParser σ) : Prop :=
  ∀ proc ∈ P.proc, ∀ data arg key, ∃ r : Except OptError (Int32 × σ), ∀ outargs,
    OptDoes (proc data arg key outargs) (r.map fun q => (q.1, q.2, outargs))

end OptParser

section Steps

/-- What a processing function that leaves `outargs` alone says of its argument. -/
def procKeep (arg : CStr) (q : Int32 × σ) : Except OptError (σ × List CStr) :=
  if q.1 = -1 then .error (.proc arg) else if q.1 = 0 then .ok (q.2, []) else .ok (q.2, [arg])

variable {P : OptParser σ}

theorem processOptParam_does (P : OptParser σ) (var : Nat) (format param arg : CStr) (data : σ) :
    ∃ r, OptDoes (P.processOptParam data var format param arg) r := by
  unfold OptParser.processOptParam
  split
  · split
    · exact ⟨_, (strdup_does param).bind_ok (.pure _)⟩
    · split
      · exact ⟨_, .pure _⟩
      · exact ⟨_, .throw _⟩
  · exact ⟨_, .throw _⟩

/-- An argument for the processing function is kept when the function says so. -/
theorem callProc_does {proc : FuseOptProc σ} (hproc : P.proc = some proc) {arg : CStr}
    {key : Int32} (hdiscard : key ≠ FUSE_OPT_KEY_DISCARD) (hkeep : key ≠ FUSE_OPT_KEY_KEEP)
    (iso : Bool) (ctx : FuseOptContext σ) {r : Except OptError (Int32 × σ)}
    (hone : OptDoes (proc ctx.data arg key ctx.outargs)
      (r.map fun q => (q.1, q.2, ctx.outargs))) :
    OptDoes (P.callProc ctx arg key iso) ((r >>= procKeep arg).map fun r =>
      ctx.after 0 (r.1, keptOpts iso r.2)) := by
  simp only [OptParser.callProc, hdiscard, hkeep, if_false, hproc]
  cases r with
  | error e => exact hone.bind_error
  | ok q =>
      refine hone.bind_ok ?_
      show OptDoes _ ((procKeep arg q).map _)
      unfold procKeep
      by_cases hfail : q.1 = -1
      · simp only [hfail, if_true]
        exact .throw _
      by_cases hzero : q.1 = 0
      · rw [if_neg hfail, if_pos hzero, if_neg hfail, if_pos hzero]
        exact .pure _
      · simp only [hfail, hzero, if_false]
        have hkept := keep_does { ctx with data := q.2 } iso arg
        cases iso <;> exact hkept

variable (hquiet : P.Quiet)

include hquiet

theorem callProc_framed (arg : CStr) (key : Int32) :
    Framed arg 0 fun _ iso ctx => P.callProc ctx arg key iso := by
  by_cases hdiscard : key = FUSE_OPT_KEY_DISCARD
  · simp only [OptParser.callProc, hdiscard, if_true]
    exact .nop
  by_cases hkeep : key = FUSE_OPT_KEY_KEEP
  · simp only [OptParser.callProc, if_neg hdiscard, if_pos hkeep]
    exact .keep
  cases hproc : P.proc with
  | none =>
      simp only [OptParser.callProc, hdiscard, hkeep, if_false, hproc]
      exact .keep
  | some proc =>
      choose r hr using fun data => hquiet proc hproc data arg key
      refine ⟨fun data _ => r data >>= procKeep arg, fun data q hq s hs => ?_,
        fun argv iso ctx => callProc_does hproc hdiscard hkeep iso ctx (hr ctx.data ctx.outargs)⟩
      obtain ⟨q', -, hq⟩ := ok_of_bind hq
      unfold procKeep at hq
      split_ifs at hq
      · cases hq
        cases hs
      · cases hq
        exact List.mem_singleton.mp hs

theorem processOpt_framed (o : FuseOpt) (sep : Nat) (arg : CStr) :
    Framed arg 0 fun _ iso ctx => P.processOpt ctx o sep arg iso := by
  simp only [OptParser.processOpt]
  cases o.offset with
  | none => exact callProc_framed hquiet arg o.value
  | some var =>
      by_cases hparam : sep ≠ 0 ∧ charAt o.templ (sep + 1) ≠ 0
      · simp only [if_pos hparam]
        exact .store (processOptParam_does P var _ _ arg)
      · simp only [if_neg hparam]
        exact .store (x := fun data => pure (P.setInt data var o.value)) fun data => ⟨_, .pure _⟩

/-- The separate parameter is appended to the option. -/
theorem processOptSepArg_framed (o : FuseOpt) (sep : Nat) (arg : CStr) :
    Framed arg 1 fun argv iso ctx => P.processOptSepArg argv ctx o sep arg iso := by
  choose g hself hg using fun param : CStr =>
    processOpt_framed hquiet o sep (cstr (arg.bytes.take sep ++ param.bytes))
  refine ⟨fun data params => params.head?.elim (.error (.missingArgument arg))
    fun param => g param data [], ?_, fun argv iso ctx => ?_⟩
  · intro data q hq
    cases hq
  cases hdrop : argv.drop (ctx.argctr + 1) with
  | nil =>
      have hnext : argv[ctx.argctr + 1]? = none := getElem?_of_drop hdrop 0
      simp only [OptParser.processOptSepArg, FuseOptContext.nextArg, hnext]
      exact (Does.throw _).bind_error
  | cons param rest =>
      have hnext : argv[ctx.argctr + 1]? = some param := getElem?_of_drop hdrop 0
      simp only [OptParser.processOptSepArg, FuseOptContext.nextArg, hnext]
      refine (Does.pure _).bind_ok (Does.alloc.bind_ok ?_)
      have hone := hg param argv iso { ctx with argctr := ctx.argctr + 1 }
      simp only [FuseOptContext.after_step] at hone
      exact hone

/-- The matching templates, one after the other. -/
theorem processGoptFrom_framed (arg : CStr) (table : List FuseOpt) :
    Framed arg (OptParser.takes table arg) fun argv iso ctx =>
      P.processGoptFrom argv arg iso table ctx := by
  induction table with
  | nil => exact .nop
  | cons o table ih =>
      have htakes : OptParser.takes (o :: table) arg =
          (if OptParser.takesNext o arg then 1 else 0) + OptParser.takes table arg := by
        rw [OptParser.takes, List.countP_cons, Nat.add_comm]
        rfl
      rw [htakes]
      cases hmatch : matchTemplate o.templ arg with
      | none =>
          simp only [OptParser.takesNext, hmatch, OptParser.processGoptFrom]
          simpa using ih
      | some sep =>
          simp only [OptParser.takesNext, hmatch, OptParser.processGoptFrom, decide_eq_true_eq]
          by_cases hspace : sep ≠ 0 ∧ charAt o.templ sep = SPACE ∧ charAt arg sep = 0
          · simp only [if_pos hspace]
            exact (processOptSepArg_framed hquiet o sep arg).bind ih
          · simp only [if_neg hspace]
            exact (processOpt_framed hquiet o sep arg).bind ih

theorem processGopt_framed (arg : CStr) :
    Framed arg (OptParser.takes P.opt arg) fun argv iso ctx => P.processGopt argv ctx arg iso := by
  simp only [OptParser.processGopt]
  cases hfind : findOpt P.opt arg with
  | none =>
      rw [OptParser.takes_eq_zero hfind]
      exact callProc_framed hquiet arg _
  | some r => exact processGoptFrom_framed hquiet arg P.opt

/-- An option of the vector or of a group is processed as an item. -/
theorem processGopt_does (argv : List CStr) (arg : CStr) (iso : Bool) (ctx : FuseOptContext σ) :
    OptDoes (P.processGopt argv ctx arg iso)
      ((P.keepItem ctx.data (.opt iso arg ((argv.drop (ctx.argctr + 1)).take
        (OptParser.takes P.opt arg)))).map (ctx.after (OptParser.takes P.opt arg))) := by
  have hone := (processGopt_framed hquiet arg).does_blank argv iso ctx
  show OptDoes _ (((P.keepOpt ctx.data arg _).map _).map _)
  cases hkeep : P.keepOpt ctx.data arg ((argv.drop (ctx.argctr + 1)).take
    (OptParser.takes P.opt arg)) with
  | error e =>
      rw [← OptParser.keepOpt, hkeep] at hone
      exact hone
  | ok r =>
      rw [← OptParser.keepOpt, hkeep] at hone
      exact hone

theorem processNonopt_does (arg : CStr) (ctx : FuseOptContext σ) :
    OptDoes (P.callProc ctx arg FUSE_OPT_KEY_NONOPT false)
      ((P.keepItem ctx.data (.nonopt arg)).map (ctx.after 0)) := by
  have hsame (texts : List CStr) (ctx : FuseOptContext σ) :
      ctx.takeItems (keptOpts false texts) = ctx.takeItems (texts.map .nonopt) := by
    induction texts generalizing ctx with
    | nil => rfl
    | cons s texts ih => exact ih (ctx.takeItem (.nonopt s))
  have hone := (callProc_framed hquiet arg FUSE_OPT_KEY_NONOPT).does_blank [] false ctx
  simp only [FuseOptContext.after, hsame] at hone
  show OptDoes _ (((P.keepNonopt ctx.data arg).map _).map _)
  unfold OptParser.keepNonopt
  cases hres : (P.callProc (.blank ctx.data) arg FUSE_OPT_KEY_NONOPT false).result with
  | error e =>
      rw [hres] at hone
      exact hone
  | ok ctx' =>
      rw [hres] at hone
      exact hone

/-- Of an item that takes no arguments, copies are kept. -/
theorem keepItem_self {data : σ} {it : OptItem} {q : σ × List OptItem} (hparams : it.params = [])
    (h : P.keepItem data it = .ok q) : ∀ it' ∈ q.2, it' = it := by
  have hcopies (hmem : ∀ r, P.keepText data it = .ok r → ∀ s ∈ r.2, s = it.text) :
      ∀ it' ∈ q.2, it' = it := by
    obtain ⟨r, hr, rfl⟩ := ok_of_map h
    intro it' hit
    obtain ⟨s, hs, rfl⟩ := List.mem_map.mp hit
    rw [hmem r hr s hs]
    exact OptItem.withText_self hparams
  refine hcopies fun r hr => ?_
  cases it with
  | opt iso arg params =>
      obtain rfl : params = [] := hparams
      exact (processGopt_framed hquiet arg).text_of_blank hr
  | nonopt arg => exact (callProc_framed hquiet arg FUSE_OPT_KEY_NONOPT).text_of_blank hr
  | separator =>
      cases hr
      exact fun s hs => List.mem_singleton.mp hs
  | missing arg => cases hr

omit hquiet in
/-- Processing items one after the other. -/
theorem seq_does {x : OptM (FuseOptContext σ)} {f : FuseOptContext σ → OptM (FuseOptContext σ)}
    {ctx : FuseOptContext σ} {k k' : Nat} {its its' : List OptItem}
    (hx : OptDoes x ((P.keepItems ctx.data its).map (ctx.after k)))
    (hf : ∀ r, P.keepItems ctx.data its = .ok r →
      OptDoes (f (ctx.after k r)) ((P.keepItems r.1 its').map ((ctx.after k r).after k'))) :
    OptDoes (x >>= f) ((P.keepItems ctx.data (its ++ its')).map (ctx.after (k + k'))) := by
  rw [keepItems_append]
  cases hkeep : P.keepItems ctx.data its with
  | error e =>
      rw [hkeep] at hx
      exact hx.bind_error
  | ok r =>
      have hnext := hf r hkeep
      rw [hkeep] at hx
      refine hx.bind_ok ?_
      show OptDoes _ ((P.keepItems r.1 its' >>= _).map _)
      cases hkeep' : P.keepItems r.1 its' with
      | error e =>
          rw [hkeep'] at hnext
          exact hnext
      | ok r' =>
          rw [hkeep'] at hnext
          show OptDoes _ (.ok (ctx.after _ (r'.1, r.2 ++ r'.2)))
          rw [← FuseOptContext.after_after]
          exact hnext

theorem processWords_does (argv : List CStr) (words : List CStr) (ctx : FuseOptContext σ) :
    OptDoes (words.foldlM (fun ctx w => P.processGopt argv ctx w true) ctx)
      ((P.keepItems ctx.data (P.wordItems words (argv.drop (ctx.argctr + 1)))).map
        (ctx.after (P.wordsTake words))) := by
  induction words generalizing ctx with
  | nil => exact .pure ctx
  | cons w words ih =>
      have hone := processGopt_does hquiet argv w true ctx
      rw [← keepItems_singleton] at hone
      have hsum : P.wordsTake (w :: words) = OptParser.takes P.opt w + P.wordsTake words :=
        List.sum_cons
      rw [List.foldlM_cons, hsum]
      refine seq_does hone fun r _ => ?_
      have hbehind : argv.drop ((ctx.after (OptParser.takes P.opt w) r).argctr + 1) =
          (argv.drop (ctx.argctr + 1)).drop (OptParser.takes P.opt w) := by
        rw [List.drop_drop, Nat.add_right_comm]
        rfl
      rw [← hbehind]
      exact ih (ctx.after (OptParser.takes P.opt w) r)

theorem processOptionGroup_does (argv : List CStr) (opts : CStr) (ctx : FuseOptContext σ) :
    OptDoes (P.processOptionGroup argv ctx opts)
      ((P.keepItems ctx.data (P.wordItems (groupWords opts) (argv.drop (ctx.argctr + 1)))).map
        (ctx.after (P.wordsTake (groupWords opts)))) := by
  rw [processOptionGroup_eq]
  exact (strdup_does opts).bind_ok (processWords_does hquiet argv _ ctx)

end Steps

/-! ## The arguments -/

section Rounds

variable {P : OptParser σ} {argv rest : List CStr} {arg opts : CStr} {ctx : FuseOptContext σ}

/-- Only a separator ends the options. -/
theorem takeItems_nonopt {ctx : FuseOptContext σ} {kept : List OptItem}
    (h : .separator ∉ kept) : (ctx.takeItems kept).nonopt = ctx.nonopt := by
  induction kept generalizing ctx with
  | nil => rfl
  | cons it kept ih =>
      obtain ⟨hit, hkept⟩ := not_or.mp (fun hmem => h (List.mem_cons.mpr hmem))
      rw [FuseOptContext.takeItems_cons, ih hkept]
      cases it with
      | opt iso arg params => cases iso <;> rfl
      | separator => exact absurd rfl hit
      | _ => rfl

/-- What the source compares with `--` is `--`. -/
theorem eq_dashes {arg : CStr} (h0 : charAt arg 0 = DASH) (h1 : charAt arg 1 = DASH)
    (h2 : charAt arg 2 = 0) : arg = dashes := by
  obtain ⟨bytes, hnul⟩ := arg
  match bytes, hnul with
  | [], _ => exact absurd h0 (show ¬ (0 : UInt8) = DASH by decide)
  | [_], _ => exact absurd h1 (show ¬ (0 : UInt8) = DASH by decide)
  | [_, _], _ => simp_all [charAt, dashes]
  | _ :: _ :: b :: _, hnul =>
      have hb : b = 0 := h2
      exact absurd (by simp [hb]) hnul

/-- What the arguments still to be read say, behind a separator or in front of
one. -/
def itemsBehind (P : OptParser σ) (nonopt : Nat) (rest : List CStr) : List OptItem :=
  if nonopt ≠ 0 then rest.map .nonopt else P.argItems rest

theorem itemsBehind_nil (nonopt : Nat) : itemsBehind P nonopt [] = [] := by
  unfold itemsBehind
  split
  · rfl
  · exact OptParser.argItems_nil

/-- What one round of the loop does: it processes the items `its` of the next
argument, which take `k` of the arguments behind it. -/
def Round (P : OptParser σ) (argv : List CStr) (ctx : FuseOptContext σ) (arg : CStr)
    (rest : List CStr) : Prop :=
  ∃ its behind k, itemsBehind P ctx.nonopt (arg :: rest) = its ++ behind ∧
    OptDoes (P.processOne argv ctx arg) ((P.keepItems ctx.data its).map (ctx.after k)) ∧
    ∀ r, P.keepItems ctx.data its = .ok r →
      itemsBehind P (ctx.after k r).nonopt (rest.drop k) = behind

/-- A round without a separator leaves the way of reading as it is. -/
theorem round_of_items (its : List OptItem) (k : Nat) (hits : .separator ∉ its)
    (hitems : itemsBehind P ctx.nonopt (arg :: rest) =
      its ++ itemsBehind P ctx.nonopt (rest.drop k))
    (hone : OptDoes (P.processOne argv ctx arg) ((P.keepItems ctx.data its).map (ctx.after k))) :
    Round P argv ctx arg rest := by
  refine ⟨its, _, k, hitems, hone, fun r hkeep => ?_⟩
  have hnonopt : (ctx.after k r).nonopt = ctx.nonopt :=
    takeItems_nonopt fun h => hits ((separator_mem_keepItems hkeep).mp h)
  rw [hnonopt]

/-- The round of the separator. -/
theorem round_of_separator (hnonopt : ctx.nonopt = 0)
    (hitems : P.argItems (dashes :: rest) = .separator :: rest.map .nonopt)
    (hone : P.processOne argv ctx dashes = ctx.addArg dashes >>= fun ctx =>
      pure { ctx with nonopt := ctx.outargs.length }) :
    Round P argv ctx dashes rest := by
  refine ⟨[.separator], rest.map .nonopt, 0, ?_, ?_, fun r hkeep => ?_⟩
  · exact (if_neg (not_not.mpr hnonopt)).trans hitems
  · rw [hone]
    refine (addArg_does ctx dashes).bind_ok ?_
    have hlen : (ctx.outargs ++ [dashes]).length = ctx.outargs.length + 1 := by simp
    simp only [hlen]
    exact .pure _
  · obtain rfl : (ctx.data, [.separator]) = r := Except.ok.inj hkeep
    exact if_pos (Nat.succ_ne_zero _)

/-- The round of an argument that is missing its group. -/
theorem round_of_missing (hitems : itemsBehind P ctx.nonopt [arg] = [.missing arg])
    (hone : P.processOne argv ctx arg = throw (.missingArgument arg)) :
    Round P argv ctx arg [] := by
  refine round_of_items [.missing arg] 0 (by simp) ?_ ?_
  · rw [List.drop_nil, itemsBehind_nil, List.append_nil]
    exact hitems
  · rw [hone]
    exact .throw _

theorem wordItems_separator (words rest : List CStr) : .separator ∉ P.wordItems words rest := by
  induction words generalizing rest with
  | nil => exact List.not_mem_nil
  | cons w words ih => simp [OptParser.wordItems, ih]

variable (hquiet : P.Quiet)

include hquiet

/-- A round that takes the next argument as a group. -/
theorem round_of_group (hrest : argv.drop (ctx.argctr + 1) = opts :: rest)
    (hitems : itemsBehind P ctx.nonopt (arg :: opts :: rest) =
      P.wordItems (groupWords opts) rest ++
        itemsBehind P ctx.nonopt (rest.drop (P.wordsTake (groupWords opts))))
    (hone : P.processOne argv ctx arg =
      P.processOptionGroup argv { ctx with argctr := ctx.argctr + 1 } opts) :
    Round P argv ctx arg (opts :: rest) := by
  have hbehind : argv.drop (ctx.argctr + 1 + 1) = rest := by
    rw [← List.drop_drop, hrest, List.drop_succ_cons, List.drop_zero]
  have hdoes := processOptionGroup_does hquiet argv opts { ctx with argctr := ctx.argctr + 1 }
  rw [← hone] at hdoes
  simp only [hbehind, FuseOptContext.after_step] at hdoes
  refine round_of_items _ _ (wordItems_separator _ rest) ?_ hdoes
  rw [hitems, Nat.add_comm, List.drop_succ_cons]

theorem processOne_does (hdrop : argv.drop ctx.argctr = arg :: rest) :
    Round P argv ctx arg rest := by
  have hrest : argv.drop (ctx.argctr + 1) = rest := by
    rw [← List.drop_drop, hdrop, List.drop_succ_cons, List.drop_zero]
  have hitems := OptParser.argItems_cons (P := P) arg rest
  have hone : P.processOne argv ctx arg = _ := OptParser.processOne.eq_1 P argv ctx arg
  by_cases hplain : ctx.nonopt ≠ 0 ∨ charAt arg 0 ≠ DASH
  · rw [if_pos hplain] at hone
    have hdoes := processNonopt_does hquiet arg ctx
    rw [← keepItems_singleton, ← hone] at hdoes
    refine round_of_items [.nonopt arg] 0 (by simp) ?_ hdoes
    by_cases hbehind : ctx.nonopt ≠ 0
    · simp [itemsBehind, hbehind]
    · have hdash : charAt arg 0 ≠ DASH := hplain.resolve_left hbehind
      simp [itemsBehind, hbehind, hitems, hdash]
  obtain ⟨hnonopt, hdash⟩ := not_or.mp hplain
  have hread (left : List CStr) : itemsBehind P ctx.nonopt left = P.argItems left :=
    if_neg hnonopt
  rw [if_neg hplain] at hone
  rw [if_neg hdash] at hitems
  by_cases hletter : charAt arg 1 = LETTER_O
  · rw [if_pos hletter] at hone hitems
    by_cases htext : charAt arg 2 ≠ 0
    · rw [if_pos htext] at hone hitems
      have hdoes := processOptionGroup_does hquiet argv (cstr (arg.bytes.drop 2)) ctx
      rw [← hone, hrest] at hdoes
      exact round_of_items _ _ (wordItems_separator _ rest)
        (by rw [hread, hread]; exact hitems) hdoes
    · rw [if_neg htext] at hone hitems
      cases rest with
      | cons opts rest =>
          have hnext : argv[ctx.argctr + 1]? = some opts := getElem?_of_drop hrest 0
          refine round_of_group hquiet hrest (by rw [hread, hread]; exact hitems) ?_
          rw [hone, FuseOptContext.nextArg, hnext]
          rfl
      | nil =>
          have hnext : argv[ctx.argctr + 1]? = none := getElem?_of_drop hrest 0
          refine round_of_missing (by rw [hread]; exact hitems) ?_
          rw [hone, FuseOptContext.nextArg, hnext]
          rfl
  · rw [if_neg hletter] at hone hitems
    by_cases hend : charAt arg 1 = DASH ∧ charAt arg 2 = 0
    · rw [if_pos hend] at hone hitems
      obtain rfl : arg = dashes := eq_dashes (not_not.mp hdash) hend.1 hend.2
      exact round_of_separator (not_not.mp hnonopt) hitems hone
    · rw [if_neg hend] at hone hitems
      have hdoes := processGopt_does hquiet argv arg false ctx
      rw [← keepItems_singleton, ← hone, hrest] at hdoes
      exact round_of_items _ _ (by simp) (by rw [hread, hread]; exact hitems) hdoes

/-- The loop over the arguments processes the items they stand for. -/
theorem processArgs_does {n : Nat} (hdrop : argv.drop ctx.argctr = rest)
    (hn : rest.length ≤ n) : ∃ k, OptDoes (P.processArgs argv n ctx)
      ((P.keepItems ctx.data (itemsBehind P ctx.nonopt rest)).map (ctx.after k)) := by
  induction n generalizing ctx rest with
  | zero =>
      obtain rfl := List.length_eq_zero_iff.mp (Nat.le_zero.mp hn)
      rw [itemsBehind_nil]
      exact ⟨0, .pure ctx⟩
  | succ n ih =>
      cases rest with
      | nil =>
          have hat : argv[ctx.argctr]? = none := getElem?_of_drop hdrop 0
          simp only [OptParser.processArgs, hat, itemsBehind_nil]
          exact ⟨0, .pure ctx⟩
      | cons arg rest =>
          have hat : argv[ctx.argctr]? = some arg := getElem?_of_drop hdrop 0
          have hrest : argv.drop (ctx.argctr + 1) = rest := by
            rw [← List.drop_drop, hdrop, List.drop_succ_cons, List.drop_zero]
          obtain ⟨its, behind, k, hitems, hone, hnext⟩ := processOne_does hquiet hdrop
          simp only [OptParser.processArgs, hat, hitems]
          cases hkeep : P.keepItems ctx.data its with
          | error e =>
              have hnone (r : σ × List OptItem) : P.keepItems ctx.data its ≠ .ok r := by
                simp [hkeep]
              exact ⟨k + 0, seq_does hone fun r hr => absurd hr (hnone r)⟩
          | ok r =>
              have hdrop' : argv.drop ((ctx.after k r).argctr + 1) = rest.drop k := by
                rw [← hrest, List.drop_drop, Nat.add_right_comm]
                rfl
              have hlen : (rest.drop k).length ≤ n := by
                rw [List.length_cons] at hn
                rw [List.length_drop]
                omega
              obtain ⟨k', hk'⟩ : ∃ k', OptDoes (P.processArgs argv n { ctx.after k r with
                argctr := (ctx.after k r).argctr + 1 }) _ := ih hdrop' hlen
              rw [FuseOptContext.after_step, hnext r hkeep] at hk'
              refine ⟨k + (1 + k'), seq_does hone fun r' hr' => ?_⟩
              obtain rfl := Except.ok.inj (hkeep.symm.trans hr')
              exact hk'

end Rounds

end UkfsFuse
