import UkfsFuse.Core.Alloc
import UkfsFuse.Core.Bytes

/-!
# Option parsing (`fuse_opt.c`)

Arguments are C strings. The variables behind `data` are the caller's: the
parser stores into them through the three functions of `OptParser`. A call of
the parser that fails is an `OptError`; what it left in `data` is not looked
at, since a caller that gets `-1` gives up. A failed allocation is one of these
failures: every function here that cannot allocate returns `-1`.

`processRealOptionGroup` works on one buffer with two cursors, as the source
does. The buffer holds the copy of the group with its NUL, and a read behind it
is `outOfBounds`.
-/

namespace UkfsFuse

open UkfsFuse.Core AllocM

/-- The byte a pointer `i` bytes into a string points to, up to its NUL. -/
def charAt (s : CStr) (i : Nat) : UInt8 := s.bytes.getD i 0

/-- The string a `char *` into bytes denotes. -/
def cstr (bs : List UInt8) : CStr := CStr.strndup bs bs.length

def DASH : UInt8 := 0x2d
def COMMA : UInt8 := 0x2c
def BACKSLASH : UInt8 := 0x5c
def EQUALS : UInt8 := 0x3d
def SPACE : UInt8 := 0x20
def PERCENT : UInt8 := 0x25
def LETTER_O : UInt8 := 0x6f
def LETTER_S : UInt8 := 0x73
def DIGIT_0 : UInt8 := 0x30
def DIGIT_3 : UInt8 := 0x33
def DIGIT_7 : UInt8 := 0x37

/-- `"-o"` -/
def dashO : CStr := ⟨[DASH, LETTER_O], by decide⟩

/-- `"--"` -/
def dashes : CStr := ⟨[DASH, DASH], by decide⟩

def FUSE_OPT_KEY_OPT : Int32 := -1
def FUSE_OPT_KEY_NONOPT : Int32 := -2
def FUSE_OPT_KEY_KEEP : Int32 := -3
def FUSE_OPT_KEY_DISCARD : Int32 := -4

/-- `struct fuse_opt`; `offset` is `none` for `-1U`. -/
structure FuseOpt where
  templ : CStr
  offset : Option Nat
  value : Int32
deriving DecidableEq

/-- Why a parse gives up: `alloc_failed`, the two other messages of the parser, a
processing function that returned `-1`, a failed `assert`, an access behind a
buffer. -/
inductive OptError where
  | allocFailed
  | missingArgument (opt : CStr)
  | invalidParameter (arg : CStr)
  | proc (arg : CStr)
  | assertion
  | outOfBounds
deriving DecidableEq

/-- What a function of the parser is run with: the outcomes of its allocations. -/
abbrev OptM := AllocM OptError

/-- `strdup` -/
def strdup (s : CStr) : OptM CStr := do
  alloc .allocFailed
  return s

/-- `fuse_opt_proc_t`: returns its result, `data` and `outargs`. One that cannot
allocate returns `-1` as well. -/
abbrev FuseOptProc (σ : Type) :=
  σ → CStr → Int32 → List CStr → OptM (Int32 × σ × List CStr)

/-- What a call of the parser is given besides the arguments: the template
table, the processing function and the stores into `data` at an offset. -/
structure OptParser (σ : Type) where
  opt : List FuseOpt
  proc : Option (FuseOptProc σ)
  /-- `*(int *)var = value` -/
  setInt : σ → Nat → Int32 → σ
  /-- `free(*s); *s = copy` -/
  setString : σ → Nat → CStr → σ
  /-- `sscanf(param, format, var)`: `none` unless it converts one item -/
  sscanf : σ → Nat → CStr → CStr → Option σ

/-- `struct fuse_opt_context`, less what a call does not change. -/
structure FuseOptContext (σ : Type) where
  data : σ
  argctr : Nat
  outargs : List CStr
  opts : Option CStr
  nonopt : Nat

variable {σ : Type}

/-! ## Argument lists -/

/-- `fuse_opt_add_arg`: a copy of the argument, and one more place in `argv`. -/
def fuseOptAddArg (args : List CStr) (arg : CStr) : OptM (List CStr) := do
  let newarg ← strdup arg
  alloc .allocFailed
  return args ++ [newarg]

/-- `fuse_opt_insert_arg`: the new argument is added at the end and the ones
from `pos` on move up. -/
def fuseOptInsertArg (args : List CStr) (pos : Nat) (arg : CStr) : OptM (List CStr) :=
  if pos ≤ args.length then do
    let added ← fuseOptAddArg args arg
    if pos ≠ added.length - 1 then
      return added.take pos ++ arg :: (added.drop pos).take (added.length - pos - 1)
    else return added
  else throw .assertion

/-- The bytes the copying loop of `add_opt_common` writes. -/
def escapeOpt (esc : Bool) : List UInt8 → List UInt8
  | [] => []
  | b :: bs =>
      if esc ∧ (b = COMMA ∨ b = BACKSLASH) then BACKSLASH :: b :: escapeOpt esc bs
      else b :: escapeOpt esc bs

/-- What `add_opt_common` makes of `*opts`; the old length is an `unsigned`. -/
def joinOpt (opts : Option CStr) (opt : CStr) (esc : Bool) : CStr :=
  let old := (opts.map CStr.bytes).getD []
  let oldlen := old.length % 2 ^ 32
  cstr (old.take oldlen ++ ((if oldlen ≠ 0 then [COMMA] else []) ++ escapeOpt esc opt.bytes))

/-- `add_opt_common` -/
def addOptCommon (opts : Option CStr) (opt : CStr) (esc : Bool) : OptM CStr := do
  alloc .allocFailed
  return joinOpt opts opt esc

namespace FuseOptContext

def addArg (ctx : FuseOptContext σ) (arg : CStr) : OptM (FuseOptContext σ) := do
  let outargs ← fuseOptAddArg ctx.outargs arg
  return { ctx with outargs := outargs }

def addOpt (ctx : FuseOptContext σ) (opt : CStr) : OptM (FuseOptContext σ) := do
  let opts ← addOptCommon ctx.opts opt true
  return { ctx with opts := some opts }

/-- `next_arg`, and `ctx->argv[ctx->argctr]` behind it. -/
def nextArg (ctx : FuseOptContext σ) (argv : List CStr) (opt : CStr) :
    OptM (CStr × FuseOptContext σ) :=
  match argv[ctx.argctr + 1]? with
  | none => throw (.missingArgument opt)
  | some arg => return (arg, { ctx with argctr := ctx.argctr + 1 })

end FuseOptContext

/-! ## Templates -/

/-- `strchr` as an index. -/
def strchr (s : CStr) (c : UInt8) : Option Nat := s.bytes.idxOf? c

/-- `match_template`: `*sepp` when the template matches. `arglen` is an `int`. -/
def matchTemplate (t arg : CStr) : Option Nat :=
  let exact := if t = arg then some 0 else none
  match (strchr t EQUALS).or (strchr t SPACE) with
  | none => exact
  | some sep =>
      if charAt t (sep + 1) = 0 ∨ charAt t (sep + 1) = PERCENT then
        let tlen := if charAt t sep = EQUALS then sep + 1 else sep
        let arglen := (arg.strlen : Int).bmod (2 ^ 32)
        if (tlen : Int) ≤ arglen ∧ arg.bytes.take tlen = t.bytes.take tlen then some sep
        else exact
      else exact

/-- `find_opt`: the first template that matches, what follows it in the table
and `*sepp`. -/
def findOpt : List FuseOpt → CStr → Option (FuseOpt × List FuseOpt × Nat)
  | [], _ => none
  | o :: rest, arg =>
      match matchTemplate o.templ arg with
      | some sep => some (o, rest, sep)
      | none => findOpt rest arg

namespace OptParser

/-- `call_proc` -/
def callProc (P : OptParser σ) (ctx : FuseOptContext σ) (arg : CStr) (key : Int32)
    (iso : Bool) : OptM (FuseOptContext σ) :=
  let keep (ctx : FuseOptContext σ) := if iso then ctx.addOpt arg else ctx.addArg arg
  if key = FUSE_OPT_KEY_DISCARD then return ctx
  else if key = FUSE_OPT_KEY_KEEP then keep ctx
  else
    match P.proc with
    | none => keep ctx
    | some proc => do
        let (res, data, outargs) ← proc ctx.data arg key ctx.outargs
        let ctx := { ctx with data := data, outargs := outargs }
        if res = -1 then throw (.proc arg)
        else if res = 0 then return ctx
        else keep ctx

/-- `process_opt_param` -/
def processOptParam (P : OptParser σ) (data : σ) (var : Nat) (format param arg : CStr) :
    OptM σ :=
  if charAt format 0 = PERCENT then
    if charAt format 1 = LETTER_S then do
      let copy ← strdup param
      return P.setString data var copy
    else
      match P.sscanf data var format param with
      | some data => return data
      | none => throw (.invalidParameter arg)
  else throw .assertion

/-- `process_opt` -/
def processOpt (P : OptParser σ) (ctx : FuseOptContext σ) (opt : FuseOpt) (sep : Nat)
    (arg : CStr) (iso : Bool) : OptM (FuseOptContext σ) :=
  match opt.offset with
  | none => P.callProc ctx arg opt.value iso
  | some var =>
      if sep ≠ 0 ∧ charAt opt.templ (sep + 1) ≠ 0 then do
        let start := if charAt opt.templ sep = EQUALS then sep + 1 else sep
        let data ← P.processOptParam ctx.data var (cstr (opt.templ.bytes.drop (sep + 1)))
          (cstr (arg.bytes.drop start)) arg
        return { ctx with data := data }
      else return { ctx with data := P.setInt ctx.data var opt.value }

/-- `process_opt_sep_arg` -/
def processOptSepArg (P : OptParser σ) (argv : List CStr) (ctx : FuseOptContext σ)
    (opt : FuseOpt) (sep : Nat) (arg : CStr) (iso : Bool) : OptM (FuseOptContext σ) := do
  let (param, ctx) ← ctx.nextArg argv arg
  alloc .allocFailed
  P.processOpt ctx opt sep (cstr (arg.bytes.take sep ++ param.bytes)) iso

/-- The loop of `process_gopt` over the matching templates of a table. -/
def processGoptFrom (P : OptParser σ) (argv : List CStr) (arg : CStr) (iso : Bool) :
    List FuseOpt → FuseOptContext σ → OptM (FuseOptContext σ)
  | [], ctx => return ctx
  | o :: rest, ctx =>
      match matchTemplate o.templ arg with
      | none => P.processGoptFrom argv arg iso rest ctx
      | some sep => do
          let ctx ←
            if sep ≠ 0 ∧ charAt o.templ sep = SPACE ∧ charAt arg sep = 0 then
              P.processOptSepArg argv ctx o sep arg iso
            else P.processOpt ctx o sep arg iso
          P.processGoptFrom argv arg iso rest ctx

/-- `process_gopt` -/
def processGopt (P : OptParser σ) (argv : List CStr) (ctx : FuseOptContext σ) (arg : CStr)
    (iso : Bool) : OptM (FuseOptContext σ) :=
  match findOpt P.opt arg with
  | some _ => P.processGoptFrom argv arg iso P.opt ctx
  | none => P.callProc ctx arg FUSE_OPT_KEY_OPT iso

end OptParser

/-! ## Option groups -/

def isOctal (last : UInt8) (b : UInt8) : Bool := DIGIT_0 ≤ b && b ≤ last

/-- What the loop of `process_real_option_group` makes of a byte that ends no
member: the byte it stores and where `s` stands before `s++`. `none` is a read
behind the buffer. -/
def unescapeAt (buf : List UInt8) (s : Nat) : Option (UInt8 × Nat) := do
  let c ← buf[s]?
  if c = BACKSLASH then
    let c1 ← buf[s + 1]?
    if c1 ≠ 0 then
      if isOctal DIGIT_3 c1 then
        let c2 ← buf[s + 2]?
        if isOctal DIGIT_7 c2 then
          let c3 ← buf[s + 3]?
          if isOctal DIGIT_7 c3 then
            return ((c1 - DIGIT_0) * 0o100 + (c2 - DIGIT_0) * 0o010 + (c3 - DIGIT_0), s + 3)
          else return (c1, s + 1)
        else return (c1, s + 1)
      else return (c1, s + 1)
    else return (c, s)
  else return (c, s)

theorem le_of_unescapeAt {buf : List UInt8} {s s' : Nat} {b : UInt8}
    (h : unescapeAt buf s = some (b, s')) : s ≤ s' ∧ s < buf.length := by
  simp only [unescapeAt, Option.bind_eq_bind, Option.bind_eq_some_iff] at h
  obtain ⟨c, hc, h⟩ := h
  obtain ⟨hlt, -⟩ := List.getElem?_eq_some_iff.mp hc
  refine ⟨?_, hlt⟩
  grind

namespace OptParser

/-- `process_real_option_group` -/
def processRealOptionGroup (P : OptParser σ) (argv : List CStr) (buf : List UInt8)
    (s d : Nat) (ctx : FuseOptContext σ) : OptM (FuseOptContext σ) :=
  if hs : s < buf.length then
    let c := buf[s]
    if c = 0 ∨ c = COMMA then do
      let ctx ← P.processGopt argv ctx (cstr (buf.set d 0)) true
      if c = 0 then return ctx
      else P.processRealOptionGroup argv (buf.set d 0) (s + 1) 0 ctx
    else
      match hb : unescapeAt buf s with
      | none => throw .outOfBounds
      | some (b, s') => P.processRealOptionGroup argv (buf.set d b) (s' + 1) (d + 1) ctx
  else throw .outOfBounds
termination_by buf.length - s
decreasing_by
  · simp only [List.length_set]
    omega
  · have := le_of_unescapeAt hb
    simp only [List.length_set]
    omega

/-- `process_option_group` -/
def processOptionGroup (P : OptParser σ) (argv : List CStr) (ctx : FuseOptContext σ)
    (opts : CStr) : OptM (FuseOptContext σ) := do
  let copy ← strdup opts
  P.processRealOptionGroup argv copy.toBytes 0 0 ctx

/-! ## The argument vector -/

/-- `process_one` -/
def processOne (P : OptParser σ) (argv : List CStr) (ctx : FuseOptContext σ) (arg : CStr) :
    OptM (FuseOptContext σ) :=
  if ctx.nonopt ≠ 0 ∨ charAt arg 0 ≠ DASH then P.callProc ctx arg FUSE_OPT_KEY_NONOPT false
  else if charAt arg 1 = LETTER_O then
    if charAt arg 2 ≠ 0 then P.processOptionGroup argv ctx (cstr (arg.bytes.drop 2))
    else do
      let (opts, ctx) ← ctx.nextArg argv arg
      P.processOptionGroup argv ctx opts
  else if charAt arg 1 = DASH ∧ charAt arg 2 = 0 then do
    let ctx ← ctx.addArg arg
    return { ctx with nonopt := ctx.outargs.length }
  else P.processGopt argv ctx arg false

/-- The loop of `opt_parse` over `argv`: `argctr` goes up in every iteration, so
that `argc` iterations see the end. -/
def processArgs (P : OptParser σ) (argv : List CStr) :
    Nat → FuseOptContext σ → OptM (FuseOptContext σ)
  | 0, ctx => return ctx
  | n + 1, ctx =>
      match argv[ctx.argctr]? with
      | none => return ctx
      | some arg => do
          let ctx ← P.processOne argv ctx arg
          P.processArgs argv n { ctx with argctr := ctx.argctr + 1 }

/-- The end of `opt_parse`: the kept options go in front, and a separator that
is the last argument is removed. -/
def finishArgs (ctx : FuseOptContext σ) : OptM (FuseOptContext σ) := do
  let outargs ←
    match ctx.opts with
    | none => pure ctx.outargs
    | some opts => do
        let outargs ← fuseOptInsertArg ctx.outargs 1 dashO
        fuseOptInsertArg outargs 2 opts
  if ctx.nonopt ≠ 0 ∧ ctx.nonopt = outargs.length ∧
      outargs.getLast? = some dashes then
    return { ctx with outargs := outargs.dropLast }
  else return { ctx with outargs := outargs }

/-- `opt_parse`, for a nonempty `argv`. -/
def optParse (P : OptParser σ) (arg0 : CStr) (args : List CStr) (data : σ) :
    OptM (FuseOptContext σ) := do
  let argv := arg0 :: args
  let ctx : FuseOptContext σ :=
    { data := data, argctr := 0, outargs := [], opts := none, nonopt := 0 }
  let ctx ← ctx.addArg arg0
  let ctx ← P.processArgs argv argv.length { ctx with argctr := 1 }
  finishArgs ctx

/-- `fuse_opt_parse`: `data` and `args` after a call that returns 0. -/
def fuseOptParse (P : OptParser σ) (args : List CStr) (data : σ) :
    OptM (σ × List CStr) :=
  match args with
  | [] => return (data, [])
  | arg0 :: rest => do
      let ctx ← P.optParse arg0 rest data
      return (ctx.data, ctx.outargs)

end OptParser

end UkfsFuse
