import UkfsFuse.Logic.Opt

/-!
# What a parse leaves, and what it reads as

The end of `opt_parse` puts the kept options in front as one group
(`finishArgs_eq`). The vector it leaves says again what was kept: first the
options of the group, then the rest, in order (`argItems_renderItems`).
-/

namespace UkfsFuse

open UkfsFuse.Core AllocM

variable {σ : Type}

/-! ## Items in the order of a vector -/

/-- Behind a separator there are only arguments that are no options. -/
def OptsFirst (items : List OptItem) : Prop :=
  items.Pairwise fun it it' => it = .separator → ∃ arg, it' = .nonopt arg

/-- Each item is one an argument can stand for at its place, and takes no other
arguments. -/
def InOrder : List OptItem → Prop
  | [] => True
  | .opt true _ params :: items => params = [] ∧ InOrder items
  | .opt false arg params :: items =>
      (params = [] ∧ charAt arg 0 = DASH ∧ charAt arg 1 ≠ LETTER_O ∧
        ¬ (charAt arg 1 = DASH ∧ charAt arg 2 = 0)) ∧ InOrder items
  | .nonopt arg :: items => charAt arg 0 ≠ DASH ∧ InOrder items
  | .separator :: items => ∀ it ∈ items, ∃ arg, it = .nonopt arg
  | .missing _ :: items => InOrder items

section Order

variable {P : OptParser σ} {items items' : List OptItem} {args : List CStr}

/-- Only a separator looks at what is behind it. -/
theorem optsFirst_cons {it : OptItem} (hit : it ≠ .separator) (h : OptsFirst items) :
    OptsFirst (it :: items) :=
  List.pairwise_cons.mpr ⟨fun _ _ heq => absurd heq hit, h⟩

theorem optsFirst_append (hits : .separator ∉ items) (h : OptsFirst items') :
    OptsFirst (items ++ items') := by
  induction items with
  | nil => exact h
  | cons it items ih =>
      obtain ⟨hit, hrest⟩ := not_or.mp (fun hmem => hits (List.mem_cons.mpr hmem))
      exact optsFirst_cons (Ne.symm hit) (ih hrest)

theorem argItems_optsFirst (args : List CStr) : OptsFirst (P.argItems args) := by
  fun_induction OptParser.argItems P args with
  | case1 => exact .nil
  | case2 arg rest hdash ih => exact optsFirst_cons (by simp) ih
  | case3 arg rest hdash hletter htext words ih =>
      exact optsFirst_append (wordItems_separator _ _) ih
  | case4 => exact List.pairwise_singleton _ _
  | case5 arg hdash hletter htext opts rest ih =>
      exact optsFirst_append (wordItems_separator _ _) ih
  | case6 arg rest hdash hletter hend =>
      refine List.pairwise_cons.mpr ⟨fun it hit _ => ?_, ?_⟩
      · obtain ⟨arg', -, rfl⟩ := List.mem_map.mp hit
        exact ⟨arg', rfl⟩
      · have hbehind : OptsFirst (rest.map .nonopt ++ []) := optsFirst_append (by simp) .nil
        rwa [List.append_nil] at hbehind
  | case7 arg rest hdash hletter hend ih => exact optsFirst_cons (by simp) ih

theorem optsFirst_keepItems {data : σ} {r : σ × List OptItem} (h : OptsFirst items)
    (hkeep : P.keepItems data items = .ok r) : OptsFirst r.2 := by
  induction items generalizing data r with
  | nil =>
      cases hkeep
      exact .nil
  | cons it items ih =>
      obtain ⟨q, kept, hone, hrest, hkept⟩ := keepItems_cons hkeep
      obtain ⟨hbehind, htail⟩ := List.pairwise_cons.mp h
      have hfirst : OptsFirst kept := ih htail hrest
      rw [hkept]
      by_cases hit : it = .separator
      · subst hit
        cases hone
        refine List.pairwise_cons.mpr ⟨fun it' hmem _ => ?_, hfirst⟩
        obtain ⟨it, hit, s, rfl⟩ := withText_of_keepItems hrest hmem
        obtain ⟨arg, rfl⟩ := hbehind it hit rfl
        exact ⟨s, rfl⟩
      · refine optsFirst_append (fun hmem => hit ?_) hfirst
        obtain ⟨s, hs⟩ := withText_of_keepItem hone hmem
        exact OptItem.withText_eq_separator.mp hs.symm

theorem inOrder_group (words : List CStr) (h : InOrder items) :
    InOrder (words.map (fun w => .opt true w []) ++ items) := by
  induction words with
  | nil => exact h
  | cons w words ih => exact ⟨rfl, ih⟩

theorem argItems_inOrder (hsep : P.NoSeparate) (args : List CStr) :
    InOrder (P.argItems args) := by
  fun_induction OptParser.argItems P args with
  | case1 => trivial
  | case2 arg rest hdash ih => exact ⟨hdash, ih⟩
  | case3 arg rest hdash hletter htext words ih =>
      rw [hsep.wordItems_eq]
      exact inOrder_group _ ih
  | case4 => trivial
  | case5 arg hdash hletter htext opts rest ih =>
      rw [hsep.wordItems_eq]
      exact inOrder_group _ ih
  | case6 arg rest hdash hletter hend =>
      intro it hit
      obtain ⟨arg', -, rfl⟩ := List.mem_map.mp hit
      exact ⟨arg', rfl⟩
  | case7 arg rest hdash hletter hend ih =>
      refine ⟨⟨?_, not_not.mp hdash, hletter, hend⟩, ih⟩
      rw [hsep.takes_eq, List.take_zero]

theorem inOrder_tail {it : OptItem} (hit : it ≠ .separator) (h : InOrder (it :: items)) :
    InOrder items := by
  cases it with
  | opt iso arg params => cases iso <;> exact h.2
  | nonopt arg => exact h.2
  | separator => exact absurd rfl hit
  | missing arg => exact h

theorem inOrder_params {it : OptItem} (h : InOrder (it :: items)) : it.params = [] := by
  cases it with
  | opt iso arg params =>
      cases iso with
      | true => exact h.1
      | false => exact h.1.1
  | _ => rfl

/-- An item keeps its place in front of other items; a separator, in front of
fewer ones. -/
theorem inOrder_cons {it : OptItem} (h : InOrder (it :: items))
    (hsub : it = .separator → items' ⊆ items) (htail : it ≠ .separator → InOrder items') :
    InOrder (it :: items') := by
  cases it with
  | opt iso arg params => cases iso <;> exact ⟨h.1, htail (by simp)⟩
  | nonopt arg => exact ⟨h.1, htail (by simp)⟩
  | separator => exact fun it hit => h it (hsub rfl hit)
  | missing arg => exact htail (by simp)

/-- Copies of an item other than a separator stand where the item stands. -/
theorem inOrder_copies {it : OptItem} {copies : List OptItem} (hit : it ≠ .separator)
    (hcopies : ∀ it' ∈ copies, it' = it) (h : InOrder (it :: items)) (htail : InOrder items') :
    InOrder (copies ++ items') := by
  induction copies with
  | nil => exact htail
  | cons it' copies ih =>
      obtain rfl := hcopies it' List.mem_cons_self
      exact inOrder_cons h (fun hsep => absurd hsep hit)
        fun _ => ih fun it'' hmem => hcopies it'' (List.mem_cons_of_mem _ hmem)

theorem inOrder_keepItems (hquiet : P.Quiet) {data : σ} {r : σ × List OptItem}
    (h : InOrder items) (hkeep : P.keepItems data items = .ok r) : InOrder r.2 := by
  induction items generalizing data r with
  | nil =>
      cases hkeep
      trivial
  | cons it items ih =>
      obtain ⟨q, kept, hone, hrest, hkept⟩ := keepItems_cons hkeep
      rw [hkept]
      by_cases hit : it = .separator
      · subst hit
        cases hone
        intro it' hmem
        obtain ⟨it, hit, s, rfl⟩ := withText_of_keepItems hrest hmem
        obtain ⟨arg, rfl⟩ := h it hit
        exact ⟨s, rfl⟩
      · exact inOrder_copies hit (keepItem_self hquiet (inOrder_params h) hone) h
          (ih (inOrder_tail hit h) hrest)

end Order

/-! ## The end of a parse -/

section Finish

variable {ctx : FuseOptContext σ} {it : OptItem} {kept : List OptItem}

theorem plainItems_cons :
    plainItems (it :: kept) = if it.plain then it :: plainItems kept else plainItems kept := by
  rw [plainItems, List.filter_cons]
  rfl

theorem takeItems_outargs :
    (ctx.takeItems kept).outargs = ctx.outargs ++ (plainItems kept).map OptItem.text := by
  induction kept generalizing ctx with
  | nil => simp [plainItems]
  | cons it kept ih =>
      rw [FuseOptContext.takeItems_cons, ih, plainItems_cons]
      cases it with
      | opt iso arg params =>
          cases iso <;> simp [FuseOptContext.takeItem, OptItem.plain, OptItem.text]
      | _ => simp [FuseOptContext.takeItem, OptItem.plain, OptItem.text]

theorem takeItems_opts :
    (ctx.takeItems kept).opts = addOpts ctx.opts (groupItems kept) := by
  induction kept generalizing ctx with
  | nil => rfl
  | cons it kept ih =>
      rw [FuseOptContext.takeItems_cons, ih]
      cases it with
      | opt iso arg params => cases iso <;> rfl
      | _ => rfl

theorem addOpts_eq_none {ks : List CStr} : addOpts none ks = none ↔ ks = [] := by
  have hsome (ks : List CStr) (opts : CStr) : addOpts (some opts) ks ≠ none := by
    induction ks generalizing opts with
    | nil => exact Option.some_ne_none opts
    | cons k ks ih => exact ih _
  cases ks with
  | nil => exact ⟨fun _ => rfl, fun _ => rfl⟩
  | cons k ks => exact ⟨fun h => absurd h (hsome ks _), fun h => by cases h⟩

/-- `nonopt` points behind an argument that is there. -/
theorem takeItems_nonopt_le (h : ctx.nonopt ≤ ctx.outargs.length) :
    (ctx.takeItems kept).nonopt ≤ (ctx.takeItems kept).outargs.length := by
  induction kept generalizing ctx with
  | nil => exact h
  | cons it kept ih =>
      apply ih
      cases it with
      | opt iso arg params =>
          cases iso with
          | true => exact h
          | false =>
              show ctx.nonopt ≤ (ctx.outargs ++ [arg]).length
              rw [List.length_append]
              omega
      | nonopt arg =>
          show ctx.nonopt ≤ (ctx.outargs ++ [arg]).length
          rw [List.length_append]
          omega
      | separator =>
          show ctx.outargs.length + 1 ≤ (ctx.outargs ++ [dashes]).length
          rw [List.length_append]
          exact Nat.le_refl _
      | missing arg => exact h

theorem getLast?_cons_of_ne {α : Type} {x y : α} {xs : List α} (hne : x ≠ y) :
    (x :: xs).getLast? = some y ↔ xs.getLast? = some y := by
  cases xs with
  | nil => simpa using hne
  | cons x' xs => rw [List.getLast?_cons_cons]

/-- `nonopt` is the number of arguments when the separator is the last one. -/
theorem takeItems_nonopt_eq (hnonopt : ctx.nonopt = 0) (h : OptsFirst kept) :
    ((ctx.takeItems kept).nonopt ≠ 0 ∧
      (ctx.takeItems kept).nonopt = (ctx.takeItems kept).outargs.length) ↔
      (plainItems kept).getLast? = some .separator := by
  induction kept generalizing ctx with
  | nil => simp [hnonopt, plainItems]
  | cons it kept ih =>
      rw [FuseOptContext.takeItems_cons]
      obtain ⟨hfirst, htail⟩ := List.pairwise_cons.mp h
      cases it with
      | opt iso arg params =>
          cases iso with
          | true => exact ih hnonopt htail
          | false =>
              show _ ↔ (OptItem.opt false arg params :: plainItems kept).getLast? = _
              rw [getLast?_cons_of_ne (by simp)]
              exact ih hnonopt htail
      | nonopt arg =>
          show _ ↔ (OptItem.nonopt arg :: plainItems kept).getLast? = _
          rw [getLast?_cons_of_ne (by simp)]
          exact ih hnonopt htail
      | separator =>
          have hbehind : .separator ∉ kept := fun hmem => by
            obtain ⟨arg, harg⟩ := hfirst _ hmem rfl
            cases harg
          have hpoint : ((ctx.takeItem .separator).takeItems kept).nonopt =
              ctx.outargs.length + 1 := takeItems_nonopt hbehind
          have hlen : ((ctx.takeItem .separator).takeItems kept).outargs.length =
              ctx.outargs.length + 1 + (plainItems kept).length := by
            rw [takeItems_outargs, List.length_append, List.length_map]
            show (ctx.outargs ++ [dashes]).length + _ = _
            rw [List.length_append, List.length_singleton]
          rw [hpoint, hlen]
          show _ ↔ (OptItem.separator :: plainItems kept).getLast? = _
          cases hplain : plainItems kept with
          | nil => simp
          | cons it items =>
              refine iff_of_false (fun hcount => ?_) (fun hlast => ?_)
              · rw [List.length_cons] at hcount
                omega
              · rw [List.getLast?_cons_cons] at hlast
                have hmem : .separator ∈ plainItems kept := hplain ▸ List.mem_of_getLast? hlast
                exact hbehind (List.mem_of_mem_filter hmem)
      | missing arg => exact ih hnonopt htail

theorem fuseOptInsertArg_does {args : List CStr} {pos : Nat} (arg : CStr)
    (hpos : pos ≤ args.length) :
    OptDoes (fuseOptInsertArg args pos arg) (.ok (args.take pos ++ arg :: args.drop pos)) := by
  have hlen : (args ++ [arg]).length = args.length + 1 := by simp
  unfold fuseOptInsertArg
  rw [if_pos hpos]
  refine (fuseOptAddArg_does args arg).bind_ok ?_
  simp only [hlen, Nat.add_sub_cancel]
  split
  · rw [List.take_append_of_le_length hpos, List.drop_append_of_le_length hpos,
      List.take_append_of_le_length (by rw [List.length_drop]; omega),
      List.take_of_length_le (l := args.drop pos) (by rw [List.length_drop]; omega)]
    exact .pure _
  · rename_i hend
    obtain rfl := not_not.mp hend
    rw [List.take_length, List.drop_length]
    exact .pure _

/-- The end of a parse renders what was kept. -/
theorem finishArgs_does {arg0 : CStr}
    (hout : ctx.outargs = arg0 :: (plainItems kept).map OptItem.text)
    (hopts : ctx.opts = addOpts none (groupItems kept)) (hle : ctx.nonopt ≤ ctx.outargs.length)
    (hend : ctx.nonopt ≠ 0 ∧ ctx.nonopt = ctx.outargs.length ↔
      (plainItems kept).getLast? = some .separator) :
    OptDoes (OptParser.finishArgs ctx) (.ok { ctx with outargs := renderItems arg0 kept }) := by
  rw [OptParser.finishArgs, hopts, renderItems, endItems]
  cases hopt : addOpts none (groupItems kept) with
  | none =>
      have hnone : groupItems kept = [] := addOpts_eq_none.mp hopt
      by_cases hlast : (plainItems kept).getLast? = some .separator
      · have hne : (plainItems kept).map OptItem.text ≠ [] := fun hnil => by
          rw [List.map_eq_nil_iff.mp hnil] at hlast
          cases hlast
        have hdashes : ctx.outargs.getLast? = some dashes := by
          rw [hout, List.getLast?_cons, List.getLast?_map, hlast]
          rfl
        obtain ⟨hpos, hcount⟩ := hend.mpr hlast
        simp only [pure_bind]
        rw [if_pos ⟨hpos, hcount, hdashes⟩, if_pos ⟨hnone, hlast⟩, hout,
          List.dropLast_cons_of_ne_nil hne, List.map_dropLast]
        exact .pure _
      · have hkeep : ¬ (ctx.nonopt ≠ 0 ∧ ctx.nonopt = ctx.outargs.length ∧
            ctx.outargs.getLast? = some dashes) :=
          fun hcond => hlast (hend.mp ⟨hcond.1, hcond.2.1⟩)
        simp only [pure_bind]
        rw [if_neg hkeep, if_neg (fun hcond => hlast hcond.2), hout]
        exact .pure _
  | some opts =>
      have hsome : groupItems kept ≠ [] := fun hnil => by
        rw [addOpts_eq_none.mpr hnil] at hopt
        cases hopt
      have hinsert : OptDoes (fuseOptInsertArg ctx.outargs 1 dashO)
          (.ok (arg0 :: dashO :: (plainItems kept).map OptItem.text)) := by
        have := fuseOptInsertArg_does dashO (show 1 ≤ ctx.outargs.length by simp [hout])
        rw [hout] at this ⊢
        exact this
      have hinsert' : OptDoes
          (fuseOptInsertArg (arg0 :: dashO :: (plainItems kept).map OptItem.text) 2 opts)
          (.ok (arg0 :: dashO :: opts :: (plainItems kept).map OptItem.text)) :=
        fuseOptInsertArg_does opts (by simp)
      -- the group moves the arguments up, so that `nonopt` is no longer their number
      have hkeep : ¬ (ctx.nonopt ≠ 0 ∧
          ctx.nonopt = (arg0 :: dashO :: opts :: (plainItems kept).map OptItem.text).length ∧
          (arg0 :: dashO :: opts :: (plainItems kept).map OptItem.text).getLast? =
            some dashes) := fun hcond => by
        have hcount := hcond.2.1
        rw [hout] at hle
        simp only [List.length_cons] at hle hcount
        omega
      simp only [if_neg (fun hcond : groupItems kept = [] ∧ _ => hsome hcond.1)]
      refine hinsert.bind_ok (hinsert'.bind_ok ?_)
      rw [if_neg hkeep]
      exact .pure _

end Finish

/-- A call of the parser processes the items its arguments stand for and puts
what is kept into a vector. -/
theorem fuseOptParse_does {P : OptParser σ} (hquiet : P.Quiet) (arg0 : CStr) (args : List CStr)
    (data : σ) : OptDoes (P.fuseOptParse (arg0 :: args) data)
      ((P.keepItems data (P.argItems args)).map fun r => (r.1, renderItems arg0 r.2)) := by
  let ctx : FuseOptContext σ :=
    { data := data, argctr := 1, outargs := [arg0], opts := none, nonopt := 0 }
  obtain ⟨k, hloop⟩ : ∃ k, OptDoes (P.processArgs (arg0 :: args) (arg0 :: args).length ctx) _ :=
    processArgs_does hquiet (show (arg0 :: args).drop ctx.argctr = args from rfl)
      (Nat.le_succ args.length)
  have hitems : itemsBehind P ctx.nonopt args = P.argItems args := if_neg (by simp [ctx])
  rw [hitems] at hloop
  cases hkeep : P.keepItems data (P.argItems args) with
  | error e =>
      have hloop' : OptDoes _ (.error e) := hkeep ▸ hloop
      exact ((addArg_does _ arg0).bind_ok hloop'.bind_error).bind_error
  | ok r =>
      have hloop' : OptDoes _ (.ok (ctx.after k r)) := hkeep ▸ hloop
      have hout : (ctx.after k r).outargs = arg0 :: (plainItems r.2).map OptItem.text :=
        takeItems_outargs
      have hopts : (ctx.after k r).opts = addOpts none (groupItems r.2) := takeItems_opts
      have hfinish := finishArgs_does hout hopts (takeItems_nonopt_le (Nat.zero_le _))
        (takeItems_nonopt_eq rfl (optsFirst_keepItems (argItems_optsFirst args) hkeep))
      exact ((addArg_does _ arg0).bind_ok (hloop'.bind_ok hfinish)).bind_ok (.pure _)

/-! ## Reading it again -/

section Reread

theorem cstr_of_noNul {bs : List UInt8} (h : 0 ∉ bs) : (cstr bs).bytes = bs :=
  congrArg CStr.bytes (cstr_bytes ⟨bs, h⟩)

theorem escapeOpt_eq (bs : List UInt8) : escapeOpt true bs = optEscaping.escape bs := by
  induction bs with
  | nil => rfl
  | cons b bs ih =>
      rw [Escaping.escape_cons, ← ih, escapeOpt]
      by_cases hb : b = COMMA ∨ b = BACKSLASH
      · have hesc : (if b = optEscaping.sep ∨ b = optEscaping.esc then [optEscaping.esc, b]
            else [b]) = [BACKSLASH, b] := if_pos hb
        rw [if_pos ⟨rfl, hb⟩, hesc]
        rfl
      · have hself : (if b = optEscaping.sep ∨ b = optEscaping.esc then [optEscaping.esc, b]
            else [b]) = [b] := if_neg hb
        rw [if_neg (fun h => hb h.2), hself]
        rfl

/-- `add_opt` adds a word, as long as an `unsigned` holds the length. -/
theorem joinOpt_eq {opts : Option CStr} (opt : CStr)
    (hlen : ((opts.map CStr.bytes).getD []).length < 2 ^ 32) :
    (joinOpt opts opt true).bytes =
      optEscaping.addWord ((opts.map CStr.bytes).getD []) opt.bytes := by
  generalize hold : (opts.map CStr.bytes).getD [] = old at hlen
  have hnul : 0 ∉ old := by
    cases opts with
    | none =>
        subst hold
        simp
    | some s =>
        subst hold
        exact s.noNul
  have hword : 0 ∉ optEscaping.addWord old opt.bytes := fun hmem => by
    rcases optEscaping.mem_addWord hmem with h | h | h | h
    · exact hnul h
    · exact absurd h (by decide)
    · exact absurd h (by decide)
    · exact opt.noNul h
  have hsep : (if old.length ≠ 0 then [COMMA] else []) =
      if old = [] then [] else [optEscaping.sep] := by
    by_cases hempty : old = []
    · simp [hempty]
    · rw [if_pos (fun h => hempty (List.length_eq_zero_iff.mp h)), if_neg hempty]
      rfl
  simp only [joinOpt, hold, Nat.mod_eq_of_lt hlen, List.take_length, escapeOpt_eq, hsep]
  exact cstr_of_noNul hword

theorem addOpts_eq (ks : List CStr) {opts : Option CStr}
    (hlen : ((ks.map CStr.bytes).foldl optEscaping.addWord
      ((opts.map CStr.bytes).getD [])).length < 2 ^ 32) :
    (((addOpts opts ks).map CStr.bytes).getD []) =
      (ks.map CStr.bytes).foldl optEscaping.addWord ((opts.map CStr.bytes).getD []) := by
  induction ks generalizing opts with
  | nil => rfl
  | cons k ks ih =>
      have hshort : ((opts.map CStr.bytes).getD []).length < 2 ^ 32 :=
        Nat.lt_of_le_of_lt (optEscaping.length_le_foldl_addWord _ _) hlen
      have hone : (joinOpt opts k true).bytes = _ := joinOpt_eq k hshort
      have hnext := @ih (some (joinOpt opts k true))
      rw [Option.map_some, Option.getD_some, hone] at hnext
      exact hnext hlen

/-- The empty options in front are lost. -/
def trimOpts (ks : List CStr) : List CStr := ks.dropWhile fun k => k.bytes.isEmpty

/-- The text of the group for some options. -/
def groupText (ks : List CStr) : List UInt8 := optEscaping.join ((trimOpts ks).map CStr.bytes)

theorem addOpts_none (ks : List CStr) (hlen : (groupText ks).length < 2 ^ 32) :
    ((addOpts none ks).map CStr.bytes).getD [] = groupText ks := by
  have htext : (ks.map CStr.bytes).foldl optEscaping.addWord [] = groupText ks := by
    rw [Escaping.foldl_addWord, List.dropWhile_map]
    rfl
  have := @addOpts_eq ks none
  rw [Option.map_none, Option.getD_none, htext] at this
  exact this hlen

/-- The options a group is read as: a group of empty options only is read as
one empty option. -/
def rereadOpts (ks : List CStr) : List CStr :=
  if ks = [] then [] else if trimOpts ks = [] then [cstr []] else trimOpts ks

theorem groupWords_text {opts : CStr} {ks : List CStr} (hne : ks ≠ [])
    (h : opts.bytes = groupText ks) : groupWords opts = rereadOpts ks := by
  rw [groupWords, h, rereadOpts, if_neg hne, groupText]
  by_cases htrim : trimOpts ks = []
  · rw [if_pos htrim, htrim, List.map_nil, Escaping.join, Escaping.words_nil, List.map_singleton]
  · rw [if_neg htrim, Escaping.words_join _ (by simpa using htrim), List.map_map]
    have hid : cstr ∘ CStr.bytes = id := funext cstr_bytes
    rw [hid, List.map_id]

/-- What the vector for kept items says. -/
def rereadItems (kept : List OptItem) : List OptItem :=
  (rereadOpts (groupItems kept)).map (fun w => .opt true w []) ++ endItems kept

variable {P : OptParser σ} {items kept : List OptItem}

theorem inOrder_plainItems (h : InOrder kept) : InOrder (plainItems kept) := by
  induction kept with
  | nil => trivial
  | cons it kept ih =>
      rw [plainItems_cons]
      split
      · exact inOrder_cons h (fun _ => List.filter_subset_self kept)
          fun hit => ih (inOrder_tail hit h)
      · rename_i hplain
        have hit : it ≠ .separator := fun hsep => hplain (hsep ▸ rfl)
        exact ih (inOrder_tail hit h)

theorem inOrder_dropLast (h : InOrder items) : InOrder items.dropLast := by
  induction items with
  | nil => trivial
  | cons it items ih =>
      by_cases hitems : items = []
      · subst hitems
        trivial
      · rw [List.dropLast_cons_of_ne_nil hitems]
        exact inOrder_cons h (fun _ => (List.dropLast_sublist items).subset)
          fun hit => ih (inOrder_tail hit h)

theorem inOrder_endItems (h : InOrder kept) : InOrder (endItems kept) := by
  unfold endItems
  split
  · exact inOrder_dropLast (inOrder_plainItems h)
  · exact inOrder_plainItems h

theorem plain_of_mem_endItems {it : OptItem} (h : it ∈ endItems kept) : it.plain = true := by
  have hmem : it ∈ plainItems kept := by
    unfold endItems at h
    split at h
    · exact (List.dropLast_sublist _).subset h
    · exact h
  exact (List.mem_filter.mp hmem).2

/-- What arguments say behind items that are arguments of their own. -/
def argItemsBehind (P : OptParser σ) (items : List OptItem) (args : List CStr) :
    List OptItem :=
  if .separator ∈ items then args.map .nonopt else P.argItems args

variable (hsep : P.NoSeparate)

include hsep

/-- Arguments of their own are read as they are. -/
theorem argItems_texts (h : InOrder items) (hplain : ∀ it ∈ items, it.plain = true)
    (args : List CStr) :
    P.argItems (items.map OptItem.text ++ args) = items ++ argItemsBehind P items args := by
  induction items with
  | nil =>
      rw [argItemsBehind, if_neg List.not_mem_nil]
      rfl
  | cons it items ih =>
      have htail : ∀ it ∈ items, it.plain = true :=
        fun it hit => hplain it (List.mem_cons_of_mem _ hit)
      have hbehind (hne : it ≠ .separator) :
          argItemsBehind P (it :: items) args = argItemsBehind P items args := by
        simp [argItemsBehind, List.mem_cons, hne.symm]
      rw [List.map_cons, List.cons_append, hsep.argItems_cons, List.cons_append]
      cases it with
      | opt iso arg params =>
          cases iso with
          | true => exact absurd (hplain _ List.mem_cons_self) (by simp [OptItem.plain])
          | false =>
              obtain ⟨⟨rfl, hdash, hletter, hend⟩, hitems⟩ := h
              rw [hbehind (by simp), ← ih hitems htail]
              show (if charAt arg 0 ≠ DASH then _ else _) = _
              rw [if_neg (not_not.mpr hdash)]
              show (if charAt arg 1 = LETTER_O then _ else _) = _
              rw [if_neg hletter]
              exact if_neg hend
      | nonopt arg =>
          rw [hbehind (by simp), ← ih h.2 htail]
          exact if_pos h.1
      | separator =>
          have hself : (items.map OptItem.text).map .nonopt = items := by
            rw [List.map_map]
            conv_rhs => rw [← List.map_id items]
            refine List.map_congr_left fun it hit => ?_
            obtain ⟨arg, rfl⟩ := h it hit
            rfl
          rw [argItemsBehind, if_pos List.mem_cons_self]
          show OptItem.separator :: (items.map OptItem.text ++ args).map .nonopt = _
          rw [List.map_append, hself]
      | missing arg => exact absurd (hplain _ List.mem_cons_self) (by simp [OptItem.plain])

/-- The vector says again what was kept, and then what is put behind it. -/
theorem argItems_renderItems_append {arg0 : CStr} (h : InOrder kept)
    (hlen : (groupText (groupItems kept)).length < 2 ^ 32) (args : List CStr) :
    P.argItems ((renderItems arg0 kept).tail ++ args) =
      rereadItems kept ++ argItemsBehind P (endItems kept) args := by
  have hrest : P.argItems ((endItems kept).map OptItem.text ++ args) =
      endItems kept ++ argItemsBehind P (endItems kept) args :=
    argItems_texts hsep (inOrder_endItems h) (fun it hit => plain_of_mem_endItems hit) args
  have htext := addOpts_none (groupItems kept) hlen
  rw [renderItems, List.tail_cons, rereadItems, List.append_assoc, List.append_assoc, ← hrest]
  cases hopt : addOpts none (groupItems kept) with
  | none =>
      rw [addOpts_eq_none.mp hopt]
      rfl
  | some opts =>
      have hne : groupItems kept ≠ [] := fun hnil => by
        rw [addOpts_eq_none.mpr hnil] at hopt
        cases hopt
      rw [hopt] at htext
      show P.argItems (dashO :: opts :: ((endItems kept).map OptItem.text ++ args)) = _
      rw [← groupWords_text hne htext]
      exact hsep.argItems_cons dashO (opts :: _)

/-- The vector says again what was kept. -/
theorem argItems_renderItems {arg0 : CStr} (h : InOrder kept)
    (hlen : (groupText (groupItems kept)).length < 2 ^ 32) :
    P.argItems (renderItems arg0 kept).tail = rereadItems kept := by
  have hnothing : argItemsBehind P (endItems kept) [] = [] := by
    unfold argItemsBehind
    split
    · rfl
    · exact OptParser.argItems_nil
  have hread : P.argItems ((renderItems arg0 kept).tail ++ []) = _ :=
    argItems_renderItems_append hsep h hlen []
  rwa [List.append_nil, hnothing, List.append_nil] at hread

end Reread

end UkfsFuse
