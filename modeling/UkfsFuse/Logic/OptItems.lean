import UkfsFuse.Logic.OptGroup

/-!
# What an argument vector says

The parser takes the arguments apart while it processes them. Here the two are
separated: `argItems` is the list of options and other arguments a vector
stands for, in the order the parser sees them, and `keepItems` processes them
one by one and lists those to be kept. `renderItems` puts what was kept into a
vector again.

An option may match templates with a separate parameter. It then takes
arguments from behind it, one for each such template, so that what a vector
says depends on the parser's table; a parser without such templates is
`NoSeparate`.
-/

namespace UkfsFuse

open UkfsFuse.Core AllocM

variable {σ : Type}

/-! ## Items -/

/-- One thing an argument vector says: an option, from a group or not, with the
arguments it takes; an argument that is none; the end of the options; a `-o`
without its group. -/
inductive OptItem where
  | opt (iso : Bool) (arg : CStr) (params : List CStr)
  | nonopt (arg : CStr)
  | separator
  | missing (arg : CStr)
deriving DecidableEq

namespace OptItem

/-- An item that is an argument of its own. -/
def plain : OptItem → Bool
  | opt iso _ _ => !iso
  | nonopt _ => true
  | separator => true
  | missing _ => false

def text : OptItem → CStr
  | opt _ arg _ => arg
  | nonopt arg => arg
  | separator => dashes
  | missing arg => arg

def params : OptItem → List CStr
  | opt _ _ params => params
  | _ => []

/-- An item of the same kind that says `s`. -/
def withText (s : CStr) : OptItem → OptItem
  | opt iso _ _ => opt iso s []
  | nonopt _ => nonopt s
  | separator => separator
  | missing arg => missing arg

theorem withText_self {it : OptItem} (h : it.params = []) : it.withText it.text = it := by
  cases it with
  | opt iso arg params =>
      obtain rfl : params = [] := h
      rfl
  | _ => rfl

theorem withText_eq_separator {it : OptItem} {s : CStr} :
    it.withText s = separator ↔ it = separator := by
  cases it <;> simp [withText]

end OptItem

namespace OptParser

/-- An option that matches this template takes the next argument. -/
def takesNext (o : FuseOpt) (arg : CStr) : Bool :=
  match matchTemplate o.templ arg with
  | none => false
  | some sep => decide (sep ≠ 0 ∧ charAt o.templ sep = SPACE ∧ charAt arg sep = 0)

/-- How many arguments an option takes. -/
def takes (table : List FuseOpt) (arg : CStr) : Nat := table.countP (takesNext · arg)

/-- An option that matches no template takes none. -/
theorem takes_eq_zero {table : List FuseOpt} {arg : CStr} (h : findOpt table arg = none) :
    takes table arg = 0 := by
  induction table with
  | nil => rfl
  | cons o table ih =>
      cases hmatch : matchTemplate o.templ arg with
      | some sep =>
          simp only [findOpt, hmatch] at h
          cases h
      | none =>
          simp only [findOpt, hmatch] at h
          have hno : ¬ takesNext o arg = true := by simp [takesNext, hmatch]
          exact (List.countP_cons_of_neg (p := (takesNext · arg)) hno).trans (ih h)

variable (P : OptParser σ)

/-- What the words of a group say, `rest` the arguments behind the group. -/
def wordItems : List CStr → List CStr → List OptItem
  | [], _ => []
  | w :: words, rest =>
      .opt true w (rest.take (takes P.opt w)) :: wordItems words (rest.drop (takes P.opt w))

/-- How many arguments the words of a group take. -/
def wordsTake (words : List CStr) : Nat := (words.map (takes P.opt)).sum

/-- What the arguments behind the program's name say. -/
def argItems : List CStr → List OptItem
  | [] => []
  | arg :: rest =>
      if charAt arg 0 ≠ DASH then .nonopt arg :: argItems rest
      else if charAt arg 1 = LETTER_O then
        if charAt arg 2 ≠ 0 then
          let words := groupWords (cstr (arg.bytes.drop 2))
          P.wordItems words rest ++ argItems (rest.drop (P.wordsTake words))
        else
          match rest with
          | [] => [.missing arg]
          | opts :: rest =>
              P.wordItems (groupWords opts) rest ++
                argItems (rest.drop (P.wordsTake (groupWords opts)))
      else if charAt arg 1 = DASH ∧ charAt arg 2 = 0 then .separator :: rest.map .nonopt
      else
        .opt false arg (rest.take (takes P.opt arg)) :: argItems (rest.drop (takes P.opt arg))
termination_by args => args.length
decreasing_by all_goals (simp only [List.length_drop, List.length_cons]; omega)

/-- No template takes its parameter from the next argument. -/
def NoSeparate : Prop := ∀ o ∈ P.opt, SPACE ∉ o.templ.bytes

variable {P}

theorem charAt_ne_space {s : CStr} (h : SPACE ∉ s.bytes) (i : Nat) : charAt s i ≠ SPACE := by
  intro heq
  rw [charAt, List.getD_eq_getElem?_getD] at heq
  cases hi : s.bytes[i]? with
  | none =>
      rw [hi] at heq
      exact absurd heq (by decide)
  | some b =>
      rw [hi] at heq
      exact h (heq ▸ List.mem_of_getElem? hi)

theorem NoSeparate.takes_eq (hsep : P.NoSeparate) (arg : CStr) : takes P.opt arg = 0 := by
  refine List.countP_eq_zero.mpr fun o ho htakes => ?_
  unfold takesNext at htakes
  split at htakes
  · cases htakes
  · exact charAt_ne_space (hsep o ho) _ (of_decide_eq_true htakes).2.1

theorem NoSeparate.wordsTake_eq (hsep : P.NoSeparate) (words : List CStr) :
    P.wordsTake words = 0 := by
  have hnone : takes P.opt = fun _ => 0 := funext hsep.takes_eq
  simp [wordsTake, hnone]

theorem NoSeparate.wordItems_eq (hsep : P.NoSeparate) (words rest : List CStr) :
    P.wordItems words rest = words.map fun w => .opt true w [] := by
  induction words with
  | nil => rfl
  | cons w words ih => simp only [wordItems, hsep.takes_eq, List.take_zero, List.drop_zero, ih,
      List.map_cons]

theorem argItems_nil : P.argItems [] = [] := by rw [argItems]

theorem argItems_cons (arg : CStr) (rest : List CStr) :
    P.argItems (arg :: rest) =
      if charAt arg 0 ≠ DASH then .nonopt arg :: P.argItems rest
      else if charAt arg 1 = LETTER_O then
        if charAt arg 2 ≠ 0 then
          P.wordItems (groupWords (cstr (arg.bytes.drop 2))) rest ++
            P.argItems (rest.drop (P.wordsTake (groupWords (cstr (arg.bytes.drop 2)))))
        else
          match rest with
          | [] => [.missing arg]
          | opts :: rest =>
              P.wordItems (groupWords opts) rest ++
                P.argItems (rest.drop (P.wordsTake (groupWords opts)))
      else if charAt arg 1 = DASH ∧ charAt arg 2 = 0 then .separator :: rest.map .nonopt
      else .opt false arg (rest.take (takes P.opt arg)) ::
        P.argItems (rest.drop (takes P.opt arg)) := by
  rw [argItems.eq_def]

/-- Without separate parameters every argument speaks for itself. -/
theorem NoSeparate.argItems_cons (hsep : P.NoSeparate) (arg : CStr) (rest : List CStr) :
    P.argItems (arg :: rest) =
      if charAt arg 0 ≠ DASH then .nonopt arg :: P.argItems rest
      else if charAt arg 1 = LETTER_O then
        if charAt arg 2 ≠ 0 then
          (groupWords (cstr (arg.bytes.drop 2))).map (fun w => .opt true w []) ++ P.argItems rest
        else
          match rest with
          | [] => [.missing arg]
          | opts :: rest =>
              (groupWords opts).map (fun w => .opt true w []) ++ P.argItems rest
      else if charAt arg 1 = DASH ∧ charAt arg 2 = 0 then .separator :: rest.map .nonopt
      else .opt false arg [] :: P.argItems rest := by
  rw [OptParser.argItems_cons]
  simp only [hsep.takes_eq, hsep.wordsTake_eq, hsep.wordItems_eq, List.take_zero, List.drop_zero]

end OptParser

/-! ## What is kept -/

/-- The kept items that go back as arguments of their own. -/
def plainItems (kept : List OptItem) : List OptItem := kept.filter OptItem.plain

/-- The kept options that go into the group. -/
def groupItems (kept : List OptItem) : List CStr :=
  (kept.filter (fun it => it matches .opt true _ _)).map OptItem.text

/-- The group `add_opt` makes of options, one after the other. -/
def addOpts (opts : Option CStr) (ks : List CStr) : Option CStr :=
  ks.foldl (fun opts k => some (joinOpt opts k true)) opts

/-- The arguments of their own that a vector ends with: a separator nothing
follows is left out, unless a group was put in front. -/
def endItems (kept : List OptItem) : List OptItem :=
  if groupItems kept = [] ∧ (plainItems kept).getLast? = some .separator then
    (plainItems kept).dropLast
  else plainItems kept

/-- The vector for what was kept. -/
def renderItems (arg0 : CStr) (kept : List OptItem) : List CStr :=
  arg0 :: (((addOpts none (groupItems kept)).map fun opts => [dashO, opts]).getD [] ++
    (endItems kept).map OptItem.text)

namespace FuseOptContext

/-- The context with one more kept item. -/
def takeItem (ctx : FuseOptContext σ) : OptItem → FuseOptContext σ
  | .opt true arg _ => { ctx with opts := some (joinOpt ctx.opts arg true) }
  | .opt false arg _ => { ctx with outargs := ctx.outargs ++ [arg] }
  | .nonopt arg => { ctx with outargs := ctx.outargs ++ [arg] }
  | .separator =>
      { ctx with outargs := ctx.outargs ++ [dashes], nonopt := ctx.outargs.length + 1 }
  | .missing _ => ctx

def takeItems (ctx : FuseOptContext σ) (kept : List OptItem) : FuseOptContext σ :=
  kept.foldl takeItem ctx

/-- A context that has kept nothing. -/
def blank (data : σ) : FuseOptContext σ :=
  { data := data, argctr := 0, outargs := [], opts := none, nonopt := 0 }

variable {ctx : FuseOptContext σ} {it : OptItem} {kept kept' : List OptItem}

@[simp] theorem takeItems_nil : ctx.takeItems [] = ctx := rfl

@[simp] theorem takeItems_cons :
    ctx.takeItems (it :: kept) = (ctx.takeItem it).takeItems kept := rfl

theorem takeItems_append : ctx.takeItems (kept ++ kept') = (ctx.takeItems kept).takeItems kept' :=
  List.foldl_append

/-- A change of the context that keeping an item does not look at can be made
before or after. -/
theorem takeItems_comm (g : FuseOptContext σ → FuseOptContext σ)
    (hg : ∀ ctx it, (g ctx).takeItem it = g (ctx.takeItem it)) :
    (g ctx).takeItems kept = g (ctx.takeItems kept) := by
  induction kept generalizing ctx with
  | nil => rfl
  | cons it kept ih => rw [takeItems_cons, hg, ih, takeItems_cons]

/-- Neither `data` nor where the parser stands matters for what is kept. -/
theorem takeItems_with (data : σ) (argctr : Nat) :
    ({ ctx with data := data, argctr := argctr } : FuseOptContext σ).takeItems kept =
      { ctx.takeItems kept with data := data, argctr := argctr } := by
  refine takeItems_comm (fun ctx => { ctx with data := data, argctr := argctr }) fun ctx it => ?_
  cases it with
  | opt iso arg params => cases iso <;> rfl
  | _ => rfl

/-- The context once some items have been processed: `data`, what is kept and
how many arguments were stepped over. -/
def after (ctx : FuseOptContext σ) (k : Nat) (r : σ × List OptItem) : FuseOptContext σ :=
  { ctx.takeItems r.2 with data := r.1, argctr := ctx.argctr + k }

theorem after_after {k k' : Nat} {r r' : σ × List OptItem} :
    (ctx.after k r).after k' r' = ctx.after (k + k') (r'.1, r.2 ++ r'.2) := by
  simp only [after, takeItems_append, takeItems_with, Nat.add_assoc]

/-- An argument stepped over first counts with the others. -/
theorem after_step (k : Nat) :
    ({ ctx with argctr := ctx.argctr + 1 } : FuseOptContext σ).after k = ctx.after (1 + k) :=
  funext fun _ => after_after (k := 1) (r := (ctx.data, []))

end FuseOptContext

/-! ## Processing -/

namespace OptParser

variable (P : OptParser σ)

/-- What an option that takes some arguments does to `data`, and the texts that
are kept of it. -/
def keepOpt (data : σ) (arg : CStr) (params : List CStr) : Except OptError (σ × List CStr) :=
  (P.processGopt (arg :: params) (.blank data) arg false).result.map fun ctx =>
    (ctx.data, ctx.outargs)

/-- The same for an argument that is no option. -/
def keepNonopt (data : σ) (arg : CStr) : Except OptError (σ × List CStr) :=
  (P.callProc (.blank data) arg FUSE_OPT_KEY_NONOPT false).result.map fun ctx =>
    (ctx.data, ctx.outargs)

def keepText (data : σ) : OptItem → Except OptError (σ × List CStr)
  | .opt _ arg params => P.keepOpt data arg params
  | .nonopt arg => P.keepNonopt data arg
  | .separator => .ok (data, [dashes])
  | .missing arg => .error (.missingArgument arg)

def keepItem (data : σ) (it : OptItem) : Except OptError (σ × List OptItem) :=
  (P.keepText data it).map fun r => (r.1, r.2.map (it.withText ·))

/-- What the items do to `data`, one after the other, and what is kept. -/
def keepItems : σ → List OptItem → Except OptError (σ × List OptItem)
  | data, [] => .ok (data, [])
  | data, it :: items => do
      let r ← P.keepItem data it
      let r' ← keepItems r.1 items
      return (r'.1, r.2 ++ r'.2)

end OptParser

section Keep

theorem ok_of_bind {ε α β : Type} {x : Except ε α} {f : α → Except ε β} {b : β}
    (h : x >>= f = .ok b) : ∃ a, x = .ok a ∧ f a = .ok b := by
  cases x with
  | error e => cases h
  | ok a => exact ⟨a, rfl, h⟩

theorem error_of_bind {ε α β : Type} {x : Except ε α} {f : α → Except ε β} {err : ε}
    (h : x >>= f = .error err) : x = .error err ∨ ∃ a, x = .ok a ∧ f a = .error err := by
  cases x with
  | error e =>
      cases h
      exact .inl rfl
  | ok a => exact .inr ⟨a, rfl, h⟩

theorem error_of_map {ε α β : Type} {x : Except ε α} {f : α → β} {err : ε}
    (h : x.map f = .error err) : x = .error err := by
  cases x with
  | error e =>
      cases h
      rfl
  | ok a => cases h

theorem ok_of_map {ε α β : Type} {x : Except ε α} {f : α → β} {b : β}
    (h : x.map f = .ok b) : ∃ a, x = .ok a ∧ f a = b := by
  cases x with
  | error e => cases h
  | ok a => exact ⟨a, rfl, Except.ok.inj h⟩

variable {P : OptParser σ} {data : σ} {it : OptItem} {items items' : List OptItem}
  {r : σ × List OptItem}

theorem keepItems_append :
    P.keepItems data (items ++ items') = (do
      let r ← P.keepItems data items
      let r' ← P.keepItems r.1 items'
      return (r'.1, r.2 ++ r'.2)) := by
  induction items generalizing data with
  | nil =>
      show P.keepItems data items' = P.keepItems data items' >>= fun r' => .ok (r'.1, r'.2)
      cases P.keepItems data items' <;> rfl
  | cons it items ih =>
      show P.keepItem data it >>= _ = (P.keepItem data it >>= _) >>= _
      cases P.keepItem data it with
      | error e => rfl
      | ok r =>
          show P.keepItems r.1 (items ++ items') >>= _ = (P.keepItems r.1 items >>= _) >>= _
          rw [ih]
          cases P.keepItems r.1 items with
          | error e => rfl
          | ok r' =>
              show (P.keepItems r'.1 items' >>= _) >>= _ = P.keepItems r'.1 items' >>= _
              cases P.keepItems r'.1 items' with
              | error e => rfl
              | ok r'' =>
                  show Except.ok (_, _ ++ (_ ++ _)) = Except.ok (_, (_ ++ _) ++ _)
                  rw [List.append_assoc]

theorem keepItems_singleton : P.keepItems data [it] = P.keepItem data it := by
  show P.keepItem data it >>= _ = _
  cases P.keepItem data it with
  | error e => rfl
  | ok r => exact congrArg Except.ok (Prod.ext rfl (List.append_nil r.2))

/-- A processed list of items starts with a processed item. -/
theorem keepItems_cons (h : P.keepItems data (it :: items) = .ok r) :
    ∃ q kept, P.keepItem data it = .ok q ∧ P.keepItems q.1 items = .ok (r.1, kept) ∧
      r.2 = q.2 ++ kept := by
  obtain ⟨q, hone, h⟩ := ok_of_bind h
  obtain ⟨r', hrest, h⟩ := ok_of_bind h
  cases h
  exact ⟨q, r'.2, hone, hrest, rfl⟩

/-- What is kept of an item says other texts in its way. -/
theorem withText_of_keepItem {q : σ × List OptItem} (h : P.keepItem data it = .ok q)
    {it' : OptItem} (hmem : it' ∈ q.2) : ∃ s, it' = it.withText s := by
  obtain ⟨t, -, rfl⟩ := ok_of_map h
  obtain ⟨s, -, rfl⟩ := List.mem_map.mp hmem
  exact ⟨s, rfl⟩

/-- What is kept of some items says other texts in their way. -/
theorem withText_of_keepItems (h : P.keepItems data items = .ok r) {it' : OptItem}
    (hmem : it' ∈ r.2) : ∃ it ∈ items, ∃ s, it' = it.withText s := by
  induction items generalizing data r with
  | nil =>
      cases h
      cases hmem
  | cons it items ih =>
      obtain ⟨q, kept, hone, hrest, hkept⟩ := keepItems_cons h
      rw [hkept] at hmem
      rcases List.mem_append.mp hmem with hmem | hmem
      · exact ⟨it, List.mem_cons_self, withText_of_keepItem hone hmem⟩
      · obtain ⟨it, hit, hs⟩ := ih hrest hmem
        exact ⟨it, List.mem_cons_of_mem _ hit, hs⟩

/-- A separator is kept where there was one. -/
theorem separator_mem_keepItems (h : P.keepItems data items = .ok r) :
    .separator ∈ r.2 ↔ .separator ∈ items := by
  refine ⟨fun hmem => ?_, fun hmem => ?_⟩
  · obtain ⟨it, hit, s, hs⟩ := withText_of_keepItems h hmem
    exact OptItem.withText_eq_separator.mp hs.symm ▸ hit
  · induction items generalizing data r with
    | nil => cases hmem
    | cons it items ih =>
        obtain ⟨q, kept, hone, hrest, hkept⟩ := keepItems_cons h
        rw [hkept]
        rcases List.mem_cons.mp hmem with rfl | hmem
        · cases hone
          exact List.mem_cons_self
        · exact List.mem_append_right _ (ih hrest hmem)

end Keep

end UkfsFuse
