import Mathlib.Data.List.Basic
import Mathlib.Data.List.Chain
import Mathlib.Logic.Function.Basic

/-!
# Circular doubly linked lists

Nodes with two links each. A list is a head node and the nodes one comes by on
the way round back to it (`Ring`). The links are changed one at a time, as the
functions of a program do; the rules say which lists are rings afterwards. A
ring is kept as long as nobody touches the links of its own nodes
(`Ring.frame`), and unlinking a node leaves that node's own links as they were.

Programs keep several lists in one memory, and take a node out of one to put it
into another. `Rings` is a family of rings without common nodes, with one rule
for each of the functions.
-/

namespace UkfsFuse.Core

/-- The links of all nodes. -/
structure Links (α : Type*) where
  next : α → α
  prev : α → α

namespace Links

variable {α : Type*}

/-- `b` comes right behind `a`. -/
def Linked (L : Links α) (a b : α) : Prop := L.next a = b ∧ L.prev b = a

/-- From each of the nodes one comes to the next one, and back. -/
def Path (L : Links α) (xs : List α) : Prop := xs.IsChain L.Linked

/-- Behind the head `h` are `xs`, and then `h` again. -/
structure Ring (L : Links α) (h : α) (xs : List α) : Prop where
  path : L.Path (h :: xs ++ [h])
  nodup : (h :: xs).Nodup

section Frames

variable {L L' : Links α} {h : α} {xs : List α}

/-- A path depends on the links along it only. -/
theorem Path.frame (hpath : L.Path xs) (hnext : ∀ a ∈ xs.dropLast, L'.next a = L.next a)
    (hprev : ∀ a ∈ xs.tail, L'.prev a = L.prev a) : L'.Path xs := by
  induction xs with
  | nil => exact .nil
  | cons x xs ih =>
      cases xs with
      | nil => exact .singleton x
      | cons y ys =>
          obtain ⟨⟨hn, hp⟩, hrest⟩ := List.isChain_cons_cons.mp hpath
          refine List.isChain_cons_cons.mpr ⟨⟨?_, ?_⟩, ih hrest ?_ ?_⟩
          · rw [hnext x (by simp), hn]
          · rw [hprev y (by simp), hp]
          · exact fun a ha => hnext a (List.mem_cons_of_mem _ ha)
          · exact fun a ha => hprev a (List.mem_cons_of_mem _ ha)

/-- A ring depends on the links of its own nodes only. -/
theorem Ring.frame (hring : L.Ring h xs) (hnext : ∀ a ∈ h :: xs, L'.next a = L.next a)
    (hprev : ∀ a ∈ h :: xs, L'.prev a = L.prev a) : L'.Ring h xs := by
  refine ⟨hring.path.frame (fun a ha => hnext a ?_) (fun a ha => hprev a ?_), hring.nodup⟩
  · rwa [List.dropLast_concat] at ha
  · simp only [List.cons_append, List.tail_cons, List.mem_append, List.mem_singleton] at ha
    rcases ha with ha | rfl
    · exact List.mem_cons_of_mem _ ha
    · exact List.mem_cons_self

end Frames

variable [DecidableEq α]

/-- `a` is linked to itself. -/
def init (L : Links α) (a : α) : Links α where
  next := Function.update L.next a a
  prev := Function.update L.prev a a

/-- `a` is left out between its neighbours. -/
def del (L : Links α) (a : α) : Links α where
  next := Function.update L.next (L.prev a) (L.next a)
  prev := Function.update L.prev (L.next a) (L.prev a)

/-- `a` comes in before `b`. -/
def add (L : Links α) (a b : α) : Links α where
  next := Function.update (Function.update L.next a b) (L.prev b) a
  prev := Function.update (Function.update L.prev a (L.prev b)) b a

section Rules

variable {L : Links α} {h a b c : α} {xs ys : List α}

@[simp] theorem init_next_self : (L.init a).next a = a := by simp [init]

@[simp] theorem init_prev_self : (L.init a).prev a = a := by simp [init]

theorem init_next (hne : b ≠ a) : (L.init a).next b = L.next b := by simp [init, hne]

theorem init_prev (hne : b ≠ a) : (L.init a).prev b = L.prev b := by simp [init, hne]

theorem del_next (hne : b ≠ L.prev a) : (L.del a).next b = L.next b := by simp [del, hne]

theorem del_prev (hne : b ≠ L.next a) : (L.del a).prev b = L.prev b := by simp [del, hne]

theorem add_next (ha : c ≠ a) (hp : c ≠ L.prev b) : (L.add a b).next c = L.next c := by
  simp [add, ha, hp]

theorem add_prev (ha : c ≠ a) (hb : c ≠ b) : (L.add a b).prev c = L.prev c := by
  simp [add, ha, hb]

/-- A list begins empty. -/
theorem ring_init : (L.init h).Ring h [] :=
  ⟨List.isChain_pair.mpr ⟨init_next_self, init_prev_self⟩, by simp⟩

omit [DecidableEq α] in
theorem Ring.of_nil (hring : L.Ring h []) : L.next h = h ∧ L.prev h = h :=
  (List.isChain_cons_cons.mp hring.path).1

omit [DecidableEq α] in
/-- The neighbours of the head are the last node and the first. -/
theorem Ring.prev_head (hring : L.Ring h xs) : L.prev h = (h :: xs).getLast (by simp) := by
  have hlink := (List.isChain_append.mp hring.path).2.2 _
    (List.getLast?_eq_some_getLast (List.cons_ne_nil h xs)) h (by simp)
  exact hlink.2

omit [DecidableEq α] in
theorem Ring.next_head (hring : L.Ring h xs) : L.next h = xs.headD h := by
  cases xs with
  | nil => exact hring.of_nil.1
  | cons x xs => exact (List.isChain_cons_cons.mp hring.path).1.1

/-- A node comes in at the end. -/
theorem Ring.add_last (hring : L.Ring h xs) (ha : a ∉ h :: xs) :
    (L.add a h).Ring h (xs ++ [a]) := by
  obtain ⟨zs, p, hzs⟩ : ∃ zs p, h :: xs = zs ++ [p] :=
    ⟨_, _, (List.dropLast_concat_getLast (List.cons_ne_nil h xs)).symm⟩
  have hnodup := hring.nodup
  have hp : L.prev h = p := by
    rw [hring.prev_head]
    simp [hzs]
  have hpne : p ∉ zs := by
    rw [hzs, List.nodup_append] at hnodup
    exact fun hin => hnodup.2.2 p hin p (by simp) rfl
  have hpa : p ≠ a := fun heq => ha (by simp [hzs, heq])
  have hha : h ≠ a := fun heq => ha (by simp [heq])
  refine ⟨?_, ?_⟩
  · have hlist : h :: (xs ++ [a]) ++ [h] = (zs ++ [p]) ++ [a, h] := by
      rw [← hzs]
      simp
    have hpath := hring.path
    rw [hzs] at hpath
    rw [hlist]
    refine List.isChain_append.mpr ⟨?_, ?_, ?_⟩
    · refine Path.frame (L := L) (List.isChain_append.mp hpath).1 (fun c hc => ?_) fun c hc => ?_
      · rw [List.dropLast_concat] at hc
        refine add_next (fun heq => ha ?_) fun heq => hpne ?_
        · rw [hzs, ← heq]
          exact List.mem_append_left _ hc
        · rwa [heq, hp] at hc
      · rw [← hzs, List.tail_cons] at hc
        refine add_prev (fun heq => ha ?_) fun heq => ?_
        · rw [← heq]
          exact List.mem_cons_of_mem _ hc
        · exact (List.nodup_cons.mp hnodup).1 (heq ▸ hc)
    · refine List.isChain_pair.mpr ⟨?_, ?_⟩
      · simp [add, hp, Ne.symm hpa]
      · simp [add]
    · intro x hx y hy
      simp only [List.getLast?_concat, Option.mem_def, Option.some.injEq, List.head?_cons] at hx hy
      subst hx hy
      exact ⟨by simp [add, hp], by simp [add, hp, Ne.symm hha]⟩
  · rw [← List.cons_append]
    refine List.nodup_append.mpr ⟨hnodup, by simp, ?_⟩
    rintro c hc d hd rfl
    exact ha (List.mem_singleton.mp hd ▸ hc)

/-- A node is left out. -/
theorem Ring.del_mem (hring : L.Ring h (xs ++ a :: ys)) : (L.del a).Ring h (xs ++ ys) := by
  obtain ⟨zs, p, hzs⟩ : ∃ zs p, h :: xs = zs ++ [p] :=
    ⟨_, _, (List.dropLast_concat_getLast (List.cons_ne_nil h xs)).symm⟩
  obtain ⟨n, ws, hws⟩ : ∃ n ws, ys ++ [h] = n :: ws :=
    List.exists_cons_of_ne_nil (by simp)
  have hpath := hring.path
  have hlist : h :: (xs ++ a :: ys) ++ [h] = (zs ++ [p]) ++ a :: n :: ws := by
    rw [← hzs, ← hws]
    simp
  rw [hlist] at hpath
  obtain ⟨hleft, hright, hlink⟩ := List.isChain_append.mp hpath
  obtain ⟨⟨hnext, -⟩, hright⟩ := List.isChain_cons_cons.mp hright
  have hprev : L.prev a = p := (hlink p (by simp) a (by simp)).2
  have hnodup := hring.nodup
  rw [← List.cons_append, hzs, List.nodup_append] at hnodup
  obtain ⟨hnl, hnr, hdisj⟩ := hnodup
  have hpne : p ∉ zs := by
    rw [List.nodup_append] at hnl
    exact fun hin => hnl.2.2 p hin p (by simp) rfl
  -- the node behind `a` is the head or one of `ys`, and in neither case one of `xs`
  have hn : n = h ∨ n ∈ ys := by
    cases ys with
    | nil => exact .inl (List.cons.inj hws).1.symm
    | cons y ys => exact .inr (by rw [← (List.cons.inj hws).1]; exact List.mem_cons_self)
  have hhxs : h ∉ xs := by
    rw [← hzs] at hnl
    exact (List.nodup_cons.mp hnl).1
  have hnxs : n ∉ xs := by
    rcases hn with rfl | hn
    · exact hhxs
    · intro hin
      refine hdisj n ?_ n (List.mem_cons_of_mem _ hn) rfl
      rw [← hzs]
      exact List.mem_cons_of_mem _ hin
  refine ⟨?_, ?_⟩
  · have hlist' : h :: (xs ++ ys) ++ [h] = (zs ++ [p]) ++ n :: ws := by
      rw [← hzs, ← hws]
      simp
    rw [hlist']
    refine List.isChain_append.mpr ⟨?_, ?_, ?_⟩
    · refine Path.frame (L := L) hleft (fun c hc => ?_) fun c hc => ?_
      · rw [List.dropLast_concat] at hc
        refine del_next fun heq => hpne ?_
        rwa [heq, hprev] at hc
      · rw [← hzs, List.tail_cons] at hc
        refine del_prev fun heq => hnxs ?_
        rwa [heq, hnext] at hc
    · -- `p` is none of the nodes behind
      have hpw : ∀ c ∈ (n :: ws).dropLast, c ∈ ys := by
        rw [← hws, List.dropLast_concat]
        exact fun c hc => hc
      refine Path.frame (L := L) hright (fun c hc => ?_) fun c hc => ?_
      · refine del_next fun heq => ?_
        rw [hprev] at heq
        exact hdisj p (by simp) c (List.mem_cons_of_mem _ (hpw c hc)) heq.symm
      · refine del_prev fun heq => ?_
        rw [hnext] at heq
        subst heq
        -- `c` would come twice on the way round
        have htwice : (ys ++ [h]).Nodup := by
          refine List.nodup_append.mpr ⟨(List.nodup_cons.mp hnr).2, by simp, ?_⟩
          rintro c hc d hd rfl
          rw [List.mem_singleton.mp hd] at hc
          refine hdisj h ?_ h (List.mem_cons_of_mem _ hc) rfl
          rw [← hzs]
          exact List.mem_cons_self
        rw [hws] at htwice
        exact (List.nodup_cons.mp htwice).1 hc
    · intro x hx y hy
      simp only [List.getLast?_concat, Option.mem_def, Option.some.injEq, List.head?_cons] at hx hy
      subst hx hy
      exact ⟨by simp [del, hprev, hnext], by simp [del, hprev, hnext]⟩
  · rw [← List.cons_append, hzs]
    refine List.nodup_append.mpr ⟨hnl, (List.nodup_cons.mp hnr).2, fun c hc d hd => ?_⟩
    exact hdisj c hc d (List.mem_cons_of_mem _ hd)

/-- Leaving out a node that is linked to itself changes nothing. -/
theorem Ring.del_self (hring : L.Ring a []) : L.del a = L := by
  obtain ⟨hnext, hprev⟩ := hring.of_nil
  rw [del, hnext, hprev]
  congr
  · exact Function.update_eq_iff.mpr ⟨hnext.symm, fun _ _ => rfl⟩
  · exact Function.update_eq_iff.mpr ⟨hprev.symm, fun _ _ => rfl⟩

end Rules

/-! ## Several rings in one memory -/

/-- The list at `h` is `xs` where `lists h = some xs`; no two have a node in
common. -/
structure Rings (L : Links α) (lists : α → Option (List α)) : Prop where
  ring : ∀ h xs, lists h = some xs → L.Ring h xs
  disjoint : ∀ g h xs ys c, lists g = some xs → lists h = some ys → c ∈ g :: xs →
    c ∈ h :: ys → g = h

section Rings

variable {L : Links α} {lists : α → Option (List α)} {a h : α} {xs ys : List α}

omit [DecidableEq α] in
theorem Ring.prev_head_mem (hring : L.Ring h xs) : L.prev h ∈ h :: xs := by
  rw [hring.prev_head]
  exact List.getLast_mem (List.cons_ne_nil h xs)

omit [DecidableEq α] in
/-- The neighbours of a node of a ring are nodes of the ring. -/
theorem Ring.neighbours (hring : L.Ring h (xs ++ a :: ys)) :
    L.prev a ∈ h :: xs ++ a :: ys ∧ L.next a ∈ h :: xs ++ a :: ys := by
  obtain ⟨zs, p, hzs⟩ : ∃ zs p, h :: xs = zs ++ [p] :=
    ⟨_, _, (List.dropLast_concat_getLast (List.cons_ne_nil h xs)).symm⟩
  obtain ⟨n, ws, hws⟩ : ∃ n ws, ys ++ [h] = n :: ws := List.exists_cons_of_ne_nil (by simp)
  have hpath := hring.path
  have hlist : h :: (xs ++ a :: ys) ++ [h] = (zs ++ [p]) ++ a :: n :: ws := by
    rw [← hzs, ← hws]
    simp
  rw [hlist] at hpath
  obtain ⟨-, hright, hlink⟩ := List.isChain_append.mp hpath
  have hnext : L.next a = n := (List.isChain_cons_cons.mp hright).1.1
  have hprev : L.prev a = p := (hlink p (by simp) a (by simp)).2
  rw [hnext, hprev, hzs]
  have hn : n ∈ ys ++ [h] := by rw [hws]; exact List.mem_cons_self
  have hh : h ∈ zs ++ [p] := by rw [← hzs]; exact List.mem_cons_self
  refine ⟨by simp, ?_⟩
  rcases List.mem_append.mp hn with hn | hn
  · simp [hn]
  · rw [List.mem_singleton.mp hn]
    exact List.mem_append_left _ hh

omit [DecidableEq α] in
/-- Some lists are given up. -/
theorem Rings.mono (hrings : L.Rings lists) {lists' : α → Option (List α)}
    (hsub : ∀ h xs, lists' h = some xs → lists h = some xs) : L.Rings lists' :=
  ⟨fun h xs hx => hrings.ring h xs (hsub h xs hx), fun g h xs ys c hg hh =>
    hrings.disjoint g h xs ys c (hsub g xs hg) (hsub h ys hh)⟩

/-- A list has other nodes than before, of its own or of none. -/
theorem Rings.update (hrings : L.Rings lists) {L' : Links α} (hnew : L'.Ring h ys)
    (hold : ∀ g zs, g ≠ h → lists g = some zs → L'.Ring g zs)
    (hnodes : ∀ c ∈ h :: ys, ∀ g zs, g ≠ h → lists g = some zs → c ∉ g :: zs) :
    L'.Rings (Function.update lists h (some ys)) := by
  constructor
  · intro g zs hg
    by_cases hgh : g = h
    · subst hgh
      rw [Function.update_self] at hg
      exact Option.some.inj hg ▸ hnew
    · rw [Function.update_of_ne hgh] at hg
      exact hold g zs hgh hg
  · intro g g' zs zs' c hg hg' hc hc'
    by_cases hgh : g = h
    · by_cases hgh' : g' = h
      · rw [hgh, hgh']
      · subst hgh
        rw [Function.update_self] at hg
        rw [Function.update_of_ne hgh'] at hg'
        obtain rfl := Option.some.inj hg
        exact absurd hc' (hnodes c hc g' zs' hgh' hg')
    · rw [Function.update_of_ne hgh] at hg
      by_cases hgh' : g' = h
      · subst hgh'
        rw [Function.update_self] at hg'
        obtain rfl := Option.some.inj hg'
        exact absurd hc (hnodes c hc' g zs hgh hg)
      · rw [Function.update_of_ne hgh'] at hg'
        exact hrings.disjoint g g' zs zs' c hg hg' hc hc'

/-- A node that is in no list begins one. -/
theorem Rings.init (hrings : L.Rings lists) (ha : ∀ h xs, lists h = some xs → a ∉ h :: xs) :
    (L.init a).Rings (Function.update lists a (some [])) := by
  refine hrings.update ring_init (fun g zs hg hz => ?_) fun c hc g zs hg hz => ?_
  · have hnot := ha g zs hz
    exact (hrings.ring g zs hz).frame (fun c hc => init_next fun heq => hnot (heq ▸ hc))
      fun c hc => init_prev fun heq => hnot (heq ▸ hc)
  · rw [List.mem_singleton.mp hc]
    exact ha g zs hz

/-- A node is taken out of its list. -/
theorem Rings.del (hrings : L.Rings lists) (hh : lists h = some (xs ++ a :: ys)) :
    (L.del a).Rings (Function.update lists h (some (xs ++ ys))) := by
  have hring := hrings.ring h _ hh
  have hapart : ∀ c ∈ h :: xs ++ a :: ys, ∀ g zs, g ≠ h → lists g = some zs → c ∉ g :: zs :=
    fun c hc g zs hg hz hin => hg (hrings.disjoint g h zs _ c hz hh hin hc)
  refine hrings.update hring.del_mem (fun g zs hg hz => ?_) fun c hc g zs hg hz => ?_
  · obtain ⟨hprev, hnext⟩ := hring.neighbours
    exact (hrings.ring g zs hz).frame
      (fun c hc => del_next fun heq => hapart _ hprev g zs hg hz (heq ▸ hc))
      fun c hc => del_prev fun heq => hapart _ hnext g zs hg hz (heq ▸ hc)
  · refine hapart c ?_ g zs hg hz
    simp only [List.mem_cons, List.cons_append, List.mem_append] at hc ⊢
    tauto

/-- A node that is in no list comes in at the end of one. -/
theorem Rings.add (hrings : L.Rings lists) (hh : lists h = some xs)
    (ha : ∀ h xs, lists h = some xs → a ∉ h :: xs) :
    (L.add a h).Rings (Function.update lists h (some (xs ++ [a]))) := by
  have hring := hrings.ring h xs hh
  refine hrings.update (hring.add_last (ha h xs hh)) (fun g zs hg hz => ?_)
    fun c hc g zs hg hz => ?_
  · have hnot := ha g zs hz
    have hapart : ∀ c ∈ h :: xs, c ∉ g :: zs := fun c hc hin =>
      hg (hrings.disjoint g h zs xs c hz hh hin hc)
    exact (hrings.ring g zs hz).frame
      (fun c hc => add_next (fun heq => hnot (heq ▸ hc))
        fun heq => hapart _ hring.prev_head_mem (heq ▸ hc))
      fun c hc => add_prev (fun heq => hnot (heq ▸ hc))
        fun heq => hapart h List.mem_cons_self (heq ▸ hc)
  · rw [← List.cons_append, List.mem_append, List.mem_singleton] at hc
    rcases hc with hc | rfl
    · exact fun hin => hg (hrings.disjoint g h zs xs c hz hh hin hc)
    · exact ha g zs hz

end Rings

/-! ## Going round -/

/-- `for (c = L->next; c != h; c = c->next) if (p(c)) break;`: the node found,
`some none` if the loop ends at the head, `none` if it has not ended after `n`
nodes or `p` cannot be told of one of them. -/
def find (L : Links α) (p : α → Option Bool) (h : α) : Nat → α → Option (Option α)
  | 0, _ => none
  | n + 1, c =>
      if c = h then some none
      else (p c).bind fun found => if found then some (some c) else find L p h n (L.next c)

section Find

variable {L : Links α} {p : α → Option Bool} {q : α → Bool} {h : α} {xs ys : List α} {n : Nat}

theorem find_path (hpath : L.Path (ys ++ [h])) (hmem : h ∉ ys) (hp : ∀ y ∈ ys, p y = some (q y))
    (hn : ys.length < n) :
    L.find p h n ((ys ++ [h]).head (by simp)) = some (ys.find? q) := by
  induction ys generalizing n with
  | nil =>
      obtain ⟨n, rfl⟩ := Nat.exists_eq_succ_of_ne_zero (Nat.ne_of_gt hn)
      simp [find]
  | cons y ys ih =>
      obtain ⟨n, rfl⟩ := Nat.exists_eq_succ_of_ne_zero (Nat.ne_of_gt (Nat.zero_lt_of_lt hn))
      have hyh : y ≠ h := fun heq => hmem (by simp [heq])
      obtain ⟨w, ws, hws⟩ : ∃ w ws, ys ++ [h] = w :: ws := List.exists_cons_of_ne_nil (by simp)
      have hnext : L.next y = (ys ++ [h]).head (by simp) := by
        rw [List.cons_append] at hpath
        simp only [hws] at hpath ⊢
        exact (List.isChain_cons_cons.mp hpath).1.1
      have hrest : L.Path (ys ++ [h]) := by
        rw [List.cons_append] at hpath
        exact (List.isChain_cons.mp hpath).2
      simp only [List.cons_append, List.head_cons, find, hyh, if_false, hp y (by simp),
        Option.bind_some]
      by_cases hq : q y = true
      · simp [hq]
      · rw [hnext, ih hrest (fun hin => hmem (List.mem_cons_of_mem _ hin))
          (fun z hz => hp z (List.mem_cons_of_mem _ hz)) (by simpa using hn)]
        simp [hq]

/-- The loop ends, and finds what there is to find. -/
theorem Ring.find_eq (hring : L.Ring h xs) (hp : ∀ x ∈ xs, p x = some (q x)) (hn : xs.length < n) :
    L.find p h n (L.next h) = some (xs.find? q) := by
  have hhead : L.next h = (xs ++ [h]).head (by simp) := by
    rw [hring.next_head]
    cases xs <;> rfl
  have hpath : L.Path (xs ++ [h]) := (List.isChain_cons.mp hring.path).2
  rw [hhead]
  exact find_path hpath (List.nodup_cons.mp hring.nodup).1 hp hn

end Find

end Links

end UkfsFuse.Core
