import UkfsFuse.Source.Interrupt

/-!
# Interrupted for good

`req->interrupted` is set and never reset: no step clears the flag of a request
that is allocated. Every function is put together from pieces that keep it.
-/

namespace UkfsFuse

open UkfsFuse.Core

section Lasting

variable {T R Fn : Type} {α β : Type} {s s₁ s' : ReqState T R Fn} {st : α → ReqState T R Fn}
  {r c : R} {t : T}

namespace ReqState

/-- Every request that was interrupted in `s` is interrupted in `s'`. -/
def Lasts (s s' : ReqState T R Fn) : Prop :=
  ∀ r, (s.req r).interrupted = true → (s'.req r).interrupted = true

/-- A piece of a function, from `s` on: if it is defined, `Lasts` holds of the
state it leaves. -/
def LastsIn (s : ReqState T R Fn) (st : α → ReqState T R Fn) (o : Option α) : Prop :=
  ∀ a, o = some a → s.Lasts (st a)

theorem Lasts.of_eq (h : s'.req = s.req) : s.Lasts s' := fun _ hr => h ▸ hr

theorem LastsIn.pure {a : α} (h : s.Lasts (st a)) : s.LastsIn st (some a) := by
  intro b hb
  obtain rfl := Option.some.inj hb
  exact h

/-- Something is read. -/
theorem LastsIn.read {o : Option β} {f : β → Option α} (h : ∀ b, s.LastsIn st (f b)) :
    s.LastsIn st (o.bind f) := by
  intro a ha
  obtain ⟨b, -, hb⟩ := Option.bind_eq_some_iff.mp ha
  exact h b a hb

/-- One piece after the other. -/
theorem LastsIn.bind {o : Option β} {stb : β → ReqState T R Fn} {f : β → Option α}
    (h : s.LastsIn stb o) (hf : ∀ b, (stb b).LastsIn st (f b)) : s.LastsIn st (o.bind f) := by
  intro a ha
  obtain ⟨b, hb, hab⟩ := Option.bind_eq_some_iff.mp ha
  exact fun r hr => hf b a hab r (h b hb r hr)

variable [DecidableEq R]

theorem modify_lasts {f : LlReq T Fn → LlReq T Fn}
    (hf : ∀ x, x.interrupted = true → (f x).interrupted = true) :
    s.LastsIn id (s.modify r f) := by
  intro s' h x hx
  unfold modify at h
  split_ifs at h
  obtain rfl := Option.some.inj h
  by_cases hxr : x = r
  · subst hxr
    simpa using hf _ hx
  · simpa [hxr] using hx

theorem putChan_lasts : s.LastsIn id (s.putChan r) := modify_lasts fun _ => id

theorem listInitReq_lasts : s.LastsIn id (s.listInitReq r) := by
  unfold listInitReq
  split_ifs
  · exact .pure (.of_eq rfl)
  · exact fun _ h => absurd h (by simp)

theorem listDelReq_lasts : s.LastsIn id (s.listDelReq r) := by
  unfold listDelReq
  split_ifs
  · exact .pure (.of_eq rfl)
  · exact fun _ h => absurd h (by simp)

theorem listAddReq_lasts {head : ReqNode R} : s.LastsIn id (s.listAddReq r head) := by
  unfold listAddReq
  split_ifs
  · exact .pure (.of_eq rfl)
  · exact fun _ h => absurd h (by simp)

theorem destroyReq_lasts [DecidableEq T] : s.LastsIn id (s.destroyReq r) := by
  refine .read fun x => ?_
  split_ifs
  · exact .pure (.of_eq rfl)
  · exact fun _ h => absurd h (by simp)

variable [DecidableEq T]

omit [DecidableEq R] in
theorem done_req (next : Option R) : (s.done t next).req = s.req := by cases next <;> rfl

theorem checkInterrupt_lasts : s.LastsIn Prod.fst (s.checkInterrupt r) := by
  refine .read fun x => .read fun found => ?_
  split
  · exact .bind (modify_lasts fun _ _ => rfl) fun _ => .bind listDelReq_lasts fun _ =>
      .bind putChan_lasts fun _ => .bind destroyReq_lasts fun _ => .pure (.of_eq rfl)
  · split
    · exact .bind listDelReq_lasts fun _ => .bind listInitReq_lasts fun _ => .pure (.of_eq rfl)
    · exact .pure (.of_eq rfl)

theorem check_lasts : s.LastsIn id (s.check t r) := by
  refine .bind checkInterrupt_lasts fun b => ?_
  obtain ⟨s₁, intr⟩ := b
  have hadd : s₁.LastsIn id (s₁.listAddReq r .list) := listAddReq_lasts
  cases intr <;> exact hadd.bind fun _ => .pure (.of_eq rfl)

theorem fuseFreeReq_lasts {noInterrupt : Bool} {next : Option R} :
    s.LastsIn id (s.fuseFreeReq noInterrupt t r next) := by
  have hend : ∀ s : ReqState T R Fn, s.LastsIn id ((s.get r).bind fun x =>
      (s.putChan r).bind fun s => if x.refCnt = 0 then some (s.setPc t (.destroy r next))
        else some (s.done t next)) := fun s => by
    refine .read fun x => .bind putChan_lasts fun s₂ => ?_
    split_ifs
    · exact .pure (.of_eq rfl)
    · exact .pure (.of_eq (done_req next))
  have hcount : ∀ s : ReqState T R Fn,
      s.LastsIn id (s.modify r fun x => { x with refCnt := x.refCnt - 1 }) :=
    fun s => modify_lasts fun _ => id
  cases noInterrupt with
  | true => exact (hcount s).bind hend
  | false =>
      exact .bind (modify_lasts fun _ => id) fun _ => .bind listDelReq_lasts fun s₁ =>
        (hcount s₁).bind hend

theorem doInterrupt_lasts : s.LastsIn id (s.doInterrupt t r) := by
  refine .read fun x => .read fun unique => .read fun found => ?_
  split
  · exact .bind (modify_lasts fun _ => id) fun _ => .pure (.of_eq rfl)
  · refine .read fun found => ?_
    split
    · exact .bind putChan_lasts fun _ => .bind destroyReq_lasts fun _ => .pure (.of_eq rfl)
    · exact .bind listAddReq_lasts fun _ => .pure (.of_eq rfl)

theorem dropCurr_lasts : s.LastsIn id (s.dropCurr t r c) := by
  have hend : ∀ s : ReqState T R Fn, s.LastsIn id ((s.putChan r).bind fun s =>
      (s.destroyReq r).bind fun s => some (s.setPc t .idle)) := fun s =>
    .bind putChan_lasts fun _ => .bind destroyReq_lasts fun _ => .pure (.of_eq rfl)
  refine .bind (modify_lasts fun _ => id) fun s₁ => .read fun y => ?_
  split_ifs
  · exact .bind destroyReq_lasts fun s₂ => hend s₂
  · exact hend s₁

theorem markCurr_lasts : s.LastsIn id (s.markCurr t r c) := by
  refine .bind (modify_lasts fun _ _ => rfl) fun s₁ => .read fun y => .read fun func => ?_
  split <;> exact .pure (.of_eq rfl)

theorem testReq_lasts {func : Option Fn} : s.LastsIn id (s.testReq t r func) := by
  refine .read fun x => ?_
  split <;> exact .pure (.of_eq rfl)

theorem run_lasts {noInterrupt : Bool} : s.LastsIn id (s.run noInterrupt t) := by
  unfold run
  cases s.pc t with
  | idle => exact fun _ h => absurd h (by simp)
  | check r => exact check_lasts
  | dispatch r => exact .pure (.of_eq rfl)
  | free r next => exact fuseFreeReq_lasts
  | destroy r next =>
      intro s' h
      obtain ⟨s₁, h₁, rfl⟩ := Option.map_eq_some_iff.mp h
      have hreq : (id (s₁.done t next)).req = s₁.req := done_req next
      exact fun x hx => hreq ▸ destroyReq_lasts _ h₁ x hx
  | interrupt r => exact doInterrupt_lasts
  | lockCurr r curr => exact .bind (modify_lasts fun _ => id) fun _ => .pure (.of_eq rfl)
  | mark r curr => exact markCurr_lasts
  | callCurr r curr f => exact .pure (.of_eq rfl)
  | unlockCurr r curr => exact .bind (modify_lasts fun _ => id) fun _ => .pure (.of_eq rfl)
  | drop r curr => exact dropCurr_lasts
  | lockReq r func => exact .bind (modify_lasts fun _ => id) fun _ => .pure (.of_eq rfl)
  | setFunc r func => exact .bind (modify_lasts fun _ => id) fun _ => .pure (.of_eq rfl)
  | test r func => exact testReq_lasts
  | callReq r f => exact .pure (.of_eq rfl)
  | unlockReq r => exact .bind (modify_lasts fun _ => id) fun _ => .pure (.of_eq rfl)
  | query r =>
      intro s' h
      obtain ⟨x, -, rfl⟩ := Option.map_eq_some_iff.mp h
      exact .of_eq rfl

omit [DecidableEq T] in
/-- A new request is another one. -/
theorem fuseLlAllocReq_lasts {unique : UInt64} {ch : Bool}
    (h : s.fuseLlAllocReq c unique ch = some s') (hr : r ∈ s.live) :
    s'.req r = s.req r := by
  unfold fuseLlAllocReq at h
  split_ifs at h with hc
  obtain rfl := Option.some.inj h
  exact Function.update_of_ne (ne_of_mem_of_not_mem hr hc) ..

theorem process_lasts {noInterrupt : Bool} {unique : UInt64} {ch : Bool} {message : Message}
    (h : s.process noInterrupt t c unique ch message = some s') (hr : r ∈ s.live)
    (hint : (s.req r).interrupted = true) : (s'.req r).interrupted = true := by
  cases message with
  | refused =>
      obtain ⟨s₁, h₁, rfl⟩ := Option.map_eq_some_iff.mp h
      rw [← fuseLlAllocReq_lasts h₁ hr] at hint
      exact hint
  | interrupt target =>
      obtain ⟨s₁, h₁, h⟩ := Option.bind_eq_some_iff.mp h
      rw [← fuseLlAllocReq_lasts h₁ hr] at hint
      refine (?_ : s₁.LastsIn id _) s' h r hint
      split_ifs
      · exact .pure (.of_eq rfl)
      · exact .bind (modify_lasts fun _ => id) fun _ => .pure (.of_eq rfl)
  | request =>
      obtain ⟨s₁, h₁, h⟩ := Option.bind_eq_some_iff.mp h
      rw [← fuseLlAllocReq_lasts h₁ hr] at hint
      refine (?_ : s₁.LastsIn id _) s' h r hint
      split_ifs <;> exact .pure (.of_eq rfl)

/-- A request that was interrupted stays so until it is freed. -/
theorem step_lasts {noInterrupt : Bool} {a : ReqAct T R Fn} (h : s.step noInterrupt a = some s')
    (hr : r ∈ s.live) (hint : (s.req r).interrupted = true) : (s'.req r).interrupted = true := by
  have henter : ∀ t (o : Option (ReqState T R Fn)), s.enter t o = some s' → o = some s' := by
    intro t o ho
    unfold enter at ho
    split at ho
    · exact ho
    · exact absurd ho (by simp)
  cases a with
  | process t c unique ch message => exact process_lasts (henter t _ h) hr hint
  | dummy t c unique =>
      obtain ⟨s₁, h₁, rfl⟩ := Option.map_eq_some_iff.mp (henter t _ h)
      rw [← fuseLlAllocReq_lasts h₁ hr] at hint
      exact hint
  | run t =>
      simp only [step] at h
      split_ifs at h
      exact run_lasts s' h r hint
  | _ =>
      obtain rfl := Option.some.inj (henter _ _ h)
      exact hint

end ReqState

end Lasting

end UkfsFuse
