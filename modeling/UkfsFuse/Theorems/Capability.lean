import UkfsFuse.Source.Capability

/-!
# Converting the wanted capabilities

`fuse_convert_to_conn_want_ext` is to replace the lower half of `want_ext` by
`want` and to leave the upper half alone. Where it replaces, it loses the upper
half instead: `fuse_higher_32_bits` has shifted it down, and nothing shifts it
up again. A backend that uses the helper functions only never gets there.
-/

namespace UkfsFuse

open UkfsFuse.Core

namespace ConnSession

variable {se : ConnSession} {flag : UInt64}

/-- `want` was changed from its default, and `want_ext` does not have it. -/
def WantChanged (se : ConnSession) : Prop :=
  se.conn.want ≠ se.connWant ∧ lowHalf se.conn.wantExt ≠ se.conn.want

/-- What is to become of `want_ext`: the upper half of the old one, and a lower
half from `want` if that was changed. -/
structure WantConverted (se : ConnSession) (conn : FuseConnInfo) : Prop where
  high : highHalf conn.wantExt = highHalf se.conn.wantExt
  changed : se.WantChanged → lowHalf conn.wantExt = se.conn.want
  unchanged : ¬ se.WantChanged → lowHalf conn.wantExt = lowHalf se.conn.wantExt
  want : conn.want = lowHalf conn.wantExt

/-- The conversion keeps the high bits, converts once, and fails cleanly. -/
structure ConvertsWant (se : ConnSession) : Prop where
  converts : se.fuseConvertToConnWantExt.1 = 0 →
    se.WantConverted se.fuseConvertToConnWantExt.2.conn ∧
      se.fuseConvertToConnWantExt.2.fuseConvertToConnWantExt = (0, se.fuseConvertToConnWantExt.2)
  fails : se.fuseConvertToConnWantExt.1 = -EINVAL → se.fuseConvertToConnWantExt.2.conn = se.conn

/-- A lower half is about to replace one under an upper half that has bits. -/
def LosesHigh (se : ConnSession) : Prop :=
  se.WantChanged ∧ se.conn.wantExt = se.connWantExt ∧ highHalf se.conn.wantExt ≠ 0

/-! ## The three outcomes -/

theorem zero_ne_einval : (0 : Int32) ≠ -EINVAL := by decide

theorem convert_refused (hchanged : se.WantChanged) (hext : se.conn.wantExt ≠ se.connWantExt) :
    se.fuseConvertToConnWantExt = (-EINVAL, se) :=
  (if_pos hchanged).trans (if_pos hext)

theorem convert_replaced (hchanged : se.WantChanged) (hext : se.conn.wantExt = se.connWantExt) :
    se.fuseConvertToConnWantExt = (0, settleWant { se with conn := { se.conn with
      wantExt := (highHalf se.conn.wantExt ||| se.conn.want).toUInt64 } }) :=
  (if_pos hchanged).trans (if_neg (not_not.mpr hext))

theorem convert_settled (hchanged : ¬ se.WantChanged) :
    se.fuseConvertToConnWantExt = (0, se.settleWant) :=
  if_neg hchanged

/-- There is no second conversion. -/
theorem convert_settleWant : se.settleWant.fuseConvertToConnWantExt = (0, se.settleWant) := by
  have hsettled : ¬ se.settleWant.WantChanged := fun h => h.2 rfl
  rw [convert_settled hsettled]
  rfl

/-- Without a change the conversion is right. -/
theorem ConvertsWant.of_unchanged (hchanged : ¬ se.WantChanged) : se.ConvertsWant where
  converts _ := by
    rw [convert_settled hchanged]
    exact ⟨⟨rfl, fun h => absurd h hchanged, fun _ => rfl, rfl⟩, convert_settleWant⟩
  fails h := by
    rw [convert_settled hchanged] at h
    exact absurd h zero_ne_einval

/-- A refused conversion is right as well. -/
theorem ConvertsWant.of_refused (hchanged : se.WantChanged)
    (hext : se.conn.wantExt ≠ se.connWantExt) : se.ConvertsWant where
  converts h := by
    rw [convert_refused hchanged hext] at h
    exact absurd h.symm zero_ne_einval
  fails _ := by rw [convert_refused hchanged hext]

/-- With no upper half to lose, `|` is what replaces the lower one. -/
theorem ConvertsWant.of_high_zero (hchanged : se.WantChanged)
    (hext : se.conn.wantExt = se.connWantExt) (hhigh : highHalf se.conn.wantExt = 0) :
    se.ConvertsWant where
  converts _ := by
    rw [convert_replaced hchanged hext, hhigh, UInt32.zero_or]
    refine ⟨⟨?_, fun _ => lowHalf_toUInt64 _, fun h => absurd hchanged h, rfl⟩, convert_settleWant⟩
    exact (highHalf_toUInt64 _).trans hhigh.symm
  fails h := by
    rw [convert_replaced hchanged hext] at h
    exact absurd h zero_ne_einval

/-- A replaced lower half leaves an upper half of zero. -/
theorem ConvertsWant.high_eq_zero (h : se.ConvertsWant) (hchanged : se.WantChanged)
    (hext : se.conn.wantExt = se.connWantExt) : highHalf se.conn.wantExt = 0 := by
  have hreplaced := convert_replaced hchanged hext
  have hhigh := (h.converts (by rw [hreplaced])).1.high
  rw [hreplaced] at hhigh
  exact hhigh.symm.trans (highHalf_toUInt64 _)

end ConnSession

/-- The conversion does what it should unless it replaces a lower half under an
upper half that is not zero. -/
theorem conversion_keeps_high_bits_iff (se : ConnSession) :
    se.ConvertsWant ↔ ¬ se.LosesHigh := by
  constructor
  · rintro hright ⟨hchanged, hext, hhigh⟩
    exact hhigh (hright.high_eq_zero hchanged hext)
  · intro hkept
    by_cases hchanged : se.WantChanged
    · by_cases hext : se.conn.wantExt = se.connWantExt
      · refine .of_high_zero hchanged hext ?_
        by_contra hhigh
        exact hkept ⟨hchanged, hext, hhigh⟩
      · exact .of_refused hchanged hext
    · exact .of_unchanged hchanged

/-- A flag at bit 32 is lost when the backend asks for bit 0 in `want`. -/
theorem conversion_drops_bit_32 :
    ¬ ∀ se : ConnSession, se.ConvertsWant := by
  intro hright
  have hse := hright ⟨⟨0x100000001, 1, 0x100000000⟩, 0, 0x100000000⟩
  exact absurd (hse.converts (by decide)).1.high (by decide)

/-! ## Backends that use the helper functions -/

namespace ConnSession

variable {se : ConnSession}

/-- `want` is the lower half of `want_ext`. -/
def InStep (se : ConnSession) : Prop := se.conn.want = lowHalf se.conn.wantExt

/-- The helper functions as actions. -/
inductive FlagAct
  | set (flag : UInt64)
  | unset (flag : UInt64)

def flagStep (se : ConnSession) : FlagAct → ConnSession
  | .set flag => (se.fuseSetFeatureFlag flag).2
  | .unset flag => se.fuseUnsetFeatureFlag flag

theorem InStep.flagStep (h : se.InStep) (a : FlagAct) : (se.flagStep a).InStep := by
  cases a with
  | set flag =>
      rw [ConnSession.flagStep, fuseSetFeatureFlag]
      split
      · show se.conn.want ||| flag.toUInt32 = lowHalf (se.conn.wantExt ||| flag)
        rw [lowHalf_or, h]
        rfl
      · exact h
  | unset flag =>
      show se.conn.want &&& (~~~flag).toUInt32 = lowHalf (se.conn.wantExt &&& ~~~flag)
      rw [lowHalf_and, h]
      rfl

/-- After any calls of the helper functions there is nothing to convert. -/
theorem convert_of_flagSteps (h : se.InStep) (acts : List FlagAct) :
    (acts.foldl ConnSession.flagStep se).fuseConvertToConnWantExt =
      (0, acts.foldl ConnSession.flagStep se) := by
  have hstep : (acts.foldl ConnSession.flagStep se).InStep := by
    induction acts generalizing se with
    | nil => exact h
    | cons a acts ih => exact ih (h.flagStep a)
  have hchanged : ¬ (acts.foldl ConnSession.flagStep se).WantChanged := fun hc => hc.2 hstep.symm
  rw [convert_settled hchanged]
  generalize acts.foldl ConnSession.flagStep se = se' at hstep
  obtain ⟨⟨capable, want, ext⟩, dw, de⟩ := se'
  obtain rfl : want = lowHalf ext := hstep
  rfl

end ConnSession

end UkfsFuse
