import UkfsFuse.Source.Driver

/-!
# How an operation can go on and end

The driver's functions by their outcomes, with the tests the source makes.
What is proved of a result is proved over these, never by unfolding the
functions.
-/

namespace UkfsFuse

open UkfsFuse.Core

variable {F : Type} {ff : FusefsFile F} {input : RequestIn} {answer : Answer}

/-! ## Up to the request -/

section Enter

variable {path : List UInt8} {len : Nat} {strndupOk : Bool}

theorem lookupEnter_submit [Platform]
    (h : fusefsLookupEnter ff path len strndupOk = .submit input) :
    input = .lookup ff.nodeid (CStr.strndup path len) := by
  unfold fusefsLookupEnter at h
  split_ifs at h
  · split at h <;> exact absurd h (by simp)
  · exact (Enter.submit.inj h).symm

/-- A lookup without a request: an empty name or a dot, two dots, or a failed
`strndup`. -/
theorem lookupEnter_ret [Platform] {r : LookupResult F}
    (h : fusefsLookupEnter ff path len strndupOk = .ret r) :
    r = ⟨Platform.UKFS_STOP_FILE, some .self, some len⟩ ∨
    (∃ target, r = ⟨Platform.UKFS_STOP_MNT, some target, some len⟩) ∨
    (strndupOk = false ∧ r = .fail (-ENOMEM)) := by
  unfold fusefsLookupEnter at h
  split at h
  · exact .inl (Enter.ret.inj h).symm
  · split at h
    · split at h <;> exact .inr (.inl ⟨_, (Enter.ret.inj h).symm⟩)
    · split at h
      · rename_i hdup
        exact .inr (.inr ⟨by simpa using hdup, (Enter.ret.inj h).symm⟩)
      · exact absurd h (by simp)

/-- A lookup without a request hands out its own file or the one that is
grafted on. -/
theorem lookupEnter_target [Platform] {r : LookupResult F}
    (h : fusefsLookupEnter ff path len strndupOk = .ret r) :
    r.target = none ∨ r.target = some .self ∨
      ∃ f, ff.upref = some f ∧ r.target = some (.upref f) := by
  unfold fusefsLookupEnter at h
  split at h
  · obtain rfl := Enter.ret.inj h
    exact .inr (.inl rfl)
  · split at h
    · split at h <;> obtain rfl := Enter.ret.inj h
      · exact .inr (.inr ⟨_, ‹_›, rfl⟩)
      · exact .inr (.inl rfl)
    · split at h
      · obtain rfl := Enter.ret.inj h
        exact .inl rfl
      · exact absurd h (by simp)

variable {iov : List UInt64} {off : UInt64}

theorem readEnter_zero (h : iovTotal iov = 0) : fusefsReadEnter ff iov off = .ret 0 := by
  simp [fusefsReadEnter, h]

variable (ff off) in
theorem readEnter_pos (h : iovTotal iov ≠ 0) :
    fusefsReadEnter ff iov off = .submit (.read ff.nodeid ff.fh off (iovTotal iov).toUInt32) := by
  simp [fusefsReadEnter, h]

theorem readEnter_submit (h : fusefsReadEnter ff iov off = .submit input) :
    iovTotal iov ≠ 0 ∧ input = .read ff.nodeid ff.fh off (iovTotal iov).toUInt32 := by
  by_cases htotal : iovTotal iov = 0
  · rw [readEnter_zero htotal] at h
    exact absurd h (by simp)
  · rw [readEnter_pos ff off htotal] at h
    exact ⟨htotal, (Enter.submit.inj h).symm⟩

theorem readEnter_ret {ret : Int64} (h : fusefsReadEnter ff iov off = .ret ret) :
    iovTotal iov = 0 ∧ ret = 0 := by
  by_cases htotal : iovTotal iov = 0
  · rw [readEnter_zero htotal] at h
    exact ⟨htotal, (Enter.ret.inj h).symm⟩
  · rw [readEnter_pos ff off htotal] at h
    exact absurd h (by simp)

end Enter

/-! ## From the answer on -/

section Finish

theorem doOpenFinish_cases {ret : Int32} {fh : Option UInt64}
    (h : fusefsDoOpenFinish answer = some (ret, fh)) :
    (answer.error ≠ 0 ∧ ret = answer.error ∧ fh = none) ∨
    (answer.error = 0 ∧ answer.replyData = none ∧ ret = - EIO ∧ fh = none) ∨
    ∃ out, answer.error = 0 ∧ answer.replyData = some (.openOut out) ∧ ret = 0 ∧
      fh = some out.fh := by
  unfold fusefsDoOpenFinish at h
  split at h
  · obtain ⟨rfl, rfl⟩ := Prod.mk.inj (Option.some.inj h)
    exact .inl ⟨‹_›, rfl, rfl⟩
  · rename_i hzero
    have herror := not_not.mp hzero
    split at h
    · obtain ⟨rfl, rfl⟩ := Prod.mk.inj (Option.some.inj h)
      exact .inr (.inl ⟨herror, ‹_›, rfl, rfl⟩)
    · obtain ⟨rfl, rfl⟩ := Prod.mk.inj (Option.some.inj h)
      exact .inr (.inr ⟨_, herror, ‹_›, rfl, rfl⟩)
    · exact absurd h (by simp)

theorem getstatFinish_cases {ret : Int32} {statx : Option UkStatx}
    (h : fusefsGetstatFinish answer = some (ret, statx)) :
    (answer.error ≠ 0 ∧ ret = answer.error ∧ statx = none) ∨
    (answer.error = 0 ∧ answer.replyData = none ∧ ret = - EIO ∧ statx = none) ∨
    ∃ st, answer.error = 0 ∧ answer.replyData = some (.attr st) ∧ ret = 0 ∧
      statx = some
        ⟨getstatMask, st.stMode, st.stSize, st.stIno, st.stNlink, st.stUid, st.stGid⟩ := by
  unfold fusefsGetstatFinish at h
  split at h
  · obtain ⟨rfl, rfl⟩ := Prod.mk.inj (Option.some.inj h)
    exact .inl ⟨‹_›, rfl, rfl⟩
  · rename_i hzero
    have herror := not_not.mp hzero
    split at h
    · obtain ⟨rfl, rfl⟩ := Prod.mk.inj (Option.some.inj h)
      exact .inr (.inl ⟨herror, ‹_›, rfl, rfl⟩)
    · obtain ⟨rfl, rfl⟩ := Prod.mk.inj (Option.some.inj h)
      exact .inr (.inr ⟨_, herror, ‹_›, rfl, rfl⟩)
    · exact absurd h (by simp)

theorem readFinish_cases {iov : List UInt64} {r : ReadResult}
    (h : fusefsReadFinish iov answer = some r) :
    (answer.error ≠ 0 ∧ r = ⟨answer.error.toInt64, []⟩) ∨
    (answer.error = 0 ∧ answer.replyData = none ∧ r = ⟨0, []⟩) ∨
    ∃ bs, answer.error = 0 ∧ answer.replyData = some (.bytes bs) ∧ answer.replyLen ≤ bs.length ∧
      r.written = scatter iov (bs.take answer.replyLen) ∧
      r.ret = .ofNat (r.written.map List.length).sum := by
  unfold fusefsReadFinish at h
  split at h
  · exact .inl ⟨‹_›, (Option.some.inj h).symm⟩
  · rename_i hzero
    have herror := not_not.mp hzero
    split at h
    · exact .inr (.inl ⟨herror, ‹_›, (Option.some.inj h).symm⟩)
    · split at h
      · obtain rfl := Option.some.inj h
        exact .inr (.inr ⟨_, herror, ‹_›, ‹_›, rfl, rfl⟩)
      · exact absurd h (by simp)
    · exact absurd h (by simp)

variable [Platform] {len : Nat}

theorem lookupFinish_cases {allocOk : Bool} {r : LookupResult F}
    (h : fusefsLookupFinish len answer allocOk = some r) :
    (answer.error ≠ 0 ∧ r = .fail answer.error) ∨
    (answer.error = 0 ∧ answer.replyData = none ∧ r = .fail (- EIO)) ∨
    ∃ e, answer.error = 0 ∧ answer.replyData = some (.entry e) ∧
      ((allocOk = false ∧ r = .fail (-ENOMEM)) ∨
        (allocOk = true ∧ r =
          ⟨Platform.UKFS_STOP_FILE, some (.child (fusefsFileAlloc F e.ino)), some len⟩)) := by
  unfold fusefsLookupFinish at h
  split at h
  · exact .inl ⟨‹_›, (Option.some.inj h).symm⟩
  · rename_i hzero
    have herror := not_not.mp hzero
    split at h
    · exact .inr (.inl ⟨herror, ‹_›, (Option.some.inj h).symm⟩)
    · refine .inr (.inr ⟨_, herror, ‹_›, ?_⟩)
      cases allocOk with
      | true => exact .inr ⟨rfl, (Option.some.inj h).symm⟩
      | false => exact .inl ⟨rfl, (Option.some.inj h).symm⟩
    · exact absurd h (by simp)

/-- A lookup with a request hands out a new file. -/
theorem lookupFinish_target {allocOk : Bool} {r : LookupResult F}
    (h : fusefsLookupFinish len answer allocOk = some r) :
    r.target = none ∨ ∃ ino, r.target = some (.child (fusefsFileAlloc F ino)) := by
  rcases lookupFinish_cases h with ⟨-, rfl⟩ | ⟨-, -, rfl⟩ | ⟨e, -, -, ⟨-, rfl⟩ | ⟨-, rfl⟩⟩
  · exact .inl rfl
  · exact .inl rfl
  · exact .inl rfl
  · exact .inr ⟨e.ino, rfl⟩

/-- A listing ends without an entry, or decodes one that may be too long for
the caller. -/
theorem listdirFinish_cases {curp : UInt64} {r : ListdirResult}
    (h : fusefsListdirFinish curp len answer = some r) :
    (answer.error ≠ 0 ∧ r = ⟨answer.error.toInt, curp, none⟩) ∨
    (answer.error = 0 ∧ (answer.replyData = none ∨ answer.replyLen = 0) ∧ r = ⟨0, curp, none⟩) ∨
    ∃ reply namelen, answer.error = 0 ∧ answer.replyData = some (.bytes reply) ∧
      answer.replyLen ≠ 0 ∧ FuseDirent.firstNamelen reply = some namelen ∧
      ((len < Platform.UKFS_DIRENT_RECLEN namelen.toNat ∧ r = ⟨(-EINVAL).toInt, curp, none⟩) ∨
        ∃ fd, Platform.UKFS_DIRENT_RECLEN namelen.toNat ≤ len ∧ FuseDirent.first reply = some fd ∧
          r = ⟨Platform.UKFS_DIRENT_RECLEN namelen.toNat, fd.off,
            some ⟨fd.ino, fd.off.toInt64, .ofNat (Platform.UKFS_DIRENT_RECLEN namelen.toNat),
              fd.type.toUInt8, fd.name ++ [0]⟩⟩) := by
  unfold fusefsListdirFinish at h
  split at h
  · exact .inl ⟨‹_›, (Option.some.inj h).symm⟩
  · rename_i hzero
    have herror := not_not.mp hzero
    split at h
    · exact .inr (.inl ⟨herror, ‹_›, (Option.some.inj h).symm⟩)
    · rename_i hreply
      split at h
      · split at h
        · exact absurd h (by simp)
        · refine .inr (.inr ⟨_, _, herror, ‹_›, fun hempty => hreply (.inr hempty), ‹_›, ?_⟩)
          dsimp only at h
          split at h
          · exact .inl ⟨‹_›, (Option.some.inj h).symm⟩
          · obtain ⟨fd, hfd, rfl⟩ := Option.map_eq_some_iff.mp h
            exact .inr ⟨fd, Nat.not_lt.mp ‹_›, hfd, rfl⟩
      · exact absurd h (by simp)

end Finish

end UkfsFuse
