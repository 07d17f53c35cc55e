import UkfsFuse.Logic.Operation
import UkfsFuse.Source.Iovec

/-!
# The scatter loop

Whatever the lengths of the buffers, what the loop copies into them is, taken
in order, a prefix of the reply: the whole reply, or as much as they hold. Over
memory, the loop fills the buffers with the reply.
-/

namespace UkfsFuse

open UkfsFuse.Core

/-- The bytes an `iovec` list holds, unwrapped. -/
def iovBytes (iov : List UInt64) : Nat := (iov.map UInt64.toNat).sum

theorem iovBytes_cons (len : UInt64) (iov : List UInt64) :
    iovBytes (len :: iov) = len.toNat + iovBytes iov := by
  simp [iovBytes]

theorem toInt64_eq_ofNat (n : UInt64) : n.toInt64 = .ofNat n.toNat := by
  rw [← UInt64.toInt64_ofNat', UInt64.ofNat_toNat]

/-- The driver's `size_t` sum. -/
theorem iovTotal_toNat (iov : List UInt64) : (iovTotal iov).toNat = iovBytes iov % 2 ^ 64 := by
  have hfold : ∀ (acc : UInt64),
      (iov.foldl (· + ·) acc).toNat = (acc.toNat + iovBytes iov) % 2 ^ 64 := by
    induction iov with
    | nil =>
        intro acc
        have hlt := acc.toNat_lt
        simp only [List.foldl_nil, iovBytes, List.map_nil, List.sum_nil]
        omega
    | cons len iov ih =>
        intro acc
        rw [List.foldl_cons, ih, UInt64.toNat_add, iovBytes_cons]
        omega
  have hzero := hfold 0
  simpa [iovTotal] using hzero

theorem scatter_flatten (iov : List UInt64) :
    ∀ src : List UInt8, (scatter iov src).flatten = src.take (iovBytes iov) := by
  induction iov with
  | nil => simp [scatter, iovBytes]
  | cons len iov ih =>
      intro src
      rw [scatter, iovBytes_cons]
      by_cases hempty : src.length = 0
      · obtain rfl := List.length_eq_zero_iff.mp hempty
        simp
      · rw [if_neg hempty]
        by_cases hlt : len.toNat < src.length
        · simp only [if_pos hlt, List.flatten_cons, ih]
          rw [← List.take_add]
        · have hall : src.take (len.toNat + iovBytes iov) = src := List.take_of_length_le (by omega)
          simp [hlt, ih, hall]

theorem scatter_length (iov : List UInt64) (src : List UInt8) :
    ((scatter iov src).map List.length).sum = min (iovBytes iov) src.length := by
  rw [← List.length_flatten, scatter_flatten, List.length_take]

/-- `fusefs_read` returns the error, or, of a reply below 2^63 bytes, the
number of bytes it has stored. -/
theorem readFinish_counts {iov : List UInt64} {answer : Answer} {r : ReadResult}
    (hsize : ∀ bs, answer.replyData = some (.bytes bs) → bs.length < 2 ^ 63)
    (h : fusefsReadFinish iov answer = some r) :
    (answer.error ≠ 0 ∧ r = ⟨answer.error.toInt64, []⟩) ∨
      (answer.error = 0 ∧ r.ret.toInt = (r.written.map List.length).sum) := by
  rcases readFinish_cases h with ⟨hne, rfl⟩ | ⟨hzero, -, rfl⟩ | ⟨bs, hzero, hbs, -, hwritten, hret⟩
  · exact .inl ⟨hne, rfl⟩
  · exact .inr ⟨hzero, rfl⟩
  · have hlt := hsize bs hbs
    have hcount : (r.written.map List.length).sum < 2 ^ 63 := by
      rw [hwritten, scatter_length, List.length_take]
      omega
    exact .inr ⟨hzero, hret ▸ Int64.toInt_ofNat_of_lt hcount⟩

namespace Op

variable {F : Type} {s : OpState F} {off : UInt64}

/-- A READ answered by a `fuse_reply_buf` that has its memory: as much of the
reply is stored as the buffers hold. -/
theorem fusefsReadOpened_buf [Platform] {sv : Service} {iov : List UInt64} {reply : List UInt8}
    (htotal : iovTotal iov ≠ 0)
    (hgives : sv.Gives (.read s.file.nodeid s.file.fh off (iovTotal iov).toUInt32) (.buf reply))
    (hmalloc : sv.mallocOk (.read s.file.nodeid s.file.fh off (iovTotal iov).toUInt32) = false →
      reply = []) :
    ∃ s' pieces, (fusefsReadOpened sv.submit iov off).run s =
        .ok (.ofNat (min reply.length (iovBytes iov)), s') ∧
      s'.out.stored = s.out.stored ++ pieces ∧
      pieces.flatten = reply.take (min reply.length (iovBytes iov)) := by
  have henter := readEnter_pos s.file off htotal
  have hknown : (RequestIn.read s.file.nodeid s.file.fh off (iovTotal iov).toUInt32).Known :=
    trivial
  have hsub := Service.submit_gives hknown hgives trivial
  rw [fusefsReadOpened_run henter hsub Reply.answerIn_sound]
  cases hm : sv.mallocOk (.read s.file.nodeid s.file.fh off (iovTotal iov).toUInt32) with
  | false =>
      obtain rfl := hmalloc hm
      rw [List.length_nil, Nat.zero_min]
      exact ⟨_, [], rfl, by simp, rfl⟩
  | true =>
      have hpieces : (scatter iov (reply.take reply.length)).flatten =
          reply.take (min reply.length (iovBytes iov)) := by
        rw [scatter_flatten, List.take_length, Nat.min_comm, ← List.take_eq_take_min]
      have hcount : ((scatter iov (reply.take reply.length)).map List.length).sum =
          min reply.length (iovBytes iov) := by
        rw [scatter_length, List.take_length, Nat.min_comm]
      have hfinish : ∀ req, fusefsReadFinish iov
          (Reply.answerIn (fuseSessionNewVersioned sv.op) true (.buf reply) req) =
          some ⟨.ofNat (min reply.length (iovBytes iov)),
            scatter iov (reply.take reply.length)⟩ := by
        intro req
        show fusefsReadFinish _ ⟨0, some (.bytes reply), reply.length⟩ = _
        simp only [fusefsReadFinish, ne_eq, not_true, if_false, Nat.le_refl, if_true, hcount]
      rw [hfinish]
      exact ⟨_, _, rfl, rfl, hpieces⟩

end Op

/-! ## Over memory -/

@[simp] theorem Iovec.span_len (v : Iovec) : v.span.len = v.iovLen.toNat := rfl

theorem iovBytes_eq_total (iov : List Iovec) :
    iovBytes (iov.map Iovec.iovLen) = Span.total (iov.map Iovec.span) := by
  simp only [iovBytes, Span.total, List.map_map]
  rfl

theorem scatterInto_zero (iov : List Iovec) (src : UInt64) (copied : Int64) (c : Copied) :
    scatterInto iov src 0 copied c = (copied, c) := by
  cases iov <;> rfl

/-- A buffer that is filled counts in full. -/
theorem min_total_cons {reply : List UInt8} {v : Iovec} {iov : List Iovec}
    (hle : v.iovLen.toNat ≤ reply.length) :
    v.iovLen.toNat + min (reply.drop v.iovLen.toNat).length (Span.total (iov.map Iovec.span)) =
      min reply.length (Span.total ((v :: iov).map Iovec.span)) := by
  rw [List.map_cons, Span.total_cons, List.length_drop, Iovec.span_len]
  omega

/-- What one `memcpy` of the loop does to a buffer `v` the reply is larger than. -/
theorem memcpy_front {reply : List UInt8} {src remaining : UInt64} {v : Iovec} {c : Copied}
    (hlen : reply.length = remaining.toNat) (hread : c.mem.read src.toNat reply.length = reply)
    (hlt : v.iovLen.toNat < remaining.toNat)
    (hapart : Span.Apart ⟨src.toNat, remaining.toNat⟩ v.span) :
    (memcpy c v.iovBase src v.iovLen).mem =
        c.mem.write v.span.base (reply.take v.span.len) ∧
      (memcpy c v.iovBase src v.iovLen).mem.read (src.toNat + v.iovLen.toNat)
        (reply.drop v.iovLen.toNat).length = reply.drop v.iovLen.toNat := by
  have hfront : c.mem.read src.toNat v.iovLen.toNat = reply.take v.iovLen.toNat := by
    conv_rhs => rw [← hread, Span.read_take (by omega)]
  have hmem : (memcpy c v.iovBase src v.iovLen).mem =
      c.mem.write v.span.base (reply.take v.span.len) := by
    simp only [memcpy, hfront, Iovec.span]
  refine ⟨hmem, ?_⟩
  -- what is left of the reply is not written to
  have hkept := Span.read_write_apart c.mem reply
    (hapart.drop (k := v.iovLen.toNat) (Nat.le_of_lt hlt))
  simp only [Span.drop] at hkept
  rw [hmem, List.length_drop, hlen, hkept, ← hlen]
  conv_rhs => rw [← hread, Span.read_drop (by omega)]

/-- The loop fills the buffers with the `reply` it starts in front of, and reads
nothing else. -/
theorem scatterInto_fills (iov : List Iovec) :
    ∀ (reply : List UInt8) (src remaining : UInt64) (copied : Int64) (c : Copied),
      reply.length = remaining.toNat → c.mem.read src.toNat reply.length = reply →
      src.toNat + remaining.toNat ≤ 2 ^ 64 →
      (∀ v ∈ iov, Span.Apart ⟨src.toNat, remaining.toNat⟩ v.span) →
      ∃ sources, scatterInto iov src remaining copied c =
          (copied + .ofNat (min reply.length (Span.total (iov.map Iovec.span))),
            ⟨Span.fill c.mem (iov.map Iovec.span) reply, c.sources ++ sources⟩) ∧
        ∀ r ∈ sources, r.addrs ⊆ Span.addrs ⟨src.toNat, remaining.toNat⟩ := by
  induction iov with
  | nil =>
      intro reply src remaining copied c _ _ _ _
      exact ⟨[], by simp [scatterInto, Span.fill], by simp⟩
  | cons v iov ih =>
      intro reply src remaining copied c hlen hread hspace hapart
      by_cases hdone : remaining = 0
      · subst hdone
        obtain rfl : reply = [] := List.length_eq_zero_iff.mp hlen
        exact ⟨[], by simp [scatterInto_zero, Span.fill_nil], by simp⟩
      · by_cases hlast : v.iovLen < remaining
        · -- the buffer is filled and the rest of the reply goes to the others
          have hlt : v.iovLen.toNat < remaining.toNat := UInt64.lt_iff_toNat_lt.mp hlast
          have hsrc : (src + v.iovLen).toNat = src.toNat + v.iovLen.toNat := by
            rw [UInt64.toNat_add]
            omega
          have hrest : (remaining - v.iovLen).toNat = remaining.toNat - v.iovLen.toNat :=
            UInt64.toNat_sub_of_le _ _ (UInt64.le_of_lt hlast)
          obtain ⟨hmem, hbehind⟩ := memcpy_front hlen hread hlt (hapart v List.mem_cons_self)
          have hapart' : ∀ v' ∈ iov, Span.Apart ⟨(src + v.iovLen).toNat,
              (remaining - v.iovLen).toNat⟩ v'.span := by
            intro v' hv'
            rw [hsrc, hrest]
            exact (hapart v' (List.mem_cons_of_mem _ hv')).drop (Nat.le_of_lt hlt)
          obtain ⟨sources, hloop, hsources⟩ := ih (reply.drop v.iovLen.toNat) (src + v.iovLen)
            (remaining - v.iovLen) (copied + v.iovLen.toInt64) (memcpy c v.iovBase src v.iovLen)
            (by rw [List.length_drop, hrest, hlen]) (by rw [hsrc]; exact hbehind) (by omega) hapart'
          refine ⟨⟨src.toNat, v.iovLen.toNat⟩ :: sources, ?_, ?_⟩
          · rw [scatterInto, if_neg hdone]
            simp only [if_pos hlast]
            rw [hloop, hmem, toInt64_eq_ofNat, Int64.add_assoc, ← Int64.ofNat_add,
              min_total_cons (by omega)]
            simp only [memcpy, List.append_assoc, List.singleton_append, List.map_cons, Span.fill]
            rfl
          · rw [hsrc, hrest] at hsources
            intro r hr
            rcases List.mem_cons.mp hr with rfl | hr
            · exact Finset.Ico_subset_Ico (Nat.le_refl _) (Nat.add_le_add_left (Nat.le_of_lt hlt) _)
            · exact (hsources r hr).trans
                (Span.addrs_drop_subset (s := ⟨src.toNat, remaining.toNat⟩) (Nat.le_of_lt hlt))
        · -- the rest of the reply fits into the buffer
          have hle : remaining.toNat ≤ v.iovLen.toNat :=
            UInt64.le_iff_toNat_le.mp (UInt64.not_lt.mp hlast)
          have hall : c.mem.read src.toNat remaining.toNat = reply.take v.iovLen.toNat := by
            rw [List.take_of_length_le (by omega), ← hlen, hread]
          have hnone : reply.drop v.iovLen.toNat = [] := List.drop_eq_nil_of_le (by omega)
          have hcount : remaining.toInt64 = .ofNat (min reply.length
              (Span.total ((v :: iov).map Iovec.span))) := by
            rw [List.map_cons, Span.total_cons, Iovec.span_len, Nat.min_eq_left (by omega), hlen,
              toInt64_eq_ofNat]
          refine ⟨[⟨src.toNat, remaining.toNat⟩], ?_, by simp⟩
          rw [scatterInto, if_neg hdone, ← hcount]
          simp only [if_neg hlast, UInt64.sub_self, scatterInto_zero, memcpy, hall, List.map_cons,
            Span.fill, Iovec.span, hnone, Span.fill_nil]

/-- What a read over memory makes of its answer. -/
def readIntoResult (iov : List Iovec) (addr : UInt64) (m : Mem) (answer : Answer) :
    Int64 × Copied :=
  if answer.error ≠ 0 then (answer.error.toInt64, ⟨m, []⟩)
  else
    match answer.replyData with
    | none => (0, ⟨m, []⟩)
    | some _ => scatterInto iov addr (.ofNat answer.replyLen) 0 ⟨m, []⟩

theorem Op.fusefsReadOpenedInto_run {F : Type} {submit : RequestIn → Option Answer}
    {answer : Answer} {s : OpState F} {iov : List Iovec} {off addr : UInt64} {m : Mem}
    {input : RequestIn} (henter : fusefsReadEnter s.file (iov.map Iovec.iovLen) off = .submit input)
    (h : submit input = some answer) (hsound : answer.Sound) :
    (Op.fusefsReadOpenedInto submit iov off addr m).run s =
      Op.finished answer s (some (readIntoResult iov addr m answer, s)) := by
  obtain ⟨error, data, len⟩ := answer
  rw [Op.fusefsReadOpenedInto, Op.run_bind_ok (a := s) (t := s) rfl]
  simp only [henter]
  rw [Op.run_bind_ok (Op.request_run h)]
  by_cases herror : error = 0
  · subst herror
    cases data with
    | none => rfl
    | some data =>
        simp [readIntoResult, Op.finished, Answer.retireIn, Op.free]
        rfl
  · obtain rfl : data = none := hsound.error herror
    simp [readIntoResult, herror, Op.finished, Answer.retireIn]
    rfl

end UkfsFuse
