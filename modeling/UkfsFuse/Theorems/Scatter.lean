import UkfsFuse.Logic.Scatter

/-!
# Scattering a reply

`fusefs_read` moves its reply into a list of buffers with one `memcpy` for each.
Whatever their lengths, the buffers taken in order hold afterwards what one
flat copy would have put there, and the same as a single buffer of their size.
-/

namespace UkfsFuse

open UkfsFuse.Core

/-- The buffers and the reply object, at `addr`, as `malloc` and the caller
have placed them: no two share a byte, and none is at address 0. -/
structure Layout (iov : List Iovec) (reply : List UInt8) (m : Mem) (addr : UInt64) : Prop where
  disjoint : (iov.map Iovec.span).Pairwise Span.Apart
  fresh : ∀ v ∈ iov, Span.Apart ⟨addr.toNat, reply.length⟩ v.span
  buffers : ∀ v ∈ iov, v.span.addrs ⊆ Finset.Ico 1 (2 ^ 64)
  object : Span.addrs ⟨addr.toNat, reply.length⟩ ⊆ Finset.Ico 1 (2 ^ 64)
  holds : m.read addr.toNat reply.length = reply

/-- The bytes a read returns. -/
def delivered (iov : List Iovec) (reply : List UInt8) : Nat :=
  min reply.length (iovBytes (iov.map Iovec.iovLen))

/-- From the memory `m` with the reply at `addr`, a read has returned `out`. -/
structure FlatCopy (iov : List Iovec) (reply : List UInt8) (m : Mem) (addr : UInt64)
    (out : Int64 × Copied) : Prop where
  count : out.1.toInt = delivered iov reply
  copied : (Span.gather out.2.mem (iov.map Iovec.span)).take (delivered iov reply) =
    reply.take (delivered iov reply)
  untouched : (Span.gather out.2.mem (iov.map Iovec.span)).drop (delivered iov reply) =
    (Span.gather m (iov.map Iovec.span)).drop (delivered iov reply)
  elsewhere : ∀ i, (∀ v ∈ iov, i ∉ v.span.addrs) → out.2.mem i = m i
  sources : ∀ r ∈ out.2.sources, r.addrs ⊆ Span.addrs ⟨addr.toNat, reply.length⟩

section Layouts

variable {iov : List Iovec} {reply : List UInt8} {m : Mem} {addr : UInt64}

/-- Reply and buffers share one address space. -/
theorem Layout.room (h : Layout iov reply m addr) :
    reply.length + iovBytes (iov.map Iovec.iovLen) < 2 ^ 64 := by
  have hapart :
      ((⟨addr.toNat, reply.length⟩ : Span) :: iov.map Iovec.span).Pairwise Span.Apart := by
    refine List.pairwise_cons.mpr ⟨fun s hs => ?_, h.disjoint⟩
    obtain ⟨v, hv, rfl⟩ := List.mem_map.mp hs
    exact h.fresh v hv
  have hroom := Span.total_le 1 (2 ^ 64) hapart fun s hs => by
    rcases List.mem_cons.mp hs with rfl | hs
    · exact h.object
    · obtain ⟨v, hv, rfl⟩ := List.mem_map.mp hs
      exact h.buffers v hv
  rw [Span.total_cons, ← iovBytes_eq_total] at hroom
  change reply.length + iovBytes (iov.map Iovec.iovLen) ≤ 2 ^ 64 - 1 at hroom
  omega

/-- There is no room for both to have 2^63 bytes. -/
theorem Layout.delivered_lt (h : Layout iov reply m addr) : delivered iov reply < 2 ^ 63 := by
  have hroom := h.room
  rw [delivered]
  omega

theorem Layout.reply_le (h : Layout iov reply m addr) (hne : reply ≠ []) :
    addr.toNat + reply.length ≤ 2 ^ 64 := by
  have hpos := List.length_pos_iff.mpr hne
  have hlast : addr.toNat + reply.length - 1 ∈ Span.addrs ⟨addr.toNat, reply.length⟩ :=
    Span.mem_addrs.mpr ⟨by simp only; omega, by simp only; omega⟩
  have hbound := (Finset.mem_Ico.mp (h.object hlast)).2
  omega

variable (reply) in
/-- Nothing wanted, nothing delivered, unless the sum has wrapped. -/
theorem delivered_eq_zero (htotal : iovTotal (iov.map Iovec.iovLen) = 0)
    (hroom : iovBytes (iov.map Iovec.iovLen) < 2 ^ 64) : delivered iov reply = 0 := by
  have htoNat := iovTotal_toNat (iov.map Iovec.iovLen)
  rw [htotal, UInt64.toNat_zero] at htoNat
  rw [delivered]
  omega

/-- With nothing to deliver, nothing happens. -/
theorem FlatCopy.nothing (h : delivered iov reply = 0) :
    FlatCopy iov reply m addr (0, ⟨m, []⟩) where
  count := by rw [h]; rfl
  copied := by rw [h, List.take_zero, List.take_zero]
  untouched := rfl
  elsewhere _ _ := rfl
  sources := by simp

theorem Layout.flatCopy (h : Layout iov reply m addr) :
    FlatCopy iov reply m addr (scatterInto iov addr (.ofNat reply.length) 0 ⟨m, []⟩) := by
  by_cases hne : reply = []
  · subst hne
    rw [show (UInt64.ofNat ([] : List UInt8).length) = 0 from rfl, scatterInto_zero]
    exact .nothing (Nat.zero_min _)
  · have hsize := h.reply_le hne
    have haddr : 1 ≤ addr.toNat := by
      have hfirst : addr.toNat ∈ Span.addrs ⟨addr.toNat, reply.length⟩ :=
        Span.mem_addrs.mpr ⟨Nat.le_refl _, Nat.lt_add_of_pos_right (List.length_pos_iff.mpr hne)⟩
      exact (Finset.mem_Ico.mp (h.object hfirst)).1
    have hword : reply.length = (UInt64.ofNat reply.length).toNat := by
      rw [UInt64.toNat_ofNat']
      omega
    have hspace : addr.toNat + (UInt64.ofNat reply.length).toNat ≤ 2 ^ 64 := by rwa [← hword]
    obtain ⟨sources, hloop, hsources⟩ := scatterInto_fills iov reply addr (.ofNat reply.length) 0
      ⟨m, []⟩ hword h.holds hspace (by rw [← hword]; exact h.fresh)
    have hdelivered : delivered iov reply = min reply.length (Span.total (iov.map Iovec.span)) := by
      rw [delivered, iovBytes_eq_total]
    have hfill := Span.gather_fill m reply h.disjoint
    have hlen : (reply.take (Span.total (iov.map Iovec.span))).length = delivered iov reply := by
      rw [hdelivered, List.length_take, Nat.min_comm]
    rw [hloop]
    refine ⟨?_, ?_, ?_, fun i hi => ?_, ?_⟩
    · rw [Int64.zero_add, ← hdelivered, Int64.toInt_ofNat_of_lt h.delivered_lt]
    · rw [hfill, List.take_left' hlen, hdelivered, Nat.min_comm,
        ← List.take_eq_take_min]
    · rw [hfill, List.drop_left' hlen]
      by_cases hfit : reply.length ≤ Span.total (iov.map Iovec.span)
      · rw [hdelivered, Nat.min_eq_left hfit]
      · rw [List.drop_eq_nil_of_le (by rw [Span.length_gather]; omega),
          List.drop_eq_nil_of_le (by rw [Span.length_gather]; omega)]
    · refine Span.fill_outside fun s hs => ?_
      obtain ⟨v, hv, rfl⟩ := List.mem_map.mp hs
      exact hi v hv
    · rw [← hword] at hsources
      simpa using hsources

end Layouts

/-! ## The whole call -/

section Calls

variable [Platform] {F : Type} {sv : Service} {s s' : OpState F} {iov : List Iovec}
  {off addr : UInt64} {m : Mem} {reply : List UInt8}

/-- A read called in `s` gets as far as its READ, in `s'`, or needs none; the
backend answers it with `fuse_reply_buf(reply)`, and that has its memory. -/
structure ReadAnswered (sv : Service) (s s' : OpState F) (iov : List Iovec) (off : UInt64)
    (reply : List UInt8) : Prop where
  opened : if s.file.fh = FH_UNSET then (Op.fusefsDoOpen sv.submit).run s = .ok (0, s') else s' = s
  gives : sv.Gives (.read s'.file.nodeid s'.file.fh off (iovTotal (iov.map Iovec.iovLen)).toUInt32)
    (.buf reply)
  malloc : sv.mallocOk (.read s'.file.nodeid s'.file.fh off
    (iovTotal (iov.map Iovec.iovLen)).toUInt32) = false → reply = []

theorem fusefsReadInto_opened (h : ReadAnswered sv s s' iov off reply) :
    (Op.fusefsReadInto sv.submit iov off addr m).run s =
      (Op.fusefsReadOpenedInto sv.submit iov off addr m).run s' := by
  have hopened := h.opened
  rw [Op.fusefsReadInto, Op.run_bind_ok (a := s) (t := s) rfl]
  split at hopened
  · rename_i hunset
    rw [if_pos hunset, Op.run_bind_ok hopened]
    rfl
  · rename_i hset
    rw [if_neg hset, hopened]

/-- A call that has got to its READ. -/
theorem fusefsReadOpenedInto_flatCopy (h : ReadAnswered sv s s' iov off reply)
    (hlayout : Layout iov reply m addr) :
    ∃ out s'', (Op.fusefsReadOpenedInto sv.submit iov off addr m).run s' = .ok (out, s'') ∧
      FlatCopy iov reply m addr out := by
  by_cases htotal : iovTotal (iov.map Iovec.iovLen) = 0
  · have hroom := hlayout.room
    have hnone := delivered_eq_zero reply htotal (by omega)
    rw [Op.fusefsReadOpenedInto, Op.run_bind_ok (a := s') (t := s') rfl]
    simp only [readEnter_zero htotal]
    exact ⟨_, _, rfl, .nothing hnone⟩
  · have henter := readEnter_pos s'.file off htotal
    have hknown : (RequestIn.read s'.file.nodeid s'.file.fh off
        (iovTotal (iov.map Iovec.iovLen)).toUInt32).Known := trivial
    have hsub := Service.submit_gives hknown h.gives trivial
    rw [Op.fusefsReadOpenedInto_run henter hsub Reply.answerIn_sound]
    refine ⟨_, _, rfl, ?_⟩
    cases hmalloc : sv.mallocOk (.read s'.file.nodeid s'.file.fh off
        (iovTotal (iov.map Iovec.iovLen)).toUInt32) with
    | false =>
        obtain rfl := h.malloc hmalloc
        exact .nothing (Nat.zero_min _)
    | true => exact hlayout.flatCopy

/-- A read delivers one flat copy of its reply, and what it delivers depends on
the size of its buffers only: a single buffer of that size gets the same. -/
theorem scattered_read_is_flat_copy (sv : Service) (s s' : OpState F) (iov : List Iovec)
    (off addr : UInt64) (m : Mem) (reply : List UInt8)
    (hread : ReadAnswered sv s s' iov off reply) (hlayout : Layout iov reply m addr) :
    ∃ out s'', (Op.fusefsReadInto sv.submit iov off addr m).run s = .ok (out, s'') ∧
      FlatCopy iov reply m addr out ∧
      ∀ (flat : Iovec) (sv₁ : Service) (s₁ s₁' : OpState F) (off₁ addr₁ : UInt64) (m₁ : Mem),
        flat.iovLen.toNat = iovBytes (iov.map Iovec.iovLen) →
        ReadAnswered sv₁ s₁ s₁' [flat] off₁ reply → Layout [flat] reply m₁ addr₁ →
        ∃ out₁ s₁'', (Op.fusefsReadInto sv₁.submit [flat] off₁ addr₁ m₁).run s₁ =
            .ok (out₁, s₁'') ∧
          out₁.1 = out.1 ∧
          out₁.2.mem.read flat.span.base (delivered iov reply) =
            (Span.gather out.2.mem (iov.map Iovec.span)).take (delivered iov reply) := by
  rw [fusefsReadInto_opened hread]
  obtain ⟨out, s'', hrun, hflat⟩ := fusefsReadOpenedInto_flatCopy hread hlayout
  refine ⟨out, s'', hrun, hflat, fun flat sv₁ s₁ s₁' off₁ addr₁ m₁ hsize hread₁ hlayout₁ => ?_⟩
  rw [fusefsReadInto_opened hread₁]
  obtain ⟨out₁, s₁'', hrun₁, hflat₁⟩ := fusefsReadOpenedInto_flatCopy hread₁ hlayout₁
  have hsame : delivered [flat] reply = delivered iov reply := by
    rw [delivered, delivered, ← hsize]
    simp [iovBytes]
  refine ⟨out₁, s₁'', hrun₁, ?_, ?_⟩
  · rw [← Int64.toInt_inj, hflat₁.count, hflat.count, hsame]
  · have hle : delivered iov reply ≤ flat.span.len := by
      rw [delivered, ← hsize]
      exact Nat.min_le_right _ _
    have hcopied := hflat₁.copied
    rw [hsame, List.map_singleton, Span.gather_cons, Span.gather_nil, List.append_nil,
      Span.read_take hle] at hcopied
    rw [hcopied, hflat.copied]

end Calls

/-- Three bytes into buffers of one, no and four bytes. -/
theorem scatter_three_bytes :
    letI := sampleHeaders
    let iov : List Iovec := [⟨16, 1⟩, ⟨0, 0⟩, ⟨32, 4⟩]
    let m : Mem := Mem.write (fun _ => 0) 64 [1, 2, 3]
    ∃ out s'', (Op.fusefsReadInto (Service.always (.buf [1, 2, 3])).submit iov 0 64 m).run
        (.start ⟨1, 7, none⟩ (.blank Unit)) = .ok (out, s'') ∧
      FlatCopy iov [1, 2, 3] m 64 out := by
  let := sampleHeaders
  intro iov m
  have hread : ReadAnswered (Service.always (.buf [1, 2, 3]))
      (.start ⟨1, 7, none⟩ (.blank Unit)) (.start ⟨1, 7, none⟩ (.blank Unit)) iov 0 [1, 2, 3] :=
    ⟨rfl, Service.always_gives trivial trivial, fun h => absurd h (by simp [Service.always])⟩
  have hlayout : Layout iov [1, 2, 3] m 64 := by
    refine ⟨by decide, by decide, ?_, Finset.Ico_subset_Ico (by decide) (by decide), rfl⟩
    · simp only [iov, List.forall_mem_cons]
      refine ⟨Finset.Ico_subset_Ico (by decide) (by decide), ?_,
        Finset.Ico_subset_Ico (by decide) (by decide), by simp⟩
      exact Finset.empty_subset _
  obtain ⟨out, s'', hrun, hflat, -⟩ := scattered_read_is_flat_copy (Service.always (.buf [1, 2, 3]))
    (.start ⟨1, 7, none⟩ (.blank Unit)) _ iov 0 64 m [1, 2, 3] hread hlayout
  exact ⟨out, s'', hrun, hflat⟩

/-- The buffers hold what `fusefs_read` stores: over memory it is the same call. -/
theorem fusefsRead_delivers [Platform] {F : Type} {sv : Service} {s s' : OpState F}
    {iov : List Iovec} {off : UInt64} {reply : List UInt8}
    (h : ReadAnswered sv s s' iov off reply) (hroom : iovBytes (iov.map Iovec.iovLen) < 2 ^ 64) :
    ∃ s'' pieces, (Op.fusefsRead sv.submit (iov.map Iovec.iovLen) off).run s =
        .ok (.ofNat (delivered iov reply), s'') ∧
      s''.out.stored = s'.out.stored ++ pieces ∧
      pieces.flatten = reply.take (delivered iov reply) := by
  have hopened : (Op.fusefsRead sv.submit (iov.map Iovec.iovLen) off).run s =
      (Op.fusefsReadOpened sv.submit (iov.map Iovec.iovLen) off).run s' := by
    have hopened := h.opened
    split at hopened
    · rename_i hunset
      rw [Op.fusefsRead_unset hunset hopened, if_pos rfl]
    · rename_i hset
      rw [Op.fusefsRead_opened hset, hopened]
  rw [hopened]
  by_cases htotal : iovTotal (iov.map Iovec.iovLen) = 0
  · rw [Op.fusefsReadOpened_ret (readEnter_zero htotal), delivered_eq_zero reply htotal hroom]
    exact ⟨s', [], rfl, by simp, rfl⟩
  · exact Op.fusefsReadOpened_buf htotal h.gives h.malloc

end UkfsFuse
