import UkfsFuse.Logic.Dirents
import UkfsFuse.Logic.Operation

/-!
# Directory enumeration

Repeated `fusefs_listdir` calls return every entry of a directory once and in
order, although each call keeps only the first entry of an answer that may
stop in the middle of a later one; and the directory buffer of the example
backend answers as such a directory, with byte offsets for cookies.

The entry is decoded on trust: neither the size of the reply nor `namelen` is
checked, so a reply that starts or ends within an entry is read beyond its end.
-/

namespace UkfsFuse

open UkfsFuse.Core

/-- From the cursor behind the first `i` entries, call `j` returns entry
`i + j + 1` with its name, inode, type and cookie, and 0 behind the last one.
`hello_ll_readdir` is such a backend for every list of `dirbuf_add` calls
whose entries fit a reply. -/
theorem listdir_enumerates [Platform] (F : Type) :
    (∀ (op : FuseLowlevelOps) (ff : FusefsFile F) (dir : List DirEntry)
      (envs : List ListdirEnv), op.readdir = true →
      (∀ env ∈ envs, ListsDirectory dir ff.nodeid env.backend ∧
        ∀ e ∈ dir, Platform.UKFS_DIRENT_RECLEN e.name.strlen ≤ env.len) →
      ∀ i ≤ dir.length, listdirCalls (listdirCall op ff) envs (cursorAt dir i) =
        (List.range envs.length).map fun j => some (listdirAt dir (i + j))) ∧
    (∀ adds : List (CStr × UInt64),
      (adds.foldl (fun b add => dirbufAdd b add.1 add.2) []).length < 2 ^ 63 →
      (∀ e ∈ dirbufEntries 0 adds, e.encode.length ≤ 4096) →
      ∀ i ≤ (dirbufEntries 0 adds).length, ∃ bytes,
        helloLlReaddir adds 1 4096 (cursorAt (dirbufEntries 0 adds) i).toInt64 =
          some (.buf bytes) ∧ SliceFrom (dirbufEntries 0 adds) i bytes) := by
  refine ⟨?_, ?_⟩
  · intro op ff dir envs hop henvs i hi
    exact listdirCalls_eq hop envs henvs hi
  · intro adds hsize hentry i hi
    exact helloLlReaddir_slices hsize hentry hi

/-- The example directory: `.`, `..` and `hello`. -/
def helloDirectory : List (CStr × UInt64) :=
  [(⟨[0x2e], by decide⟩, 1), (⟨[0x2e, 0x2e], by decide⟩, 1),
   (⟨[0x68, 0x65, 0x6c, 0x6c, 0x6f], by decide⟩, 2)]

/-- The callbacks of the example backend that list it. -/
def helloBackend (_ : FuseReq) : Call → Reply
  | .readdir ino size off _ => (helloLlReaddir helloDirectory ino size off).getD (.err EIO)
  | _ => .err ENOSYS

/-- Five calls on the example directory: three entries, then 0 and again 0. -/
theorem listdir_hello :
    letI := sampleHeaders
    listdirCalls (listdirCall .full (fusefsFileAlloc Unit 1))
      (List.replicate 5 ⟨fun _ => 0x5a, 1, helloBackend, 64⟩) 0 =
      [some ⟨21, 32, some ⟨1, 32, 21, 0, [0x2e, 0]⟩⟩,
       some ⟨22, 64, some ⟨1, 64, 22, 0, [0x2e, 0x2e, 0]⟩⟩,
       some ⟨25, 96, some ⟨2, 96, 25, 0, [0x68, 0x65, 0x6c, 0x6c, 0x6f, 0]⟩⟩,
       some ⟨0, 96, none⟩, some ⟨0, 96, none⟩] := by
  let := sampleHeaders
  have hslices := (listdir_enumerates Unit).2 helloDirectory (by decide) (by decide)
  have hlists : ListsDirectory (dirbufEntries 0 helloDirectory) 1 helloBackend := by
    intro req i hi
    obtain ⟨bytes, hbytes, hslice⟩ := hslices i hi
    exact ⟨bytes, by simp only [helloBackend, hbytes, Option.getD_some], hslice⟩
  have hcalls := (listdir_enumerates Unit).1 .full (fusefsFileAlloc Unit 1)
    (dirbufEntries 0 helloDirectory) (List.replicate 5 ⟨fun _ => 0x5a, 1, helloBackend, 64⟩) rfl ?_
    0 (Nat.zero_le _)
  · exact hcalls.trans (by decide)
  · intro e he
    obtain rfl := List.eq_of_mem_replicate he
    exact ⟨hlists, by decide⟩

/-! ## Decoding an entry -/

section Decoding

variable [Platform] {F : Type}

/-- The record written to the caller's buffer for the entry `fd`. -/
structure RecordOf (fd : FuseDirent) (ret : Int) (record : UkFsDirent) : Prop where
  ino : record.dIno = fd.ino
  off : record.dOff = fd.off.toInt64
  name : record.dName = fd.name ++ [0]
  /-- with its name it lies in the `ret` bytes returned -/
  covers : (Platform.offsetofDName + record.dName.length : Int) ≤ ret
  reclen : (record.dReclen.toNat : Int) = ret

/-- `fusefs_listdir` returns, and either has nothing to show and leaves buffer
and cursor alone, or has decoded an entry that lies inside the reply and
written its record into the `len` bytes it was given. -/
def DecodesWithin (reply : List UInt8) (len : Nat) (s : OpState F)
    (run : Except Stuck (Int × OpState F)) : Prop :=
  ∃ ret s', run = .ok (ret, s') ∧
    ((ret ≤ 0 ∧ s'.out.dirent = s.out.dirent ∧ s'.out.curp = s.out.curp) ∨
      ∃ fd record, FuseDirent.first reply = some fd ∧
        FUSE_NAME_OFFSET + fd.namelen.toNat ≤ reply.length ∧
        s'.out.dirent = some record ∧ s'.out.curp = fd.off ∧
        RecordOf fd ret record ∧ ret ≤ len)

/-- `namelen` of the first entry lies inside the reply; and the record is too
large for the caller, or the whole entry lies inside the reply and the size of
the record fits an `unsigned short`. -/
def EntryInside (reply : List UInt8) (len : Nat) : Prop :=
  20 ≤ reply.length ∧
    let namelen := ((Mem.ofList reply).u32At 16).toNat
    len < Platform.UKFS_DIRENT_RECLEN namelen ∨
      (FUSE_NAME_OFFSET + namelen ≤ reply.length ∧ Platform.UKFS_DIRENT_RECLEN namelen < 2 ^ 16)

variable {sv : Service} {s : OpState F} {reply : List UInt8} {len : Nat}

/-- A READDIR answered with some bytes, and a buffer for them. -/
theorem fusefsListdir_bytes (hne : reply ≠ [])
    (hgives : sv.Gives (fusefsListdirEnter s.file s.out.curp) (.buf reply))
    (hmalloc : sv.mallocOk (fusefsListdirEnter s.file s.out.curp) = true) :
    (Op.fusefsListdir sv.submit len).run s =
      match FuseDirent.firstNamelen reply with
      | none => .error .badLoad
      | some namelen =>
          if len < Platform.UKFS_DIRENT_RECLEN namelen.toNat then
            .ok ((-EINVAL).toInt, { s with heap := s.heap.retire (.reply (.bytes reply)) })
          else
            match FuseDirent.first reply with
            | none => .error .badLoad
            | some fd =>
                .ok (Platform.UKFS_DIRENT_RECLEN namelen.toNat, { s with
                  heap := s.heap.retire (.reply (.bytes reply))
                  out := { s.out with
                    curp := fd.off
                    dirent := some {
                      dIno := fd.ino
                      dOff := fd.off.toInt64
                      dReclen := .ofNat (Platform.UKFS_DIRENT_RECLEN namelen.toNat)
                      dType := fd.type.toUInt8
                      dName := fd.name ++ [0] } } }) := by
  have hknown : (fusefsListdirEnter s.file s.out.curp).Known := trivial
  have hsub := Service.submit_gives hknown hgives trivial
  rw [hmalloc] at hsub
  have hanswer : Reply.answerIn (fuseSessionNewVersioned sv.op) true (.buf reply)
      (.init (sv.unique (fusefsListdirEnter s.file s.out.curp))
        (fusefsListdirEnter s.file s.out.curp)) = ⟨0, some (.bytes reply), reply.length⟩ := rfl
  rw [Op.fusefsListdir_run hsub Reply.answerIn_sound, hanswer]
  cases hnamelen : FuseDirent.firstNamelen reply with
  | none => simp [fusefsListdirFinish, hne, hnamelen, Op.finished]
  | some namelen =>
      by_cases hsmall : len < Platform.UKFS_DIRENT_RECLEN namelen.toNat
      · simp [fusefsListdirFinish, hne, hnamelen, hsmall, Op.finished, Op.listdirResult,
          Answer.retireIn]
      · cases hfirst : FuseDirent.first reply <;>
          simp [fusefsListdirFinish, hne, hnamelen, hsmall, hfirst, Op.finished, Op.listdirResult,
            Answer.retireIn]

variable (len) in
/-- Without an object the call returns: at the end of the directory, or for
want of memory. -/
theorem fusefsListdir_nothing
    (hgives : sv.Gives (fusefsListdirEnter s.file s.out.curp) (.buf reply))
    (hnone : reply = [] ∨ sv.mallocOk (fusefsListdirEnter s.file s.out.curp) = false) :
    ∃ ret s', (Op.fusefsListdir sv.submit len).run s = .ok (ret, s') ∧ ret ≤ 0 ∧
      s'.out.dirent = s.out.dirent ∧ s'.out.curp = s.out.curp := by
  have hknown : (fusefsListdirEnter s.file s.out.curp).Known := trivial
  have hsub := Service.submit_gives hknown hgives trivial
  rw [Op.fusefsListdir_run hsub Reply.answerIn_sound]
  by_cases hempty : reply = []
  · subst hempty
    cases sv.mallocOk (fusefsListdirEnter s.file s.out.curp) <;>
      exact ⟨0, _, rfl, Int.le_refl 0, rfl, rfl⟩
  · have hmalloc := hnone.resolve_left hempty
    have hnoMemory : SeesNoMemory (fuseReplyBuf reply false)
        (.init (sv.unique (fusefsListdirEnter s.file s.out.curp))
          (fusefsListdirEnter s.file s.out.curp)) := fuseReplyBuf_fail hempty
    have hanswer : (Reply.answerIn (fuseSessionNewVersioned sv.op) false (.buf reply)
        (.init (sv.unique (fusefsListdirEnter s.file s.out.curp))
          (fusefsListdirEnter s.file s.out.curp))).error = -ENOMEM := hnoMemory.error
    have hne : (-ENOMEM : Int32) ≠ 0 := by decide
    rw [hmalloc]
    simp only [fusefsListdirFinish, hanswer, ne_eq, hne, not_false_iff, if_true, Option.map_some,
      Op.finished]
    exact ⟨_, _, rfl, show (-ENOMEM).toInt ≤ 0 by decide, rfl, rfl⟩

/-- A reply is decoded within bounds exactly when there is nothing to decode or
what is read of its first entry lies inside it. -/
theorem listdir_decodes_within_iff (sv : Service) (s : OpState F) (reply : List UInt8) (len : Nat)
    (hgives : sv.Gives (fusefsListdirEnter s.file s.out.curp) (.buf reply)) :
    DecodesWithin reply len s ((Op.fusefsListdir sv.submit len).run s) ↔
      reply = [] ∨ sv.mallocOk (fusefsListdirEnter s.file s.out.curp) = false ∨
        EntryInside reply len := by
  by_cases hnone : reply = [] ∨ sv.mallocOk (fusefsListdirEnter s.file s.out.curp) = false
  · obtain ⟨ret, s', hrun, hret, hdirent, hcurp⟩ := fusefsListdir_nothing len hgives hnone
    exact iff_of_true ⟨ret, s', hrun, .inl ⟨hret, hdirent, hcurp⟩⟩
      (hnone.elim .inl (.inr ∘ .inl))
  · obtain ⟨hne, hmalloc⟩ := not_or.mp hnone
    rw [or_iff_right hne, or_iff_right hmalloc,
      fusefsListdir_bytes hne hgives ((Bool.not_eq_false _).mp hmalloc)]
    by_cases h20 : 20 ≤ reply.length
    · have hnamelen : FuseDirent.firstNamelen reply = some ((Mem.ofList reply).u32At 16) :=
        if_pos h20
      simp only [hnamelen, EntryInside, h20, true_and]
      by_cases hsmall : len < Platform.UKFS_DIRENT_RECLEN ((Mem.ofList reply).u32At 16).toNat
      · rw [if_pos hsmall]
        exact iff_of_true ⟨_, _, rfl, .inl ⟨by decide, rfl, rfl⟩⟩ (.inl hsmall)
      · rw [if_neg hsmall, or_iff_right hsmall]
        cases hfirst : FuseDirent.first reply with
        | none =>
            have hshort : ¬ FUSE_NAME_OFFSET + ((Mem.ofList reply).u32At 16).toNat ≤
                reply.length := fun hle => absurd hfirst (by simp [FuseDirent.first, hle])
            refine iff_of_false ?_ fun h => hshort h.1
            rintro ⟨ret, s', hrun, -⟩
            exact absurd hrun (by simp)
        | some fd =>
            obtain ⟨hfd, hinside, hname⟩ := first_eq_some hnamelen hfirst
            have hcovers :=
              Platform.reclen_covers ((Mem.ofList reply).u32At 16).toNat
            rw [and_iff_right hinside]
            constructor
            · rintro ⟨ret, s', hrun, hshown⟩
              obtain ⟨rfl, rfl⟩ := Prod.mk.inj (Except.ok.inj hrun)
              rcases hshown with ⟨hle, -⟩ | ⟨fd', record, -, -, hrecord, -, hof, -⟩
              · omega
              · obtain rfl := Option.some.inj hrecord
                have hreclen := hof.reclen
                simp only [UInt16.toNat_ofNat'] at hreclen
                omega
            · intro hsize
              refine ⟨_, _, rfl, .inr ⟨fd, _, hfirst, by rw [hfd]; exact hinside, rfl, rfl, ?_, ?_⟩⟩
              · refine ⟨rfl, rfl, rfl, ?_, ?_⟩
                · simp only [List.length_append, hname, List.length_singleton]
                  omega
                · simp only [UInt16.toNat_ofNat']
                  omega
              · omega
    · have hnamelen : FuseDirent.firstNamelen reply = none := if_neg h20
      simp only [hnamelen]
      refine iff_of_false ?_ fun h => h20 h.1
      rintro ⟨ret, s', hrun, -⟩
      exact absurd hrun (by simp)

end Decoding

/-- An empty reply is within bounds. -/
theorem empty_reply_within_bounds :
    letI := sampleHeaders
    (Service.always (.buf [])).Gives (.readdir 1 0 0 4096) (.buf []) ∧
      DecodesWithin [] 64 (.start (fusefsFileAlloc Unit 1) (.blank Unit))
        ((Op.fusefsListdir (Service.always (.buf [])).submit 64).run
          (.start (fusefsFileAlloc Unit 1) (.blank Unit))) := by
  let := sampleHeaders
  have hgives : (Service.always (.buf [])).Gives (.readdir 1 0 0 4096) (.buf []) :=
    Service.always_gives trivial trivial
  exact ⟨hgives, (listdir_decodes_within_iff _ _ _ _ hgives).mpr (.inl rfl)⟩

/-- After a seek to 88 the example backend answers with the last eight bytes
of its directory, and `namelen` is read behind them. -/
theorem seek_into_entry_overreads :
    letI := sampleHeaders
    let sv := { Service.always (.buf []) with backend := helloBackend }
    let s := OpState.start (fusefsFileAlloc Unit 1) { Outputs.blank Unit with curp := 88 }
    let reply := [0x68, 0x65, 0x6c, 0x6c, 0x6f, 0, 0, 0]
    sv.Gives (fusefsListdirEnter s.file s.out.curp) (.buf reply) ∧
      ¬ DecodesWithin reply 64 s ((Op.fusefsListdir sv.submit 64).run s) := by
  let := sampleHeaders
  intro sv s reply
  have hgives : sv.Gives (fusefsListdirEnter s.file s.out.curp) (.buf reply) := by
    refine ⟨trivial, rfl, rfl, fun call hcall => ?_⟩
    obtain rfl := Option.some.inj hcall
    decide
  refine ⟨hgives, ?_⟩
  rintro ⟨ret, s', hrun, -⟩
  rw [fusefsListdir_bytes (by simp [reply]) hgives rfl] at hrun
  exact absurd hrun (by simp [FuseDirent.firstNamelen, reply])

end UkfsFuse
