import UkfsFuse.Logic.Completion
import UkfsFuse.Source.HelloLl

/-!
# Entries through the wire and back

`fuse_add_direntry` pads every entry to eight bytes; a decoder that looks at
the first entry of a reply finds it unharmed as long as the reply holds all of
it, whatever follows.
-/

namespace UkfsFuse

open UkfsFuse.Core

/-- A directory entry and the cookie stored with it. -/
structure DirEntry where
  name : CStr
  stat : Stat
  cookie : UInt64
deriving DecidableEq

/-- The entry as `fuse_add_direntry` encodes it. -/
def DirEntry.encode (e : DirEntry) : List UInt8 := direntBytes e.name e.stat e.cookie.toInt64

theorem le_direntAlign (n : Nat) : n ≤ FUSE_DIRENT_ALIGN n := by
  unfold FUSE_DIRENT_ALIGN
  omega

@[simp] theorem length_direntBytes (name : CStr) (st : Stat) (off : Int64) :
    (direntBytes name st off).length = FUSE_DIRENT_ALIGN (FUSE_NAME_OFFSET + name.strlen) := by
  have hle := le_direntAlign (FUSE_NAME_OFFSET + name.strlen)
  simp only [direntBytes, List.length_append, length_u64Bytes, length_u32Bytes,
    List.length_replicate]
  rw [show name.bytes.length = name.strlen from rfl]
  simp only [FUSE_NAME_OFFSET] at hle ⊢
  omega

/-- The header fields and the name of an entry, whatever follows it. -/
theorem direntBytes_append (name : CStr) (st : Stat) (off : Int64) (rest : List UInt8) :
    ∃ tail, direntBytes name st off ++ rest =
      u64Bytes st.stIno ++ (u64Bytes off.toUInt64 ++ (u32Bytes (.ofNat name.strlen) ++
        (u32Bytes ((st.stMode &&& S_IFMT) >>> 12) ++ (name.bytes ++ tail)))) := by
  refine ⟨List.replicate (FUSE_DIRENT_ALIGN (FUSE_NAME_OFFSET + name.strlen) -
    (FUSE_NAME_OFFSET + name.strlen)) 0 ++ rest, ?_⟩
  simp only [direntBytes, List.append_assoc]

section First

variable {name : CStr} {st : Stat} {off : Int64} {rest : List UInt8}

theorem firstNamelen_direntBytes :
    FuseDirent.firstNamelen (direntBytes name st off ++ rest) = some (.ofNat name.strlen) := by
  have hlen : 20 ≤ (direntBytes name st off ++ rest).length := by
    have hle := le_direntAlign (FUSE_NAME_OFFSET + name.strlen)
    simp only [List.length_append, length_direntBytes]
    simp only [FUSE_NAME_OFFSET] at hle ⊢
    omega
  rw [FuseDirent.firstNamelen, if_pos hlen]
  obtain ⟨tail, htail⟩ := direntBytes_append name st off rest
  rw [htail, u32At_behind (by simp), u32At_behind (by simp)]
  simp only [length_u64Bytes, Nat.reduceSub, u32At_front]

/-- The first entry of a reply that holds all of it. -/
theorem first_direntBytes (hname : name.strlen < 2 ^ 32) :
    FuseDirent.first (direntBytes name st off ++ rest) =
      some ⟨st.stIno, off.toUInt64, .ofNat name.strlen, (st.stMode &&& S_IFMT) >>> 12,
        name.bytes⟩ := by
  obtain ⟨tail, htail⟩ := direntBytes_append name st off rest
  have hnamelen : (UInt32.ofNat name.strlen).toNat = name.strlen := by
    rw [UInt32.toNat_ofNat']
    exact Nat.mod_eq_of_lt hname
  have hread : ((Mem.ofList (name.bytes ++ tail)).read 0 name.strlen) = name.bytes :=
    Mem.read_ofList_front
  have hat16 : (Mem.ofList (direntBytes name st off ++ rest)).u32At 16 = .ofNat name.strlen := by
    rw [htail, u32At_behind (by simp), u32At_behind (by simp)]
    simp only [length_u64Bytes, Nat.reduceSub, u32At_front]
  have hat8 : (Mem.ofList (direntBytes name st off ++ rest)).u64At 8 = off.toUInt64 := by
    rw [htail, u64At_behind (by simp)]
    simp only [length_u64Bytes, Nat.reduceSub, u64At_front]
  have hat20 : (Mem.ofList (direntBytes name st off ++ rest)).u32At 20 =
      (st.stMode &&& S_IFMT) >>> 12 := by
    rw [htail, u32At_behind (by simp), u32At_behind (by simp), u32At_behind (by simp)]
    simp only [length_u64Bytes, length_u32Bytes, Nat.reduceSub, u32At_front]
  have hatName : (Mem.ofList (direntBytes name st off ++ rest)).read FUSE_NAME_OFFSET name.strlen =
      name.bytes := by
    rw [htail, FUSE_NAME_OFFSET, Mem.read_behind (by simp), Mem.read_behind (by simp),
      Mem.read_behind (by simp), Mem.read_behind (by simp)]
    simp only [length_u64Bytes, length_u32Bytes, Nat.reduceSub]
    exact hread
  have hat0 : (Mem.ofList (direntBytes name st off ++ rest)).u64At 0 = st.stIno := by
    rw [htail, u64At_front]
  have hlen : FUSE_NAME_OFFSET + name.strlen ≤ (direntBytes name st off ++ rest).length := by
    have hle := le_direntAlign (FUSE_NAME_OFFSET + name.strlen)
    simp only [List.length_append, length_direntBytes]
    omega
  simp only [FuseDirent.first, hat16, hnamelen, if_pos hlen, hat0, hat8, hat20, hatName]

end First

/-- The first entry lies inside the reply, with its name. -/
theorem first_eq_some {reply : List UInt8} {fd : FuseDirent} {namelen : UInt32}
    (hnamelen : FuseDirent.firstNamelen reply = some namelen)
    (h : FuseDirent.first reply = some fd) :
    fd.namelen = namelen ∧ FUSE_NAME_OFFSET + namelen.toNat ≤ reply.length ∧
      fd.name.length = namelen.toNat := by
  unfold FuseDirent.firstNamelen at hnamelen
  unfold FuseDirent.first at h
  split at hnamelen
  · obtain rfl := Option.some.inj hnamelen
    dsimp only at h
    split at h
    · obtain rfl := Option.some.inj h
      exact ⟨rfl, ‹_›, Mem.length_read⟩
    · exact absurd h (by simp)
  · exact absurd hnamelen (by simp)

/-! ## Enumerating a directory -/

/-- `k_i`: the cursor behind the first `i` entries. -/
def cursorAt (dir : List DirEntry) : Nat → UInt64
  | 0 => 0
  | i + 1 => match dir[i]? with
    | some e => e.cookie
    | none => 0

/-- An answer to READDIR at `k_i`: at most 4096 bytes of the encodings of the
entries behind it, with all of the next entry. -/
structure SliceFrom (dir : List DirEntry) (i : Nat) (bytes : List UInt8) : Prop where
  size : bytes.length ≤ 4096
  slice : bytes <+: (dir.drop i).flatMap DirEntry.encode
  next : ∀ e, dir[i]? = some e → e.encode <+: bytes

/-- The backend answers READDIR on `ino` from the directory `dir`. -/
def ListsDirectory (dir : List DirEntry) (ino : UInt64) (backend : FuseReq → Call → Reply) :
    Prop :=
  ∀ req i, i ≤ dir.length → ∃ bytes,
    backend req (.readdir ino 4096 (cursorAt dir i).toInt64 { fh := 0 }) = .buf bytes ∧
      SliceFrom dir i bytes

/-- What one call of `fusefs_listdir` meets: the daemon's buffer as earlier
requests left it, the next `unique`, the backend, and the caller's buffer. -/
structure ListdirEnv where
  buf : Mem
  unique : UInt64
  backend : FuseReq → Call → Reply
  len : Nat

section Enumerate

variable [Platform] {F : Type}

/-- One call of `fusefs_listdir`; allocations succeed. -/
def listdirCall (op : FuseLowlevelOps) (ff : FusefsFile F) (env : ListdirEnv) (curp : UInt64) :
    Option ListdirResult :=
  fusefsListdir (roundTrip op env.buf env.unique true true env.backend) ff curp env.len

/-- Call after call, each with the cursor the one before left. -/
def listdirCalls (call : ListdirEnv → UInt64 → Option ListdirResult) :
    List ListdirEnv → UInt64 → List (Option ListdirResult)
  | [], _ => []
  | env :: envs, curp =>
      match call env curp with
      | none => [none]
      | some r => some r :: listdirCalls call envs r.curp

/-- The result of the call that returns entry `e`. -/
def DirEntry.record (e : DirEntry) : ListdirResult where
  ret := Platform.UKFS_DIRENT_RECLEN e.name.strlen
  curp := e.cookie
  out := some {
    dIno := e.stat.stIno
    dOff := e.cookie.toInt64
    dReclen := .ofNat (Platform.UKFS_DIRENT_RECLEN e.name.strlen)
    dType := ((e.stat.stMode &&& S_IFMT) >>> 12).toUInt8
    dName := e.name.toBytes }

/-- The result of the call at `k_i`: entry `i + 1`, or 0 behind the last. -/
def listdirAt (dir : List DirEntry) (i : Nat) : ListdirResult :=
  match dir[i]? with
  | some e => e.record
  | none => ⟨0, cursorAt dir dir.length, none⟩

variable {op : FuseLowlevelOps} {ff : FusefsFile F} {dir : List DirEntry}

omit [Platform] in
theorem listdirCalls_cons {call : ListdirEnv → UInt64 → Option ListdirResult} {env : ListdirEnv}
    {envs : List ListdirEnv} {curp : UInt64} {r : ListdirResult} (h : call env curp = some r) :
    listdirCalls call (env :: envs) curp = some r :: listdirCalls call envs r.curp := by
  rw [listdirCalls, h]

/-- The answer to a READDIR the backend answered with `fuse_reply_buf`. -/
theorem roundTrip_readdir (buf : Mem) {unique ino off : UInt64} {bytes : List UInt8}
    {backend : FuseReq → Call → Reply} (hop : op.readdir = true)
    (hreply : backend ⟨unique, 0, 0, 1⟩ (.readdir ino 4096 off.toInt64 { fh := 0 }) = .buf bytes) :
    roundTrip op buf unique true true backend (.readdir ino 0 off 4096) =
      some ⟨0, some (.bytes bytes), bytes.length⟩ := by
  have hgiven : replyGiven op (.init unique (.readdir ino 0 off 4096)) backend =
      some (.buf bytes) := by
    rw [← hreply]
    simp only [replyGiven, RequestIn.handling, FuseUkfsRequest.init, RequestIn.call,
      FuseLowlevelOps.implements, hop, if_true]
    rfl
  have hfits : (RequestIn.readdir ino 0 off 4096).Fits := trivial
  have hknown : (RequestIn.readdir ino 0 off 4096).Known := trivial
  rw [roundTrip_reply hknown hfits hgiven trivial]
  rfl

theorem listdirAt_entry {i : Nat} {e : DirEntry} (h : dir[i]? = some e) :
    listdirAt dir i = e.record := by
  simp only [listdirAt, h]

/-- Behind the end every call has the same result. -/
theorem listdirAt_end {i : Nat} (h : dir.length ≤ i) :
    listdirAt dir i = ⟨0, cursorAt dir dir.length, none⟩ := by
  have hnone : dir[i]? = none := List.getElem?_eq_none_iff.mpr h
  simp only [listdirAt, hnone]

/-- One call at `k_i`. -/
theorem listdirCall_at {env : ListdirEnv} (hop : op.readdir = true)
    (hbackend : ListsDirectory dir ff.nodeid env.backend)
    (hlen : ∀ e ∈ dir, Platform.UKFS_DIRENT_RECLEN e.name.strlen ≤ env.len)
    {i : Nat} (hi : i ≤ dir.length) :
    listdirCall op ff env (cursorAt dir i) = some (listdirAt dir i) := by
  obtain ⟨bytes, hreply, hslice⟩ := hbackend ⟨env.unique, 0, 0, 1⟩ i hi
  have htrip := roundTrip_readdir env.buf hop hreply
  simp only [listdirCall, fusefsListdir, fusefsListdirEnter, htrip, Option.bind_some]
  cases hget : dir[i]? with
  | none =>
      -- behind the last entry only the empty answer is a slice
      have hend : i = dir.length := by
        have := List.getElem?_eq_none_iff.mp hget
        omega
      have hbytes : bytes = [] := by
        have hfront := hslice.slice
        rw [hend, List.drop_length] at hfront
        simpa using hfront
      subst hbytes
      rw [hend, listdirAt_end (Nat.le_refl _)]
      simp [fusefsListdirFinish]
  | some e =>
      obtain ⟨rest, rfl⟩ := hslice.next e hget
      have hpadded := hslice.size
      have hle := le_direntAlign (FUSE_NAME_OFFSET + e.name.strlen)
      simp only [List.length_append, DirEntry.encode, length_direntBytes,
        FUSE_NAME_OFFSET] at hpadded
      simp only [FUSE_NAME_OFFSET] at hle
      have hname : e.name.strlen < 2 ^ 32 := by omega
      have hnamelen : (UInt32.ofNat e.name.strlen).toNat = e.name.strlen := by
        rw [UInt32.toNat_ofNat']
        exact Nat.mod_eq_of_lt hname
      have hnonempty : (e.encode ++ rest).length ≠ 0 := by
        simp only [List.length_append, DirEntry.encode, length_direntBytes, FUSE_NAME_OFFSET]
        omega
      have hroom : ¬ env.len < Platform.UKFS_DIRENT_RECLEN e.name.strlen :=
        Nat.not_lt.mpr (hlen e (List.mem_of_getElem? hget))
      have hno : ¬ (some (ReplyData.bytes (e.encode ++ rest)) = none ∨
          (e.encode ++ rest).length = 0) := by
        rintro (h | h)
        · exact absurd h (by simp)
        · exact hnonempty h
      have herror : ¬ (0 : Int32) ≠ 0 := by decide
      simp only [fusefsListdirFinish, if_neg herror, if_neg hno]
      simp only [DirEntry.encode, firstNamelen_direntBytes, first_direntBytes hname, hnamelen,
        if_neg hroom, Option.map_some, listdirAt_entry hget, DirEntry.record, CStr.toBytes]
      simp

/-- The calls from `k_i` on return the entries behind it in order, then 0. -/
theorem listdirCalls_eq (hop : op.readdir = true) (envs : List ListdirEnv)
    (henvs : ∀ env ∈ envs, ListsDirectory dir ff.nodeid env.backend ∧
      ∀ e ∈ dir, Platform.UKFS_DIRENT_RECLEN e.name.strlen ≤ env.len)
    {i : Nat} (hi : i ≤ dir.length) :
    listdirCalls (listdirCall op ff) envs (cursorAt dir i) =
      (List.range envs.length).map fun j => some (listdirAt dir (i + j)) := by
  induction envs generalizing i with
  | nil => rfl
  | cons env envs ih =>
      obtain ⟨hbackend, hlen⟩ := henvs env List.mem_cons_self
      have hrest : ∀ env ∈ envs, _ := fun env h => henvs env (List.mem_cons_of_mem _ h)
      have hcall := listdirCall_at hop hbackend hlen hi
      rw [listdirCalls_cons hcall, List.length_cons, List.range_succ_eq_map, List.map_cons,
        List.map_map]
      refine congrArg (some (listdirAt dir i) :: ·) ?_
      cases hget : dir[i]? with
      | some e =>
          have hlt : i < dir.length := (List.getElem?_eq_some_iff.mp hget).1
          have hcursor : (listdirAt dir i).curp = cursorAt dir (i + 1) := by
            rw [listdirAt_entry hget]
            simp only [cursorAt, hget, DirEntry.record]
          rw [hcursor, ih hrest hlt]
          apply List.map_congr_left
          intro j _
          show some (listdirAt dir (i + 1 + j)) = some (listdirAt dir (i + (j + 1)))
          rw [show i + 1 + j = i + (j + 1) by omega]
      | none =>
          have hend : i = dir.length := by
            have := List.getElem?_eq_none_iff.mp hget
            omega
          have hcursor : (listdirAt dir i).curp = cursorAt dir i := by
            rw [hend, listdirAt_end (Nat.le_refl _)]
          rw [hcursor, ih hrest hi]
          apply List.map_congr_left
          intro j _
          show some (listdirAt dir (i + j)) = some (listdirAt dir (i + (j + 1)))
          rw [listdirAt_end (by omega), listdirAt_end (by omega)]

end Enumerate

/-! ## The directory buffer of the example backend -/

/-- The entries of a directory buffer of `size` bytes grown by `adds`: the
cookie of an entry is the size of the buffer that ends with it. -/
def dirbufEntries : Nat → List (CStr × UInt64) → List DirEntry
  | _, [] => []
  | size, add :: adds =>
      let size' := size + FUSE_DIRENT_ALIGN (FUSE_NAME_OFFSET + add.1.strlen)
      ⟨add.1, { stIno := add.2 }, .ofNat size'⟩ :: dirbufEntries size' adds

/-- The bytes of the first `i` entries. -/
def encodedLength (dir : List DirEntry) (i : Nat) : Nat :=
  ((dir.take i).flatMap DirEntry.encode).length

theorem dirbufAdd_eq (b : List UInt8) (name : CStr) (ino : UInt64) :
    dirbufAdd b name ino = b ++ direntBytes name { stIno := ino }
      (.ofNat (b.length + FUSE_DIRENT_ALIGN (FUSE_NAME_OFFSET + name.strlen))) := by
  simp [dirbufAdd, fuseAddDirentry]

theorem foldl_dirbufAdd (adds : List (CStr × UInt64)) (b : List UInt8) :
    adds.foldl (fun b add => dirbufAdd b add.1 add.2) b =
      b ++ (dirbufEntries b.length adds).flatMap DirEntry.encode := by
  induction adds generalizing b with
  | nil => simp [dirbufEntries]
  | cons add adds ih =>
      rw [List.foldl_cons, ih, dirbufAdd_eq]
      simp only [dirbufEntries, List.flatMap_cons, List.length_append, length_direntBytes,
        List.append_assoc]
      rfl

theorem cookie_dirbufEntries {adds : List (CStr × UInt64)} {size i : Nat} {e : DirEntry}
    (h : (dirbufEntries size adds)[i]? = some e) :
    e.cookie = .ofNat (size + encodedLength (dirbufEntries size adds) (i + 1)) := by
  induction adds generalizing size i with
  | nil => simp [dirbufEntries] at h
  | cons add adds ih =>
      cases i with
      | zero =>
          obtain rfl : _ = e := by simpa [dirbufEntries] using h
          simp [encodedLength, dirbufEntries, DirEntry.encode]
      | succ i =>
          have htail : (dirbufEntries (size + FUSE_DIRENT_ALIGN (FUSE_NAME_OFFSET + add.1.strlen))
              adds)[i]? = some e := by
            simpa [dirbufEntries] using h
          rw [ih htail]
          simp [encodedLength, dirbufEntries, DirEntry.encode, Nat.add_assoc]

/-- The cursors of a directory buffer are byte offsets into it. -/
theorem cursorAt_dirbufEntries {adds : List (CStr × UInt64)} {i : Nat}
    (hi : i ≤ (dirbufEntries 0 adds).length) :
    cursorAt (dirbufEntries 0 adds) i = .ofNat (encodedLength (dirbufEntries 0 adds) i) := by
  cases i with
  | zero => rfl
  | succ i =>
      obtain ⟨e, he⟩ : ∃ e, (dirbufEntries 0 adds)[i]? = some e :=
        ⟨_, List.getElem?_eq_getElem hi⟩
      simp only [cursorAt, he]
      rw [cookie_dirbufEntries he, Nat.zero_add]

theorem encodedLength_le (dir : List DirEntry) (i : Nat) :
    encodedLength dir i ≤ (dir.flatMap DirEntry.encode).length := by
  have hsplit := congrArg List.length
    (congrArg (List.flatMap DirEntry.encode) (List.take_append_drop i dir))
  rw [List.flatMap_append, List.length_append] at hsplit
  simp only [encodedLength]
  omega

/-- Behind the first `i` encodings come those of the other entries. -/
theorem drop_encodedLength (dir : List DirEntry) (i : Nat) :
    (dir.flatMap DirEntry.encode).drop (encodedLength dir i) =
      (dir.drop i).flatMap DirEntry.encode := by
  conv_lhs => rw [← List.take_append_drop i dir, List.flatMap_append, encodedLength]
  rw [List.drop_left']
  rw [List.take_append_drop]

/-- `reply_buf_limited` at an offset inside or at the end of the buffer. -/
theorem replyBufLimited_eq {buf : List UInt8} {n : Nat} (hn : n ≤ buf.length)
    (hsize : buf.length < 2 ^ 63) (maxsize : UInt64) :
    replyBufLimited buf (.ofNat n) maxsize =
      some (.buf ((buf.drop n).take maxsize.toNat)) := by
  have hoff : (Int64.ofNat n).toInt = n := Int64.toInt_ofNat_of_lt (by omega)
  have hlen : (Int64.ofNat buf.length).toInt = buf.length := Int64.toInt_ofNat_of_lt hsize
  have hnonneg : ¬ Int64.ofNat n < 0 := by
    rw [Int64.lt_iff_toInt_lt, hoff]
    simp
  have hnat : (Int64.ofNat n).toNatClampNeg = n := by
    rw [Int64.toNatClampNeg, hoff]
    rfl
  unfold replyBufLimited
  by_cases hlt : n < buf.length
  · have hinside : Int64.ofNat n < Int64.ofNat buf.length := by
      rw [Int64.lt_iff_toInt_lt, hoff, hlen]
      exact_mod_cast hlt
    have htake : (buf.drop n).take (min (buf.length - n) maxsize.toNat) =
        (buf.drop n).take maxsize.toNat := by
      rw [Nat.min_comm, ← List.take_take]
      rw [List.take_of_length_le (i := buf.length - n) (by simp)]
    rw [if_pos hinside, if_neg hnonneg, hnat]
    simp only [htake]
  · have hend : n = buf.length := by omega
    have hbehind : ¬ Int64.ofNat n < Int64.ofNat buf.length := by
      rw [Int64.lt_iff_toInt_lt, hoff, hlen, hend]
      simp
    rw [if_neg hbehind, hend, List.drop_length]
    simp

/-- With entries that fit a reply, `hello_ll_readdir` answers from its list. -/
theorem helloLlReaddir_slices {adds : List (CStr × UInt64)}
    (hsize : (adds.foldl (fun b add => dirbufAdd b add.1 add.2) []).length < 2 ^ 63)
    (hentry : ∀ e ∈ dirbufEntries 0 adds, e.encode.length ≤ 4096) {i : Nat}
    (hi : i ≤ (dirbufEntries 0 adds).length) :
    ∃ bytes, helloLlReaddir adds 1 4096 (cursorAt (dirbufEntries 0 adds) i).toInt64 =
        some (.buf bytes) ∧ SliceFrom (dirbufEntries 0 adds) i bytes := by
  have hbuf := foldl_dirbufAdd adds []
  simp only [List.length_nil, List.nil_append] at hbuf
  rw [hbuf] at hsize
  refine ⟨((dirbufEntries 0 adds).drop i |>.flatMap DirEntry.encode).take 4096, ?_, ?_⟩
  · rw [helloLlReaddir, if_neg (by decide), hbuf, cursorAt_dirbufEntries hi]
    show replyBufLimited _ (.ofNat (encodedLength (dirbufEntries 0 adds) i)) 4096 = _
    rw [replyBufLimited_eq (encodedLength_le _ i) hsize, drop_encodedLength]
    rfl
  · refine ⟨by simp, List.take_prefix _ _, ?_⟩
    intro e he
    have hcons : (dirbufEntries 0 adds).drop i = e :: (dirbufEntries 0 adds).drop (i + 1) := by
      obtain ⟨hlt, rfl⟩ := List.getElem?_eq_some_iff.mp he
      exact List.drop_eq_getElem_cons hlt
    have hfit := hentry e (List.mem_of_getElem? he)
    rw [hcons, List.flatMap_cons, List.take_append, List.take_of_length_le hfit]
    exact List.prefix_append _ _

end UkfsFuse
