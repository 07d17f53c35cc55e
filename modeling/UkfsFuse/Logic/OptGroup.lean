import UkfsFuse.Core.Escaped
import UkfsFuse.Source.Opt

/-!
# Option groups

The in-place loop over an option group hands out the words of the group, each
unescaped (`processOptionGroup_eq`). Its two cursors never cross: what is
written of a word ends in front of the text that is still to be read.
-/

namespace UkfsFuse

open UkfsFuse.Core

variable {σ : Type}

/-! ## Words -/

/-- The escape sequences of a group: three octal digits, or one byte that
stands for itself. -/
def optUnesc : List UInt8 → Option (UInt8 × List UInt8)
  | [] => none
  | c1 :: rest =>
      match rest with
      | c2 :: c3 :: rest' =>
          if isOctal DIGIT_3 c1 ∧ isOctal DIGIT_7 c2 ∧ isOctal DIGIT_7 c3 then
            some ((c1 - DIGIT_0) * 0o100 + (c2 - DIGIT_0) * 0o010 + (c3 - DIGIT_0), rest')
          else some (c1, rest)
      | _ => some (c1, rest)

theorem optUnesc_suffix {xs ys : List UInt8} {a : UInt8} (h : optUnesc xs = some (a, ys)) :
    ∃ x, x :: ys <:+ xs := by
  unfold optUnesc at h
  split at h
  · cases h
  · split at h
    · split at h
      · cases h
        exact ⟨_, (List.suffix_cons _ _).trans (List.suffix_cons _ _)⟩
      · cases h
        exact ⟨_, List.suffix_refl _⟩
    · cases h
      exact ⟨_, List.suffix_refl _⟩

/-- A byte that is no digit stands for itself. -/
theorem optUnesc_cons {c : UInt8} (hc : isOctal DIGIT_3 c = false) (xs : List UInt8) :
    optUnesc (c :: xs) = some (c, xs) := by
  unfold optUnesc
  cases xs with
  | nil => rfl
  | cons c2 xs =>
      cases xs with
      | nil => rfl
      | cons c3 xs => simp [hc]

def optEscaping : Escaping UInt8 where
  sep := COMMA
  esc := BACKSLASH
  unesc := optUnesc
  sep_ne_esc := by decide
  unesc_suffix := optUnesc_suffix
  unesc_sep := optUnesc_cons (by decide)
  unesc_esc := optUnesc_cons (by decide)

/-- The options of a group. -/
def groupWords (opts : CStr) : List CStr := (optEscaping.words [] opts.bytes).map cstr

theorem cstr_bytes (s : CStr) : cstr s.bytes = s := by
  have := CStr.strndup_append s []
  simpa [cstr, CStr.strlen] using this

/-- A string ends at its first NUL, whatever lies behind. -/
theorem cstr_append_nul (bs rest : List UInt8) : cstr (bs ++ 0 :: rest) = cstr bs := by
  have hcut : (bs ++ 0 :: rest).takeWhile (· ≠ 0) = bs.takeWhile (· ≠ 0) := by
    induction bs with
    | nil => simp
    | cons b bs ih =>
        by_cases hb : b = 0
        · simp [hb]
        · simpa [List.takeWhile_cons, hb] using ih
  simp only [cstr, CStr.strndup, List.take_length, hcut]

/-! ## The buffer -/

section Buffer

variable {buf text rest : List UInt8} {s d : Nat} {b c : UInt8}

theorem getElem?_of_drop {α : Type} {xs ys : List α} (hdrop : xs.drop s = ys) (k : Nat) :
    xs[s + k]? = ys[k]? := by
  rw [← hdrop, List.getElem?_drop]

/-- Three digits behind an escape: the byte they name. -/
theorem optUnesc_octal {c1 c2 c3 : UInt8} (hc1 : isOctal DIGIT_3 c1) (hc2 : isOctal DIGIT_7 c2)
    (hc3 : isOctal DIGIT_7 c3) (xs : List UInt8) :
    optUnesc (c1 :: c2 :: c3 :: xs) =
      some ((c1 - DIGIT_0) * 0o100 + (c2 - DIGIT_0) * 0o010 + (c3 - DIGIT_0), xs) :=
  if_pos ⟨hc1, hc2, hc3⟩

/-- The loop looks at the digits one after the other; the NUL is none. -/
theorem unescapeAt_escape (h0 : buf[s]? = some BACKSLASH)
    (hat : ∀ k, buf[s + 1 + k]? = (c :: rest ++ [0])[k]?) (hne : c ≠ 0) :
    ∃ b k, optUnesc (c :: rest) = some (b, rest.drop k) ∧ k ≤ rest.length ∧
      unescapeAt buf s = some (b, s + 1 + k) := by
  have h1 : buf[s + 1]? = some c := hat 0
  have hzero : isOctal DIGIT_7 0 = false := by decide
  by_cases hc1 : isOctal DIGIT_3 c
  · cases rest with
    | nil =>
        have h2 : buf[s + 2]? = some 0 := hat 1
        exact ⟨c, 0, rfl, Nat.zero_le _, by simp [unescapeAt, h0, h1, h2, hne, hzero]⟩
    | cons c2 rest =>
        have h2 : buf[s + 2]? = some c2 := hat 1
        by_cases hc2 : isOctal DIGIT_7 c2
        · cases rest with
          | nil =>
              have h3 : buf[s + 3]? = some 0 := hat 2
              exact ⟨c, 0, rfl, Nat.zero_le _, by simp [unescapeAt, h0, h1, h2, h3, hne, hzero]⟩
          | cons c3 rest =>
              have h3 : buf[s + 3]? = some c3 := hat 2
              by_cases hc3 : isOctal DIGIT_7 c3
              · refine ⟨_, 2, optUnesc_octal hc1 hc2 hc3 rest, by simp, ?_⟩
                simp [unescapeAt, h0, h1, h2, h3, hne, hc1, hc2, hc3]
              · exact ⟨c, 0, by simp [optUnesc, hc3], Nat.zero_le _,
                  by simp [unescapeAt, h0, h1, h2, h3, hne, hc3]⟩
        · have hunesc : optUnesc (c :: c2 :: rest) = some (c, c2 :: rest) := by
            cases rest <;> simp [optUnesc, hc2]
          exact ⟨c, 0, hunesc, Nat.zero_le _, by simp [unescapeAt, h0, h1, h2, hne, hc2]⟩
  · exact ⟨c, 0, optUnesc_cons (by simpa using hc1) _, Nat.zero_le _,
      by simp [unescapeAt, h0, h1, hne, hc1]⟩

/-- At a byte that ends no option, the loop takes the symbol the text starts
with. -/
theorem unescapeAt_eq (hdrop : buf.drop s = c :: rest ++ [0]) (hnul : 0 ∉ rest) :
    ∃ s', unescapeAt buf s = some ((optEscaping.symbol c rest).1, s') ∧
      buf.drop (s' + 1) = (optEscaping.symbol c rest).2 ++ [0] := by
  have hat (k : Nat) : buf[s + k]? = (c :: rest ++ [0])[k]? := getElem?_of_drop hdrop k
  have hdropk (k : Nat) : buf.drop (s + k) = (c :: rest ++ [0]).drop k := by
    rw [← hdrop, List.drop_drop]
  have h0 : buf[s]? = some c := hat 0
  by_cases hc : c = BACKSLASH
  · subst hc
    cases rest with
    | nil =>
        have h1 : buf[s + 1]? = some 0 := hat 1
        exact ⟨s, by simp [unescapeAt, h0, h1, Escaping.symbol, optEscaping, optUnesc],
          hdropk 1⟩
    | cons c1 rest =>
        have hne : c1 ≠ 0 := fun h => hnul (h ▸ List.mem_cons_self)
        have hbehind (k : Nat) : buf[s + 1 + k]? = (c1 :: rest ++ [0])[k]? := by
          rw [Nat.add_assoc, Nat.add_comm 1 k, hat]
          rfl
        obtain ⟨b, k, hunesc, hk, hbyte⟩ := unescapeAt_escape h0 hbehind hne
        have hsymbol : optEscaping.symbol BACKSLASH (c1 :: rest) = (b, rest.drop k) := by
          show (if BACKSLASH = BACKSLASH then (optUnesc (c1 :: rest)).getD _ else _) = _
          rw [if_pos rfl, hunesc, Option.getD_some]
        refine ⟨s + 1 + k, by rw [hbyte, hsymbol], ?_⟩
        rw [show s + 1 + k + 1 = s + (k + 2) by omega, hdropk, hsymbol]
        show (rest ++ [0]).drop k = rest.drop k ++ [0]
        rw [List.drop_append_of_le_length hk]
  · refine ⟨s, ?_, ?_⟩
    · simp [unescapeAt, h0, hc, Escaping.symbol, optEscaping]
    · simp [hdropk, Escaping.symbol, optEscaping, hc]

theorem lt_of_drop (hdrop : buf.drop s = text ++ [0]) : s < buf.length := by
  have := congrArg List.length hdrop
  simp only [List.length_drop, List.length_append, List.length_singleton] at this
  omega

theorem cstr_set_nul (hd : d < buf.length) : cstr (buf.set d 0) = cstr (buf.take d) := by
  rw [List.set_eq_take_append_cons_drop, if_pos hd, cstr_append_nul]

/-- What the loop does with the bytes from `s` on: it processes the words of
the text one by one. `acc` is what it has written of the current word, which
never reaches the text still to be read. -/
theorem processRealOptionGroup_eq (P : OptParser σ) (argv : List CStr) {acc : List UInt8}
    {ctx : FuseOptContext σ} (hd : d ≤ s) (hacc : buf.take d = acc)
    (hdrop : buf.drop s = text ++ [0]) (hnul : 0 ∉ text) :
    P.processRealOptionGroup argv buf s d ctx =
      (optEscaping.words acc text).foldlM
        (fun ctx w => P.processGopt argv ctx (cstr w) true) ctx := by
  induction acc, text using Escaping.words.induct (E := optEscaping)
    generalizing buf s d ctx with
  | case1 acc =>
      have hs := lt_of_drop hdrop
      have hbyte : buf[s] = 0 := List.getElem_eq_iff hs |>.mpr (getElem?_of_drop hdrop 0)
      rw [OptParser.processRealOptionGroup, dif_pos hs]
      simp only [hbyte, true_or, if_true, cstr_set_nul (Nat.lt_of_le_of_lt hd hs), hacc,
        Escaping.words_nil, List.foldlM_cons, List.foldlM_nil]
  | case2 acc rest ih =>
      have hs := lt_of_drop hdrop
      have hbyte : buf[s] = COMMA := List.getElem_eq_iff hs |>.mpr (getElem?_of_drop hdrop 0)
      have hrest : (buf.set d 0).drop (s + 1) = rest ++ [0] := by
        rw [List.drop_set_of_lt (by omega), ← List.drop_drop, hdrop]
        rfl
      rw [OptParser.processRealOptionGroup, dif_pos hs, Escaping.words_sep]
      simp only [hbyte, or_true, if_true, cstr_set_nul (Nat.lt_of_le_of_lt hd hs), hacc,
        List.foldlM_cons]
      refine bind_congr fun ctx => ?_
      exact ih (Nat.zero_le _) List.take_zero hrest
        (fun h => hnul (List.mem_cons_of_mem _ h))
  | case3 acc c rest hne ih =>
      have hs := lt_of_drop hdrop
      have hbyte : buf[s] = c := List.getElem_eq_iff hs |>.mpr (getElem?_of_drop hdrop 0)
      have hc : c ≠ 0 := fun h => hnul (h ▸ List.mem_cons_self)
      have hrest : 0 ∉ rest := fun h => hnul (List.mem_cons_of_mem _ h)
      obtain ⟨s', hstep, hleft⟩ := unescapeAt_eq hdrop hrest
      have hs' := le_of_unescapeAt hstep
      rw [OptParser.processRealOptionGroup, dif_pos hs, Escaping.words_symbol _ _ _ hne]
      have hmid : ¬ (c = 0 ∨ c = COMMA) := not_or.mpr ⟨hc, hne⟩
      simp only [hbyte, hmid, if_false]
      split
      · rename_i hnone
        rw [hstep] at hnone
        cases hnone
      · rename_i b t hsome
        obtain ⟨rfl, rfl⟩ := Prod.mk.inj (Option.some.inj (hstep.symm.trans hsome))
        apply ih
        · omega
        · have hd' : d < (buf.set d (optEscaping.symbol c rest).1).length := by
            rw [List.length_set]
            omega
          rw [List.take_add_one, List.take_set_of_le (Nat.le_refl d), hacc,
            List.getElem?_eq_getElem hd', List.getElem_set_self, Option.toList_some]
        · rw [List.drop_set_of_lt (by omega)]
          exact hleft
        · exact fun h => hrest ((optEscaping.symbol_suffix c rest).mem h)

end Buffer

theorem processOptionGroup_eq (P : OptParser σ) (argv : List CStr) (ctx : FuseOptContext σ)
    (opts : CStr) :
    P.processOptionGroup argv ctx opts = strdup opts >>= fun copy =>
      (groupWords copy).foldlM (fun ctx w => P.processGopt argv ctx w true) ctx := by
  refine bind_congr fun copy => ?_
  have hloop : P.processRealOptionGroup argv copy.toBytes 0 0 ctx = _ :=
    processRealOptionGroup_eq P argv (Nat.le_refl 0)
    (List.take_zero (l := copy.toBytes)) rfl copy.noNul
  rw [hloop, groupWords, List.foldlM_map]

end UkfsFuse
