import Mathlib.Data.List.DropRight

/-!
# Words in one text

Words joined by a separator, where a separator that belongs to a word is
escaped. What an escape sequence stands for is a parameter, `unesc`: formats
differ in what else they let stand behind the escape symbol. A reader that
follows `words` gets back what `join` put together (`words_join`).
-/

namespace UkfsFuse.Core

/-- The two special symbols of a format and its escape sequences: `unesc` is
given the text behind an escape symbol and returns the symbol the sequence
stands for and the text behind it, `none` when the escape symbol stands for
itself. -/
structure Escaping (α : Type) [DecidableEq α] where
  sep : α
  esc : α
  unesc : List α → Option (α × List α)
  sep_ne_esc : sep ≠ esc
  unesc_suffix : ∀ {xs a ys}, unesc xs = some (a, ys) → ∃ x, x :: ys <:+ xs
  unesc_sep : ∀ xs, unesc (sep :: xs) = some (sep, xs)
  unesc_esc : ∀ xs, unesc (esc :: xs) = some (esc, xs)

namespace Escaping

variable {α : Type} [DecidableEq α] (E : Escaping α)

/-- The symbol a text `c :: rest` starts with, and the text behind it. -/
def symbol (c : α) (rest : List α) : α × List α :=
  if c = E.esc then (E.unesc rest).getD (c, rest) else (c, rest)

/-- Reading a symbol leaves an end of the text. -/
theorem symbol_suffix (c : α) (rest : List α) : (E.symbol c rest).2 <:+ rest := by
  unfold symbol
  split
  · cases hu : E.unesc rest with
    | none => exact List.suffix_refl rest
    | some p =>
        obtain ⟨x, hx⟩ := E.unesc_suffix hu
        exact (List.suffix_cons x p.2).trans hx
  · exact List.suffix_refl rest

/-- The words of a text, `acc` in front of the first. -/
def words (acc : List α) : List α → List (List α)
  | [] => [acc]
  | c :: rest =>
      if c = E.sep then acc :: words [] rest
      else words (acc ++ [(E.symbol c rest).1]) (E.symbol c rest).2
termination_by text => text.length
decreasing_by
  · simp
  · have := (E.symbol_suffix c rest).length_le
    simp only [List.length_cons]
    omega

def escape (w : List α) : List α :=
  w.flatMap fun c => if c = E.sep ∨ c = E.esc then [E.esc, c] else [c]

/-- The words as one text. -/
def join : List (List α) → List α
  | [] => []
  | [w] => E.escape w
  | w :: ws => E.escape w ++ E.sep :: join ws

@[simp] theorem words_nil (acc : List α) : E.words acc [] = [acc] := by
  rw [words]

theorem words_sep (acc rest : List α) :
    E.words acc (E.sep :: rest) = acc :: E.words [] rest := by
  rw [words, if_pos rfl]

theorem words_symbol {c : α} (acc rest : List α) (hne : c ≠ E.sep) :
    E.words acc (c :: rest) =
      E.words (acc ++ [(E.symbol c rest).1]) (E.symbol c rest).2 := by
  rw [words, if_neg hne]

@[simp] theorem escape_nil : E.escape [] = [] := rfl

theorem escape_cons (c : α) (w : List α) :
    E.escape (c :: w) = (if c = E.sep ∨ c = E.esc then [E.esc, c] else [c]) ++ E.escape w := by
  simp [escape]

/-- An escaped word is read as the word. -/
theorem words_escape (acc w rest : List α) :
    E.words acc (E.escape w ++ rest) = E.words (acc ++ w) rest := by
  induction w generalizing acc with
  | nil => simp
  | cons c w ih =>
      have hstep : E.words acc
          ((if c = E.sep ∨ c = E.esc then [E.esc, c] else [c]) ++ (E.escape w ++ rest)) =
          E.words (acc ++ [c]) (E.escape w ++ rest) := by
        split
        · rename_i hc
          have hunesc : E.unesc (c :: (E.escape w ++ rest)) =
              some (c, E.escape w ++ rest) := by
            rcases hc with rfl | rfl
            · exact E.unesc_sep _
            · exact E.unesc_esc _
          have hsymbol : E.symbol E.esc (c :: (E.escape w ++ rest)) =
              (c, E.escape w ++ rest) := by
            rw [symbol, if_pos rfl, hunesc, Option.getD_some]
          show E.words acc (E.esc :: c :: (E.escape w ++ rest)) = _
          rw [words_symbol E _ _ E.sep_ne_esc.symm, hsymbol]
        · rename_i hc
          obtain ⟨hsep, hesc⟩ := not_or.mp hc
          show E.words acc (c :: (E.escape w ++ rest)) = _
          rw [words_symbol E _ _ hsep, symbol, if_neg hesc]
      rw [escape_cons, List.append_assoc, hstep, ih, List.append_assoc, List.singleton_append]

theorem join_cons (w : List α) {ws : List (List α)} (hne : ws ≠ []) :
    E.join (w :: ws) = E.escape w ++ E.sep :: E.join ws := by
  cases ws with
  | nil => exact absurd rfl hne
  | cons v ws => rfl

/-- What was joined is read back. -/
theorem words_join {ws : List (List α)} (hne : ws ≠ []) : E.words [] (E.join ws) = ws := by
  induction ws with
  | nil => exact absurd rfl hne
  | cons w ws ih =>
      by_cases hws : ws = []
      · subst hws
        have := E.words_escape [] w []
        simpa [join] using this
      · rw [join_cons E w hws, words_escape, words_sep, ih hws, List.nil_append]

/-- A word joined to the end of others. -/
theorem join_append_singleton (w : List α) {ws : List (List α)} (hne : ws ≠ []) :
    E.join (ws ++ [w]) = E.join ws ++ E.sep :: E.escape w := by
  induction ws with
  | nil => exact absurd rfl hne
  | cons v ws ih =>
      by_cases hws : ws = []
      · subst hws
        rfl
      · rw [List.cons_append, join_cons E v (by simp), join_cons E v hws, ih hws]
        simp

theorem escape_eq_nil {w : List α} : E.escape w = [] ↔ w = [] := by
  cases w with
  | nil => simp
  | cons c w =>
      rw [escape_cons]
      split <;> simp

/-- Escaping adds nothing but escape symbols. -/
theorem mem_escape {c : α} {w : List α} (h : c ∈ E.escape w) : c = E.esc ∨ c ∈ w := by
  obtain ⟨b, hb, hc⟩ := List.mem_flatMap.mp h
  split at hc
  · rcases List.mem_cons.mp hc with rfl | hc
    · exact Or.inl rfl
    · exact Or.inr (List.mem_singleton.mp hc ▸ hb)
  · exact Or.inr (List.mem_singleton.mp hc ▸ hb)

/-- The joined text is empty only when there is nothing to tell the words
apart from none. -/
theorem join_eq_nil {ws : List (List α)} : E.join ws = [] ↔ ws = [] ∨ ws = [[]] := by
  cases ws with
  | nil => simp [join]
  | cons w ws =>
      by_cases hws : ws = []
      · subst hws
        simp [join, escape_eq_nil]
      · simp [join_cons E w hws, hws]

/-! A writer that adds one word at a time and sets a separator only behind a
nonempty text loses the empty words in front. -/

/-- A text with one more word. -/
def addWord (text w : List α) : List α :=
  text ++ ((if text = [] then [] else [E.sep]) ++ E.escape w)

theorem mem_addWord {c : α} {text w : List α} (h : c ∈ E.addWord text w) :
    c ∈ text ∨ c = E.sep ∨ c = E.esc ∨ c ∈ w := by
  rcases List.mem_append.mp h with h | h
  · exact Or.inl h
  · rcases List.mem_append.mp h with h | h
    · split at h
      · cases h
      · exact Or.inr (Or.inl (List.mem_singleton.mp h))
    · exact Or.inr (Or.inr (E.mem_escape h))

/-- Additions only make a text longer. -/
theorem length_le_foldl_addWord (ws : List (List α)) (text : List α) :
    text.length ≤ (ws.foldl E.addWord text).length := by
  induction ws generalizing text with
  | nil => exact Nat.le_refl _
  | cons w ws ih =>
      have hone : text.length ≤ (E.addWord text w).length := by
        rw [addWord, List.length_append]
        omega
      exact Nat.le_trans hone (ih _)

theorem addWord_join {ws : List (List α)} (w : List α)
    (hfront : ws.dropWhile List.isEmpty = ws) :
    E.addWord (E.join ws) w = E.join ((ws ++ [w]).dropWhile List.isEmpty) := by
  cases ws with
  | nil => cases w <;> simp [addWord, join]
  | cons v ws =>
      have hv : ¬ v.isEmpty = true := by
        intro hempty
        rw [List.dropWhile_cons_of_pos hempty] at hfront
        have := (List.dropWhile_suffix (l := ws) List.isEmpty).length_le
        rw [hfront, List.length_cons] at this
        omega
      have hne : E.join (v :: ws) ≠ [] := by
        rw [Ne, join_eq_nil]
        rintro (h | h)
        · cases h
        · obtain ⟨rfl, -⟩ := List.cons.inj h
          exact hv rfl
      have hkeep : (v :: ws ++ [w]).dropWhile List.isEmpty = v :: ws ++ [w] :=
        List.dropWhile_cons_of_neg hv
      rw [addWord, if_neg hne, hkeep, join_append_singleton E w (by simp)]
      rfl

/-- What a sequence of additions leaves of a text and the words added. -/
theorem foldl_addWord_join (ws : List (List α)) {vs : List (List α)}
    (hfront : vs.dropWhile List.isEmpty = vs) :
    ws.foldl E.addWord (E.join vs) = E.join ((vs ++ ws).dropWhile List.isEmpty) := by
  induction ws generalizing vs with
  | nil => rw [List.append_nil, hfront, List.foldl_nil]
  | cons w ws ih =>
      rw [List.foldl_cons, E.addWord_join w hfront, ih (List.dropWhile_idempotent _ _)]
      congr 1
      have hsplit : (vs ++ [w] ++ ws).dropWhile List.isEmpty = _ := List.dropWhile_append
      rw [List.append_cons vs w ws, hsplit, List.dropWhile_append, List.dropWhile_idempotent]

theorem foldl_addWord (ws : List (List α)) :
    ws.foldl E.addWord [] = E.join (ws.dropWhile List.isEmpty) := by
  have := @foldl_addWord_join _ _ E ws [] rfl
  simpa [join] using this

end Escaping

end UkfsFuse.Core
