import Mathlib.Data.List.TakeWhile
import Mathlib.Data.Nat.Notation
import Mathlib.Tactic.Common

/-!
# Words between separators

The words of a list are its maximal runs without the separator that are not empty. A reader that skips
separators and takes at most `n` elements of a run at a time loses no element, so it takes the words one
by one just if none of them has more than `n` elements.
-/

namespace SBoy28.Lib

variable {α : Type} {n : ℕ}

section Lengths

variable {ws : List (List α)}

lemma length_flatten_take_le (n : ℕ) (ws : List (List α)) :
    (ws.map (List.take n)).flatten.length ≤ ws.flatten.length := by
  induction ws with
  | nil => simp
  | cons w ws ih =>
    rw [List.map_cons, List.flatten_cons, List.flatten_cons, List.length_append, List.length_append,
      List.length_take]
    omega

/-- The first `n` elements of some lists make up the lists only if these are no longer. -/
lemma length_le_of_flatten_take (h : (ws.map (List.take n)).flatten.length = ws.flatten.length) :
    ∀ w ∈ ws, w.length ≤ n := by
  induction ws with
  | nil => simp
  | cons w ws ih =>
    have hle := length_flatten_take_le n ws
    rw [List.map_cons, List.flatten_cons, List.flatten_cons, List.length_append, List.length_append,
      List.length_take] at h
    intro v hv
    rcases List.mem_cons.mp hv with rfl | hv
    · omega
    · exact ih (by omega) v hv

end Lengths

variable [DecidableEq α] {sep : α} {l w : List α}

section Words

/-- The maximal non-empty runs without `sep`, in order. -/
def words (sep : α) (l : List α) : List (List α) := (l.splitOn sep).filter (· ≠ [])

@[simp] lemma words_nil : words sep [] = [] := by
  simp [words]

lemma words_append_sep (l l' : List α) : words sep (l ++ sep :: l') = words sep l ++ words sep l' := by
  rw [words, List.splitOn_append_cons_self, List.filter_append, words, words]

@[simp] lemma words_cons_sep (l : List α) : words sep (sep :: l) = words sep l := by
  have happ : words sep ([] ++ sep :: l) = _ := words_append_sep [] l
  rwa [List.nil_append, words_nil, List.nil_append] at happ

lemma words_of_notMem (hne : w ≠ []) (hw : sep ∉ w) : words sep w = [w] := by
  rw [words, List.splitOn_eq_singleton hw]
  simp [hne]

lemma words_append (hne : w ≠ []) (hw : sep ∉ w) (hl : ∀ c ∈ l.head?, c = sep) :
    words sep (w ++ l) = w :: words sep l := by
  cases l with
  | nil => rw [List.append_nil, words_of_notMem hne hw, words_nil]
  | cons c l =>
    obtain rfl : c = sep := hl c rfl
    rw [words_append_sep, words_of_notMem hne hw, words_cons_sep, List.singleton_append]

lemma words_dropWhile (l : List α) : words sep (l.dropWhile (· = sep)) = words sep l := by
  induction l with
  | nil => rfl
  | cons c l ih =>
    by_cases hc : c = sep
    · subst hc
      rw [List.dropWhile_cons_of_pos (by simp), ih, words_cons_sep]
    · rw [List.dropWhile_cons_of_neg (by simpa using hc)]

lemma filter_dropWhile (l : List α) : (l.dropWhile (· = sep)).filter (· ≠ sep) = l.filter (· ≠ sep) := by
  induction l with
  | nil => rfl
  | cons c l ih =>
    by_cases hc : c = sep
    · rw [List.dropWhile_cons_of_pos (by simpa using hc), ih, List.filter_cons_of_neg (by simpa using hc)]
    · rw [List.dropWhile_cons_of_neg (by simpa using hc)]

lemma filter_word (hw : sep ∉ w) : w.filter (· ≠ sep) = w := by
  rw [List.filter_eq_self]
  intro c hc
  have hne : c ≠ sep := fun he => hw (he ▸ hc)
  simpa using hne

/-- After the separators in front there is either nothing or a word. -/
lemma dropWhile_split (sep : α) (l : List α) : l.dropWhile (· = sep) = [] ∨ ∃ w rest,
    l.dropWhile (· = sep) = w ++ rest ∧ (w ++ rest).takeWhile (· ≠ sep) = w ∧ w ≠ [] ∧ sep ∉ w ∧
      ∀ c ∈ rest.head?, c = sep := by
  cases hp : l.dropWhile (· = sep) with
  | nil => exact Or.inl rfl
  | cons c p =>
    have hc : c ≠ sep := by
      have hstop := List.head?_dropWhile_not (fun c => decide (c = sep)) l
      rw [hp] at hstop
      simpa using hstop
    refine Or.inr ⟨(c :: p).takeWhile (· ≠ sep), (c :: p).dropWhile (· ≠ sep), ?_, ?_, by simp [hc], ?_, ?_⟩
    · exact List.takeWhile_append_dropWhile.symm
    · rw [List.takeWhile_append_dropWhile]
    · intro hm
      simpa using List.mem_takeWhile_imp hm
    · intro b hb
      have hstop := List.head?_dropWhile_not (fun c => decide (c ≠ sep)) (c :: p)
      rw [Option.mem_def.mp hb] at hstop
      simpa using hstop

lemma length_dropWhile_le (sep : α) (l : List α) : (l.dropWhile (· = sep)).length ≤ l.length :=
  (List.dropWhile_suffix _).length_le

/-- Either there is no word, or a first one and the words of the rest. -/
lemma words_cases (sep : α) (l : List α) : (words sep l = [] ∧ l.filter (· ≠ sep) = []) ∨ ∃ w rest,
    words sep l = w :: words sep rest ∧ l.filter (· ≠ sep) = w ++ rest.filter (· ≠ sep) ∧ w ≠ [] ∧ sep ∉ w ∧
      rest.length < l.length := by
  rw [← words_dropWhile, ← filter_dropWhile]
  rcases dropWhile_split sep l with hp | ⟨w, rest, hp, -, hne, hw, hrest⟩
  · left
    simp [hp]
  · right
    have hle := length_dropWhile_le sep l
    have hpos := List.length_pos_iff.mpr hne
    rw [hp, List.length_append] at hle
    refine ⟨w, rest, ?_, ?_, hne, hw, by omega⟩
    · rw [hp, words_append hne hw hrest]
    · rw [hp, List.filter_append, filter_word hw]

lemma flatten_words (l : List α) : (words sep l).flatten = l.filter (· ≠ sep) := by
  induction hn : l.length using Nat.strong_induction_on generalizing l with
  | h n ih =>
    rcases words_cases sep l with ⟨hnil, hfilter⟩ | ⟨w, rest, hcons, hfilter, -, -, hlt⟩
    · rw [hnil, hfilter, List.flatten_nil]
    · rw [hcons, hfilter, List.flatten_cons, ih rest.length (hn ▸ hlt) rest rfl]

lemma mem_words (hw : w ∈ words sep l) : w ≠ [] ∧ sep ∉ w := by
  induction hn : l.length using Nat.strong_induction_on generalizing l with
  | h n ih =>
    rcases words_cases sep l with ⟨hnil, -⟩ | ⟨v, rest, hcons, -, hne, hv, hlt⟩
    · rw [hnil] at hw
      cases hw
    · rw [hcons] at hw
      rcases List.mem_cons.mp hw with rfl | hw
      · exact ⟨hne, hv⟩
      · exact ih rest.length (hn ▸ hlt) hw rfl

end Words

section Reader

/-- Skip separators, take up to `n` elements of the run that follows, and skip separators. -/
def cutWord (sep : α) (n : ℕ) (l : List α) : Option (List α × List α) :=
  match l.dropWhile (· = sep) with
  | [] => none
  | p =>
    let w := (p.takeWhile (· ≠ sep)).take n
    some (w, (p.drop w.length).dropWhile (· = sep))

/-- What the reader takes, turn after turn, `none` if it is not through after `fuel` turns. -/
def cutWords (sep : α) (n : ℕ) : ℕ → List α → Option (List (List α))
  | 0, _ => none
  | fuel + 1, l =>
    match cutWord sep n l with
    | none => some []
    | some (w, rest) => (cutWords sep n fuel rest).map (w :: ·)

lemma cutWord_of_nil (h : l.dropWhile (· = sep) = []) : cutWord sep n l = none := by
  rw [cutWord, h]

lemma cutWord_of_append {rest : List α} (h : l.dropWhile (· = sep) = w ++ rest)
    (htake : (w ++ rest).takeWhile (· ≠ sep) = w) (hne : w ≠ []) :
    cutWord sep n l = some (w.take n, (w.drop n ++ rest).dropWhile (· = sep)) := by
  have hdrop : (w ++ rest).drop (w.take n).length = w.drop n ++ rest := by
    rw [List.length_take]
    rcases Nat.le_total n w.length with hle | hle
    · rw [Nat.min_eq_left hle, List.drop_append_of_le_length hle]
    · rw [Nat.min_eq_right hle, List.drop_eq_nil_of_le hle, List.nil_append, List.drop_left]
  obtain ⟨c, v, rfl⟩ := List.exists_cons_of_ne_nil hne
  rw [cutWord, h]
  simp only [List.cons_append] at htake hdrop ⊢
  rw [htake, hdrop]

/-- The reader gets through, loses no element, and takes words of at most `n` elements whole. -/
theorem cutWords_spec (sep : α) (hn : 0 < n) (l : List α) : ∃ ws,
    (∀ fuel, l.length < fuel → cutWords sep n fuel l = some ws) ∧ ws.flatten = l.filter (· ≠ sep) ∧
      ((∀ w ∈ words sep l, w.length ≤ n) → ws = words sep l) := by
  induction hm : l.length using Nat.strong_induction_on generalizing l with
  | h m ih =>
    rw [← words_dropWhile, ← filter_dropWhile]
    have hle := length_dropWhile_le sep l
    rcases dropWhile_split sep l with hp | ⟨w, rest, hp, htake, hne, hw, hrest⟩
    · refine ⟨[], fun fuel hfuel => ?_, by simp [hp], fun _ => by simp [hp]⟩
      obtain ⟨fuel, rfl⟩ : ∃ k, fuel = k + 1 := ⟨fuel - 1, by omega⟩
      rw [cutWords, cutWord_of_nil hp]
    · have hcut := cutWord_of_append (n := n) hp htake hne
      have hpos := List.length_pos_iff.mpr hne
      have hshort : ((w.drop n ++ rest).dropWhile (· = sep)).length < m := by
        refine Nat.lt_of_le_of_lt (length_dropWhile_le sep _) ?_
        rw [hp, List.length_append] at hle
        rw [List.length_append, List.length_drop]
        omega
      obtain ⟨ws, hws, hflat, hwords⟩ := ih _ hshort _ rfl
      rw [filter_dropWhile] at hflat
      rw [words_dropWhile] at hwords
      refine ⟨w.take n :: ws, fun fuel hfuel => ?_, ?_, fun hlen => ?_⟩
      · obtain ⟨fuel, rfl⟩ : ∃ k, fuel = k + 1 := ⟨fuel - 1, by omega⟩
        rw [cutWords, hcut]
        simp only [hws fuel (by omega), Option.map_some]
      · have hrestw : sep ∉ w.drop n := fun hm => hw (List.mem_of_mem_drop hm)
        rw [hp, List.flatten_cons, hflat, List.filter_append, List.filter_append, filter_word hrestw,
          filter_word hw, ← List.append_assoc, List.take_append_drop]
      · rw [hp, words_append hne hw hrest] at hlen ⊢
        have hwn := hlen w List.mem_cons_self
        rw [List.drop_eq_nil_of_le hwn, List.nil_append] at hwords
        rw [List.take_of_length_le hwn, hwords fun v hv => hlen v (List.mem_cons_of_mem w hv)]

/-- The reader takes the words one by one, each up to its first `n` elements, just if no word is longer. -/
theorem cutWords_iff (hn : 0 < n) (l : List α) :
    (∃ ws, (∀ fuel, l.length < fuel → cutWords sep n fuel l = some ws) ∧ ws = (words sep l).map (List.take n)) ↔
      ∀ w ∈ words sep l, w.length ≤ n := by
  obtain ⟨ws, hws, hflat, hwords⟩ := cutWords_spec sep hn l
  constructor
  · rintro ⟨vs, hvs, rfl⟩
    have hsame := Option.some.inj ((hvs _ (Nat.lt_succ_self _)).symm.trans (hws _ (Nat.lt_succ_self _)))
    apply length_le_of_flatten_take
    rw [hsame, hflat, flatten_words]
  · intro hlen
    refine ⟨ws, hws, ?_⟩
    rw [hwords hlen]
    exact (List.map_id' _).symm.trans (List.map_congr_left fun w hw => (List.take_of_length_le (hlen w hw)).symm)

end Reader

end SBoy28.Lib
