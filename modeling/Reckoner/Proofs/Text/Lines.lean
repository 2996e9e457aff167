import Mathlib.Data.List.TakeWhile
import Mathlib.Tactic.Common
import Reckoner.Text.Line

/-!
# Lines and their breaks

A text without breaks is one line, and a line feed ends a line whatever stands before it. Texts that are each ended by a
line feed are split into themselves if none of them breaks, and into more lines otherwise.
-/
namespace Reckoner.Text

theorem splitLines_break {c : Char} (hc : isLineBreak c = true) {cs : List Char} (h : c = '\r' → cs.head? ≠ some '\n') :
    splitLines (c :: cs) = [] :: splitLines cs := by
  rw [splitLines]
  · rw [if_pos hc]
  · rintro rest rfl rfl
    exact h rfl rfl

theorem splitLines_return_newline (cs : List Char) : splitLines ('\r' :: '\n' :: cs) = splitLines ('\n' :: cs) := by
  have hbreak : splitLines ('\n' :: cs) = [] :: splitLines cs := splitLines_break (by decide) (by simp)
  rw [hbreak, splitLines]

theorem splitLines_cons_nil {c : Char} (hc : isLineBreak c = false) : splitLines [c] = [[c]] := by
  rw [splitLines]
  · rw [if_neg (by simp [hc])]
    rfl
  · rintro rest rfl
    cases hc

theorem splitLines_cons {c : Char} (hc : isLineBreak c = false) {cs l : List Char} {ls : List (List Char)}
    (h : splitLines cs = l :: ls) : splitLines (c :: cs) = (c :: l) :: ls := by
  rw [splitLines]
  · rw [if_neg (by simp [hc]), h]
    rfl
  · rintro rest rfl
    cases hc

theorem eq_nil_of_splitLines {cs : List Char} (h : splitLines cs = []) : cs = [] := by
  induction cs with
  | nil => rfl
  | cons c cs ih =>
    by_cases hc : isLineBreak c = true
    · by_cases hr : c = '\r' ∧ cs.head? = some '\n'
      · obtain ⟨rfl, hr⟩ := hr
        obtain ⟨rest, rfl⟩ := List.head?_eq_some_iff.1 hr
        simp [splitLines] at h
      · rw [splitLines_break hc (not_and.1 hr)] at h
        cases h
    · have hc' : isLineBreak c = false := Bool.eq_false_iff.2 hc
      cases hcs : splitLines cs with
      | nil =>
        rw [ih hcs, splitLines_cons_nil hc'] at h
        cases h
      | cons l ls =>
        rw [splitLines_cons hc' hcs] at h
        cases h

/-- A break separates what is before it from what is behind it. A carriage return need not. -/
theorem splitLines_append {b : Char} (hb : isLineBreak b = true) (hr : b ≠ '\r') (xs ys : List Char) :
    splitLines (xs ++ b :: ys) = splitLines (xs ++ [b]) ++ splitLines ys := by
  have hbreak (zs : List Char) : splitLines (b :: zs) = [] :: splitLines zs :=
    splitLines_break hb fun h => absurd h hr
  fun_induction splitLines xs with
  | case1 => simp only [List.nil_append, hbreak, List.cons_append, splitLines]
  | case2 rest ih => simp only [List.cons_append, splitLines, ih]
  | case3 c rest hne hc ih =>
    by_cases hpair : c = '\r' ∧ rest = [] ∧ b = '\n'
    · obtain ⟨rfl, rfl, rfl⟩ := hpair
      rfl
    · have hc' (zs : List Char) : splitLines (c :: (rest ++ b :: zs)) = [] :: splitLines (rest ++ b :: zs) := by
        refine splitLines_break hc fun hcr hd => ?_
        cases rest with
        | nil => exact hpair ⟨hcr, rfl, Option.some_inj.1 hd⟩
        | cons d rest => exact hne rest hcr (by rw [Option.some_inj.1 hd])
      rw [List.cons_append, List.cons_append, hc', hc', ih, List.cons_append]
  | case4 c rest hne hc ih =>
    have hc' : isLineBreak c = false := Bool.eq_false_iff.2 hc
    have hne : splitLines (rest ++ [b]) ≠ [] := mt eq_nil_of_splitLines (by simp)
    obtain ⟨l, ls, hl⟩ := List.exists_cons_of_ne_nil hne
    rw [hl, List.cons_append] at ih
    rw [List.cons_append, List.cons_append, splitLines_cons hc' ih, splitLines_cons hc' hl, List.cons_append]

theorem splitLines_append_newline (xs ys : List Char) :
    splitLines (xs ++ '\n' :: ys) = splitLines (xs ++ ['\n']) ++ splitLines ys :=
  splitLines_append (by decide) (by decide) xs ys

theorem splitLines_concat_newline (xs : List Char) :
    splitLines (xs ++ ['\n']) = splitLines xs ∨ splitLines (xs ++ ['\n']) = splitLines xs ++ [[]] := by
  fun_induction splitLines xs with
  | case1 => exact .inr rfl
  | case2 rest ih =>
    simp only [List.cons_append, splitLines, List.cons.injEq, true_and]
    exact ih
  | case3 c rest hne hc ih =>
    -- A carriage return at the end makes one break with the line feed, any other break makes two.
    by_cases hpair : c = '\r' ∧ rest = []
    · obtain ⟨rfl, rfl⟩ := hpair
      exact .inl rfl
    · have hhead : c = '\r' → (rest ++ ['\n']).head? ≠ some '\n' := by
        intro hr hd
        cases rest with
        | nil => exact hpair ⟨hr, rfl⟩
        | cons d rest => exact hne rest hr (by rw [Option.some_inj.1 hd])
      rw [List.cons_append, splitLines_break hc hhead, List.cons_append, List.cons_inj_right, List.cons_inj_right]
      exact ih
  | case4 c rest hne hc ih =>
    have hc' : isLineBreak c = false := Bool.eq_false_iff.2 hc
    cases hrest : splitLines rest with
    | nil =>
      obtain rfl := eq_nil_of_splitLines hrest
      exact .inl (splitLines_cons hc' rfl)
    | cons l ls =>
      rw [hrest] at ih
      rcases ih with h | h
      · exact .inl (splitLines_cons hc' h)
      · exact .inr (splitLines_cons hc' h)

theorem splitLines_line {l : List Char} (h : ∀ c ∈ l, isLineBreak c = false) : splitLines (l ++ ['\n']) = [l] := by
  induction l with
  | nil => rfl
  | cons c l ih =>
    obtain ⟨hc, hl⟩ := List.forall_mem_cons.1 h
    exact splitLines_cons hc (ih hl)

theorem splitLines_flatMap {ls : List (List Char)} (h : ∀ l ∈ ls, ∀ c ∈ l, isLineBreak c = false) :
    splitLines (ls.flatMap fun l => l ++ ['\n']) = ls := by
  induction ls with
  | nil => rfl
  | cons l ls ih =>
    obtain ⟨hl, hls⟩ := List.forall_mem_cons.1 h
    rw [List.flatMap_cons, List.append_assoc, List.singleton_append, splitLines_append_newline, splitLines_line hl, ih hls,
      List.singleton_append]

theorem exists_mem_splitLines {c : Char} (hc : isLineBreak c = false) {cs : List Char} (h : c ∈ cs) :
    ∃ l ∈ splitLines cs, c ∈ l := by
  induction cs with
  | nil => cases h
  | cons d cs ih =>
    by_cases hd : isLineBreak d = true
    · have hne : c ≠ d := fun heq => by simp [heq, hd] at hc
      have hmem : c ∈ cs := (List.mem_cons.1 h).resolve_left hne
      obtain ⟨l, hl, hcl⟩ := ih hmem
      by_cases hr : d = '\r' ∧ cs.head? = some '\n'
      · obtain ⟨rfl, hr⟩ := hr
        obtain ⟨rest, rfl⟩ := List.head?_eq_some_iff.1 hr
        rw [splitLines_return_newline]
        exact ⟨l, hl, hcl⟩
      · refine ⟨l, ?_, hcl⟩
        rw [splitLines_break hd (not_and.1 hr)]
        exact List.mem_cons_of_mem _ hl
    · have hd' : isLineBreak d = false := Bool.eq_false_iff.2 hd
      cases hcs : splitLines cs with
      | nil =>
        obtain rfl := eq_nil_of_splitLines hcs
        exact ⟨[d], by rw [splitLines_cons_nil hd']; exact List.mem_singleton_self _, h⟩
      | cons l ls =>
        rw [splitLines_cons hd' hcs]
        rcases List.mem_cons.1 h with rfl | h
        · exact ⟨_, List.mem_cons_self, List.mem_cons_self⟩
        · obtain ⟨l', hl', hcl⟩ := ih h
          rw [hcs] at hl'
          rcases List.mem_cons.1 hl' with rfl | hl'
          · exact ⟨_, List.mem_cons_self, List.mem_cons_of_mem _ hcl⟩
          · exact ⟨l', List.mem_cons_of_mem _ hl', hcl⟩

theorem isLineBreak_of_mem_splitLines {cs l : List Char} (hl : l ∈ splitLines cs) {c : Char} (hc : c ∈ l) :
    isLineBreak c = false := by
  induction cs generalizing l with
  | nil => cases hl
  | cons d cs ih =>
    by_cases hd : isLineBreak d = true
    · by_cases hr : d = '\r' ∧ cs.head? = some '\n'
      · obtain ⟨rfl, hr⟩ := hr
        obtain ⟨rest, rfl⟩ := List.head?_eq_some_iff.1 hr
        rw [splitLines_return_newline] at hl
        exact ih hl hc
      · rw [splitLines_break hd (not_and.1 hr)] at hl
        rcases List.mem_cons.1 hl with rfl | hl
        · cases hc
        · exact ih hl hc
    · have hd' : isLineBreak d = false := Bool.eq_false_iff.2 hd
      cases hcs : splitLines cs with
      | nil =>
        obtain rfl := eq_nil_of_splitLines hcs
        rw [splitLines_cons_nil hd', List.mem_singleton] at hl
        subst hl
        rw [List.mem_singleton.1 hc]
        exact hd'
      | cons m ms =>
        rw [hcs] at ih
        rw [splitLines_cons hd' hcs] at hl
        rcases List.mem_cons.1 hl with rfl | hl
        · rcases List.mem_cons.1 hc with rfl | hc
          · exact hd'
          · exact ih List.mem_cons_self hc
        · exact ih (List.mem_cons_of_mem _ hl) hc

/-- Reading a text from a file changes its breaks and not its lines. -/
theorem splitLines_unifyNewlines (cs : List Char) : splitLines (unifyNewlines cs) = splitLines cs := by
  have hnewline (zs : List Char) : splitLines ('\n' :: zs) = [] :: splitLines zs := splitLines_break (by decide) (by simp)
  fun_induction unifyNewlines cs with
  | case1 => rfl
  | case2 rest ih => rw [splitLines_return_newline, hnewline, hnewline, ih]
  | case3 c rest hne ih =>
    split
    · next hr =>
      subst hr
      have hhead : rest.head? ≠ some '\n' := by
        intro hd
        obtain ⟨more, rfl⟩ := List.head?_eq_some_iff.1 hd
        exact hne more rfl rfl
      rw [hnewline, ih, splitLines_break (by decide) fun _ => hhead]
    · next hr =>
      by_cases hc : isLineBreak c = true
      · rw [splitLines_break hc fun h => absurd h hr, splitLines_break hc fun h => absurd h hr, ih]
      · have hc' : isLineBreak c = false := Bool.eq_false_iff.2 hc
        cases hrest : splitLines rest with
        | nil =>
          obtain rfl := eq_nil_of_splitLines hrest
          rfl
        | cons l ls => rw [splitLines_cons hc' (ih.trans hrest), splitLines_cons hc' hrest]

/-! ### Lines that hold more than blanks -/

theorem trimBlanks_subset (l : List Char) : trimBlanks l ⊆ l := by
  intro c hc
  have hc : c ∈ (l.dropWhile isBlank).reverse.dropWhile isBlank := List.mem_reverse.1 hc
  exact (List.dropWhile_sublist _).subset (List.mem_reverse.1 ((List.dropWhile_sublist _).subset hc))

/-- A text with something other than blanks at both ends. -/
def IsFramed (l : List Char) : Prop :=
  ∃ a m z, l = a :: (m ++ [z]) ∧ isBlank a = false ∧ isBlank z = false

theorem trimBlanks_of_isFramed {l : List Char} (h : IsFramed l) : trimBlanks l = l := by
  obtain ⟨a, m, z, rfl, ha, hz⟩ := h
  have hreverse : (a :: (m ++ [z])).reverse = z :: (a :: m).reverse := by simp
  rw [trimBlanks, trimWhere, List.dropWhile_cons_of_neg (by simp [ha]), hreverse,
    List.dropWhile_cons_of_neg (by simp [hz]), ← hreverse, List.reverse_reverse]

theorem trimBlanks_ne_nil {l : List Char} {c : Char} (hc : isBlank c = false) (h : c ∈ l) : trimBlanks l ≠ [] := by
  intro hnil
  rw [trimBlanks, trimWhere, List.reverse_eq_nil_iff, List.dropWhile_eq_nil_iff] at hnil
  have hdrop : l.dropWhile isBlank = [] := by
    cases hl : l.dropWhile isBlank with
    | nil => rfl
    | cons d ds =>
      have hhead := List.head?_dropWhile_not isBlank l
      rw [hl] at hhead hnil
      have hd : isBlank d = true := hnil d (by simp)
      simp [hd] at hhead
  have := List.dropWhile_eq_nil_iff.1 hdrop c h
  rw [hc] at this
  cases this

theorem trimBlanks_eq_nil_iff (l : List Char) : trimBlanks l = [] ↔ isBlankText l = true := by
  rw [isBlankText, List.all_eq_true]
  constructor
  · intro hnil c hc
    by_contra hblank
    exact trimBlanks_ne_nil (by simpa using hblank) hc hnil
  · intro hblank
    rw [trimBlanks, trimWhere, List.dropWhile_eq_nil_iff.2 hblank]
    rfl

theorem filledLines_eq (cs : List Char) :
    filledLines cs = ((splitLines cs).filter fun l => !isBlankText l).map trimBlanks := by
  rw [filledLines, List.filter_map]
  congr 1
  apply List.filter_congr
  intro l _
  rw [Function.comp_apply, Bool.not_inj_iff, Bool.eq_iff_iff, List.isEmpty_iff]
  exact trimBlanks_eq_nil_iff l

theorem isLineBreak_of_mem_filledLines {cs l : List Char} (hl : l ∈ filledLines cs) {c : Char} (hc : c ∈ l) :
    isLineBreak c = false := by
  rw [filledLines_eq] at hl
  obtain ⟨m, hm, rfl⟩ := List.mem_map.1 hl
  exact isLineBreak_of_mem_splitLines (List.mem_filter.1 hm).1 (trimBlanks_subset m hc)

theorem not_isBlankText_of_mem_filledLines {cs l : List Char} (h : l ∈ filledLines cs) : ¬isBlankText l = true := by
  obtain ⟨hl, hne⟩ := List.mem_filter.1 h
  obtain ⟨l', -, rfl⟩ := List.mem_map.1 hl
  intro hblank
  have hall : ∀ c ∈ trimBlanks l', isBlank c = true := List.all_eq_true.1 hblank
  have hhead : ∀ c ∈ (trimBlanks l').getLast?, isBlank c = false := by
    intro c hc
    rw [trimBlanks, trimWhere, List.getLast?_reverse] at hc
    have := List.head?_dropWhile_not isBlank (l'.dropWhile isBlank).reverse
    rw [Option.mem_def.1 hc] at this
    simpa using this
  have hne' : trimBlanks l' ≠ [] := by simpa using hne
  have hlast := List.getLast?_eq_some_getLast hne'
  have := hhead _ hlast
  rw [hall _ (List.getLast_mem hne')] at this
  cases this

theorem filledLines_append {b : Char} (hb : isLineBreak b = true) (hr : b ≠ '\r') (xs ys : List Char) :
    filledLines (xs ++ b :: ys) = filledLines (xs ++ [b]) ++ filledLines ys := by
  simp only [filledLines, splitLines_append hb hr xs ys, List.map_append, List.filter_append]

theorem filledLines_concat_newline (xs : List Char) : filledLines (xs ++ ['\n']) = filledLines xs := by
  rcases splitLines_concat_newline xs with h | h
  · rw [filledLines, h, filledLines]
  · have hblank : (([[]] : List (List Char)).map trimBlanks).filter (fun l => !l.isEmpty) = [] := rfl
    rw [filledLines, h, List.map_append, List.filter_append, hblank, List.append_nil, filledLines]

/-- The lines on both sides of a line feed that hold more than blanks have nothing to do with each other. -/
theorem filledLines_append_newline (xs ys : List Char) :
    filledLines (xs ++ '\n' :: ys) = filledLines xs ++ filledLines ys := by
  rw [filledLines_append (by decide) (by decide), filledLines_concat_newline]

theorem filledLines_ne_nil {cs : List Char} {c : Char} (hc : isBlank c = false) (h : c ∈ cs) : filledLines cs ≠ [] := by
  have hbreak : isLineBreak c = false := by
    by_contra hb
    rw [isBlank_of_isLineBreak (by simpa using hb)] at hc
    cases hc
  obtain ⟨l, hl, hcl⟩ := exists_mem_splitLines hbreak h
  have hmem : trimBlanks l ∈ filledLines cs := by
    refine List.mem_filter.2 ⟨List.mem_map_of_mem hl, ?_⟩
    simpa using trimBlanks_ne_nil hc hcl
  exact List.ne_nil_of_mem hmem

theorem filledLines_line {l : List Char} (hl : IsFramed l) (h : ∀ c ∈ l, isLineBreak c = false) :
    filledLines (l ++ ['\n']) = [l] := by
  obtain ⟨a, m, z, rfl, -⟩ := id hl
  rw [filledLines, splitLines_line h, List.map_singleton, trimBlanks_of_isFramed hl]
  rfl

theorem filledLines_flatMap {ls : List (List Char)} (hls : ∀ l ∈ ls, IsFramed l)
    (h : ∀ l ∈ ls, ∀ c ∈ l, isLineBreak c = false) : filledLines (ls.flatMap fun l => l ++ ['\n']) = ls := by
  induction ls with
  | nil => rfl
  | cons l ls ih =>
    obtain ⟨hl, hls⟩ := List.forall_mem_cons.1 hls
    obtain ⟨hc, hcs⟩ := List.forall_mem_cons.1 h
    rw [List.flatMap_cons, List.append_assoc, List.singleton_append, filledLines_append (by decide) (by decide),
      filledLines_line hl hc, ih hls hcs, List.singleton_append]

theorem two_le_length_filledLines {l : List Char} (hl : IsFramed l) {b : Char} (hb : isLineBreak b = true)
    (hr : b ≠ '\r') (h : b ∈ l) : 2 ≤ (filledLines (l ++ ['\n'])).length := by
  obtain ⟨a, m, z, rfl, ha, hz⟩ := hl
  have hblank := isBlank_of_isLineBreak hb
  have hm : b ∈ m := by
    rcases List.mem_cons.1 h with rfl | h
    · rw [hblank] at ha
      cases ha
    · rcases List.mem_append.1 h with h | h
      · exact h
      · rw [List.mem_singleton.1 h] at hblank
        rw [hblank] at hz
        cases hz
  obtain ⟨xs, ys, rfl⟩ := List.append_of_mem hm
  have hsplit : a :: (xs ++ b :: ys ++ [z]) ++ ['\n'] = (a :: xs) ++ b :: (ys ++ [z] ++ ['\n']) := by simp
  have hleft : filledLines ((a :: xs) ++ [b]) ≠ [] := filledLines_ne_nil ha (by simp)
  have hright : filledLines (ys ++ [z] ++ ['\n']) ≠ [] := filledLines_ne_nil hz (by simp)
  rw [hsplit, filledLines_append hb hr, List.length_append]
  have := List.length_pos_iff.2 hleft
  have := List.length_pos_iff.2 hright
  omega

/-- Framed texts in a row are as many lines as they are if none has a break in it, and more if one has. -/
theorem length_filledLines_flatMap {ls : List (List Char)} (hls : ∀ l ∈ ls, IsFramed l) :
    ls.length ≤ (filledLines (ls.flatMap fun l => l ++ ['\n'])).length ∧
      ∀ l ∈ ls, ∀ b ∈ l, isLineBreak b = true → b ≠ '\r' →
        ls.length < (filledLines (ls.flatMap fun l => l ++ ['\n'])).length := by
  induction ls with
  | nil => simp
  | cons l ls ih =>
    obtain ⟨hl, hls⟩ := List.forall_mem_cons.1 hls
    obtain ⟨hle, hlt⟩ := ih hls
    have hpos : 0 < (filledLines (l ++ ['\n'])).length := by
      obtain ⟨a, m, z, rfl, ha, -⟩ := hl
      exact List.length_pos_iff.2 (filledLines_ne_nil ha (by simp))
    rw [List.flatMap_cons, List.append_assoc, List.singleton_append, filledLines_append (by decide) (by decide),
      List.length_append, List.length_cons]
    refine ⟨by omega, ?_⟩
    intro l' hl' b hbl hb hr
    rcases List.mem_cons.1 hl' with rfl | hl'
    · have := two_le_length_filledLines hl hb hr hbl
      omega
    · have := hlt l' hl' b hbl hb hr
      omega

end Reckoner.Text
