import JmapBridge.Rust.Trim

/-! The lines of a string: how they are found, what they hold together, and the pieces
between the occurrences of a character. -/

namespace Rust.Str

/-- A line without the carriage return that may end it. -/
def chomp (l : Str) : Str := if l.getLast? = some '\r' then l.dropLast else l

theorem chomp_concat (l : Str) : chomp (l ++ ['\r']) = l := by simp [chomp]

theorem chomp_cases (l : Str) : chomp l = l ∨ l = chomp l ++ ['\r'] := by
  by_cases h : l.getLast? = some '\r'
  · obtain ⟨m, rfl⟩ := List.getLast?_eq_some_iff.mp h
    exact Or.inr (by rw [chomp_concat])
  · exact Or.inl (if_neg h)

theorem linesFrom_newline {l : Str} (hl : '\n' ∉ l) (line t : Str) :
    linesFrom line (l ++ '\n' :: t) = chomp (line.reverse ++ l) :: lines t := by
  induction l generalizing line with
  | nil =>
    rw [List.nil_append, List.append_nil, linesFrom, if_pos rfl, lines, chomp]
    cases line with
    | nil => rfl
    | cons c line =>
      by_cases hc : c = '\r'
      · simp [hc]
      · simp [hc]
  | cons c l ih =>
    obtain ⟨hc, hl⟩ := not_or.mp fun h => hl (List.mem_cons.mpr h)
    rw [List.cons_append, linesFrom, if_neg (Ne.symm hc), ih hl]
    simp

theorem linesFrom_last {l : Str} (hl : '\n' ∉ l) (line : Str) :
    linesFrom line l = if line.reverse ++ l = [] then [] else [line.reverse ++ l] := by
  induction l generalizing line with
  | nil =>
    rw [linesFrom]
    cases line with
    | nil => rfl
    | cons c line => simp
  | cons c l ih =>
    obtain ⟨hc, hl⟩ := not_or.mp fun h => hl (List.mem_cons.mpr h)
    rw [linesFrom, if_neg (Ne.symm hc), ih hl]
    simp

theorem lines_newline {l : Str} (hl : '\n' ∉ l) (t : Str) :
    lines (l ++ '\n' :: t) = chomp l :: lines t := linesFrom_newline hl [] t

theorem lines_last {l : Str} (hl : '\n' ∉ l) (hne : l ≠ []) : lines l = [l] :=
  (linesFrom_last hl []).trans (if_neg hne)

theorem exists_line (s : Str) : '\n' ∉ s ∨ ∃ l t, s = l ++ '\n' :: t ∧ '\n' ∉ l := by
  by_cases h : '\n' ∈ s
  · obtain ⟨l, t, rfl, hl⟩ := List.eq_append_cons_of_mem h
    exact Or.inr ⟨l, t, rfl, hl⟩
  · exact Or.inl h

theorem line_induction {P : Str → Prop} (last : ∀ l, '\n' ∉ l → P l)
    (line : ∀ l t, '\n' ∉ l → P t → P (l ++ '\n' :: t)) (s : Str) : P s := by
  obtain ⟨n, hn⟩ : ∃ n, s.length ≤ n := ⟨_, le_rfl⟩
  induction n generalizing s with
  | zero =>
    obtain rfl := List.eq_nil_of_length_eq_zero (Nat.le_zero.mp hn)
    exact last [] List.not_mem_nil
  | succ n ih =>
    rcases exists_line s with hs | ⟨l, t, rfl, hl⟩
    · exact last s hs
    · refine line l t hl (ih t ?_)
      rw [List.length_append, List.length_cons] at hn
      omega

theorem filter_chomp {p : Char → Bool} (hr : p '\r' = false) (l : Str) :
    (chomp l).filter p = l.filter p := by
  rcases chomp_cases l with h | h
  · rw [h]
  · conv_rhs => rw [h]
    simp [hr]

theorem filter_lines {p : Char → Bool} (hn : p '\n' = false) (hr : p '\r' = false) (s : Str) :
    (lines s).flatten.filter p = s.filter p := by
  induction s using line_induction with
  | last l hl =>
    by_cases hnil : l = []
    · rw [hnil]
      rfl
    · rw [lines_last hl hnil, List.flatten_singleton]
  | line l t hl ih =>
    rw [lines_newline hl, List.flatten_cons, List.filter_append, ih, filter_chomp hr]
    simp [hn]

theorem mem_of_mem_chomp {l : Str} {c : Char} (h : c ∈ chomp l) : c ∈ l := by
  rcases chomp_cases l with hl | hl
  · rwa [hl] at h
  · rw [hl]
    exact List.mem_append_left _ h

theorem mem_lines {s l : Str} (h : l ∈ lines s) : '\n' ∉ l ∧ ∀ c ∈ l, c ∈ s := by
  induction s using line_induction with
  | last m hm =>
    by_cases hnil : m = []
    · rw [hnil] at h
      exact absurd h List.not_mem_nil
    · rw [lines_last hm hnil, List.mem_singleton] at h
      rw [h]
      exact ⟨hm, fun _ hc => hc⟩
  | line m t hm ih =>
    rw [lines_newline hm] at h
    rcases List.mem_cons.mp h with rfl | h
    · refine ⟨fun hc => hm (mem_of_mem_chomp hc), fun c hc => ?_⟩
      exact List.mem_append_left _ (mem_of_mem_chomp hc)
    · refine ⟨(ih h).1, fun c hc => ?_⟩
      exact List.mem_append_right _ (List.mem_cons_of_mem _ ((ih h).2 c hc))

theorem split_ne_nil (c : Char) (s : Str) : split c s ≠ [] := by
  cases s with
  | nil => exact List.cons_ne_nil _ _
  | cons d s =>
    rw [split]
    split
    · exact List.cons_ne_nil _ _
    · split <;> exact List.cons_ne_nil _ _

theorem split_cons_of_ne {c d : Char} (h : d ≠ c) {s w : Str} {ws : List Str}
    (hs : split c s = w :: ws) : split c (d :: s) = (d :: w) :: ws := by
  rw [split, if_neg h, hs]

theorem split_append (c : Char) (s t : Str) :
    split c (s ++ c :: t) = split c s ++ split c t := by
  induction s with
  | nil => exact if_pos rfl
  | cons d s ih =>
    by_cases hd : d = c
    · rw [List.cons_append, split, if_pos hd, split, if_pos hd, ih, List.cons_append]
    · cases hs : split c s with
      | nil => exact absurd hs (split_ne_nil c s)
      | cons w ws =>
        rw [hs] at ih
        rw [List.cons_append, split_cons_of_ne hd hs, split_cons_of_ne hd ih]
        rfl

theorem split_free {c : Char} {l : Str} (h : c ∉ l) : split c l = [l] := by
  induction l with
  | nil => rfl
  | cons d l ih =>
    obtain ⟨hd, hl⟩ := not_or.mp fun h' => h (List.mem_cons.mpr h')
    exact split_cons_of_ne (Ne.symm hd) (ih hl)

/-- `s.split_once(c)`. -/
def splitOnce (c : Char) : Str → Option (Str × Str)
  | [] => none
  | d :: s =>
    if d = c then some ([], s) else (splitOnce c s).map fun (w, t) => (d :: w, t)

theorem splitOnce_append {c : Char} {l : Str} (h : c ∉ l) (t : Str) :
    splitOnce c (l ++ c :: t) = some (l, t) := by
  induction l with
  | nil => exact if_pos rfl
  | cons d l ih =>
    obtain ⟨hd, hl⟩ := not_or.mp fun h' => h (List.mem_cons.mpr h')
    rw [List.cons_append, splitOnce, if_neg (Ne.symm hd), ih hl]
    rfl

theorem lines_eq_split {s : Str} (hlast : s.getLast? ≠ some '\n') (hne : s ≠ [])
    (hr : ∀ l ∈ split '\n' s, l.getLast? ≠ some '\r') : lines s = split '\n' s := by
  induction s using line_induction with
  | last l hl => rw [lines_last hl hne, split_free hl]
  | line l t hl ih =>
    rw [split_append, split_free hl, List.singleton_append] at hr ⊢
    have hchomp : chomp l = l := if_neg (hr l List.mem_cons_self)
    have ht : t ≠ [] := by
      rintro rfl
      simp at hlast
    have hlast' : t.getLast? ≠ some '\n' := by
      obtain ⟨u, c, rfl⟩ := (List.eq_nil_or_concat' t).resolve_left ht
      rw [← List.cons_append, ← List.append_assoc, List.getLast?_concat] at hlast
      rwa [List.getLast?_concat]
    rw [lines_newline hl, hchomp, ih hlast' ht fun m hm => hr m (List.mem_cons_of_mem _ hm)]

end Rust.Str
