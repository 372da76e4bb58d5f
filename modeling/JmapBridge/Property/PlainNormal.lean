import JmapBridge.Model.Scanners
import JmapBridge.Rust.Lines

/-! The normal form of a plain text. It is described by its lines that are not blank and
the number of blank ones after each, of which the pass keeps one, unless its counter
comes round. -/

namespace JmapBridge.Content

open Rust Rust.Str

/-- A character that can be seen. -/
def seen (c : Char) : Bool := !isWhitespace c && !invisibleChars.contains c

structure PlainNormal (s r : Str) : Prop where
  visible : ∀ c ∈ r, c ∉ invisibleChars
  tidy : ∀ l ∈ split '\n' r, trimEnd l = l
  spaced : ¬∃ x a b y, split '\n' r = x ++ a :: b :: y ∧ Blank a ∧ Blank b
  trimmed : Str.trim r = r
  fixed : normalizePlain r = r
  content : r.filter seen = s.filter seen

/-- Between two lines with text stand as many blank ones as the counter has values. -/
def LongGap (ls : List Str) : Prop :=
  ∃ xs ys zs, ls = xs ++ ys ++ zs ∧ 2 ^ 32 ≤ ys.length ∧ (∀ l ∈ ys, Blank l) ∧
    (∃ l ∈ xs, ¬Blank l) ∧ ∃ l ∈ zs, ¬Blank l

/-! ### The lines that are kept -/

/-- The lines that the pass keeps, `k` blank ones after the last with text. -/
def keptLines : UInt32 → List Str → List Str
  | _, [] => []
  | k, l :: ls =>
    if l = [] then (if k + 1 ≤ 1 then [[]] else []) ++ keptLines (k + 1) ls
    else l :: keptLines 0 ls

/-- How many of `n` blank lines are kept. -/
def keptBlanks : UInt32 → Nat → Nat
  | _, 0 => 0
  | k, n + 1 => (if k + 1 ≤ 1 then 1 else 0) + keptBlanks (k + 1) n

def unlines (ls : List Str) : Str := ls.flatMap (· ++ ['\n'])

@[simp] theorem unlines_nil : unlines [] = [] := rfl

@[simp] theorem unlines_cons (l : Str) (ls : List Str) :
    unlines (l :: ls) = l ++ '\n' :: unlines ls := by simp [unlines]

@[simp] theorem unlines_append (xs ys : List Str) :
    unlines (xs ++ ys) = unlines xs ++ unlines ys := by simp [unlines]

theorem unlines_replicate (n : Nat) : unlines (List.replicate n []) = List.replicate n '\n' := by
  induction n with
  | zero => rfl
  | succ n ih => rw [List.replicate_succ, unlines_cons, ih, List.nil_append, List.replicate_succ]

theorem foldl_normalizeLine (ls : List Str) (out : Str) (k : UInt32) :
    (ls.foldl normalizeLine (out, k)).1 = out ++ unlines (keptLines k (ls.map trimEnd)) := by
  induction ls generalizing out k with
  | nil => simp [keptLines]
  | cons l ls ih =>
    rw [List.foldl_cons, List.map_cons, keptLines]
    by_cases hl : trimEnd l = []
    · by_cases hk : k + 1 ≤ 1
      · have hstep : normalizeLine (out, k) l = (out ++ ['\n'], k + 1) := by
          simp [normalizeLine, hl, hk]
        rw [hstep, ih, if_pos hl, if_pos hk]
        simp
      · have hstep : normalizeLine (out, k) l = (out, k + 1) := by
          simp [normalizeLine, hl, hk]
        rw [hstep, ih, if_pos hl, if_neg hk, List.nil_append]
    · have hstep : normalizeLine (out, k) l = (out ++ trimEnd l ++ ['\n'], 0) := by
        simp [normalizeLine, hl]
      rw [hstep, ih, if_neg hl, unlines_cons]
      simp

theorem normalizePlain_eq (s : Str) : normalizePlain s =
    Str.trim (unlines (keptLines 0 ((lines (stripInvisibles s)).map trimEnd))) := by
  rw [normalizePlain, foldl_normalizeLine, List.nil_append]

theorem keptLines_blanks (k : UInt32) (n : Nat) (ls : List Str) :
    keptLines k (List.replicate n [] ++ ls) =
      List.replicate (keptBlanks k n) [] ++ keptLines (k + UInt32.ofNat n) ls := by
  induction n generalizing k with
  | zero => simp [keptBlanks]
  | succ n ih =>
    have hsum : k + 1 + UInt32.ofNat n = k + UInt32.ofNat (n + 1) := by
      rw [UInt32.add_assoc, UInt32.ofNat_add, UInt32.add_comm (UInt32.ofNat n)]
      rfl
    rw [List.replicate_succ, List.cons_append, keptLines, if_pos rfl, ih, keptBlanks, hsum]
    by_cases hk : k + 1 ≤ 1
    · rw [if_pos hk, if_pos hk, Nat.add_comm 1 (keptBlanks _ _), List.replicate_succ]
      rfl
    · rw [if_neg hk, if_neg hk, Nat.zero_add, List.nil_append]

theorem keptLines_line {w : Str} (hw : w ≠ []) (k : UInt32) (ls : List Str) :
    keptLines k (w :: ls) = w :: keptLines 0 ls := if_neg hw

theorem keptLines_append {w : Str} (hw : w ≠ []) (k : UInt32) (xs ys : List Str) :
    keptLines k (xs ++ w :: ys) = keptLines k xs ++ w :: keptLines 0 ys := by
  induction xs generalizing k with
  | nil => exact keptLines_line hw k ys
  | cons l xs ih =>
    by_cases hl : l = []
    · rw [List.cons_append, keptLines, if_pos hl, ih, keptLines, if_pos hl, List.append_assoc]
    · rw [List.cons_append, keptLines_line hl, ih, keptLines_line hl, List.cons_append]

/-! ### Counting blank lines -/

theorem keptBlanks_none {k : UInt32} {n : Nat} (hk : 1 ≤ k.toNat) (hn : k.toNat + n < 2 ^ 32) :
    keptBlanks k n = 0 := by
  induction n generalizing k with
  | zero => rfl
  | succ n ih =>
    have hnext : (k + 1).toNat = k.toNat + 1 := by
      rw [UInt32.toNat_add, UInt32.toNat_one]
      omega
    have hlarge : ¬k + 1 ≤ 1 := by
      rw [UInt32.le_iff_toNat_le, hnext, UInt32.toNat_one]
      omega
    rw [keptBlanks, if_neg hlarge, ih (by omega) (by omega)]

theorem keptBlanks_small {n : Nat} (hn : n < 2 ^ 32) : keptBlanks 0 n = min n 1 := by
  cases n with
  | zero => rfl
  | succ n =>
    have hone : (0 + 1 : UInt32).toNat = 1 := rfl
    rw [keptBlanks, if_pos (by decide), keptBlanks_none (by omega) (by omega)]
    omega

theorem keptBlanks_add (k : UInt32) (m n : Nat) :
    keptBlanks k (m + n) = keptBlanks k m + keptBlanks (k + UInt32.ofNat m) n := by
  induction m generalizing k with
  | zero => simp [keptBlanks]
  | succ m ih =>
    have hsum : k + 1 + UInt32.ofNat m = k + UInt32.ofNat (m + 1) := by
      rw [UInt32.add_assoc, UInt32.ofNat_add, UInt32.add_comm (UInt32.ofNat m)]
      rfl
    rw [Nat.succ_add, keptBlanks, ih, hsum, keptBlanks, Nat.add_assoc]

theorem keptBlanks_wraps {n : Nat} (hn : 2 ^ 32 ≤ n) : 2 ≤ keptBlanks 0 n := by
  obtain ⟨m, rfl⟩ : ∃ m, n = (2 ^ 32 - 1) + (m + 1) := ⟨n - 2 ^ 32, by omega⟩
  have hround : (0 + UInt32.ofNat (2 ^ 32 - 1) + 1 : UInt32) ≤ 1 := by decide
  rw [keptBlanks_add, keptBlanks_small (by omega), keptBlanks, if_pos hround]
  omega

/-! ### Texts by their lines and gaps -/

/-- The lines with text, each followed by its blank lines. -/
def layout (ps : List (Str × Nat)) : List Str := ps.flatMap fun p => p.1 :: List.replicate p.2 []

def textOf : List (Str × Nat) → Str
  | [] => []
  | [p] => p.1
  | p :: q :: ps => p.1 ++ List.replicate (p.2 + 1) '\n' ++ textOf (q :: ps)

def squeeze (p : Str × Nat) : Str × Nat := (p.1, keptBlanks 0 p.2)

/-- A line with text, free of newlines and of white space at its end. -/
def IsLine (p : Str × Nat) : Prop := p.1 ≠ [] ∧ trimEnd p.1 = p.1 ∧ '\n' ∉ p.1

@[simp] theorem layout_cons (p : Str × Nat) (ps : List (Str × Nat)) :
    layout (p :: ps) = p.1 :: (List.replicate p.2 [] ++ layout ps) := by simp [layout]

theorem exists_layout (ls : List Str) :
    ∃ n ps, ls = List.replicate n [] ++ layout ps ∧ ∀ p ∈ ps, p.1 ≠ [] := by
  induction ls with
  | nil => exact ⟨0, [], rfl, fun _ h => nomatch h⟩
  | cons l ls ih =>
    obtain ⟨n, ps, rfl, hps⟩ := ih
    by_cases hl : l = []
    · refine ⟨n + 1, ps, ?_, hps⟩
      rw [hl, List.replicate_succ, List.cons_append]
    · refine ⟨0, (l, n) :: ps, by simp, fun p hp => ?_⟩
      rcases List.mem_cons.mp hp with rfl | hp
      · exact hl
      · exact hps p hp

theorem keptLines_layout {ps : List (Str × Nat)} (hps : ∀ p ∈ ps, p.1 ≠ []) (k : UInt32) :
    keptLines k (layout ps) = layout (ps.map squeeze) := by
  induction ps generalizing k with
  | nil => rfl
  | cons p ps ih =>
    rw [layout_cons, keptLines_line (hps p List.mem_cons_self), keptLines_blanks,
      ih fun q hq => hps q (List.mem_cons_of_mem _ hq), List.map_cons, layout_cons]
    rfl

theorem textOf_ne_nil {p : Str × Nat} {ps : List (Str × Nat)} (hp : p.1 ≠ []) :
    textOf (p :: ps) ≠ [] := by
  cases ps with
  | nil => exact hp
  | cons q ps => simp [textOf, hp]

theorem unlines_layout (ps : List (Str × Nat)) :
    ∃ t, unlines (layout ps) = textOf ps ++ t ∧ Blank t := by
  have hblank : ∀ n, Blank (List.replicate n '\n') := fun n c hc => by
    rw [List.eq_of_mem_replicate hc]
    decide
  induction ps with
  | nil => exact ⟨[], rfl, blank_nil⟩
  | cons p ps ih =>
    cases ps with
    | nil =>
      refine ⟨List.replicate (p.2 + 1) '\n', ?_, hblank _⟩
      rw [layout_cons, unlines_cons, unlines_append, unlines_replicate, List.replicate_succ]
      simp [layout, textOf]
    | cons q ps =>
      obtain ⟨t, ht, hb⟩ := ih
      refine ⟨t, ?_, hb⟩
      rw [layout_cons, unlines_cons, unlines_append, unlines_replicate, ht, textOf,
        List.replicate_succ]
      simp

theorem trimEnd_textOf {ps : List (Str × Nat)} (hps : ∀ p ∈ ps, IsLine p) :
    trimEnd (textOf ps) = textOf ps := by
  induction ps with
  | nil => rfl
  | cons p ps ih =>
    cases ps with
    | nil => exact (hps p List.mem_cons_self).2.1
    | cons q ps =>
      have hrest := ih fun r hr => hps r (List.mem_cons_of_mem _ hr)
      have hne : trimEnd (textOf (q :: ps)) ≠ [] := by
        rw [hrest]
        exact textOf_ne_nil (hps q (by simp)).1
      rw [textOf, trimEnd_append_of_ne hne, hrest]

/-- The white space before the first word. -/
def trimHead : List (Str × Nat) → List (Str × Nat)
  | [] => []
  | p :: ps => (trimStart p.1, p.2) :: ps

theorem IsLine.not_blank {p : Str × Nat} (h : IsLine p) : trimStart p.1 ≠ [] := by
  intro hnil
  have hend := trimEnd_eq_nil_iff.mpr (trimStart_eq_nil_iff.mp hnil)
  exact h.1 (h.2.1.symm.trans hend)

theorem trimStart_textOf {ps : List (Str × Nat)} (hps : ∀ p ∈ ps, IsLine p) :
    trimStart (textOf ps) = textOf (trimHead ps) := by
  cases ps with
  | nil => rfl
  | cons p ps =>
    have hp := (hps p List.mem_cons_self).not_blank
    cases ps with
    | nil => rfl
    | cons q ps =>
      rw [textOf, trimHead, textOf, List.append_assoc, trimStart_append_of_ne hp, List.append_assoc]

theorem trim_layout (n : Nat) {ps : List (Str × Nat)} (hps : ∀ p ∈ ps, IsLine p) :
    Str.trim (unlines (List.replicate n [] ++ layout ps)) = textOf (trimHead ps) := by
  obtain ⟨t, ht, hblank⟩ := unlines_layout ps
  have hfront : Blank (List.replicate n '\n') := fun c hc => by
    rw [List.eq_of_mem_replicate hc]
    decide
  rw [unlines_append, unlines_replicate, ht, Str.trim, trimStart_append_blank hfront,
    ← trimStart_trimEnd, trimEnd_append_blank _ hblank, trimEnd_textOf hps, trimStart_textOf hps]

/-! ### What is read back from a text -/

/-- The blank lines after the last line with text do not count. -/
def dropLastGap : List (Str × Nat) → List (Str × Nat)
  | [] => []
  | [p] => [(p.1, 0)]
  | p :: q :: ps => p :: dropLastGap (q :: ps)

theorem textOf_dropLastGap (ps : List (Str × Nat)) : textOf (dropLastGap ps) = textOf ps := by
  induction ps with
  | nil => rfl
  | cons p ps ih =>
    cases ps with
    | nil => rfl
    | cons q ps =>
      rw [dropLastGap, textOf, ← ih]
      cases ps <;> rfl

theorem split_textOf {ps : List (Str × Nat)} (hps : ∀ p ∈ ps, IsLine p) (hne : ps ≠ []) :
    split '\n' (textOf ps) = layout (dropLastGap ps) := by
  have hgap : ∀ n t, split '\n' (List.replicate n '\n' ++ t) =
      List.replicate n [] ++ split '\n' t := by
    intro n t
    induction n with
    | zero => rfl
    | succ n ih => rw [List.replicate_succ, List.cons_append, split, if_pos rfl, ih]; rfl
  induction ps with
  | nil => exact absurd rfl hne
  | cons p ps ih =>
    have hp := (hps p List.mem_cons_self).2.2
    cases ps with
    | nil =>
      rw [textOf, split_free hp]
      simp [dropLastGap, layout]
    | cons q ps =>
      have hrest := ih (fun r hr => hps r (List.mem_cons_of_mem _ hr)) (List.cons_ne_nil _ _)
      rw [textOf, List.append_assoc, List.replicate_succ, List.cons_append, split_append,
        split_free hp, hgap, hrest, dropLastGap, layout_cons]
      rfl

theorem mem_layout {ps : List (Str × Nat)} {l : Str} (h : l ∈ layout ps) :
    l = [] ∨ ∃ p ∈ ps, l = p.1 := by
  obtain ⟨p, hp, hl⟩ := List.mem_flatMap.mp h
  rcases List.mem_cons.mp hl with rfl | hl
  · exact Or.inr ⟨p, hp, rfl⟩
  · exact Or.inl (List.eq_of_mem_replicate hl)

theorem mem_dropLastGap {ps : List (Str × Nat)} {p : Str × Nat} (h : p ∈ dropLastGap ps) :
    ∃ q ∈ ps, p.1 = q.1 := by
  induction ps with
  | nil => exact absurd h List.not_mem_nil
  | cons r ps ih =>
    cases ps with
    | nil => exact ⟨r, List.mem_cons_self, by rw [List.mem_singleton.mp h]⟩
    | cons q ps =>
      rcases List.mem_cons.mp h with rfl | h
      · exact ⟨p, List.mem_cons_self, rfl⟩
      · obtain ⟨q', hq', heq⟩ := ih h
        exact ⟨q', List.mem_cons_of_mem _ hq', heq⟩

theorem isLine_dropLastGap {ps : List (Str × Nat)} (hps : ∀ p ∈ ps, IsLine p) :
    ∀ p ∈ dropLastGap ps, IsLine p := by
  intro p hp
  obtain ⟨q, hq, heq⟩ := mem_dropLastGap hp
  rw [IsLine, heq]
  exact hps q hq

theorem trimEnd_of_mem_split {ps : List (Str × Nat)} (hps : ∀ p ∈ ps, IsLine p) {l : Str}
    (h : l ∈ split '\n' (textOf ps)) : trimEnd l = l := by
  by_cases hne : ps = []
  · rw [hne] at h
    rw [List.mem_singleton.mp h]
    rfl
  · rw [split_textOf hps hne] at h
    rcases mem_layout h with rfl | ⟨p, hp, rfl⟩
    · rfl
    · exact (isLine_dropLastGap hps p hp).2.1

theorem lines_textOf {ps : List (Str × Nat)} (hps : ∀ p ∈ ps, IsLine p) :
    lines (textOf ps) = layout (dropLastGap ps) := by
  by_cases hne : ps = []
  · rw [hne]
    rfl
  · have htext : textOf ps ≠ [] := by
      cases ps with
      | nil => exact absurd rfl hne
      | cons p ps => exact textOf_ne_nil (hps p List.mem_cons_self).1
    rw [lines_eq_split _ htext, split_textOf hps hne]
    · intro l hl hr
      obtain ⟨m, rfl⟩ := List.getLast?_eq_some_iff.mp hr
      have hend := not_isWhitespace_of_concat (trimEnd_of_mem_split hps hl)
      exact absurd hend (by decide)
    · intro hlast
      obtain ⟨m, hm⟩ := List.getLast?_eq_some_iff.mp hlast
      have hend := trimEnd_textOf hps
      rw [hm] at hend
      exact absurd (not_isWhitespace_of_concat hend) (by decide)

/-! ### The normal form of a string -/

theorem stripInvisibles_eq (s : Str) :
    stripInvisibles s = s.filter fun c => !invisibleChars.contains c := by
  rw [stripInvisibles]
  split
  · rfl
  · rename_i h
    refine (List.filter_eq_self.mpr fun c hc => ?_).symm
    cases hm : invisibleChars.contains c with
    | false => rfl
    | true => exact absurd (List.any_eq_true.mpr ⟨c, hc, hm⟩) h

theorem mem_stripInvisibles {s : Str} {c : Char} (h : c ∈ stripInvisibles s) :
    c ∉ invisibleChars := by
  rw [stripInvisibles_eq] at h
  simpa using (List.mem_filter.mp h).2

theorem lines_layout (s : Str) : ∃ n ps, (lines s).map trimEnd = List.replicate n [] ++ layout ps ∧
    ∀ p ∈ ps, IsLine p := by
  obtain ⟨n, ps, heq, hps⟩ := exists_layout ((lines s).map trimEnd)
  refine ⟨n, ps, heq, fun p hp => ?_⟩
  have hmem : p.1 ∈ (lines s).map trimEnd := by
    rw [heq]
    exact List.mem_append_right _ (List.mem_flatMap.mpr ⟨p, hp, List.mem_cons_self⟩)
  obtain ⟨l, hl, hpl⟩ := List.mem_map.mp hmem
  refine ⟨hps p hp, ?_, fun hc => (mem_lines hl).1 ?_⟩
  · rw [← hpl, trimEnd_trimEnd]
  · rw [← hpl] at hc
    exact (trimEnd_starts l).subset hc

theorem isLine_squeeze {ps : List (Str × Nat)} (hps : ∀ p ∈ ps, IsLine p) :
    ∀ p ∈ ps.map squeeze, IsLine p := by
  intro p hp
  obtain ⟨q, hq, rfl⟩ := List.mem_map.mp hp
  exact hps q hq

theorem isLine_trimHead {ps : List (Str × Nat)} (hps : ∀ p ∈ ps, IsLine p) :
    ∀ p ∈ trimHead ps, IsLine p := by
  cases ps with
  | nil => exact hps
  | cons p ps =>
    have hp := hps p List.mem_cons_self
    intro q hq
    rcases List.mem_cons.mp hq with rfl | hq
    · refine ⟨hp.not_blank, ?_, fun hc => hp.2.2 ((List.dropWhile_sublist _).subset hc)⟩
      show trimEnd (trimStart p.1) = trimStart p.1
      rw [← trimStart_trimEnd, hp.2.1]
    · exact hps q (List.mem_cons_of_mem _ hq)

theorem normalizePlain_textOf {s : Str} {n : Nat} {ps : List (Str × Nat)}
    (h : (lines (stripInvisibles s)).map trimEnd = List.replicate n [] ++ layout ps)
    (hps : ∀ p ∈ ps, IsLine p) : normalizePlain s = textOf (trimHead (ps.map squeeze)) := by
  rw [normalizePlain_eq, h, keptLines_blanks, keptLines_layout fun p hp => (hps p hp).1,
    trim_layout _ (isLine_squeeze hps)]

theorem trimHead_trimHead (ps : List (Str × Nat)) : trimHead (trimHead ps) = trimHead ps := by
  cases ps with
  | nil => rfl
  | cons p ps => rw [trimHead, trimHead, trimStart_trimStart]

theorem trimHead_dropLastGap (ps : List (Str × Nat)) :
    trimHead (dropLastGap ps) = dropLastGap (trimHead ps) := by
  cases ps with
  | nil => rfl
  | cons p ps => cases ps <;> rfl

theorem squeeze_dropLastGap (ps : List (Str × Nat)) :
    dropLastGap (ps.map squeeze) = (dropLastGap ps).map squeeze := by
  induction ps with
  | nil => rfl
  | cons p ps ih =>
    cases ps with
    | nil => rfl
    | cons q ps => exact congrArg (squeeze p :: ·) ih

theorem layout_spaced {ps : List (Str × Nat)} (hps : ∀ p ∈ ps, IsLine p) (hgap : ∀ p ∈ ps,
    p.2 ≤ 1) :
    ¬∃ x a b y, layout ps = x ++ a :: b :: y ∧ Blank a ∧ Blank b := by
  induction ps with
  | nil =>
    rintro ⟨x, a, b, y, h, -⟩
    exact absurd h.symm (by simp [layout])
  | cons p ps ih =>
    have hp := (hps p List.mem_cons_self).not_blank
    have hrest := ih (fun q hq => hps q (List.mem_cons_of_mem _ hq))
      fun q hq => hgap q (List.mem_cons_of_mem _ hq)
    have hone := hgap p List.mem_cons_self
    rintro ⟨x, a, b, y, h, ha, hb⟩
    rw [layout_cons] at h
    cases x with
    | nil =>
      obtain ⟨rfl, -⟩ := List.cons_eq_cons.mp h
      exact hp (trimStart_eq_nil_iff.mpr ha)
    | cons u x =>
      obtain ⟨-, h⟩ := List.cons_eq_cons.mp h
      rcases Nat.le_one_iff_eq_zero_or_eq_one.mp hone with hzero | hone
      · rw [hzero] at h
        exact hrest ⟨x, a, b, y, h, ha, hb⟩
      · rw [hone] at h
        cases x with
        | nil =>
          obtain ⟨-, h⟩ := List.cons_eq_cons.mp h
          cases ps with
          | nil => exact absurd h (by simp [layout])
          | cons q ps =>
            have h : layout (q :: ps) = b :: y := h
            rw [layout_cons] at h
            obtain ⟨rfl, -⟩ := List.cons_eq_cons.mp h
            exact (hps q (by simp)).not_blank (trimStart_eq_nil_iff.mpr hb)
        | cons v x =>
          obtain ⟨-, h⟩ := List.cons_eq_cons.mp h
          exact hrest ⟨x, a, b, y, h, ha, hb⟩

theorem dropLastGap_inner {ps : List (Str × Nat)} {p : Str × Nat} (h : p ∈ dropLastGap ps)
    (hpos : 0 < p.2) : ∃ a q b, ps = a ++ p :: q :: b := by
  induction ps with
  | nil => exact absurd h List.not_mem_nil
  | cons r ps ih =>
    cases ps with
    | nil =>
      rw [List.mem_singleton.mp h] at hpos
      exact absurd hpos (Nat.lt_irrefl 0)
    | cons q ps =>
      rcases List.mem_cons.mp h with rfl | h
      · exact ⟨[], q, ps, rfl⟩
      · obtain ⟨a, q', b, heq⟩ := ih h
        exact ⟨r :: a, q', b, by rw [heq]; rfl⟩

theorem longGap_of_map {ls xs ys zs : List Str} (h : ls.map trimEnd = xs ++ ys ++ zs)
    (hlen : 2 ^ 32 ≤ ys.length) (hys : ∀ l ∈ ys, l = []) (hxs : ∃ l ∈ xs, l ≠ [])
    (hzs : ∃ l ∈ zs, l ≠ []) : LongGap ls := by
  obtain ⟨uv, z, rfl, huv, rfl⟩ := List.map_eq_append_iff.mp h
  obtain ⟨x, y, rfl, rfl, rfl⟩ := List.map_eq_append_iff.mp huv
  have hblank : ∀ l, trimEnd l ≠ [] → ¬Blank l := fun l hl hb => hl (trimEnd_eq_nil_iff.mpr hb)
  refine ⟨x, y, z, rfl, by rwa [List.length_map] at hlen, fun l hl => ?_, ?_, ?_⟩
  · exact trimEnd_eq_nil_iff.mp (hys _ (List.mem_map.mpr ⟨l, hl, rfl⟩))
  · obtain ⟨_, hm, hne⟩ := hxs
    obtain ⟨l, hl, rfl⟩ := List.mem_map.mp hm
    exact ⟨l, hl, hblank l hne⟩
  · obtain ⟨_, hm, hne⟩ := hzs
    obtain ⟨l, hl, rfl⟩ := List.mem_map.mp hm
    exact ⟨l, hl, hblank l hne⟩

theorem gaps_small {ls : List Str} (hgap : ¬LongGap ls) {n : Nat} {ps : List (Str × Nat)}
    (h : ls.map trimEnd = List.replicate n [] ++ layout ps) (hps : ∀ p ∈ ps, IsLine p) :
    ∀ p ∈ dropLastGap ps, p.2 < 2 ^ 32 := by
  intro p hp
  refine Decidable.byContradiction fun hlarge => hgap ?_
  obtain ⟨a, q, b, rfl⟩ := dropLastGap_inner hp (by omega)
  have hsplit : List.replicate n [] ++ layout (a ++ p :: q :: b) =
      (List.replicate n [] ++ layout a ++ [p.1]) ++ List.replicate p.2 [] ++ layout (q :: b) := by
    simp [layout]
  refine longGap_of_map (h.trans hsplit) ?_ (fun l hl => List.eq_of_mem_replicate hl)
    ⟨p.1, by simp, (hps p (by simp)).1⟩ ⟨q.1, by simp, (hps q (by simp)).1⟩
  rw [List.length_replicate]
  omega

theorem seen_blank (c : Char) (h : isWhitespace c = true) : seen c = false := by simp [seen, h]

theorem flatten_keptLines (k : UInt32) (ls : List Str) : (keptLines k ls).flatten = ls.flatten := by
  induction ls generalizing k with
  | nil => rfl
  | cons l ls ih =>
    by_cases hl : l = []
    · rw [keptLines, if_pos hl, List.flatten_append, ih, hl]
      split <;> rfl
    · rw [keptLines_line hl, List.flatten_cons, ih, List.flatten_cons]

theorem filter_unlines (ls : List Str) : (unlines ls).filter seen = ls.flatten.filter seen := by
  induction ls with
  | nil => rfl
  | cons l ls ih =>
    rw [unlines_cons, List.filter_append, List.filter_cons_of_neg (by decide), ih,
      List.flatten_cons, List.filter_append]

theorem filter_map_trimEnd (ls : List Str) :
    (ls.map trimEnd).flatten.filter seen = ls.flatten.filter seen := by
  induction ls with
  | nil => rfl
  | cons l ls ih =>
    rw [List.map_cons, List.flatten_cons, List.filter_append, ih, filter_trimEnd seen_blank,
      List.flatten_cons, List.filter_append]

theorem normalizePlain_content (s : Str) : (normalizePlain s).filter seen = s.filter seen := by
  rw [normalizePlain_eq, filter_trim seen_blank, filter_unlines, flatten_keptLines,
    filter_map_trimEnd, filter_lines
      (by decide) (by decide), stripInvisibles_eq, List.filter_filter]
  refine List.filter_congr fun c _ => ?_
  rw [seen]
  cases invisibleChars.contains c <;> cases isWhitespace c <;> rfl

theorem normalizePlain_visible (s : Str) : ∀ c ∈ normalizePlain s, c ∉ invisibleChars := by
  intro c hc
  rw [normalizePlain_eq] at hc
  have hmem := (List.dropWhile_sublist _).subset ((trimEnd_starts _).subset hc)
  obtain ⟨l, hl, hcl⟩ := List.mem_flatMap.mp hmem
  rcases List.mem_append.mp hcl with hcl | hcl
  · have hflat : c ∈ ((lines (stripInvisibles s)).map trimEnd).flatten := by
      rw [← flatten_keptLines 0]
      exact List.mem_flatten.mpr ⟨l, hl, hcl⟩
    obtain ⟨_, hm, hcm⟩ := List.mem_flatten.mp hflat
    obtain ⟨m, hline, rfl⟩ := List.mem_map.mp hm
    exact mem_stripInvisibles ((mem_lines hline).2 c ((trimEnd_starts m).subset hcm))
  · rw [List.mem_singleton.mp hcl]
    decide

theorem plainNormal_of_gaps {s : Str} (h : ¬LongGap (lines (stripInvisibles s))) :
    PlainNormal s (normalizePlain s) := by
  obtain ⟨n, ps, hlayout, hps⟩ := lines_layout (stripInvisibles s)
  have hsmall := gaps_small h hlayout hps
  have htext := normalizePlain_textOf hlayout hps
  have hqs := isLine_trimHead (isLine_squeeze hps)
  have hlast := isLine_dropLastGap hqs
  have hgaps : ∀ p ∈ dropLastGap (trimHead (ps.map squeeze)), p.2 ≤ 1 := by
    rw [← trimHead_dropLastGap, squeeze_dropLastGap]
    intro p hp
    have hkept : ∃ q ∈ dropLastGap ps, p.2 = keptBlanks 0 q.2 := by
      cases hd : dropLastGap ps with
      | nil => rw [hd] at hp; exact absurd hp List.not_mem_nil
      | cons q qs =>
        rw [hd] at hp
        rcases List.mem_cons.mp hp with rfl | hp
        · exact ⟨q, List.mem_cons_self, rfl⟩
        · obtain ⟨r, hr, rfl⟩ := List.mem_map.mp hp
          exact ⟨r, List.mem_cons_of_mem _ hr, rfl⟩
    obtain ⟨q, hq, heq⟩ := hkept
    rw [heq, keptBlanks_small (hsmall q hq)]
    exact Nat.min_le_right _ _
  refine ⟨normalizePlain_visible s, ?_, ?_, ?_, ?_, normalizePlain_content s⟩
  · rw [htext]
    exact fun l hl => trimEnd_of_mem_split hqs hl
  · rw [htext]
    by_cases hne : trimHead (ps.map squeeze) = []
    · rw [hne]
      rintro ⟨x, a, b, y, h, -⟩
      have hlen : 1 = (x ++ a :: b :: y).length := congrArg List.length h
      rw [List.length_append, List.length_cons, List.length_cons] at hlen
      omega
    · rw [split_textOf hqs hne]
      exact layout_spaced hlast hgaps
  · rw [htext, Str.trim, trimStart_textOf hqs, trimHead_trimHead, trimEnd_textOf hqs]
  · have hself : stripInvisibles (normalizePlain s) = normalizePlain s := by
      rw [stripInvisibles_eq]
      refine List.filter_eq_self.mpr fun c hc => ?_
      simpa using normalizePlain_visible s c hc
    have hmap : (layout (dropLastGap (trimHead (ps.map squeeze)))).map trimEnd =
        layout (dropLastGap (trimHead (ps.map squeeze))) := by
      refine (List.map_congr_left fun l hl => ?_).trans (List.map_id _)
      rcases mem_layout hl with rfl | ⟨p, hp, rfl⟩
      · rfl
      · exact (hlast p hp).2.1
    have hsame : (dropLastGap (trimHead (ps.map squeeze))).map squeeze =
        dropLastGap (trimHead (ps.map squeeze)) := by
      refine (List.map_congr_left fun p hp => ?_).trans (List.map_id _)
      have hone := hgaps p hp
      rw [squeeze, keptBlanks_small (by omega)]
      exact Prod.ext rfl (Nat.min_eq_left hone)
    have hlayout' : (lines (stripInvisibles (normalizePlain s))).map trimEnd =
        List.replicate 0 [] ++ layout (dropLastGap (trimHead (ps.map squeeze))) := by
      rw [hself, htext, lines_textOf hqs, hmap]
      rfl
    rw [normalizePlain_textOf hlayout' hlast, hsame, trimHead_dropLastGap, trimHead_trimHead,
      textOf_dropLastGap, htext]

/-! ### When the counter comes round -/

theorem exists_last_line {xs : List Str} (h : ∃ l ∈ xs, l ≠ []) :
    ∃ a w n, xs = a ++ w :: List.replicate n [] ∧ w ≠ [] := by
  induction xs using List.reverseRecOn with
  | nil =>
    obtain ⟨l, hl, -⟩ := h
    exact absurd hl List.not_mem_nil
  | append_singleton xs l ih =>
    by_cases hl : l = []
    · obtain ⟨m, hm, hne⟩ := h
      rcases List.mem_append.mp hm with hm | hm
      · obtain ⟨a, w, n, rfl, hw⟩ := ih ⟨m, hm, hne⟩
        refine ⟨a, w, n + 1, ?_, hw⟩
        rw [hl, List.replicate_succ']
        simp
      · exact absurd ((List.mem_singleton.mp hm).trans hl) hne
    · exact ⟨xs, l, 0, rfl, hl⟩

theorem exists_first_line {xs : List Str} (h : ∃ l ∈ xs, l ≠ []) :
    ∃ n w b, xs = List.replicate n [] ++ w :: b ∧ w ≠ [] := by
  obtain ⟨n, ps, rfl, hps⟩ := exists_layout xs
  cases ps with
  | nil =>
    obtain ⟨l, hl, hne⟩ := h
    rw [layout, List.flatMap_nil, List.append_nil] at hl
    exact absurd (List.eq_of_mem_replicate hl) hne
  | cons p ps => exact ⟨n, p.1, _, by rw [layout_cons], hps p List.mem_cons_self⟩

theorem LongGap.lines {ls : List Str} (h : LongGap ls) : ∃ a w n v b,
    ls.map trimEnd = a ++ w :: (List.replicate n [] ++ v :: b) ∧ 2 ^ 32 ≤ n ∧
      ¬Blank w ∧ ¬Blank v := by
  obtain ⟨xs, ys, zs, rfl, hlen, hys, ⟨x, hx, hxb⟩, z, hz, hzb⟩ := h
  have hne : ∀ l, ¬Blank l → trimEnd l ≠ [] := fun l hl h => hl (trimEnd_eq_nil_iff.mp h)
  obtain ⟨a, w, m, hxs, hw⟩ := exists_last_line ⟨_, List.mem_map.mpr ⟨x, hx, rfl⟩, hne x hxb⟩
  obtain ⟨k, v, b, hzs, hv⟩ := exists_first_line ⟨_, List.mem_map.mpr ⟨z, hz, rfl⟩, hne z hzb⟩
  have hmid : ys.map trimEnd = List.replicate ys.length [] :=
    List.eq_replicate_iff.mpr ⟨List.length_map _, fun l hl => by
      obtain ⟨y, hy, rfl⟩ := List.mem_map.mp hl
      exact trimEnd_eq_nil_iff.mpr (hys y hy)⟩
  have hmem : ∀ u : Str, u ∈ (xs ++ ys ++ zs).map trimEnd → u ≠ [] → ¬Blank u := by
    intro u hu hne hb
    obtain ⟨l, -, rfl⟩ := List.mem_map.mp hu
    exact hne (trimEnd_eq_nil_iff.mpr (blank_trimEnd hb))
  refine ⟨a, w, m + ys.length + k, v, b, ?_, by omega, hmem w ?_ hw, hmem v ?_ hv⟩
  · rw [List.map_append, List.map_append, hxs, hmid, hzs, List.replicate_add, List.replicate_add]
    simp only [List.append_assoc, List.cons_append]
  · rw [List.map_append, List.map_append, hxs]
    simp
  · rw [List.map_append, hzs]
    simp

theorem plainNormal_not_of_gap {s : Str} (h : LongGap (lines (stripInvisibles s))) :
    ¬PlainNormal s (normalizePlain s) := by
  intro hnormal
  obtain ⟨a, w, n, v, b, heq, hn, hw, hv⟩ := h.lines
  have hwne : w ≠ [] := fun hnil => hw (hnil ▸ blank_nil)
  have hvne : v ≠ [] := fun hnil => hv (hnil ▸ blank_nil)
  have hfront : trimStart (unlines (keptLines 0 a) ++ w) ≠ [] := fun hnil =>
    hw fun c hc => trimStart_eq_nil_iff.mp hnil c (List.mem_append_right _ hc)
  have hback : trimEnd (v ++ '\n' :: unlines (keptLines 0 b)) ≠ [] := fun hnil =>
    hv fun c hc => trimEnd_eq_nil_iff.mp hnil c (List.mem_append_left _ hc)
  obtain ⟨m, hm⟩ : ∃ m, keptBlanks 0 n = m + 2 :=
    ⟨keptBlanks 0 n - 2, by have := keptBlanks_wraps hn; omega⟩
  have hkept : unlines (keptLines 0 (a ++ w :: (List.replicate n [] ++ v :: b))) =
      (unlines (keptLines 0 a) ++ w) ++ '\n' :: '\n' :: '\n' :: (List.replicate m '\n' ++
        (v ++ '\n' :: unlines (keptLines 0 b))) := by
    rw [keptLines_append hwne, keptLines_blanks, keptLines_line hvne, hm]
    simp [unlines_replicate, List.replicate_succ]
  have htext : normalizePlain s = trimStart (unlines (keptLines 0 a) ++ w) ++
      '\n' :: '\n' :: '\n' :: (List.replicate m '\n' ++
        trimEnd (v ++ '\n' :: unlines (keptLines 0 b))) := by
    have hcons : ∀ t : Str, '\n' :: '\n' :: '\n' :: (List.replicate m '\n' ++ t) =
        ('\n' :: '\n' :: '\n' :: List.replicate m '\n') ++ t := fun t => rfl
    rw [normalizePlain_eq, heq, hkept, Str.trim, trimStart_append_of_ne hfront, hcons,
      ← List.append_assoc, trimEnd_append_of_ne hback, List.append_assoc, hcons]
  refine hnormal.spaced ⟨split '\n' (trimStart (unlines (keptLines 0 a) ++ w)), [], [],
    split '\n' (List.replicate m '\n' ++ trimEnd (v ++ '\n' :: unlines (keptLines 0 b))), ?_,
    blank_nil, blank_nil⟩
  rw [htext, split_append]
  exact congrArg _ (by rw [split, if_pos rfl, split, if_pos rfl])

/-- The result is a normal form of the text exactly when no two lines with text have as many
blank ones between them as the counter of blank lines has values. -/
theorem normalizePlain_normal_iff (s : Str) :
    PlainNormal s (normalizePlain s) ↔ ¬LongGap (lines (stripInvisibles s)) :=
  ⟨fun hnormal hgap => plainNormal_not_of_gap hgap hnormal, plainNormal_of_gaps⟩

theorem lines_of_gap {a b : Str} (ha : '\n' ∉ a) (hb : '\n' ∉ b) (hne : b ≠ []) (n : Nat) :
    lines (a ++ '\n' :: (List.replicate n '\n' ++ b)) =
      chomp a :: (List.replicate n [] ++ [b]) := by
  have hblank : ∀ n, lines (List.replicate n '\n' ++ b) = List.replicate n [] ++ [b] := by
    intro n
    induction n with
    | zero => exact lines_last hb hne
    | succ n ih => rw [List.replicate_succ, List.cons_append, ← List.nil_append ('\n' :: _),
        lines_newline List.not_mem_nil, ih]; rfl
  rw [lines_newline ha, hblank]

theorem long_gap_kept {n : Nat} (hn : 2 ^ 32 ≤ n) :
    LongGap (lines (stripInvisibles (['a'] ++ '\n' :: (List.replicate n '\n' ++ ['b'])))) := by
  have hself : stripInvisibles (['a'] ++ '\n' :: (List.replicate n '\n' ++ ['b'])) =
      ['a'] ++ '\n' :: (List.replicate n '\n' ++ ['b']) := by
    rw [stripInvisibles_eq]
    refine List.filter_eq_self.mpr fun c hc => ?_
    simp only [List.mem_append, List.mem_cons, List.mem_replicate, List.not_mem_nil, or_false] at hc
    rcases hc with rfl | rfl | ⟨-, rfl⟩ | rfl <;> decide
  rw [hself, lines_of_gap (by decide) (by decide) (List.cons_ne_nil _ _)]
  refine ⟨[['a']], List.replicate n [], [['b']], by simp [chomp], ?_, ?_, ?_, ?_⟩
  · rwa [List.length_replicate]
  · exact fun l hl => (List.eq_of_mem_replicate hl) ▸ blank_nil
  · exact ⟨['a'], List.mem_singleton_self _, fun h => absurd (h 'a' List.mem_cons_self) (by decide)⟩
  · exact ⟨['b'], List.mem_singleton_self _, fun h => absurd (h 'b' List.mem_cons_self) (by decide)⟩

theorem counter_comes_round : ¬∀ s, PlainNormal s (normalizePlain s) := fun h =>
  plainNormal_not_of_gap (long_gap_kept le_rfl) (h _)

end JmapBridge.Content
