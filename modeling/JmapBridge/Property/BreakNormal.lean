import JmapBridge.Property.BreakPieces

/-! The normal form of line breaks. Whitespace after the last break of a body keeps that
break at the end of the result, and a form feed between breaks parts a run that is too
long; on every other body the result is normal and stays as it is. -/

namespace JmapBridge.Content

open Rust Rust.Str Rust.Scan

/-- `char::is_ascii_whitespace`. -/
def asciiSpace (c : Char) : Bool := blankChar c || c == '\x0c'

/-- More than two breaks with nothing but ASCII whitespace between them. -/
def LongRun (r : Str) : Prop :=
  ∃ p w w' q, r = p ++ (br ++ (w ++ (br ++ (w' ++ (br ++ q))))) ∧
    (∀ c ∈ w, asciiSpace c = true) ∧ ∀ c ∈ w', asciiSpace c = true

structure BreakNormal (r : Str) : Prop where
  head : ∀ c ∈ r.head?, isWhitespace c = false
  last : ∀ c ∈ r.getLast?, isWhitespace c = false
  no_leading_break : startsWith br r = false
  no_trailing_break : endsWith br r = false
  no_long_run : ¬ LongRun r
  stable : (collapseBreaks r).Yields r

/-- Spaces, and after them breaks only. -/
def spacesThenBreaks : List Piece → Bool
  | [] => true
  | .chr _ :: l => spacesThenBreaks l
  | .brk :: l => l.all Piece.isBrk

/-- Nothing shows, or no space follows a break after the last piece that shows. -/
def tailSettled (l : List Piece) : Bool :=
  (l.all fun x => !x.visible) || spacesThenBreaks (l.rtakeWhile fun x => !x.visible)

/-- A break, or ASCII whitespace of no break. -/
def Piece.soft : Piece → Bool
  | brk => true
  | chr c => asciiSpace c

/-- Between two pieces that show, a stretch of breaks and ASCII whitespace with more than
two breaks left once each run in it is cut. -/
def LongStretch (l : List Piece) : Prop :=
  ∃ p m q, l = p ++ m ++ q ∧ (∃ x ∈ p, x.visible = true) ∧ (∀ x ∈ p.getLast?, x ≠ .brk) ∧
    (∃ x ∈ q, x.visible = true) ∧ (∀ x ∈ m, x.soft = true) ∧ 3 ≤ (limit 0 m).count .brk

/-! ### Runs of the result -/

theorem asciiSpace_isWhitespace {c : Char} (h : asciiSpace c = true) : isWhitespace c = true := by
  simp only [asciiSpace, blankChar, Bool.or_eq_true, beq_iff_eq] at h
  rcases h with (((rfl | rfl) | rfl) | rfl) | rfl <;> decide

theorem render_spaces {l : List Piece} {w : Str} (h : render l = w)
    (hw : ∀ c ∈ w, asciiSpace c = true) : (∀ x ∈ l, x.soft = true) ∧ l.count .brk = 0 := by
  induction l generalizing w with
  | nil => exact ⟨by simp, rfl⟩
  | cons x l ih =>
    subst h
    cases x with
    | brk =>
      have hlt := hw '<' (by simp [br])
      exact absurd hlt (by decide)
    | chr c =>
      obtain ⟨hsoft, hcount⟩ := ih rfl fun d hd => hw d (by simp [hd])
      refine ⟨fun x hx => ?_, by simpa using hcount⟩
      rcases List.mem_cons.mp hx with rfl | hx
      · exact hw c (by simp)
      · exact hsoft x hx

theorem render_soft {l : List Piece} (hsoft : ∀ x ∈ l, x.soft = true) (hbrk : Piece.brk ∉ l) :
    ∀ c ∈ render l, asciiSpace c = true := by
  intro c hc
  obtain ⟨x, hx, hcx⟩ := List.mem_flatMap.mp hc
  cases x with
  | brk => exact absurd hx hbrk
  | chr d =>
    obtain rfl : c = d := by simpa [Piece.text] using hcx
    exact hsoft _ hx

theorem first_break {l : List Piece} (h : 0 < l.count .brk) :
    ∃ w m, l = w ++ .brk :: m ∧ Piece.brk ∉ w ∧ m.count .brk + 1 = l.count .brk := by
  obtain ⟨w, m, rfl, hw⟩ := List.eq_append_cons_of_mem (List.count_pos_iff.mp h)
  refine ⟨w, m, rfl, hw, ?_⟩
  rw [List.count_append, List.count_eq_zero.mpr hw, List.count_cons_self]
  omega

theorem longRun_render_iff {l : List Piece} (hl : Clean l) :
    LongRun (render l) ↔
      ∃ p m q, l = p ++ m ++ q ∧ (∀ x ∈ m, x.soft = true) ∧ 3 ≤ m.count .brk := by
  constructor
  · rintro ⟨p, w, w', q, h, hw, hw'⟩
    obtain ⟨l₁, l₂, rfl, -, h₂⟩ := clean_split hl h
    have hl₂ : Clean l₂ := hl.of_append.2
    obtain ⟨l₃, l₄, rfl, h₃, h₄⟩ := clean_split hl₂ h₂
    have hl₄ : Clean l₄ := hl₂.of_append.2
    obtain ⟨l₅, l₆, rfl, h₅, -⟩ := clean_split hl₄ h₄
    obtain ⟨hsoft₃, -⟩ := render_spaces h₃ hw
    obtain ⟨hsoft₅, -⟩ := render_spaces h₅ hw'
    refine ⟨l₁, .brk :: (l₃ ++ .brk :: (l₅ ++ [.brk])), l₆, by simp, fun x hx => ?_, ?_⟩
    · simp only [List.mem_cons, List.mem_append, List.not_mem_nil, or_false] at hx
      rcases hx with rfl | hx | rfl | hx | rfl
      · rfl
      · exact hsoft₃ x hx
      · rfl
      · exact hsoft₅ x hx
      · rfl
    · simp only [List.count_cons_self, List.count_append, List.count_nil]
      omega
  · rintro ⟨p, m, q, rfl, hsoft, hcount⟩
    obtain ⟨w₁, m₁, rfl, -, h₁⟩ := first_break (l := m) (by omega)
    obtain ⟨w₂, m₂, rfl, hw₂, h₂⟩ := first_break (l := m₁) (by omega)
    obtain ⟨w₃, m₃, rfl, hw₃, -⟩ := first_break (l := m₂) (by omega)
    refine ⟨render p ++ render w₁, render w₂, render w₃, render m₃ ++ render q, by simp, ?_, ?_⟩
    · exact render_soft (fun x hx => hsoft x (by simp [hx])) hw₂
    · exact render_soft (fun x hx => hsoft x (by simp [hx])) hw₃

/-! ### Cutting runs -/

/-- The counter of the run after `l`. -/
def runAfter : UInt32 → List Piece → UInt32
  | run, [] => run
  | run, .brk :: l => runAfter (run + 1) l
  | _, .chr _ :: l => runAfter 0 l

theorem limit_append (run : UInt32) (l m : List Piece) :
    limit run (l ++ m) = limit run l ++ limit (runAfter run l) m := by
  induction l generalizing run with
  | nil => rfl
  | cons x l ih =>
    cases x with
    | chr c =>
      rw [List.cons_append, limit_chr, limit_chr, ih]
      rfl
    | brk =>
      rw [List.cons_append, limit, limit, runAfter]
      split
      · rw [ih, List.cons_append]
      · exact ih (run + 1)

theorem runAfter_append (run : UInt32) (l m : List Piece) :
    runAfter run (l ++ m) = runAfter (runAfter run l) m := by
  induction l generalizing run with
  | nil => rfl
  | cons x l ih => cases x <;> exact ih _

theorem runAfter_chr (run : UInt32) (l : List Piece) (c : Char) :
    runAfter run (l ++ [.chr c]) = 0 := by
  rw [runAfter_append]
  rfl

theorem mem_limit {run : UInt32} {l : List Piece} {x : Piece} (h : x ∈ limit run l) : x ∈ l := by
  induction l generalizing run with
  | nil => exact h
  | cons y l ih =>
    cases y with
    | chr c =>
      rw [limit_chr] at h
      rcases List.mem_cons.mp h with rfl | h
      · exact List.mem_cons_self
      · exact List.mem_cons_of_mem _ (ih h)
    | brk =>
      rw [limit] at h
      split at h
      · rcases List.mem_cons.mp h with rfl | h
        · exact List.mem_cons_self
        · exact List.mem_cons_of_mem _ (ih h)
      · exact List.mem_cons_of_mem _ (ih h)

theorem mem_limit_of_ne {run : UInt32} {l : List Piece} {x : Piece} (h : x ∈ l) (hx : x ≠ .brk) :
    x ∈ limit run l := by
  induction l generalizing run with
  | nil => exact h
  | cons y l ih =>
    cases y with
    | chr c =>
      rw [limit_chr]
      rcases List.mem_cons.mp h with rfl | h
      · exact List.mem_cons_self
      · exact List.mem_cons_of_mem _ (ih h)
    | brk =>
      have h := (List.mem_cons.mp h).resolve_left hx
      rw [limit]
      split
      · exact List.mem_cons_of_mem _ (ih h)
      · exact ih h

theorem limit_eq_append {run : UInt32} {l a b : List Piece} (h : limit run l = a ++ b) :
    ∃ l₁ l₂, l = l₁ ++ l₂ ∧ limit run l₁ = a ∧ limit (runAfter run l₁) l₂ = b := by
  induction l generalizing run a with
  | nil =>
    obtain ⟨rfl, rfl⟩ := List.append_eq_nil_iff.mp h.symm
    exact ⟨[], [], rfl, rfl, rfl⟩
  | cons x l ih =>
    cases a with
    | nil => exact ⟨[], x :: l, rfl, rfl, h⟩
    | cons y a =>
      cases x with
      | chr c =>
        rw [limit_chr] at h
        obtain ⟨rfl, hrest⟩ := List.cons.inj h
        obtain ⟨l₁, l₂, rfl, rfl, rfl⟩ := ih hrest
        exact ⟨.chr c :: l₁, l₂, rfl, rfl, rfl⟩
      | brk =>
        rw [limit] at h
        split at h
        · rename_i hkeep
          obtain ⟨rfl, hrest⟩ := List.cons.inj h
          obtain ⟨l₁, l₂, rfl, rfl, rfl⟩ := ih hrest
          exact ⟨.brk :: l₁, l₂, rfl, by rw [limit, if_pos hkeep], rfl⟩
        · rename_i hdrop
          obtain ⟨l₁, l₂, rfl, hl₁, rfl⟩ := ih h
          exact ⟨.brk :: l₁, l₂, rfl, by rw [limit, if_neg hdrop, hl₁], rfl⟩

theorem limit_eq_self {l : List Piece}
    (h : ∀ p q, l ≠ p ++ .brk :: .brk :: .brk :: q) : limit 0 l = l := by
  have key : ∀ (l : List Piece), (∀ p q, l ≠ p ++ .brk :: .brk :: .brk :: q) →
      limit 0 l = l ∧ ((∀ q, l ≠ .brk :: .brk :: q) → limit 1 l = l) ∧
        ((∀ q, l ≠ .brk :: q) → limit 2 l = l) := by
    intro l
    induction l with
    | nil => exact fun _ => ⟨rfl, fun _ => rfl, fun _ => rfl⟩
    | cons x l ih =>
      intro hthree
      obtain ⟨h0, h1, h2⟩ := ih fun p q heq => hthree (x :: p) q (by rw [heq]; rfl)
      cases x with
      | chr c =>
        have hc : ∀ run, limit run (.chr c :: l) = .chr c :: l := fun run => by rw [limit_chr, h0]
        exact ⟨hc 0, fun _ => hc 1, fun _ => hc 2⟩
      | brk =>
        refine ⟨?_, fun htwo => ?_, fun hone => absurd rfl (hone l)⟩
        · show Piece.brk :: limit 1 l = _
          rw [h1 fun q heq => hthree [] q (by rw [heq]; rfl)]
        · show Piece.brk :: limit 2 l = _
          rw [h2 fun q heq => htwo q (by rw [heq])]
  exact (key l h).1

/-! ### What is left at the ends -/

theorem dropWhile_append_cons {p : Piece → Bool} {v : Piece} (hv : ¬ p v = true)
    (l m : List Piece) :
    (l ++ v :: m).dropWhile p = l.dropWhile p ++ v :: m := by
  induction l with
  | nil => exact List.dropWhile_cons_of_neg hv
  | cons x l ih =>
    by_cases hx : p x = true
    · rw [List.cons_append, List.dropWhile_cons_of_pos hx, List.dropWhile_cons_of_pos hx, ih]
    · rw [List.cons_append, List.dropWhile_cons_of_neg hx, List.dropWhile_cons_of_neg hx,
        List.cons_append]

theorem rdropWhile_append_cons {p : Piece → Bool} {v : Piece} (hv : ¬ p v = true)
    (l m : List Piece) :
    (l ++ v :: m).rdropWhile p = l ++ v :: m.rdropWhile p := by
  induction m using List.reverseRecOn with
  | nil => exact List.rdropWhile_concat_neg _ _ _ hv
  | append_singleton m x ih =>
    rw [← List.cons_append, ← List.append_assoc, List.rdropWhile_concat, List.rdropWhile_concat]
    split
    · exact ih
    · simp

theorem blank_of_soft {x : Piece} (h : x.soft = true) : x.visible = false := by
  cases x with
  | brk => rfl
  | chr c => simpa [Piece.visible] using asciiSpace_isWhitespace h

theorem exists_chr {v : Piece} (hv : v.visible = true) : ∃ c, v = .chr c := by
  cases v with
  | brk => cases hv
  | chr c => exact ⟨c, rfl⟩

theorem last_visible {l : List Piece} (h : ∃ x ∈ l, x.visible = true) :
    ∃ m v t, l = m ++ v :: t ∧ v.visible = true ∧ ∀ x ∈ t, x.visible = false := by
  induction l with
  | nil =>
    obtain ⟨x, hx, -⟩ := h
    cases hx
  | cons y l ih =>
    by_cases hl : ∃ x ∈ l, x.visible = true
    · obtain ⟨m, v, t, rfl, hv, ht⟩ := ih hl
      exact ⟨y :: m, v, t, rfl, hv, ht⟩
    · have hblank : ∀ x ∈ l, x.visible = false := fun x hx =>
        Bool.eq_false_iff.mpr fun hx' => hl ⟨x, hx, hx'⟩
      obtain ⟨x, hx, hvis⟩ := h
      rcases List.mem_cons.mp hx with rfl | hx
      · exact ⟨[], x, l, rfl, hvis, hblank⟩
      · exact absurd ⟨x, hx, hvis⟩ hl

theorem mem_of_mem_rdropWhile {p : Piece → Bool} {l : List Piece} {x : Piece}
    (h : x ∈ l.rdropWhile p) : x ∈ l :=
  (List.rdropWhile_prefix p l).subset h

/-- What is left of the pieces after the last that shows. -/
def tailLeft (l : List Piece) : List Piece := (l.rdropWhile Piece.isBrk).rdropWhile Piece.isSpace

theorem settle_blank {l : List Piece} (h : ∀ x ∈ l, x.visible = false) : settle l = [] := by
  rw [settle, List.dropWhile_eq_nil_iff]
  intro x hx
  have hmem : x ∈ l :=
    mem_of_mem_rdropWhile ((List.dropWhile_suffix _).subset (mem_of_mem_rdropWhile hx))
  rw [h x hmem]
  rfl

theorem settle_visible {v : Piece} (hv : v.visible = true) (l m : List Piece) :
    settle (l ++ v :: m) = (l.dropWhile fun x => !x.visible) ++ v :: tailLeft m := by
  obtain ⟨c, rfl⟩ := exists_chr hv
  have hspace : ¬ (Piece.chr c).isSpace = true := by simpa [Piece.isSpace, Piece.visible] using hv
  rw [settle, rdropWhile_append_cons (by simp [Piece.isBrk]), dropWhile_append_cons hspace,
    rdropWhile_append_cons hspace, dropWhile_append_cons (by simp [hv]), dropWhile_spaces, tailLeft]

theorem tailLeft_last {l : List Piece} (hl : ∀ x ∈ l, x.visible = false) (h : tailLeft l ≠ []) :
    ∃ m, tailLeft l = m ++ [.brk] := by
  have hlast := List.rdropWhile_last_not Piece.isSpace (l.rdropWhile Piece.isBrk) h
  have hmem : (tailLeft l).getLast h ∈ l :=
    mem_of_mem_rdropWhile (mem_of_mem_rdropWhile (List.getLast_mem h))
  have hblank := hl _ hmem
  refine ⟨(tailLeft l).dropLast, ?_⟩
  have hbrk : (tailLeft l).getLast h = .brk := by
    have hlast : ¬ ((tailLeft l).getLast h).isSpace = true := hlast
    revert hlast hblank
    cases (tailLeft l).getLast h with
    | brk => exact fun _ _ => rfl
    | chr c =>
      intro hblank hlast
      exact absurd (by simpa [Piece.visible, Piece.isSpace] using hblank) hlast
  rw [← hbrk, List.dropLast_append_getLast]

theorem spacesThenBreaks_iff (l : List Piece) :
    spacesThenBreaks l = true ↔ ∃ a b, l = a ++ b ∧ .brk ∉ a ∧ ∀ x ∈ b, x = .brk := by
  induction l with
  | nil => exact ⟨fun _ => ⟨[], [], rfl, by simp, by simp⟩, fun _ => rfl⟩
  | cons x l ih =>
    cases x with
    | chr c =>
      constructor
      · intro h
        obtain ⟨a, b, rfl, ha, hb⟩ := ih.mp h
        exact ⟨.chr c :: a, b, rfl, by simp [ha], hb⟩
      · rintro ⟨a, b, heq, ha, hb⟩
        cases a with
        | nil =>
          have heq : Piece.chr c :: l = b := heq
          exact absurd (hb (.chr c) (by simp [← heq])) (by simp)
        | cons y a =>
          obtain ⟨rfl, rfl⟩ := List.cons.inj heq
          exact ih.mpr ⟨a, b, rfl, fun hmem => ha (List.mem_cons_of_mem _ hmem), hb⟩
    | brk =>
      constructor
      · intro h
        refine ⟨[], .brk :: l, rfl, by simp, fun x hx => ?_⟩
        rcases List.mem_cons.mp hx with rfl | hx
        · rfl
        · have hx := List.all_eq_true.mp h x hx
          cases x with
          | brk => rfl
          | chr c => cases hx
      · rintro ⟨a, b, heq, ha, hb⟩
        cases a with
        | nil =>
          have heq : Piece.brk :: l = b := heq
          refine List.all_eq_true.mpr fun x hx => ?_
          rw [hb x (by simp [← heq, hx])]
          rfl
        | cons y a =>
          obtain ⟨rfl, -⟩ := List.cons.inj heq
          exact absurd List.mem_cons_self ha

theorem tailLeft_eq_nil_iff {l : List Piece} (hl : ∀ x ∈ l, x.visible = false) :
    tailLeft l = [] ↔ spacesThenBreaks l = true := by
  rw [tailLeft, List.rdropWhile_eq_nil_iff, spacesThenBreaks_iff]
  constructor
  · intro h
    refine ⟨l.rdropWhile Piece.isBrk, l.rtakeWhile Piece.isBrk,
      List.rdropWhile_append_rtakeWhile.symm, fun hmem => ?_, fun x hx => ?_⟩
    · have := h .brk hmem
      cases this
    · have hbrk := List.mem_rtakeWhile_imp hx
      cases x with
      | brk => rfl
      | chr c => cases hbrk
  · rintro ⟨a, b, rfl, ha, hb⟩ x hx
    have hdrop : (a ++ b).rdropWhile Piece.isBrk = a.rdropWhile Piece.isBrk := by
      clear hx hl
      induction b using List.reverseRecOn with
      | nil => rw [List.append_nil]
      | append_singleton b y ih =>
        rw [← List.append_assoc, hb y (by simp), List.rdropWhile_concat_pos _ _ _ rfl]
        exact ih fun z hz => hb z (by simp [hz])
    rw [hdrop] at hx
    have hmem : x ∈ a := mem_of_mem_rdropWhile hx
    have hblank := hl x (by simp [hmem])
    cases x with
    | brk => exact absurd hmem ha
    | chr c => simpa [Piece.visible, Piece.isSpace] using hblank

theorem all_isBrk_limit (run : UInt32) (l : List Piece) :
    (limit run l).all Piece.isBrk = true ↔ l.all Piece.isBrk = true := by
  rw [List.all_eq_true, List.all_eq_true]
  constructor
  · intro h x hx
    cases x with
    | brk => rfl
    | chr c => exact h _ (mem_limit_of_ne hx (by simp))
  · exact fun h x hx => h x (mem_limit hx)

/-- Cutting the runs of the tail does not change whether a space follows a break in it. -/
theorem spacesThenBreaks_limit (l : List Piece) :
    spacesThenBreaks (limit 0 l) = true ↔ spacesThenBreaks l = true := by
  induction l with
  | nil => exact Iff.rfl
  | cons x l ih =>
    cases x with
    | chr c => exact ih
    | brk => exact all_isBrk_limit 1 l

theorem tailSettled_visible {v : Piece} (hv : v.visible = true) {l m : List Piece}
    (hm : ∀ x ∈ m, x.visible = false) : tailSettled (l ++ v :: m) = spacesThenBreaks m := by
  have hdrop : (l ++ v :: m).rdropWhile (fun x => !x.visible) = l ++ [v] := by
    rw [rdropWhile_append_cons (by simp [hv]),
      List.rdropWhile_eq_nil_iff.mpr fun x hx => by simp [hm x hx]]
  have htake : (l ++ v :: m).rtakeWhile (fun x => !x.visible) = m := by
    have h :=
      List.rdropWhile_append_rtakeWhile (p := fun x : Piece => !x.visible) (l := l ++ v :: m)
    rw [hdrop, List.append_assoc] at h
    simpa using h
  have hall : (l ++ v :: m).all (fun x => !x.visible) = false := by
    rw [List.all_eq_false]
    exact ⟨v, by simp, by simp [hv]⟩
  rw [tailSettled, hall, htake, Bool.false_or]

/-! ### The normal form -/

theorem head_visible {l : List Piece} {x : Piece}
    (h : x ∈ (l.dropWhile fun y => !y.visible).head?) : x.visible = true := by
  have hnot := List.head?_dropWhile_not (fun y : Piece => !y.visible) l
  rw [Option.mem_def.mp h] at hnot
  simpa using hnot

theorem settle_head {l : List Piece} {x : Piece} (h : x ∈ (settle l).head?) : x.visible = true :=
  head_visible h

theorem clean_settle {l : List Piece} (h : Clean l) : Clean (settle l) :=
  clean_dropWhile (clean_rdropWhile (clean_dropWhile (clean_rdropWhile h _) _) _) _

theorem soft_ne_visible {l : List Piece} (h : ∀ x ∈ l, x.soft = true) {v : Piece}
    (hv : v.visible = true) : v ∉ l := by
  intro hmem
  rw [blank_of_soft (h v hmem)] at hv
  cases hv

theorem head_visible_concat (l : List Piece) {v x : Piece} (hv : v.visible = true)
    (h : x ∈ ((l.dropWhile fun y => !y.visible) ++ [v]).head?) : x.visible = true := by
  cases hdrop : l.dropWhile fun y => !y.visible with
  | nil =>
    rw [hdrop] at h
    obtain rfl : v = x := by simpa using h
    exact hv
  | cons y m =>
    refine head_visible (l := l) ?_
    rw [hdrop] at h ⊢
    exact h

theorem visible_around {l p m q : List Piece} {v : Piece} (hv : v.visible = true)
    (heq : l ++ [v] = p ++ m ++ q) (hhead : ∀ x ∈ (l ++ [v]).head?, x.visible = true)
    (hsoft : ∀ x ∈ m, x.soft = true) (hne : m ≠ []) : (∃ x ∈ p, x.visible = true) ∧ v ∈ q := by
  constructor
  · cases p with
    | nil =>
      obtain ⟨x, m, rfl⟩ := List.exists_cons_of_ne_nil hne
      have hx := hhead x (by rw [heq]; rfl)
      exact absurd List.mem_cons_self (soft_ne_visible hsoft hx)
    | cons x p => exact ⟨x, List.mem_cons_self, hhead x (by rw [heq]; rfl)⟩
  · rcases List.eq_nil_or_concat q with rfl | ⟨q, x, rfl⟩
    · obtain ⟨m, x, rfl⟩ := (List.eq_nil_or_concat m).resolve_left hne
      rw [List.append_nil, List.concat_eq_append, ← List.append_assoc] at heq
      obtain rfl : v = x := by simpa using (List.append_inj' heq rfl).2
      exact absurd (by simp) (soft_ne_visible hsoft hv)
    · rw [List.concat_eq_append, ← List.append_assoc] at heq
      obtain rfl : v = x := by simpa using (List.append_inj' heq rfl).2
      simp

theorem runAfter_of_last {l : List Piece} (h : ∀ x ∈ l.getLast?, x ≠ .brk) : runAfter 0 l = 0 := by
  rcases List.eq_nil_or_concat l with rfl | ⟨m, x, rfl⟩
  · rfl
  · rw [List.concat_eq_append] at h ⊢
    cases x with
    | brk => exact absurd rfl (h .brk (by simp))
    | chr c => exact runAfter_chr 0 m c

theorem rdropWhile_soft_last (l : List Piece) :
    ∀ x ∈ (l.rdropWhile Piece.soft).getLast?, x ≠ .brk := by
  rintro x hx rfl
  have hne : l.rdropWhile Piece.soft ≠ [] := by
    intro hnil
    rw [hnil] at hx
    cases hx
  apply List.rdropWhile_last_not Piece.soft l hne
  rw [List.getLast?_eq_getLast_of_ne_nil hne] at hx
  rw [Option.some.inj hx]
  rfl

/-- A run too long in what is left comes from a stretch of the pieces. -/
theorem longStretch_of_run {l t : List Piece} {v : Piece} (hv : v.visible = true)
    {p m q : List Piece}
    (heq : ((limit 0 l).dropWhile fun x => !x.visible) ++ [v] = p ++ m ++ q)
    (hsoft : ∀ x ∈ m, x.soft = true) (hcount : 3 ≤ m.count .brk) : LongStretch (l ++ v :: t) := by
  have hne : m ≠ [] := by
    rintro rfl
    simp at hcount
  obtain ⟨⟨x, hxp, hx⟩, hvq⟩ :=
    visible_around hv heq (fun y hy => head_visible_concat _ hv hy) hsoft hne
  obtain ⟨c, rfl⟩ := exists_chr hv
  -- The three parts of the result are what is left of three parts of the pieces.
  have hlimit : limit 0 (l ++ [.chr c]) =
      (((limit 0 l).takeWhile fun y => !y.visible) ++ p ++ m) ++ q := by
    rw [limit_append, limit_chr, List.append_assoc _ p m, List.append_assoc, ← heq,
      ← List.append_assoc, List.takeWhile_append_dropWhile]
    rfl
  obtain ⟨l₁₂, l₃, hl, h₁₂, h₃⟩ := limit_eq_append hlimit
  obtain ⟨l₁, l₂, rfl, h₁, h₂⟩ := limit_eq_append h₁₂
  have hsoft₂ : ∀ y ∈ l₂, y.soft = true := by
    intro y hy
    by_cases hbrk : y = .brk
    · rw [hbrk]
      rfl
    · exact hsoft y (by rw [← h₂]; exact mem_limit_of_ne hy hbrk)
  -- The run is read from its first soft piece on, where the counter is zero.
  have hback : l₁.rdropWhile Piece.soft ++ l₁.rtakeWhile Piece.soft = l₁ :=
    List.rdropWhile_append_rtakeWhile
  have hrun : runAfter 0 l₁ = runAfter 0 (l₁.rtakeWhile Piece.soft) := by
    rw [← hback, runAfter_append, runAfter_of_last (rdropWhile_soft_last l₁), hback]
  refine ⟨l₁.rdropWhile Piece.soft, l₁.rtakeWhile Piece.soft ++ l₂, l₃ ++ t, ?_, ?_,
    rdropWhile_soft_last l₁, ⟨.chr c, ?_, hv⟩, ?_, ?_⟩
  · rw [← List.append_assoc (l₁.rdropWhile Piece.soft), hback, ← List.append_assoc, ← hl]
    simp
  · have hmem : x ∈ l₁ := mem_limit (by rw [h₁]; simp [hxp])
    rw [← hback] at hmem
    rcases List.mem_append.mp hmem with hmem | hmem
    · exact ⟨x, hmem, hx⟩
    · exact absurd hmem (soft_ne_visible (fun y hy => List.mem_rtakeWhile_imp hy) hx)
  · have hmem : Piece.chr c ∈ l₃ := mem_limit (by rw [h₃]; exact hvq)
    simp [hmem]
  · intro y hy
    rcases List.mem_append.mp hy with hy | hy
    · exact List.mem_rtakeWhile_imp hy
    · exact hsoft₂ y hy
  · rw [limit_append, ← hrun, h₂, List.count_append]
    omega

theorem run_of_longStretch {l : List Piece} (h : LongStretch l) :
    ∃ p m q, settle (limit 0 l) = p ++ m ++ q ∧ (∀ x ∈ m, x.soft = true) ∧ 3 ≤ m.count .brk := by
  obtain ⟨p, m, q, rfl, ⟨x, hx, hvx⟩, hlast, ⟨y, hy, hvy⟩, hsoft, hcount⟩ := h
  have hne : ∀ {z : Piece}, z.visible = true → z ≠ .brk := by
    rintro z hz rfl
    cases hz
  have hx : x ∈ limit 0 p := mem_limit_of_ne hx (hne hvx)
  have hy : y ∈ limit (runAfter 0 (p ++ m)) q := mem_limit_of_ne hy (hne hvy)
  obtain ⟨p₁, p₂, hp⟩ := List.append_of_mem hx
  obtain ⟨q₁, v, q₂, hq, hv, -⟩ := last_visible ⟨y, hy, hvy⟩
  refine ⟨(p₁.dropWhile fun z => !z.visible) ++ x :: p₂, limit 0 m, q₁ ++ v :: tailLeft q₂, ?_,
    fun z hz => hsoft z (mem_limit hz), hcount⟩
  have hsplit : limit 0 (p ++ m ++ q) = (p₁ ++ x :: (p₂ ++ limit 0 m ++ q₁)) ++ v :: q₂ := by
    rw [limit_append, limit_append, runAfter_of_last hlast, hq, hp]
    simp
  rw [hsplit, settle_visible hv, dropWhile_append_cons (by simp [hvx])]
  simp

theorem longRun_of_triple {l : List Piece} (hl : Clean l) {p q : List Piece}
    (h : l = p ++ .brk :: .brk :: .brk :: q) : LongRun (render l) := by
  refine (longRun_render_iff hl).mpr ⟨p, [.brk, .brk, .brk], q, ?_, ?_, ?_⟩
  · rw [h]
    simp
  · intro x hx
    obtain rfl : x = .brk := by simpa using hx
    rfl
  · decide

/-- A body that is settled and has no run too long is given back as it is. -/
theorem collapseBreaks_stable {l : List Piece} (hl : Clean l) (hsettle : settle l = l)
    (hrun : ¬ LongRun (render l)) : (collapseBreaks (render l)).Yields (render l) := by
  have hlimit : limit 0 l = l := limit_eq_self fun p q heq => hrun (longRun_of_triple hl heq)
  obtain ⟨r, hr, heq⟩ := collapseBreaks_ensures (render l)
  rw [pieces_render hl, hlimit, hsettle] at heq
  rwa [heq] at hr

theorem render_head {l : List Piece} {x : Piece} {m : List Piece} (h : l = x :: m)
    (hx : x.visible = true) : ∀ c ∈ (render l).head?, isWhitespace c = false := by
  obtain ⟨d, rfl⟩ := exists_chr hx
  intro c hc
  rw [h, render_chr, List.head?_cons, Option.mem_def, Option.some.injEq] at hc
  rw [← hc]
  simpa [Piece.visible] using hx

theorem breakNormal_nil : BreakNormal (render []) where
  head := by simp
  last := by simp
  no_leading_break := rfl
  no_trailing_break := rfl
  no_long_run := by
    rintro ⟨p, w, w', q, h, -⟩
    have hlen := congrArg List.length h
    simp [br] at hlen
  stable := by
    obtain ⟨r, hr, heq⟩ := collapseBreaks_ensures (render [])
    have hnil : r = render [] := heq
    rwa [hnil] at hr

theorem breakNormal_render {l : List Piece} {v : Piece} (hv : v.visible = true)
    (hl : Clean (l ++ [v])) (hhead : ∀ x ∈ (l ++ [v]).head?, x.visible = true)
    (hsettle : settle (l ++ [v]) = l ++ [v]) (hrun : ¬ LongRun (render (l ++ [v]))) :
    BreakNormal (render (l ++ [v])) where
  head := by
    obtain ⟨x, m, hm⟩ := List.exists_cons_of_ne_nil (l := l ++ [v]) (by simp)
    exact render_head hm (hhead x (by rw [hm]; rfl))
  last := by
    obtain ⟨d, rfl⟩ := exists_chr hv
    intro c hc
    rw [render_append, show render [Piece.chr d] = [d] from rfl, List.getLast?_concat,
      Option.mem_def, Option.some.injEq] at hc
    rw [← hc]
    simpa [Piece.visible] using hv
  no_leading_break := by
    refine Bool.eq_false_iff.mpr fun h => ?_
    obtain ⟨m, hm⟩ := (startsWith_render hl).mp h
    have hbrk := hhead .brk (by rw [hm]; rfl)
    cases hbrk
  no_trailing_break := by
    refine Bool.eq_false_iff.mpr fun h => ?_
    obtain ⟨m, hm⟩ := (endsWith_render hl).mp h
    obtain rfl : v = .brk := by simpa using (List.append_inj' hm rfl).2
    cases hv
  no_long_run := hrun
  stable := collapseBreaks_stable hl hsettle hrun

/-- The result is normal exactly when no space follows a break at the end of the body and
no form feed parts a run of breaks that is too long. -/
theorem collapseBreaks_normal_iff (s : Str) :
    (collapseBreaks s).Ensures BreakNormal ↔
      tailSettled (pieces 0 s) = true ∧ ¬ LongStretch (pieces 0 s) := by
  have hclean : Clean (settle (limit 0 (pieces 0 s))) := clean_settle (clean_limit s 0 0)
  obtain ⟨r, hr, rfl⟩ := collapseBreaks_ensures s
  have hresult : (collapseBreaks s).Ensures BreakNormal ↔
      BreakNormal (render (settle (limit 0 (pieces 0 s)))) := by
    constructor
    · rintro ⟨r', hr', hnormal⟩
      rw [hr.unique hr']
      exact hnormal
    · exact fun h => ⟨_, hr, h⟩
  rw [hresult]
  by_cases hvis : ∃ x ∈ pieces 0 s, x.visible = true
  · obtain ⟨l, v, t, hl, hv, ht⟩ := last_visible hvis
    have hblank : ∀ x ∈ limit 0 t, x.visible = false := fun x hx => ht x (mem_limit hx)
    have hleft : settle (limit 0 (pieces 0 s)) =
        ((limit 0 l).dropWhile fun x => !x.visible) ++ v :: tailLeft (limit 0 t) := by
      obtain ⟨c, rfl⟩ := exists_chr hv
      rw [hl, limit_append, limit_chr, settle_visible hv]
    have htail : tailLeft (limit 0 t) = [] ↔ tailSettled (pieces 0 s) = true := by
      rw [tailLeft_eq_nil_iff hblank, spacesThenBreaks_limit, hl, tailSettled_visible hv ht]
    constructor
    · intro hnormal
      refine ⟨htail.mp ?_, fun hlong => ?_⟩
      · -- A piece left there would end the result with a break.
        refine Decidable.byContradiction fun hne => ?_
        obtain ⟨m, hm⟩ := tailLeft_last hblank hne
        have hend := (endsWith_render hclean).mpr
          ⟨((limit 0 l).dropWhile fun x => !x.visible) ++ v :: m, by rw [hleft, hm]; simp⟩
        rw [hnormal.no_trailing_break] at hend
        cases hend
      · obtain ⟨p, m, q, heq, hsoft, hcount⟩ := run_of_longStretch hlong
        exact hnormal.no_long_run ((longRun_render_iff hclean).mpr ⟨p, m, q, heq, hsoft, hcount⟩)
    · rintro ⟨hsettled, hshort⟩
      rw [htail.mpr hsettled] at hleft
      have hhead : ∀ x ∈ (settle (limit 0 (pieces 0 s))).head?, x.visible = true :=
        fun x hx => settle_head hx
      rw [hleft] at hclean hhead ⊢
      refine breakNormal_render hv hclean hhead ?_ fun hrun => ?_
      · rw [settle_visible hv, List.dropWhile_idempotent]
        rfl
      · obtain ⟨p, m, q, heq, hsoft, hcount⟩ := (longRun_render_iff hclean).mp hrun
        refine hshort ?_
        rw [hl]
        exact longStretch_of_run hv heq hsoft hcount
  · have hblank : ∀ x ∈ pieces 0 s, x.visible = false := fun x hx =>
      Bool.eq_false_iff.mpr fun hx' => hvis ⟨x, hx, hx'⟩
    rw [settle_blank fun x hx => hblank x (mem_limit hx)]
    refine ⟨fun _ => ⟨?_, ?_⟩, fun _ => breakNormal_nil⟩
    · rw [tailSettled, Bool.or_eq_true]
      exact Or.inl (List.all_eq_true.mpr fun x hx => by simp [hblank x hx])
    · rintro ⟨p, m, q, heq, ⟨x, hx, hvx⟩, -⟩
      exact hvis ⟨x, by simp [heq, hx], hvx⟩

/-- The break before a space at the end of the body stays. -/
theorem break_before_space_stays : ¬ ∀ s : Str, (collapseBreaks s).Ensures BreakNormal := by
  intro h
  obtain ⟨r, hr, hnormal⟩ := h "a<br> ".toList
  obtain ⟨r', hr', heq⟩ := collapseBreaks_ensures "a<br> ".toList
  have hresult : r = "a<br>".toList := by
    rw [hr.unique hr', heq]
    decide
  have hend := hnormal.no_trailing_break
  rw [hresult] at hend
  exact absurd hend (by decide)

end JmapBridge.Content
