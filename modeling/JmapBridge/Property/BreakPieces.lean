import JmapBridge.Property.Scanners
import JmapBridge.Rust.Trim

/-! A body read as pieces: characters, and line breaks with the blanks before them. What
`collapse_breaks` returns is a part of the pieces it is given, and reading it again finds
the same pieces. -/

namespace JmapBridge.Content

open Rust Rust.Str Rust.Scan

inductive Piece where
  | brk
  | chr (c : Char)
deriving DecidableEq, Repr

/-- The blanks that may stand before a break. -/
def blankChar (c : Char) : Bool := c == ' ' || c == '\t' || c == '\n' || c == '\r'

/-- The length of the break that `s` begins with, its blanks included. -/
def breakLen (s : Str) : Option Nat :=
  if startsWith br (s.dropWhile blankChar) then some ((s.takeWhile blankChar).length + br.length)
  else none

/-- The pieces of `s`, the first `k` characters of which belong to a break. -/
def pieces : Nat → Str → List Piece
  | _, [] => []
  | k + 1, _ :: s => pieces k s
  | 0, c :: s =>
    match breakLen (c :: s) with
    | some n => .brk :: pieces (n - 1) s
    | none => .chr c :: pieces 0 s

def Piece.text : Piece → Str
  | brk => br
  | chr c => [c]

def render (l : List Piece) : Str := l.flatMap Piece.text

/-- The breaks of a run after the second are left out, as the counter of the run sees it. -/
def limit : UInt32 → List Piece → List Piece
  | _, [] => []
  | run, .brk :: l => if run + 1 ≤ 2 then .brk :: limit (run + 1) l else limit (run + 1) l
  | _, .chr c :: l => .chr c :: limit 0 l

@[simp] theorem render_nil : render [] = [] := rfl

@[simp] theorem render_brk (l : List Piece) : render (.brk :: l) = br ++ render l := rfl

@[simp] theorem render_chr (c : Char) (l : List Piece) : render (.chr c :: l) = c :: render l := rfl

@[simp] theorem render_append (l m : List Piece) : render (l ++ m) = render l ++ render m := by
  simp [render]

theorem limit_brk (l : List Piece) : limit 0 (.brk :: l) = .brk :: limit 1 l := rfl

theorem limit_chr (run : UInt32) (c : Char) (l : List Piece) :
    limit run (.chr c :: l) = .chr c :: limit 0 l := rfl

/-! ### Reading pieces -/

theorem breakLen_eq_some {s : Str} {n : Nat} (h : breakLen s = some n) :
    ∃ w t, s = w ++ (br ++ t) ∧ (∀ c ∈ w, blankChar c = true) ∧ n = w.length + br.length := by
  rw [breakLen] at h
  split at h
  · rename_i hbr
    obtain ⟨t, ht⟩ := startsWith_iff.mp hbr
    refine ⟨s.takeWhile blankChar, t, ?_, fun c hc => List.mem_takeWhile_imp hc,
      (Option.some.inj h).symm⟩
    rw [← ht, List.takeWhile_append_dropWhile]
  · cases h

theorem breakLen_of_blank {w : Str} (hw : ∀ c ∈ w, blankChar c = true) (t : Str) :
    breakLen (w ++ (br ++ t)) = some (w.length + br.length) := by
  have hhead : blankChar '<' = false := by decide
  have htake : (w ++ (br ++ t)).takeWhile blankChar = w := by
    rw [List.takeWhile_append_of_pos hw, show br ++ t = '<' :: ("br>".toList ++ t) from rfl,
      List.takeWhile_cons_of_neg (by simp [hhead]), List.append_nil]
  have hdrop : (w ++ (br ++ t)).dropWhile blankChar = br ++ t := by
    rw [List.dropWhile_append_of_pos hw, show br ++ t = '<' :: ("br>".toList ++ t) from rfl,
      List.dropWhile_cons_of_neg (by simp [hhead])]
  rw [breakLen, htake, hdrop, if_pos (startsWith_iff.mpr ⟨t, rfl⟩)]

theorem pieces_skip (w t : Str) : pieces w.length (w ++ t) = pieces 0 t := by
  induction w with
  | nil => rfl
  | cons c w ih => exact ih

theorem pieces_break {w : Str} (hw : ∀ c ∈ w, blankChar c = true) (t : Str) :
    pieces 0 (w ++ (br ++ t)) = .brk :: pieces 0 t := by
  have h := breakLen_of_blank hw t
  cases w with
  | nil =>
    show pieces 0 ('<' :: ("br>".toList ++ t)) = _
    rw [pieces, show '<' :: ("br>".toList ++ t) = [] ++ (br ++ t) from rfl,
      breakLen_of_blank (by simp)]
    rfl
  | cons c w =>
    rw [List.cons_append, pieces, ← List.cons_append, h]
    have hskip := pieces_skip (w ++ br) t
    rw [List.append_assoc, List.length_append] at hskip
    show Piece.brk :: pieces ((w.length + 1) + br.length - 1) (w ++ (br ++ t)) = _
    rw [show (w.length + 1) + br.length - 1 = w.length + br.length by omega, hskip]

theorem pieces_char {c : Char} {s : Str} (h : breakLen (c :: s) = none) :
    pieces 0 (c :: s) = .chr c :: pieces 0 s := by
  rw [pieces, h]

/-! ### The fold -/

/-- A test on bytes that is a test on characters. -/
def ReadsChars (p : UInt8 → Bool) (q : Char → Bool) : Prop :=
  ∀ c b, (String.utf8EncodeChar c).head? = some b → p b = q c

theorem isBlank_readsChars : ReadsChars isBlank blankChar := by
  intro c b hb
  have hmem : b ∈ String.utf8EncodeChar c := List.mem_of_mem_head? hb
  by_cases hlt : b < 128
  · obtain ⟨-, hc, -⟩ := encode_of_ascii hmem hlt
    have heq : ∀ d : Char, c = d ↔ b.toNat = d.toNat := by
      intro d
      rw [← hc, Char.toNat_inj]
    rw [Bool.eq_iff_iff]
    simp only [isBlank, blankChar, Bool.or_eq_true, beq_iff_eq, heq, ← UInt8.toNat_inj]
    exact Iff.rfl
  · have hbyte : isBlank b = false := Bool.eq_false_iff.mpr fun h => hlt (isBlank_ascii b h)
    have hchar : blankChar c = false := by
      refine Bool.eq_false_iff.mpr fun h => hlt ?_
      simp only [blankChar, Bool.or_eq_true, beq_iff_eq] at h
      rcases h with ((rfl | rfl) | rfl) | rfl <;> (cases hb; decide)
    rw [hbyte, hchar]

theorem skipBytes_chars {p : UInt8 → Bool} {q : Char → Bool} (hp : ∀ b, p b = true → b < 128)
    (hpq : ReadsChars p q) {s t : Str} {k : Nat} (ht : Rest s k t) :
    (skipBytes p (bytes s) k).Ensures fun j =>
      j = k + byteLen (t.takeWhile q) ∧ Rest s j (t.dropWhile q) := by
  rw [skipBytes]
  refine Ensures.loop (fun j => ∃ u, Rest s j u ∧
    k + byteLen (t.takeWhile q) = j + byteLen (u.takeWhile q) ∧ t.dropWhile q = u.dropWhile q)
    (fun j => byteLen s - j) ⟨t, ht, rfl, rfl⟩ ?_
  rintro j ⟨u, hu, hlen, hdrop⟩
  by_cases hlt : j < (bytes s).length
  · rw [if_pos hlt, index_of_getElem? (List.getElem?_eq_getElem hlt), pure_bind]
    rw [length_bytes] at hlt
    obtain ⟨c, v, rfl⟩ := hu.exists_cons hlt
    have hbyte : (String.utf8EncodeChar c).head? = some (bytes s)[j] := by
      have h := hu.getElem?
      rw [List.getElem?_eq_getElem (by rwa [length_bytes]), bytes_cons] at h
      rw [h, List.head?_append_of_ne_nil _ String.utf8EncodeChar_ne_nil]
    have hq := hpq c _ hbyte
    split
    · rename_i hb
      rw [hb] at hq
      obtain ⟨-, -, hsize⟩ := encode_of_ascii (List.mem_of_mem_head? hbyte) (hp _ hb)
      have hnext := hu.next
      rw [hsize] at hnext
      refine Ensures.pure ⟨⟨v, hnext, ?_, ?_⟩, ?_⟩
      · rw [hlen, List.takeWhile_cons_of_pos hq.symm, byteLen_cons, hsize]
        omega
      · rw [hdrop, List.dropWhile_cons_of_pos hq.symm]
      · show byteLen s - (j + 1) < byteLen s - j
        omega
    · rename_i hb
      have hq' : ¬ q c = true := by
        rw [← hq]
        exact hb
      refine Ensures.pure ⟨?_, ?_⟩
      · rw [hlen, List.takeWhile_cons_of_neg hq', byteLen_nil, Nat.add_zero]
      · rw [hdrop, List.dropWhile_cons_of_neg hq']
        exact hu
  · rw [if_neg hlt]
    rw [length_bytes, Nat.not_lt] at hlt
    obtain rfl := hu.eq_nil_iff.mpr hlt
    exact Ensures.pure ⟨by simpa using hlen.symm, by rw [hdrop]; exact hu⟩

theorem foldBreaks_ensures (s : Str) :
    (foldBreaks s).Ensures fun r => r = render (limit 0 (pieces 0 s)) := by
  rw [foldBreaks]
  refine Ensures.loop
    (fun st : Str × Nat × UInt32 => ∃ t, Rest s st.2.1 t ∧
      st.1 ++ render (limit st.2.2 (pieces 0 t)) = render (limit 0 (pieces 0 s)))
    (fun st => byteLen s - st.2.1) ⟨s, Rest.start s, rfl⟩ ?_
  rintro ⟨out, i, run⟩ ⟨t, ht, hout⟩
  have ht : Rest s i t := ht
  have hout : out ++ render (limit run (pieces 0 t)) = render (limit 0 (pieces 0 s)) := hout
  dsimp only
  by_cases hlt : i < byteLen s
  · rw [if_pos hlt]
    refine Ensures.bind (skipBytes_chars isBlank_ascii isBlank_readsChars ht) fun j hskip => ?_
    obtain ⟨hj, hrest⟩ := hskip
    rw [sliceFrom_rest hrest, pure_bind]
    by_cases hbr : startsWith br (t.dropWhile blankChar) = true
    · rw [if_pos hbr]
      obtain ⟨u, hu⟩ := startsWith_iff.mp hbr
      have hsplit : t = t.takeWhile blankChar ++ (br ++ u) := by
        rw [← hu, List.takeWhile_append_dropWhile]
      have hpieces : pieces 0 t = .brk :: pieces 0 u := by
        rw [hsplit]
        exact pieces_break (fun c hc => List.mem_takeWhile_imp hc) u
      have hnext : Rest s (j + byteLen br) u := by
        rw [hu] at hrest
        exact hrest.append
      have hle := hnext.le
      have hpos : byteLen br = 4 := by decide
      refine Ensures.pure ⟨⟨u, hnext, ?_⟩, ?_⟩
      · rw [← hout, hpieces]
        show (if run + 1 ≤ 2 then out ++ br else out) ++ render (limit (run + 1) (pieces 0 u)) =
          out ++ render (limit run (.brk :: pieces 0 u))
        rw [limit]
        split
        · rw [render_brk, List.append_assoc]
        · rfl
      · show byteLen s - (j + byteLen br) < byteLen s - i
        omega
    · rw [if_neg hbr]
      obtain ⟨c, u, rfl⟩ := ht.exists_cons hlt
      have hnone : breakLen (c :: u) = none := if_neg hbr
      rw [charAt_rest ht, pure_bind]
      have hsize := c.utf8Size_pos
      have hle := ht.next.le
      refine Ensures.pure ⟨⟨u, ht.next, ?_⟩, ?_⟩
      · rw [← hout, pieces_char hnone, limit_chr, render_chr, List.append_assoc]
        rfl
      · show byteLen s - (i + c.utf8Size) < byteLen s - i
        omega
  · rw [if_neg hlt]
    obtain rfl := ht.eq_nil_iff.mpr (Nat.not_lt.mp hlt)
    refine Ensures.pure ?_
    show out = render (limit 0 (pieces 0 s))
    rw [← hout]
    simp [pieces, limit]

/-! ### Clean pieces -/

/-- No character of `l` begins a break, so that reading what is written finds `l` again. -/
def Clean : List Piece → Prop
  | [] => True
  | .brk :: l => Clean l
  | .chr c :: l => breakLen (c :: render l) = none ∧ Clean l

theorem breakLen_none_of_append {s t : Str} (h : breakLen (s ++ t) = none) : breakLen s = none := by
  cases hs : breakLen s with
  | none => rfl
  | some n =>
    obtain ⟨w, u, rfl, hw, -⟩ := breakLen_eq_some hs
    rw [List.append_assoc, List.append_assoc, breakLen_of_blank hw] at h
    cases h

theorem Clean.of_append {l m : List Piece} (h : Clean (l ++ m)) : Clean l ∧ Clean m := by
  induction l with
  | nil => exact ⟨trivial, h⟩
  | cons x l ih =>
    cases x with
    | brk => exact ih h
    | chr c =>
      obtain ⟨hc, hrest⟩ := h
      obtain ⟨hl, hm⟩ := ih hrest
      have hc : breakLen (c :: render (l ++ m)) = none := hc
      rw [render_append, ← List.cons_append] at hc
      exact ⟨⟨breakLen_none_of_append hc, hl⟩, hm⟩

theorem pieces_render {l : List Piece} (h : Clean l) : pieces 0 (render l) = l := by
  induction l with
  | nil => rfl
  | cons x l ih =>
    cases x with
    | brk =>
      have hbr := pieces_break (w := []) (by simp) (render l)
      rw [List.nil_append] at hbr
      rw [render_brk, hbr, ih h]
    | chr c => rw [render_chr, pieces_char h.1, ih h.2]

theorem breakLen_cons_blank {c : Char} (hc : blankChar c = true) (s : Str) :
    breakLen (c :: s) = none ↔ breakLen s = none := by
  rw [breakLen, breakLen, List.dropWhile_cons_of_pos hc]
  split
  · simp
  · simp

theorem breakLen_cons_visible {c : Char} (hc : ¬ blankChar c = true) (s : Str) :
    breakLen (c :: s) = none ↔ startsWith br (c :: s) = false := by
  rw [breakLen, List.dropWhile_cons_of_neg hc]
  split
  · rename_i h
    simp [h]
  · rename_i h
    simp [h]

/-- The pieces kept of `s`, written. -/
def written (s : Str) : Str := render (limit 0 (pieces 0 s))

theorem written_head {s y : Str} {d : Char} (hd : d ≠ '<') (h : written s = d :: y) :
    ∃ t, s = d :: t ∧ y = written t := by
  cases s with
  | nil => cases h
  | cons c s =>
    cases hlen : breakLen (c :: s) with
    | some n =>
      obtain ⟨w, t, hs, hw, -⟩ := breakLen_eq_some hlen
      rw [written, hs, pieces_break hw, limit_brk, render_brk] at h
      exact absurd (List.cons.inj h).1.symm hd
    | none =>
      rw [written, pieces_char hlen, limit_chr, render_chr] at h
      obtain ⟨rfl, rfl⟩ := List.cons.inj h
      exact ⟨s, rfl, rfl⟩

theorem breakLen_written {c : Char} {s : Str} (h : breakLen (c :: s) = none) :
    breakLen (c :: written s) = none := by
  induction s generalizing c with
  | nil => exact h
  | cons d s ih =>
    by_cases hc : blankChar c = true
    · rw [breakLen_cons_blank hc] at h ⊢
      rw [written, pieces_char h, limit_chr, render_chr]
      exact ih h
    · rw [breakLen_cons_visible hc] at h ⊢
      refine Bool.eq_false_iff.mpr fun hbr => ?_
      obtain ⟨u, hu⟩ := startsWith_iff.mp hbr
      have hu : c :: written (d :: s) = '<' :: 'b' :: 'r' :: '>' :: u := hu
      obtain ⟨rfl, hrest⟩ := List.cons.inj hu
      obtain ⟨t₁, h₁, hy₁⟩ := written_head (by decide) hrest
      obtain ⟨t₂, rfl, hy₂⟩ := written_head (by decide) hy₁.symm
      obtain ⟨t₃, rfl, -⟩ := written_head (by decide) hy₂.symm
      rw [h₁] at h
      have hyes : startsWith br ('<' :: 'b' :: 'r' :: '>' :: t₃) = true :=
        startsWith_iff.mpr ⟨t₃, rfl⟩
      rw [hyes] at h
      cases h

theorem clean_limit (s : Str) (k : Nat) (run : UInt32) : Clean (limit run (pieces k s)) := by
  induction s generalizing k run with
  | nil => cases k <;> exact trivial
  | cons c s ih =>
    cases k with
    | succ k => exact ih k run
    | zero =>
      cases hlen : breakLen (c :: s) with
      | some n =>
        rw [pieces, hlen]
        show Clean (limit run (.brk :: pieces (n - 1) s))
        rw [limit]
        split
        · exact ih (n - 1) (run + 1)
        · exact ih (n - 1) (run + 1)
      | none =>
        rw [pieces_char hlen, limit_chr]
        exact ⟨breakLen_written hlen, ih 0 0⟩

theorem clean_split {l : List Piece} (hl : Clean l) {p q : Str} (h : render l = p ++ (br ++ q)) :
    ∃ l₁ l₂, l = l₁ ++ .brk :: l₂ ∧ render l₁ = p ∧ render l₂ = q := by
  induction l generalizing p with
  | nil =>
    have hlen := congrArg List.length h
    simp [br] at hlen
  | cons x l ih =>
    cases x with
    | chr c =>
      cases p with
      | nil =>
        exfalso
        have hbreak := breakLen_of_blank (w := []) (by simp) q
        rw [← h, render_chr, hl.1] at hbreak
        cases hbreak
      | cons d p =>
        obtain ⟨rfl, hrest⟩ := List.cons.inj h
        obtain ⟨l₁, l₂, rfl, rfl, rfl⟩ := ih hl.2 hrest
        exact ⟨.chr c :: l₁, l₂, rfl, rfl, rfl⟩
    | brk =>
      rw [render_brk] at h
      rcases List.append_eq_append_iff.mp h with ⟨a, rfl, hrest⟩ | ⟨a, hbr, hrest⟩
      · obtain ⟨l₁, l₂, rfl, rfl, rfl⟩ := ih hl hrest
        exact ⟨.brk :: l₁, l₂, rfl, rfl, rfl⟩
      · cases a with
        | nil =>
          rw [List.append_nil] at hbr
          obtain ⟨l₁, l₂, rfl, hp, rfl⟩ := ih hl (p := []) hrest.symm
          refine ⟨.brk :: l₁, l₂, rfl, ?_, rfl⟩
          rw [render_brk, hp, List.append_nil, hbr]
        | cons e a =>
          cases p with
          | nil =>
            have hbr : br = e :: a := hbr
            rw [← hbr] at hrest
            exact ⟨[], l, rfl, rfl, (List.append_cancel_left hrest).symm⟩
          | cons d p =>
            -- The written break would begin inside this one, at a character other than `<`.
            have he : e = '<' := by
              have hhead := congrArg List.head? hrest
              simpa [br] using hhead.symm
            have hmem : e ∈ br.tail := by
              rw [hbr]
              simp
            rw [he] at hmem
            exact absurd hmem (by decide)

/-! ### The rest of the function on pieces -/

def Piece.isBrk : Piece → Bool
  | brk => true
  | chr _ => false

/-- A whitespace character that belongs to no break. -/
def Piece.isSpace : Piece → Bool
  | brk => false
  | chr c => isWhitespace c

/-- Anything that shows. -/
def Piece.visible : Piece → Bool
  | brk => false
  | chr c => !isWhitespace c

/-- The pieces that are left at the end. -/
def settle (l : List Piece) : List Piece :=
  (((l.rdropWhile Piece.isBrk).dropWhile Piece.isSpace).rdropWhile Piece.isSpace).dropWhile
    fun x => !x.visible

theorem trimStart_render (l : List Piece) :
    trimStart (render l) = render (l.dropWhile Piece.isSpace) := by
  induction l with
  | nil => rfl
  | cons x l ih =>
    cases x with
    | brk => rfl
    | chr c =>
      rw [render_chr, trimStart, List.dropWhile_cons, List.dropWhile_cons]
      by_cases hc : isWhitespace c = true
      · rw [if_pos hc, ← trimStart, ih]
        exact (congrArg render (if_pos hc)).symm
      · rw [if_neg hc]
        show render (.chr c :: l) = _
        exact (congrArg render (if_neg hc)).symm

theorem trimEnd_render (l : List Piece) :
    trimEnd (render l) = render (l.rdropWhile Piece.isSpace) := by
  induction l using List.reverseRecOn with
  | nil => rfl
  | append_singleton l x ih =>
    rw [List.rdropWhile_concat, render_append]
    cases x with
    | brk =>
      have hbr : render l ++ render [.brk] = (render l ++ "<br".toList) ++ ['>'] := by
        simp [br]
      rw [hbr, trimEnd_concat, if_neg (by decide), ← hbr, ← render_append]
      rfl
    | chr c =>
      rw [show render [.chr c] = [c] from rfl, trimEnd_concat]
      by_cases hc : isWhitespace c = true
      · rw [if_pos hc, ih]
        exact (congrArg render (if_pos hc)).symm
      · rw [if_neg hc, show render l ++ [c] = render (l ++ [.chr c]) by simp]
        exact (congrArg render (if_neg hc)).symm

theorem endsWith_render {l : List Piece} (hl : Clean l) :
    endsWith br (render l) = true ↔ ∃ m, l = m ++ [.brk] := by
  constructor
  · intro h
    obtain ⟨p, hp⟩ := List.isSuffixOf_iff_suffix.mp h
    obtain ⟨l₁, l₂, rfl, -, hnil⟩ :=
      clean_split hl (p := p) (q := []) (by rw [← hp, List.append_nil])
    have hl₂ : l₂ = [] := by
      cases l₂ with
      | nil => rfl
      | cons x l₂ => cases x <;> simp [br] at hnil
    exact ⟨l₁, by rw [hl₂]⟩
  · rintro ⟨m, rfl⟩
    refine List.isSuffixOf_iff_suffix.mpr ⟨render m, ?_⟩
    rw [render_append]
    rfl

theorem startsWith_render {l : List Piece} (hl : Clean l) :
    startsWith br (render l) = true ↔ ∃ m, l = .brk :: m := by
  constructor
  · intro h
    obtain ⟨q, hq⟩ := startsWith_iff.mp h
    obtain ⟨l₁, l₂, rfl, hnil, -⟩ := clean_split hl (p := []) (q := q) hq
    have hl₁ : l₁ = [] := by
      cases l₁ with
      | nil => rfl
      | cons x l₁ => cases x <;> simp [br] at hnil
    exact ⟨l₂, by rw [hl₁, List.nil_append]⟩
  · rintro ⟨m, rfl⟩
    exact startsWith_iff.mpr ⟨render m, rfl⟩

theorem visible_of_isSpace {x : Piece} (h : x.isSpace = true) : x.visible = false := by
  cases x with
  | brk => cases h
  | chr c => simpa [Piece.isSpace, Piece.visible] using h

theorem dropWhile_spaces (l : List Piece) :
    ((l.dropWhile Piece.isSpace).dropWhile fun x => !x.visible) = l.dropWhile fun x =>
      !x.visible := by
  induction l with
  | nil => rfl
  | cons x l ih =>
    by_cases hx : x.isSpace = true
    · rw [List.dropWhile_cons_of_pos hx, ih,
        List.dropWhile_cons_of_pos (by simp [visible_of_isSpace hx])]
    · rw [List.dropWhile_cons_of_neg hx]

theorem dropTrailingBreaks_ensures {l : List Piece} (hl : Clean l) :
    (dropTrailingBreaks (render l)).Ensures fun r => r = render (l.rdropWhile Piece.isBrk) := by
  rw [dropTrailingBreaks]
  refine Ensures.loop
    (fun out => ∃ m, Clean m ∧ out = render m ∧ m.rdropWhile Piece.isBrk = l.rdropWhile Piece.isBrk)
    byteLen ⟨l, hl, rfl, rfl⟩ ?_
  rintro out ⟨m, hm, rfl, hsame⟩
  by_cases hbr : endsWith br (render m) = true
  · rw [if_pos hbr]
    obtain ⟨m, rfl⟩ := (endsWith_render hm).mp hbr
    have hlen : byteLen br = 4 := by decide
    have hout : render (m ++ [.brk]) = render m ++ br := by
      rw [render_append]
      rfl
    have hsum : byteLen (render m ++ br) = byteLen (render m) + 4 := by rw [byteLen_append, hlen]
    rw [hout, hsum, hlen,
      usizeSub_of_le (by omega), Nat.add_sub_cancel, truncate, if_pos (by omega),
      Scan.sliceTo, sliceTo_byteLen]
    refine Ensures.pure ⟨⟨m, hm.of_append.1, rfl, ?_⟩, ?_⟩
    · rw [← hsame, List.rdropWhile_concat_pos _ _ _ rfl]
    · show byteLen (render m) < byteLen (render m) + 4
      omega
  · rw [if_neg hbr]
    refine Ensures.pure ?_
    show render m = render (l.rdropWhile Piece.isBrk)
    rw [← hsame]
    rcases List.eq_nil_or_concat m with rfl | ⟨m, x, rfl⟩
    · rfl
    · cases x with
      | brk => exact absurd ((endsWith_render hm).mpr ⟨m, by simp⟩) hbr
      | chr c =>
        rw [List.concat_eq_append, List.rdropWhile_concat_neg _ _ _ (by simp [Piece.isBrk])]

theorem dropLeadingBreaks_ensures {l : List Piece} (hl : Clean l)
    (hhead : ∀ x ∈ l.head?, x.isSpace = false) :
    (dropLeadingBreaks (render l)).Ensures fun r =>
      r = render (l.dropWhile fun x => !x.visible) := by
  rw [dropLeadingBreaks]
  refine Ensures.loop (fun out => ∃ m,
    Clean m ∧ out = render m ∧ (∀ x ∈ m.head?, x.isSpace = false) ∧
      (m.dropWhile fun x => !x.visible) = l.dropWhile fun x => !x.visible)
    byteLen ⟨l, hl, rfl, hhead, rfl⟩ ?_
  rintro out ⟨m, hm, rfl, hhead, hsame⟩
  by_cases hbr : startsWith br (render m) = true
  · rw [if_pos hbr]
    obtain ⟨m, rfl⟩ := (startsWith_render hm).mp hbr
    rw [render_brk, Scan.sliceFrom, sliceFrom_byteLen]
    have hm : Clean m := hm
    have hdrop : ∃ w, m = w ++ m.dropWhile Piece.isSpace :=
      ⟨m.takeWhile Piece.isSpace, List.takeWhile_append_dropWhile.symm⟩
    refine Ensures.pure ⟨⟨m.dropWhile Piece.isSpace, ?_, trimStart_render m, ?_, ?_⟩, ?_⟩
    · obtain ⟨w, hw⟩ := hdrop
      rw [hw] at hm
      exact hm.of_append.2
    · intro x hx
      have := List.head?_dropWhile_not Piece.isSpace m
      rw [Option.mem_def.mp hx] at this
      simpa using this
    · rw [← hsame, dropWhile_spaces]
      exact (List.dropWhile_cons_of_pos rfl).symm
    · have hle := byteLen_trimStart_le (render m)
      have hlen : byteLen br = 4 := by decide
      rw [byteLen_append]
      omega
  · rw [if_neg hbr]
    refine Ensures.pure ?_
    show render m = render (l.dropWhile fun x => !x.visible)
    rw [← hsame]
    cases m with
    | nil => rfl
    | cons x m =>
      cases x with
      | brk => exact absurd ((startsWith_render hm).mpr ⟨m, rfl⟩) hbr
      | chr c =>
        have hc : isWhitespace c = false := hhead _ rfl
        rw [List.dropWhile_cons_of_neg (by simp [Piece.visible, hc])]

theorem clean_rdropWhile {l : List Piece} (hl : Clean l) (p : Piece → Bool) :
    Clean (l.rdropWhile p) := by
  rw [← List.rdropWhile_append_rtakeWhile (p := p) (l := l)] at hl
  exact hl.of_append.1

theorem clean_dropWhile {l : List Piece} (hl : Clean l) (p : Piece → Bool) :
    Clean (l.dropWhile p) := by
  rw [← List.takeWhile_append_dropWhile (p := p) (l := l)] at hl
  exact hl.of_append.2

/-- What the function keeps of a body: its pieces, with the runs cut and the ends settled. -/
theorem collapseBreaks_ensures (s : Str) :
    (collapseBreaks s).Ensures fun r => r = render (settle (limit 0 (pieces 0 s))) := by
  have hclean := clean_limit s 0 0
  refine Ensures.bind (foldBreaks_ensures s) fun out hout => ?_
  subst hout
  refine Ensures.bind (dropTrailingBreaks_ensures hclean) fun out hout => ?_
  subst hout
  rw [Str.trim, trimStart_render, trimEnd_render]
  refine dropLeadingBreaks_ensures
    (clean_rdropWhile (clean_dropWhile (clean_rdropWhile hclean _) _) _) ?_
  intro x hx
  -- The first piece after the trim is the first after the leading spaces.
  obtain ⟨m, hm⟩ := List.rdropWhile_prefix (p := Piece.isSpace)
    (l := ((limit 0 (pieces 0 s)).rdropWhile Piece.isBrk).dropWhile Piece.isSpace)
  obtain ⟨l, hl⟩ := List.head?_eq_some_iff.mp hx
  rw [hl] at hm
  have hnot :=
    List.head?_dropWhile_not Piece.isSpace ((limit 0 (pieces 0 s)).rdropWhile Piece.isBrk)
  rw [← hm] at hnot
  simpa using hnot

end JmapBridge.Content
