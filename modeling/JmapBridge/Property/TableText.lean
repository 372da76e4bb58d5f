import JmapBridge.Property.Scanners
import JmapBridge.Property.Tags

/-! The text of tables. A reader of HTML knows the cell of every character, where end tags
are left out as well. Table tags are taken out of a body before it is sanitised, and what
is put in their place keeps two cells apart only where an end tag is written. -/

namespace JmapBridge.Content

open Rust Rust.Str Rust.Scan

/-! ### Cells -/

def isNamed (names : List String) (t : Str) : Bool := names.any fun n => named n.toList t

def cellCloseTags : List String := ["</td", "</th"]

/-- The tags that end a row besides its own: those of sections, captions and columns. -/
def rowGroupTags : List String :=
  ["<tbody", "</tbody", "<thead", "</thead", "<tfoot", "</tfoot", "<caption", "</caption", "<col",
    "<colgroup", "</colgroup"]

structure Place where
  row : Nat
  cell : Nat
deriving DecidableEq, Repr

structure OpenTable where
  row : Option Nat := none
  cell : Option Place := none

/-- The open tables, the innermost first, and how many rows and cells there were so far. -/
structure Layout where
  tables : List OpenTable := []
  rows : Nat := 0
  cells : Nat := 0

/-- The cell that text stands in. -/
def Layout.place (s : Layout) : Option Place := s.tables.findSome? (·.cell)

/-- What a tag does to the innermost table. The start of a cell ends the cell before it, and
the start of a row the row. -/
def Layout.readInside (s : Layout) (table : OpenTable) (outer : List OpenTable) (t : Str) :
    Layout :=
  if isNamed ["<tr"] t then
    { s with tables := { row := some s.rows } :: outer, rows := s.rows + 1 }
  else if isNamed ["<td", "<th"] t then
    match table.row with
    | some row =>
      { s with tables := ⟨some row, some ⟨row, s.cells⟩⟩ :: outer, cells := s.cells + 1 }
    | none =>
      { tables := ⟨some s.rows, some ⟨s.rows, s.cells⟩⟩ :: outer
        rows := s.rows + 1
        cells := s.cells + 1 }
  else if isNamed cellCloseTags t then { s with tables := { table with cell := none } :: outer }
  else if isNamed ("</tr" :: rowGroupTags) t then { s with tables := {} :: outer }
  else s

/-- What a reader of HTML makes of a tag. -/
def Layout.read (s : Layout) (t : Str) : Layout :=
  if isNamed ["<table"] t then { s with tables := {} :: s.tables }
  else
    match s.tables with
    | [] => s
    | table :: outer =>
      if isNamed ["</table"] t then { s with tables := outer } else s.readInside table outer t

/-! ### Documents -/

/-- A character of text, or a tag as it is written: an attribute may hold brackets. -/
def Token.Written : Token → Prop
  | .chr c => c ≠ '<'
  | .tag t => t.head? = some '<' ∧ t.getLast? = some '>'

instance : DecidablePred Token.Written
  | .chr c => inferInstanceAs (Decidable (c ≠ '<'))
  | .tag t => inferInstanceAs (Decidable (t.head? = some '<' ∧ t.getLast? = some '>'))

def Written (doc : List Token) : Prop := ∀ x ∈ doc, x.Written

/-- The document as the code reads it, with every tag up to the first `>`. -/
def reading (doc : List Token) : List Token :=
  doc.flatMap fun
    | .chr c => [.chr c]
    | .tag t => tokens 0 t

def Token.isText : Token → Bool
  | .chr c => !isWhitespace c
  | .tag _ => false

/-- The cell of each visible character. What the code reads as text in a tag is in none. -/
def places (s : Layout) : List Token → List (Option Place)
  | [] => []
  | .chr c :: doc => List.replicate ([Token.chr c].countP Token.isText) s.place ++ places s doc
  | .tag t :: doc => List.replicate ((tokens 0 t).countP Token.isText) none ++ places (s.read t) doc

/-- A separator stands after the `i`-th visible character and before the `j`-th, with `n` of
them before the list. -/
def parted (sep : Token → Bool) (i j : Nat) : Nat → List Token → Bool
  | _, [] => false
  | n, x :: l =>
    (sep x && decide (i < n) && decide (n ≤ j)) || parted sep i j (n + [x].countP Token.isText) l

/-- A separator stands between any two visible characters of different cells, and of
different rows. -/
def TextsApart (ps : List (Option Place)) (cellSep rowSep : Token → Bool) (l : List Token) : Prop :=
  ∀ i j p q, i < j → ps[i]? = some (some p) → ps[j]? = some (some q) →
    (p.cell ≠ q.cell → parted cellSep i j 0 l = true) ∧
      (p.row ≠ q.row → parted rowSep i j 0 l = true)

/-- The same, of visible characters with no text of a cell between them. -/
def NeighboursApart (ps : List (Option Place)) (cellSep rowSep : Token → Bool) (l : List Token) :
    Prop :=
  ∀ i j p q, i < j → ps[i]? = some (some p) → ps[j]? = some (some q) →
    (∀ k, i < k → k < j → ps[k]? = some none) →
    (p.cell ≠ q.cell → parted cellSep i j 0 l = true) ∧
      (p.row ≠ q.row → parted rowSep i j 0 l = true)

def isBreak : Token → Bool
  | .chr _ => false
  | .tag t => named "<br".toList t

def isSpace : Token → Bool
  | .chr c => isWhitespace c
  | .tag t => named "<br".toList t

/-- A tag of a table, a section of it, a row or a cell. -/
def isTableTag (t : Str) : Bool := isNamed (cellCloseTags ++ rowCloseTags ++ tableOpenTags) t

/-- The text of the tables is kept, with the cells and the rows apart, and no tag of them. -/
def KeepsTables (mode : RenderMode) (doc : List Token) : Prop :=
  (separateTableBlocks (write doc) mode).Ensures fun out =>
    (tokens 0 out).filter Token.isText = (reading doc).filter Token.isText ∧
    (∀ t, .tag t ∈ tokens 0 out → isTableTag t = false) ∧
    TextsApart (places {} doc) isSpace isBreak (tokens 0 out)

/-- A break, or the written end of a row, a section, a caption or a table; in links mode the
end of a division. -/
def endsRow (mode : RenderMode) : Token → Bool
  | .chr _ => false
  | .tag t =>
    named "<br".toList t || isNamed rowCloseTags t || (mode == .links && named "</div".toList t)

/-- White space, what ends a row, or the written end of a cell. -/
def endsCell (mode : RenderMode) : Token → Bool
  | .chr c => isWhitespace c
  | .tag t => endsRow mode (.tag t) || isNamed cellCloseTags t

/-- An end is written between neighbouring texts of different cells. -/
def EndsWritten (mode : RenderMode) (doc : List Token) : Prop :=
  NeighboursApart (places {} doc) (endsCell mode) (endsRow mode) (reading doc)

/-! ### Reading a document -/

/-- No `<` is left without its `>`. -/
def Closed (s : Str) : Prop := Token.chr '<' ∉ tokens 0 s

theorem closed_of_last {s : Str} (h : s = [] ∨ s.getLast? = some '>') : Closed s := by
  induction s using read_induction with
  | nil => exact List.not_mem_nil
  | chr c s hnone ih =>
    have hlast : (c :: s).getLast? = some '>' := h.resolve_left (List.cons_ne_nil c s)
    rw [Closed, tokens_chr hnone, List.mem_cons, not_or]
    cases s with
    | nil =>
      have hc : c = '>' := by simpa using hlast
      subst hc
      exact ⟨by decide, List.not_mem_nil⟩
    | cons d s =>
      rw [List.getLast?_cons_cons] at hlast
      refine ⟨fun heq => ?_, ih (Or.inr hlast)⟩
      exact tagLen_eq_none_iff.mp hnone (Token.chr.inj heq).symm (List.mem_of_getLast? hlast)
  | tag t u ht ih =>
    rw [Closed, tokens_tag ht, List.mem_cons, not_or]
    refine ⟨by simp, ih ?_⟩
    cases u with
    | nil => exact Or.inl rfl
    | cons d u =>
      have hlast := h.resolve_left (by simp)
      rw [List.getLast?_append_cons] at hlast
      exact Or.inr hlast

theorem tokens_append_closed {s : Str} (h : Closed s) (u : Str) :
    tokens 0 (s ++ u) = tokens 0 s ++ tokens 0 u := by
  induction s using read_induction with
  | nil => rfl
  | chr c s hnone ih =>
    rw [Closed, tokens_chr hnone, List.mem_cons, not_or] at h
    obtain ⟨hc, hs⟩ := h
    have hnone' : tagLen (c :: (s ++ u)) = none :=
      tagLen_eq_none_iff.mpr fun heq => absurd (congrArg Token.chr heq.symm) hc
    rw [List.cons_append, tokens_chr hnone', tokens_chr hnone, ih hs, List.cons_append]
  | tag t u' ht ih =>
    rw [Closed, tokens_tag ht, List.mem_cons, not_or] at h
    rw [List.append_assoc, tokens_tag ht, tokens_tag ht, ih h.2, List.cons_append]

theorem Token.Written.closed {x : Token} (h : x.Written) : Closed x.text := by
  cases x with
  | chr c =>
    have hnone : tagLen [c] = none := tagLen_eq_none_iff.mpr fun heq => absurd heq h
    rw [Closed, Token.text, tokens_chr hnone, List.mem_cons, not_or]
    exact ⟨fun heq => h (Token.chr.inj heq).symm, List.not_mem_nil⟩
  | tag t => exact closed_of_last (Or.inr h.2)

theorem tokens_written {doc : List Token} (h : Written doc) :
    tokens 0 (write doc) = reading doc := by
  induction doc with
  | nil => rfl
  | cons x doc ih =>
    have hx := h x List.mem_cons_self
    have hrest := ih fun y hy => h y (List.mem_cons_of_mem x hy)
    have hfirst : write (x :: doc) = x.text ++ write doc := rfl
    rw [hfirst, tokens_append_closed hx.closed, hrest]
    cases x with
    | chr c =>
      have hnone : tagLen [c] = none := tagLen_eq_none_iff.mpr fun heq => absurd heq hx
      rw [Token.text, tokens_chr hnone]
      rfl
    | tag t => rfl

theorem closed_written {doc : List Token} (h : Written doc) : Closed (write doc) := by
  rw [Closed, tokens_written h, reading, List.mem_flatMap]
  rintro ⟨x, hx, hmem⟩
  have hclosed := (h x hx).closed
  cases x with
  | chr c => exact h _ hx (Token.chr.inj (List.mem_singleton.mp hmem)).symm
  | tag t => exact hclosed hmem

/-! ### Names that differ -/

def clash : Str → Str → Bool
  | [], [] => false
  | [], d :: _ => !boundaryChar d
  | c :: _, [] => !boundaryChar c
  | c :: a, d :: b => !sameFolded c d || clash a b

theorem boundaryChar_lt {c : Char} (h : boundaryChar c = true) : c.toNat < 65 := by
  simp only [boundaryChar, blankChar, Bool.or_eq_true, beq_iff_eq] at h
  rcases h with (rfl | rfl) | ((rfl | rfl) | rfl) | rfl <;> decide

theorem not_sameFolded_boundary {c d : Char} (hc : boundaryChar c = true)
    (hd : boundaryChar d = false) : sameFolded c d = false := by
  refine Bool.eq_false_iff.mpr fun h => ?_
  rw [← eq_of_sameFolded h (Or.inl (boundaryChar_lt hc)), hc] at hd
  cases hd

theorem named_cons (d : Char) (name : Str) (c : Char) (t : Str) :
    named (d :: name) (c :: t) = (sameFolded c d && named name t) := Bool.and_assoc _ _ _

theorem named_clash {a b t : Str} (h : clash a b = true) (ha : named a t = true) :
    named b t = false := by
  induction a generalizing b t with
  | nil =>
    cases b with
    | nil => cases h
    | cons d b =>
      rw [clash, Bool.not_eq_true'] at h
      cases t with
      | nil => rfl
      | cons c t =>
        have hc : boundaryChar c = true := ha
        rw [named_cons, not_sameFolded_boundary hc h, Bool.false_and]
  | cons d a ih =>
    cases t with
    | nil => cases ha
    | cons c t =>
      rw [named_cons, Bool.and_eq_true] at ha
      obtain ⟨hsame, hrest⟩ := ha
      cases b with
      | nil =>
        rw [clash, Bool.not_eq_true'] at h
        refine Bool.eq_false_iff.mpr fun hc => ?_
        have hc : boundaryChar c = true := hc
        rw [not_sameFolded_boundary hc h] at hsame
        cases hsame
      | cons e b =>
        rw [clash, Bool.or_eq_true, Bool.not_eq_true'] at h
        rw [named_cons, Bool.and_eq_false_iff]
        rcases h with hdiffer | hclash
        · refine Or.inl (Bool.eq_false_iff.mpr fun hsame' => ?_)
          rw [sameFolded_iff] at hsame hsame'
          rw [Bool.eq_false_iff, Ne, sameFolded_iff, ← hsame, ← hsame'] at hdiffer
          exact hdiffer rfl
        · exact Or.inr (ih hclash hrest)

theorem isNamed_clash {names others : List String}
    (h : ∀ a ∈ names, ∀ b ∈ others, clash a.toList b.toList = true) {t : Str}
    (ht : isNamed names t = true) : isNamed others t = false := by
  obtain ⟨a, ha, hnamed⟩ := List.any_eq_true.mp ht
  rw [isNamed, List.any_eq_false]
  intro b hb
  rw [named_clash (h a ha b hb) hnamed]
  exact Bool.false_ne_true

theorem isNamed_one (name : String) (t : Str) : isNamed [name] t = named name.toList t := by
  rw [isNamed, List.any_cons, List.any_nil, Bool.or_false]

theorem startsAny_tag {names : List String}
    (hnames : ∀ n ∈ names, (n.toList.all fun c => decide (IsAscii c)) = true ∧ '>' ∉ n.toList)
    {t : Str} (ht : IsTag t) (u : Str) :
    (startsAny (t ++ u) names).Ensures fun b => b = isNamed names t := by
  induction names with
  | nil => exact Ensures.pure rfl
  | cons n names ih =>
    obtain ⟨hascii, hgt⟩ := hnames n List.mem_cons_self
    refine Ensures.bind (startsTag_tag (forall_mem_of_all hascii) hgt ht u) fun b hb => ?_
    rw [isNamed, List.any_cons, ← hb]
    cases b with
    | true => exact Ensures.pure rfl
    | false =>
      rw [Bool.false_or]
      exact ih fun m hm => hnames m (List.mem_cons_of_mem n hm)

/-! ### What the tags are replaced by -/

/-- What stands in place of a token; `sibling` tells whether another division follows. -/
def replaced (mode : RenderMode) (sibling : Bool) : Token → List Token
  | .chr c => [.chr c]
  | .tag t =>
    if isNamed cellCloseTags t then [.chr ' ']
    else if isNamed rowCloseTags t then [.tag br]
    else if mode == .links && named "</div".toList t then
      List.replicate (if sibling then 2 else 1) (.tag br)
    else if mode == .links && named "<div".toList t then []
    else if isNamed tableOpenTags t then []
    else [.tag t]

inductive Replaces (mode : RenderMode) : List Token → List Token → Prop
  | nil : Replaces mode [] []
  | cons {x : Token} {l o : List Token} (sibling : Bool) (h : Replaces mode l o) :
      Replaces mode (x :: l) (replaced mode sibling x ++ o)

/-- A scanner stands at `i` with `out` written, and the rest only has to be replaced. -/
def Replacing (html : Str) (mode : RenderMode) (out : Str) (i : Nat) : Prop :=
  ∃ u done, Rest html i u ∧ Closed u ∧ out = write done ∧
    ∀ o, Replaces mode (tokens 0 u) o → Replaces mode (tokens 0 html) (done ++ o)

theorem Replacing.next {html out t u : Str} {mode : RenderMode} {i : Nat} {x : Token}
    {done : List Token} (hu : Rest html (i + byteLen t) u) (hclosed : Closed u)
    (hout : out = write done) (hread : tokens 0 (t ++ u) = x :: tokens 0 u)
    (hdone : ∀ o, Replaces mode (tokens 0 (t ++ u)) o → Replaces mode (tokens 0 html) (done ++ o))
    (sibling : Bool) :
    Replacing html mode (out ++ write (replaced mode sibling x)) (i + byteLen t) := by
  refine ⟨u, done ++ replaced mode sibling x, hu, hclosed, by rw [hout, write_append], ?_⟩
  intro o ho
  rw [List.append_assoc]
  exact hdone _ (hread ▸ .cons sibling ho)

theorem separateTableBlocks_replaces {html : Str} (hclosed : Closed html) (mode : RenderMode) :
    (separateTableBlocks html mode).Ensures fun out =>
      ∃ o, Replaces mode (tokens 0 html) o ∧ out = write o := by
  rw [separateTableBlocks]
  refine Ensures.loop (fun st : Str × Nat => Replacing html mode st.1 st.2)
    (fun st => byteLen html - st.2) ⟨html, [], Rest.start html, hclosed, rfl, fun o ho => ho⟩ ?_
  rintro ⟨out, i⟩ ⟨w, done, hw, hclose, hout, hdone⟩
  have hw : Rest html i w := hw
  have hout : out = write done := hout
  dsimp only
  by_cases hlt : i < (bytes html).length
  · have hlt' : i < byteLen html := by rwa [length_bytes] at hlt
    obtain ⟨c, v, rfl⟩ := hw.exists_cons hlt'
    have hread : ((bytes html)[i] == lt) = (c == '<') :=
      (readsChars_ascii (d := '<') (by decide)).at hw hlt
    have hbang : ((bytes html)[i] != lt) = !(c == '<') := congrArg _ hread
    rw [if_pos hlt, index_of_getElem? (List.getElem?_eq_getElem hlt), pure_bind, hbang]
    by_cases hc : c = '<'
    · subst hc
      rw [if_neg (by decide)]
      have hgt : '>' ∈ v := by
        refine Decidable.byContradiction fun hnone => ?_
        have hfree := tagLen_eq_none_iff.mpr fun _ : ('<' : Char) = '<' => hnone
        exact hclose (by rw [tokens_chr hfree]; exact List.mem_cons_self)
      obtain ⟨a, u, rfl, ht⟩ := isTag_of_mem hgt
      have htext : '<' :: (a ++ '>' :: u) = '<' :: (a ++ ['>']) ++ u := by simp
      generalize '<' :: (a ++ ['>']) = t at ht htext
      rw [htext] at hw hclose hdone
      have hu := hw.append
      have hclosed' : Closed u := by
        rw [Closed, tokens_tag ht, List.mem_cons, not_or] at hclose
        exact hclose.2
      have hnext := fun sibling => Replacing.next hu hclosed' hout (tokens_tag ht u) hdone sibling
      have hbound := hu.le
      have hpos : 0 < byteLen t := by
        obtain ⟨x, rfl, -⟩ := ht
        rw [byteLen_cons]
        have := ('<' : Char).utf8Size_pos
        omega
      have hstep : ∀ sibling w, write (replaced mode sibling (.tag t)) = w →
          Turn.Meets (fun st : Str × Nat => Replacing html mode st.1 st.2)
            (fun st => byteLen html - st.2) (byteLen html - i)
            (fun out => ∃ o, Replaces mode (tokens 0 html) o ∧ out = write o)
            (.again (out ++ w, i + byteLen t)) := by
        rintro sibling w rfl
        refine ⟨hnext sibling, ?_⟩
        show byteLen html - (i + byteLen t) < byteLen html - i
        omega
      rw [sliceFrom_rest hw, pure_bind, tagEnd_tag ht hw, pure_bind]
      refine Ensures.bind (startsAny_tag (by decide) ht u) fun cell hcell => ?_
      have hcell : cell = isNamed cellCloseTags t := hcell
      split
      · rename_i htrue
        refine Ensures.pure (hstep false _ ?_)
        rw [replaced, ← hcell, if_pos htrue]
        rfl
      rename_i hcellNot
      rw [hcell] at hcellNot
      refine Ensures.bind (startsAny_tag (by decide) ht u) fun row hrow => ?_
      split
      · rename_i htrue
        refine Ensures.pure (hstep false _ ?_)
        rw [replaced, if_neg hcellNot, ← hrow, if_pos htrue]
        rfl
      rename_i hrowNot
      rw [hrow] at hrowNot
      refine Ensures.bind (startsTag_tag (forall_mem_of_all (by decide)) (by decide) ht u)
        fun close hclose => ?_
      subst hclose
      split
      · rename_i htrue
        refine Ensures.bind (nextIsDivOpen_returns ⟨u, hu⟩) fun sibling _ => ?_
        refine Ensures.pure (hstep sibling _ ?_)
        rw [replaced, if_neg hcellNot, if_neg hrowNot, if_pos htrue]
        cases sibling <;> rfl
      rename_i hcloseNot
      refine Ensures.bind (startsTag_tag (forall_mem_of_all (by decide)) (by decide) ht u)
        fun opened hopened => ?_
      subst hopened
      split
      · rename_i htrue
        refine Ensures.pure ?_
        have hempty := hstep false [] (by
          rw [replaced, if_neg hcellNot, if_neg hrowNot, if_neg hcloseNot, if_pos htrue]
          rfl)
        rwa [List.append_nil] at hempty
      rename_i hopenNot
      refine Ensures.bind (startsAny_tag (by decide) ht u) fun table htable => ?_
      split
      · rename_i htrue
        refine Ensures.pure ?_
        have hempty := hstep false [] (by
          rw [replaced, if_neg hcellNot, if_neg hrowNot, if_neg hcloseNot, if_neg hopenNot,
            ← htable, if_pos htrue]
          rfl)
        rwa [List.append_nil] at hempty
      rename_i htableNot
      rw [htable] at htableNot
      rw [slice_rest hw rfl, pure_bind]
      refine Ensures.pure (hstep false _ ?_)
      rw [replaced, if_neg hcellNot, if_neg hrowNot, if_neg hcloseNot, if_neg hopenNot,
        if_neg htableNot, write_tag, write_nil, List.append_nil]
    · rw [if_pos (by simpa using hc), charAt_rest hw, pure_bind]
      have hnone : ∀ u : Str, tagLen (c :: u) = none := fun u =>
        tagLen_eq_none_iff.mpr fun heq => absurd heq hc
      have hone : Rest html i ([c] ++ v) := hw
      have hclosed' : Closed v := by
        rw [Closed, tokens_chr (hnone v), List.mem_cons, not_or] at hclose
        exact hclose.2
      have hnext := Replacing.next hone.append hclosed' hout (tokens_chr (hnone v)) hdone false
      have hsize : byteLen [c] = c.utf8Size := by simp
      rw [hsize] at hnext
      have hpos := c.utf8Size_pos
      refine Ensures.pure ⟨hnext, ?_⟩
      show byteLen html - (i + c.utf8Size) < byteLen html - i
      omega
  · rw [if_neg hlt]
    rw [length_bytes] at hlt
    obtain rfl := hw.eq_nil_iff.mpr (Nat.not_lt.mp hlt)
    have hall := hdone [] .nil
    rw [List.append_nil] at hall
    exact Ensures.pure ⟨done, hall, hout⟩

/-! ### What is kept -/

def Token.Clean : Token → Prop
  | .chr c => c ≠ '<'
  | .tag t => IsTag t

theorem legible_of_clean {l : List Token} (h : ∀ x ∈ l, x.Clean) : Legible l := by
  induction l with
  | nil => exact trivial
  | cons x l ih =>
    have hx := h x List.mem_cons_self
    have hl := ih fun y hy => h y (List.mem_cons_of_mem x hy)
    cases x with
    | chr c => exact ⟨tagLen_eq_none_iff.mpr fun heq => absurd heq hx, hl⟩
    | tag t => exact ⟨hx, hl⟩

theorem clean_tokens {s : Str} (h : Closed s) : ∀ x ∈ tokens 0 s, x.Clean := by
  intro x hx
  cases x with
  | chr c =>
    rintro rfl
    exact h hx
  | tag t => exact (legible_tokens s).isTag hx

theorem replaced_tag (mode : RenderMode) (sibling : Bool) (t : Str) :
    (isNamed cellCloseTags t = true ∧ replaced mode sibling (.tag t) = [.chr ' ']) ∨
    (isNamed cellCloseTags t = false ∧
      (isNamed rowCloseTags t || (mode == .links && named "</div".toList t)) = true ∧
      ∃ n, replaced mode sibling (.tag t) = List.replicate (n + 1) (.tag br)) ∨
    (isNamed cellCloseTags t = false ∧
      (isNamed rowCloseTags t || (mode == .links && named "</div".toList t)) = false ∧
      isNamed ("<div" :: tableOpenTags) t = true ∧ replaced mode sibling (.tag t) = []) ∨
    (isNamed cellCloseTags t = false ∧
      (isNamed rowCloseTags t || (mode == .links && named "</div".toList t)) = false ∧
      isNamed tableOpenTags t = false ∧ replaced mode sibling (.tag t) = [.tag t]) := by
  rw [replaced]
  by_cases hcell : isNamed cellCloseTags t = true
  · exact .inl ⟨hcell, if_pos hcell⟩
  rw [if_neg hcell]
  rw [Bool.not_eq_true] at hcell
  by_cases hrow : isNamed rowCloseTags t = true
  · rw [if_pos hrow, hrow]
    exact .inr (.inl ⟨hcell, rfl, 0, rfl⟩)
  rw [if_neg hrow]
  rw [Bool.not_eq_true] at hrow
  by_cases hclose : (mode == .links && named "</div".toList t) = true
  · rw [if_pos hclose, hrow, hclose]
    refine .inr (.inl ⟨hcell, rfl, if sibling then 1 else 0, ?_⟩)
    cases sibling <;> rfl
  rw [if_neg hclose]
  rw [Bool.not_eq_true] at hclose
  rw [hrow, hclose]
  by_cases hopen : (mode == .links && named "<div".toList t) = true
  · rw [if_pos hopen]
    rw [Bool.and_eq_true] at hopen
    refine .inr (.inr (.inl ⟨hcell, rfl, ?_, rfl⟩))
    rw [isNamed, List.any_cons, hopen.2, Bool.true_or]
  rw [if_neg hopen]
  by_cases htable : isNamed tableOpenTags t = true
  · rw [if_pos htable]
    refine .inr (.inr (.inl ⟨hcell, rfl, ?_, rfl⟩))
    rw [isNamed, List.any_cons]
    exact Bool.or_eq_true_iff.mpr (.inr htable)
  rw [if_neg htable]
  rw [Bool.not_eq_true] at htable
  exact .inr (.inr (.inr ⟨hcell, rfl, htable, rfl⟩))

theorem replaced_clean (mode : RenderMode) (sibling : Bool) {x : Token} (hx : x.Clean) :
    ∀ y ∈ replaced mode sibling x, y.Clean := by
  cases x with
  | chr c => simpa [replaced] using hx
  | tag t =>
    rcases replaced_tag mode sibling t with ⟨-, h⟩ | ⟨-, -, n, h⟩ | ⟨-, -, -, h⟩ | ⟨-, -, -, h⟩
    · rw [h]
      simp [Token.Clean]
    · rw [h]
      intro y hy
      rw [List.eq_of_mem_replicate hy]
      exact ⟨['b', 'r'], rfl, by decide⟩
    · rw [h]
      simp
    · rw [h]
      simpa using hx

theorem Replaces.clean {mode : RenderMode} {l o : List Token} (h : Replaces mode l o)
    (hl : ∀ x ∈ l, x.Clean) : ∀ y ∈ o, y.Clean := by
  induction h with
  | nil => exact hl
  | @cons x l o sibling _ ih =>
    intro y hy
    rcases List.mem_append.mp hy with hy | hy
    · exact replaced_clean mode sibling (hl x List.mem_cons_self) y hy
    · exact ih (fun z hz => hl z (List.mem_cons_of_mem x hz)) y hy

theorem replaced_text (mode : RenderMode) (sibling : Bool) (x : Token) :
    (replaced mode sibling x).filter Token.isText = [x].filter Token.isText := by
  cases x with
  | chr c => rfl
  | tag t =>
    have hnone : [Token.tag t].filter Token.isText = [] := rfl
    rw [hnone]
    rcases replaced_tag mode sibling t with ⟨-, h⟩ | ⟨-, -, n, h⟩ | ⟨-, -, -, h⟩ | ⟨-, -, -, h⟩
    · rw [h]
      decide
    · rw [h, List.filter_eq_nil_iff]
      intro y hy
      rw [List.eq_of_mem_replicate hy]
      decide
    · rw [h]
      rfl
    · rw [h]
      rfl

theorem Replaces.text {mode : RenderMode} {l o : List Token} (h : Replaces mode l o) :
    o.filter Token.isText = l.filter Token.isText := by
  induction h with
  | nil => rfl
  | @cons x l o sibling _ ih =>
    rw [List.filter_append, replaced_text, ih, ← List.filter_append, List.singleton_append]

theorem replaced_no_table (mode : RenderMode) (sibling : Bool) (x : Token) (t : Str)
    (ht : .tag t ∈ replaced mode sibling x) : isTableTag t = false := by
  cases x with
  | chr c => simp [replaced] at ht
  | tag t' =>
    rcases replaced_tag mode sibling t' with
      ⟨-, h⟩ | ⟨-, -, n, h⟩ | ⟨-, -, -, h⟩ | ⟨hcell, hrow, htable, h⟩
    · rw [h] at ht
      simp at ht
    · rw [h] at ht
      rw [Token.tag.inj (List.eq_of_mem_replicate ht)]
      decide
    · rw [h] at ht
      cases ht
    · rw [h, List.mem_singleton] at ht
      rw [Token.tag.inj ht]
      rw [Bool.or_eq_false_iff] at hrow
      rw [isTableTag, isNamed, List.any_append, List.any_append]
      rw [isNamed] at hcell htable
      rw [hcell, show (rowCloseTags.any fun n => named n.toList t') = false from hrow.1, htable]
      rfl

theorem Replaces.no_table {mode : RenderMode} {l o : List Token} (h : Replaces mode l o) (t : Str)
    (ht : .tag t ∈ o) : isTableTag t = false := by
  induction h with
  | nil => cases ht
  | @cons x l o sibling _ ih =>
    rcases List.mem_append.mp ht with ht | ht
    · exact replaced_no_table mode sibling x t ht
    · exact ih ht

/-! ### What separates -/

variable {sep sep' : Token → Bool} {i j : Nat}

theorem parted_append (n : Nat) (l m : List Token) : parted sep i j n (l ++ m) =
    (parted sep i j n l || parted sep i j (n + l.countP Token.isText) m) := by
  induction l generalizing n with
  | nil => rw [List.nil_append, List.countP_nil, Nat.add_zero, parted, Bool.false_or]
  | cons x l ih =>
    have hcount : (x :: l).countP Token.isText =
        [x].countP Token.isText + l.countP Token.isText := by
      rw [← List.singleton_append, List.countP_append]
    rw [List.cons_append, parted, parted, ih, hcount, Nat.add_assoc, Bool.or_assoc]

theorem parted_one (n : Nat) (x : Token) :
    parted sep i j n [x] = (sep x && decide (i < n) && decide (n ≤ j)) := by
  rw [parted, parted, Bool.or_false]

theorem parted_mono {i' j' n : Nat} {l : List Token} (h : parted sep i' j' n l = true)
    (hi : i ≤ i') (hj : j' ≤ j) : parted sep i j n l = true := by
  induction l generalizing n with
  | nil => cases h
  | cons x l ih =>
    rw [parted, Bool.or_eq_true, Bool.and_eq_true, Bool.and_eq_true, decide_eq_true_eq,
      decide_eq_true_eq] at h ⊢
    rcases h with ⟨⟨hsep, hlt⟩, hle⟩ | h
    · exact .inl ⟨⟨hsep, by omega⟩, by omega⟩
    · exact .inr (ih h)

theorem parted_replicate_br (hbr : sep (.tag br) = true) (n m : Nat) :
    parted sep i j n (List.replicate (m + 1) (.tag br)) = (decide (i < n) && decide (n ≤ j)) := by
  induction m with
  | zero => rw [List.replicate_succ, List.replicate_zero, parted_one, hbr, Bool.true_and]
  | succ m ih =>
    have hstay : n + [Token.tag br].countP Token.isText = n := rfl
    rw [List.replicate_succ, parted, hstay, ih, hbr, Bool.true_and, Bool.or_self]

theorem Replaces.parted {mode : RenderMode} {l o : List Token} (h : Replaces mode l o)
    (hone : ∀ sibling x n, Content.parted sep i j n (replaced mode sibling x) =
      Content.parted sep' i j n [x]) (n : Nat) :
    Content.parted sep i j n o = Content.parted sep' i j n l := by
  induction h generalizing n with
  | nil => rfl
  | @cons x l o sibling _ ih =>
    have hcount : (replaced mode sibling x).countP Token.isText = [x].countP Token.isText := by
      rw [List.countP_eq_length_filter, List.countP_eq_length_filter, replaced_text]
    rw [parted_append, ← List.singleton_append, parted_append, hone, hcount, ih]

theorem parted_cell (mode : RenderMode) (sibling : Bool) (x : Token) (n : Nat) :
    parted isSpace i j n (replaced mode sibling x) = parted (endsCell mode) i j n [x] := by
  cases x with
  | chr c => rw [replaced, parted_one, parted_one, isSpace, endsCell]
  | tag t =>
    have hbr : ∀ names : List String, (∀ a ∈ names, clash a.toList "<br".toList = true) →
        isNamed names t = true → named "<br".toList t = false := by
      intro names hnames ht
      rw [← isNamed_one]
      exact isNamed_clash (fun a ha b hb => List.mem_singleton.mp hb ▸ hnames a ha) ht
    rw [parted_one, endsCell, endsRow, Bool.or_assoc (named _ _)]
    rcases replaced_tag mode sibling t with
      ⟨hcell, h⟩ | ⟨-, hrow, m, h⟩ | ⟨hcell, hrow, hopen, h⟩ | ⟨hcell, hrow, -, h⟩
    · rw [h, parted_one, hcell, Bool.or_true]
      rfl
    · rw [h, parted_replicate_br (by decide), hrow, Bool.or_true, Bool.true_or, Bool.true_and]
    · rw [h, parted, hcell, hrow, hbr _ (by decide) hopen]
      rfl
    · rw [h, parted_one, hcell, hrow, Bool.or_false, Bool.or_false, isSpace]

theorem parted_row (mode : RenderMode) (sibling : Bool) (x : Token) (n : Nat) :
    parted isBreak i j n (replaced mode sibling x) = parted (endsRow mode) i j n [x] := by
  cases x with
  | chr c => rw [replaced, parted_one, parted_one, isBreak, endsRow]
  | tag t =>
    have hfree : ∀ names others : List String,
        (∀ a ∈ names, ∀ b ∈ others, clash a.toList b.toList = true) → isNamed names t = true →
        isNamed others t = false := fun _ _ hnames ht => isNamed_clash hnames ht
    rw [parted_one, endsRow, Bool.or_assoc]
    rcases replaced_tag mode sibling t with
      ⟨hcell, h⟩ | ⟨-, hrow, m, h⟩ | ⟨hcell, hrow, hopen, h⟩ | ⟨hcell, hrow, -, h⟩
    · have hnone := hfree _ ("<br" :: "</div" :: rowCloseTags) (by decide) hcell
      rw [isNamed, List.any_cons, List.any_cons, Bool.or_eq_false_iff,
        Bool.or_eq_false_iff] at hnone
      obtain ⟨hbr, hdiv, hrow⟩ := hnone
      rw [h, parted_one, hbr, hdiv, show isNamed rowCloseTags t = false from hrow, Bool.and_false]
      rfl
    · rw [h, parted_replicate_br (by decide), hrow, Bool.or_true, Bool.true_and]
    · have hbr := hfree _ ["<br"] (by decide) hopen
      rw [isNamed_one] at hbr
      rw [h, parted, hrow, hbr]
      rfl
    · rw [h, parted_one, hrow, Bool.or_false, isBreak]

/-! ### Neighbours -/

theorem parted_of_neighbours {ps : List (Option Place)} (key : Place → Nat) {l : List Token}
    (h : ∀ i j p q, i < j → ps[i]? = some (some p) → ps[j]? = some (some q) →
      (∀ k, i < k → k < j → ps[k]? = some none) → key p ≠ key q → parted sep i j 0 l = true)
    {i j : Nat} {p q : Place} (hij : i < j) (hp : ps[i]? = some (some p))
    (hq : ps[j]? = some (some q)) (hkey : key p ≠ key q) : parted sep i j 0 l = true := by
  induction hn : j - i using Nat.strong_induction_on generalizing i j p q with
  | _ n ih =>
    by_cases hbetween : ∀ k, i < k → k < j → ps[k]? = some none
    · exact h i j p q hij hp hq hbetween hkey
    · simp only [not_forall] at hbetween
      obtain ⟨k, hik, hkj, hk⟩ := hbetween
      have hlen : k < ps.length := hkj.trans (List.getElem?_eq_some_iff.mp hq).1
      obtain ⟨r, hr⟩ : ∃ r, ps[k]? = some (some r) := by
        rw [List.getElem?_eq_getElem hlen] at hk ⊢
        cases hget : ps[k] with
        | none => exact absurd (congrArg some hget) hk
        | some r => exact ⟨r, rfl⟩
      by_cases hsame : key p = key r
      · exact parted_mono (ih (j - k) (by omega) hkj hr hq (hsame ▸ hkey) rfl) hik.le le_rfl
      · exact parted_mono (ih (k - i) (by omega) hik hp hr hsame rfl) le_rfl hkj.le

theorem textsApart_of_neighbours {ps : List (Option Place)} {cellSep rowSep : Token → Bool}
    {l : List Token} (h : NeighboursApart ps cellSep rowSep l) :
      TextsApart ps cellSep rowSep l := by
  intro i j p q hij hp hq
  constructor
  · refine parted_of_neighbours Place.cell ?_ hij hp hq
    exact fun i j p q hij hp hq hnone => (h i j p q hij hp hq hnone).1
  · refine parted_of_neighbours Place.row ?_ hij hp hq
    exact fun i j p q hij hp hq hnone => (h i j p q hij hp hq hnone).2

theorem separated_written (mode : RenderMode) {doc : List Token} (hdoc : Written doc) :
    (separateTableBlocks (write doc) mode).Ensures fun out =>
      Replaces mode (reading doc) (tokens 0 out) := by
  have hclosed := closed_written hdoc
  refine (separateTableBlocks_replaces hclosed mode).mono ?_
  rintro out ⟨o, ho, rfl⟩
  rw [tokens_write (legible_of_clean (ho.clean (clean_tokens hclosed))), ← tokens_written hdoc]
  exact ho

theorem KeepsTables.textsApart {mode : RenderMode} {doc : List Token} (h : KeepsTables mode doc)
    (hdoc : Written doc) :
    TextsApart (places {} doc) (endsCell mode) (endsRow mode) (reading doc) := by
  obtain ⟨out, -, ⟨-, -, hapart⟩, hout⟩ := h.and (separated_written mode hdoc)
  intro i j p q hij hp hq
  obtain ⟨hcell, hrow⟩ := hapart i j p q hij hp hq
  rw [hout.parted (parted_cell mode)] at hcell
  rw [hout.parted (parted_row mode)] at hrow
  exact ⟨hcell, hrow⟩

/-- The text of a table is kept apart exactly where an end is written between neighbouring
cells, and between neighbouring rows. -/
theorem keepsTables_iff (mode : RenderMode) {doc : List Token} (hdoc : Written doc) :
    KeepsTables mode doc ↔ EndsWritten mode doc := by
  constructor
  · intro hkeeps i j p q hij hp hq _
    exact hkeeps.textsApart hdoc i j p q hij hp hq
  · intro hends
    refine (separated_written mode hdoc).mono fun out hout => ?_
    refine ⟨hout.text, hout.no_table, fun i j p q hij hp hq => ?_⟩
    rw [hout.parted (parted_cell mode), hout.parted (parted_row mode)]
    exact textsApart_of_neighbours hends i j p q hij hp hq

def closedTable : List Token :=
  [.tag "<table>".toList, .tag "<tr>".toList, .tag "<td>".toList, .chr 'a', .tag "</td>".toList,
    .tag "<td align=left>".toList, .chr 'b', .tag "</td>".toList, .tag "</tr>".toList,
    .tag "</table>".toList]

theorem keepsTables_closedTable : KeepsTables .rich closedTable := by
  refine (keepsTables_iff .rich (forall_mem_of_all (by decide))).mpr fun i j p q hij hp hq _ => ?_
  have hps : places {} closedTable = [some ⟨0, 0⟩, some ⟨0, 1⟩] := by decide
  rw [hps] at hp hq
  have hj : j < 2 := (List.getElem?_eq_some_iff.mp hq).1
  obtain ⟨rfl, rfl⟩ : i = 0 ∧ j = 1 := by omega
  obtain rfl : ⟨0, 0⟩ = p := by simpa using hp
  obtain rfl : ⟨0, 1⟩ = q := by simpa using hq
  exact ⟨fun _ => by decide, fun hrow => absurd rfl hrow⟩

def openTable : List Token :=
  [.tag "<table>".toList, .tag "<tr>".toList, .tag "<td>".toList, .chr 'a', .tag "<td>".toList,
    .chr 'b', .tag "</table>".toList]

/-- The two cells run into one word. -/
theorem openTable_glued : ¬ KeepsTables .rich openTable := by
  intro h
  have hapart := h.textsApart (forall_mem_of_all (by decide)) 0 1 ⟨0, 0⟩ ⟨0, 1⟩ Nat.zero_lt_one
    (by decide) (by decide)
  exact absurd (hapart.1 (by decide)) (by decide)

end JmapBridge.Content
