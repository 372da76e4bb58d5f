import JmapBridge.Property.FoldedCase

/-! An HTML text read as tags and the characters between them. A tag goes from `<` to the
first `>` after it, and a `<` with no `>` after it is a character. -/

namespace JmapBridge.Content

open Rust Rust.Str Rust.Scan

inductive Token where
  | chr (c : Char)
  | tag (t : Str)
deriving DecidableEq, Repr

def Token.text : Token → Str
  | chr c => [c]
  | tag t => t

/-- The length of the tag that `s` begins with. -/
def tagLen (s : Str) : Option Nat :=
  if s.head? = some '<' ∧ '>' ∈ s then some ((s.takeWhile (· != '>')).length + 1) else none

/-- The tokens of `s`, the first `k` characters of which belong to a tag. -/
def tokens : Nat → Str → List Token
  | _, [] => []
  | k + 1, _ :: s => tokens k s
  | 0, c :: s =>
    match tagLen (c :: s) with
    | some n => .tag ((c :: s).take n) :: tokens (n - 1) s
    | none => .chr c :: tokens 0 s

def write (l : List Token) : Str := l.flatMap Token.text

def IsTag (t : Str) : Prop := ∃ w, t = '<' :: (w ++ ['>']) ∧ '>' ∉ w

@[simp] theorem write_nil : write [] = [] := rfl

@[simp] theorem write_chr (c : Char) (l : List Token) : write (.chr c :: l) = c :: write l := rfl

@[simp] theorem write_tag (t : Str) (l : List Token) : write (.tag t :: l) = t ++ write l := rfl

@[simp] theorem write_append (l m : List Token) : write (l ++ m) = write l ++ write m := by
  simp [write]

@[simp] theorem write_chars (w : Str) : write (w.map .chr) = w := by
  induction w with
  | nil => rfl
  | cons c w ih => rw [List.map_cons, write_chr, ih]

/-! ### Reading a tag -/

theorem IsTag.length_pos {t : Str} (h : IsTag t) : 0 < t.length := by
  obtain ⟨w, rfl, -⟩ := h
  simp

theorem IsTag.close_mem {t : Str} (h : IsTag t) : '>' ∈ t := by
  obtain ⟨w, rfl, -⟩ := h
  simp

theorem IsTag.head {t : Str} (h : IsTag t) (u : Str) : (t ++ u).head? = some '<' := by
  obtain ⟨w, rfl, -⟩ := h
  rfl

theorem tagLen_tag {t : Str} (ht : IsTag t) (u : Str) : tagLen (t ++ u) = some t.length := by
  rw [tagLen, if_pos ⟨ht.head u, List.mem_append_left u ht.close_mem⟩]
  obtain ⟨w, rfl, hw⟩ := ht
  have htake : (('<' :: (w ++ ['>'])) ++ u).takeWhile (· != '>') = '<' :: w := by
    have hpos : ∀ c ∈ '<' :: w, (c != '>') = true := by
      intro c hc
      rcases List.mem_cons.mp hc with rfl | hc
      · decide
      · exact bne_iff_ne.mpr fun heq => hw (heq ▸ hc)
    rw [show '<' :: (w ++ ['>']) ++ u = ('<' :: w) ++ '>' :: u by simp,
      List.takeWhile_append_of_pos hpos, List.takeWhile_cons_of_neg (by simp), List.append_nil]
  rw [htake]
  simp

theorem isTag_of_mem {s : Str} (h : '>' ∈ s) :
    ∃ w u, s = w ++ '>' :: u ∧ IsTag ('<' :: (w ++ ['>'])) := by
  obtain ⟨w, u, hs, hw⟩ := List.eq_append_cons_of_mem h
  exact ⟨w, u, hs, w, rfl, hw⟩

theorem tagLen_eq_none_iff {c : Char} {s : Str} :
    tagLen (c :: s) = none ↔ (c = '<' → '>' ∉ s) := by
  rw [tagLen]
  split
  · rename_i h
    obtain ⟨hc, hmem⟩ := h
    obtain rfl : c = '<' := by simpa using hc
    have hmem : '>' ∈ s := by simpa using hmem
    exact ⟨(nomatch ·), fun hnot => absurd hmem (hnot rfl)⟩
  · rename_i h
    refine ⟨fun _ hc hmem => h ?_, fun _ => rfl⟩
    rw [hc]
    exact ⟨rfl, List.mem_cons_of_mem _ hmem⟩

theorem find_close {w : Str} (hw : '>' ∉ w) (u : Str) :
    find (· == '>') (w ++ '>' :: u) = some (byteLen w) := by
  induction w with
  | nil => rfl
  | cons c w ih =>
    have hc : ¬ (c == '>') = true := fun h => hw (by simp [eq_of_beq h])
    rw [List.cons_append, find, if_neg hc, ih fun h => hw (List.mem_cons_of_mem c h), byteLen_cons]
    rfl

theorem find_tag {t : Str} (ht : IsTag t) (u : Str) :
    ∃ g, find (· == '>') (t ++ u) = some g ∧ g + 1 = byteLen t := by
  obtain ⟨w, rfl, hw⟩ := ht
  refine ⟨byteLen ('<' :: w), ?_, ?_⟩
  · have hclean : '>' ∉ '<' :: w := by simp [hw]
    rw [← find_close hclean u]
    simp
  · rw [← List.cons_append, byteLen_append]
    rfl

theorem find_of_not_mem {s : Str} (h : '>' ∉ s) : find (· == '>') s = none := by
  cases hfind : find (· == '>') s with
  | none => rfl
  | some k =>
    obtain ⟨d, x, ⟨p, rfl, -⟩, hd⟩ := find_rest hfind
    obtain rfl : d = '>' := by simpa using hd
    exact absurd (by simp) h

theorem not_mem_of_find {s : Str} (h : find (· == '>') s = none) : '>' ∉ s := by
  induction s with
  | nil => simp
  | cons c s ih =>
    rw [find] at h
    split at h
    · cases h
    · rename_i hc
      have hs := ih (Option.map_eq_none_iff.mp h)
      have hne : '>' ≠ c := fun heq => hc (by simp [← heq])
      simp [hs, hne]

theorem tag_of_find {u : Str} {g : Nat} (h : find (· == '>') ('<' :: u) = some g) :
    ∃ t v, '<' :: u = t ++ v ∧ IsTag t ∧ g + 1 = byteLen t := by
  obtain ⟨d, x, ⟨p, hp, -⟩, hd⟩ := find_rest h
  obtain rfl : d = '>' := by simpa using hd
  have hmem : '>' ∈ '<' :: u := by rw [hp]; simp
  obtain ⟨w, v, rfl, ht⟩ := isTag_of_mem ((List.mem_cons.mp hmem).resolve_left (by decide))
  have htext : '<' :: (w ++ '>' :: v) = '<' :: (w ++ ['>']) ++ v := by simp
  obtain ⟨g', hg', hlen⟩ := find_tag ht v
  rw [← htext, h] at hg'
  obtain rfl := Option.some.inj hg'
  exact ⟨_, v, htext, ht, hlen⟩

theorem tagEnd_tag {html t u : Str} {i : Nat} (ht : IsTag t) (hi : Rest html i (t ++ u)) :
    tagEnd html i = pure (i + byteLen t) := by
  obtain ⟨g, hg, hlen⟩ := find_tag ht u
  rw [tagEnd, sliceFrom_rest hi, pure_bind, hg, ← hlen]
  rfl

theorem read_induction {P : Str → Prop} (nil : P [])
    (chr : ∀ c s, tagLen (c :: s) = none → P s → P (c :: s))
    (tag : ∀ t u, IsTag t → P u → P (t ++ u)) (s : Str) : P s := by
  induction hn : s.length using Nat.strong_induction_on generalizing s with
  | _ n ih =>
    cases s with
    | nil => exact nil
    | cons c s =>
      by_cases hnone : tagLen (c :: s) = none
      · exact chr c s hnone (ih s.length (by simp [← hn]) s rfl)
      · have hlt : c = '<' ∧ '>' ∈ s := by
          rw [tagLen_eq_none_iff] at hnone
          exact ⟨Decidable.byContradiction fun hc => hnone fun h => absurd h hc,
            Decidable.byContradiction fun hmem => hnone fun _ => hmem⟩
        obtain ⟨rfl, hmem⟩ := hlt
        obtain ⟨w, u, rfl, ht⟩ := isTag_of_mem hmem
        have htext : '<' :: (w ++ '>' :: u) = '<' :: (w ++ ['>']) ++ u := by simp
        rw [htext]
        refine tag _ u ht (ih u.length ?_ u rfl)
        rw [← hn, htext, List.length_append]
        exact Nat.lt_add_of_pos_left ht.length_pos

theorem tokens_skip (w t : Str) : tokens w.length (w ++ t) = tokens 0 t := by
  induction w with
  | nil => rfl
  | cons c w ih => exact ih

theorem tokens_chr {c : Char} {s : Str} (h : tagLen (c :: s) = none) :
    tokens 0 (c :: s) = .chr c :: tokens 0 s := by
  rw [tokens, h]

theorem tokens_tag {t : Str} (ht : IsTag t) (u : Str) :
    tokens 0 (t ++ u) = .tag t :: tokens 0 u := by
  have hlen := tagLen_tag ht u
  cases t with
  | nil => exact absurd ht.length_pos (by simp)
  | cons c w =>
    rw [List.cons_append] at hlen ⊢
    rw [tokens, hlen, ← List.cons_append]
    show Token.tag (((c :: w) ++ u).take (c :: w).length) :: tokens w.length (w ++ u) = _
    rw [List.take_left, tokens_skip]

theorem write_tokens (s : Str) : write (tokens 0 s) = s := by
  induction s using read_induction with
  | nil => rfl
  | chr c s h ih => rw [tokens_chr h, write_chr, ih]
  | tag t u ht ih => rw [tokens_tag ht, write_tag, ih]

/-! ### Tokens that are read back -/

/-- Writing `l` and reading it finds `l` again. -/
def Legible : List Token → Prop
  | [] => True
  | .chr c :: l => tagLen (c :: write l) = none ∧ Legible l
  | .tag t :: l => IsTag t ∧ Legible l

theorem tokens_write {l : List Token} (h : Legible l) : tokens 0 (write l) = l := by
  induction l with
  | nil => rfl
  | cons x l ih =>
    cases x with
    | chr c => rw [write_chr, tokens_chr h.1, ih h.2]
    | tag t => rw [write_tag, tokens_tag h.1, ih h.2]

theorem legible_tokens (s : Str) : Legible (tokens 0 s) := by
  induction s using read_induction with
  | nil => exact trivial
  | chr c s h ih =>
    rw [tokens_chr h]
    refine ⟨?_, ih⟩
    rwa [write_tokens]
  | tag t u ht ih =>
    rw [tokens_tag ht]
    exact ⟨ht, ih⟩

theorem Legible.isTag {l : List Token} (h : Legible l) {t : Str} (ht : .tag t ∈ l) : IsTag t := by
  induction l with
  | nil => cases ht
  | cons x l ih =>
    rcases List.mem_cons.mp ht with rfl | hmem
    · exact h.1
    · cases x with
      | chr c => exact ih h.2 hmem
      | tag t' => exact ih h.2 hmem

theorem tokens_chars {w : Str} (hw : '<' ∉ w) (s : Str) :
    tokens 0 (w ++ s) = w.map .chr ++ tokens 0 s := by
  induction w with
  | nil => rfl
  | cons c w ih =>
    have hc : tagLen (c :: (w ++ s)) = none := by
      rw [tagLen_eq_none_iff]
      rintro rfl
      exact absurd List.mem_cons_self hw
    rw [List.cons_append, tokens_chr hc, ih fun h => hw (List.mem_cons_of_mem c h), List.map_cons,
      List.cons_append]

theorem mem_write {l m : List Token} (h : l.Sublist m) {c : Char} (hc : c ∈ write l) :
    c ∈ write m := by
  obtain ⟨x, hx, hcx⟩ := List.mem_flatMap.mp hc
  exact List.mem_flatMap.mpr ⟨x, h.subset hx, hcx⟩

theorem Legible.sublist {l m : List Token} (h : l.Sublist m) (hm : Legible m) : Legible l := by
  induction h with
  | slnil => exact hm
  | cons x _ ih =>
    cases x with
    | chr c => exact ih hm.2
    | tag t => exact ih hm.2
  | cons_cons x hsub ih =>
    cases x with
    | chr c =>
      refine ⟨?_, ih hm.2⟩
      rw [tagLen_eq_none_iff]
      intro hc hmem
      exact tagLen_eq_none_iff.mp hm.1 hc (mem_write hsub hmem)
    | tag t => exact ⟨hm.1, ih hm.2⟩

/-! ### Names of tags -/

theorem length_lt_of_startsFolded {name t u : Str} (ht : IsTag t) (hname : '>' ∉ name)
    (h : startsFolded name (t ++ u) = true) : name.length < t.length := by
  refine Decidable.byContradiction fun hge => ?_
  obtain ⟨v, v', heq, hlen, hv⟩ := startsFolded_split h
  have hstart : t <+: v := List.prefix_of_prefix_length_le ⟨u, rfl⟩ ⟨v', heq.symm⟩ (by omega)
  obtain ⟨d, hd, hsame⟩ := mem_startsFolded hlen hv (hstart.subset ht.close_mem)
  rw [← eq_of_sameFolded hsame (Or.inl (by decide))] at hd
  exact hname hd

theorem startsFolded_tag {name t : Str} (ht : IsTag t) (hname : '>' ∉ name) (u : Str) :
    startsFolded name (t ++ u) = startsFolded name t := by
  by_cases hlen : name.length ≤ t.length
  · exact startsFolded_append hlen u
  · have hnot : ∀ v, startsFolded name (t ++ v) = false := fun v =>
      Bool.eq_false_iff.mpr fun h => hlen (length_lt_of_startsFolded ht hname h).le
    have hnil := hnot []
    rw [List.append_nil] at hnil
    rw [hnot u, hnil]

theorem head?_drop_tag {name t : Str} (ht : IsTag t) (hname : '>' ∉ name) {u : Str}
    (h : startsFolded name (t ++ u) = true) :
    ∃ c, ((t ++ u).drop name.length).head? = some c ∧ (t.drop name.length).head? = some c := by
  have hlt := length_lt_of_startsFolded ht hname h
  obtain ⟨c, v, hcv⟩ := List.exists_cons_of_length_pos (l := t.drop name.length)
    (by rw [List.length_drop]; omega)
  refine ⟨c, ?_, by rw [hcv]; rfl⟩
  rw [List.drop_append_of_le_length hlt.le, hcv]
  rfl

theorem named_tag {name t : Str} (ht : IsTag t) (hname : '>' ∉ name) (u : Str) :
    named name (t ++ u) = named name t := by
  rw [named, named]
  cases h : startsFolded name (t ++ u) with
  | false => rw [← startsFolded_tag ht hname u, h, Bool.false_and, Bool.false_and]
  | true =>
    obtain ⟨c, hc, hc'⟩ := head?_drop_tag ht hname h
    rw [← startsFolded_tag ht hname u, h, hc, hc']

theorem startsTag_tag {name : String} (hascii : ∀ c ∈ name.toList, IsAscii c)
    (hname : '>' ∉ name.toList) {t : Str} (ht : IsTag t) (u : Str) :
    (startsTag (t ++ u) name).Ensures fun b => b = named name.toList t := by
  refine (startsTag_ensures hascii (t ++ u)).mono fun b hb => ?_
  rw [hb, ← named_tag ht hname u, named]
  cases h : startsFolded name.toList (t ++ u) with
  | false => rfl
  | true =>
    obtain ⟨c, hc, -⟩ := head?_drop_tag ht hname h
    rw [hc]
    rfl

end JmapBridge.Content
