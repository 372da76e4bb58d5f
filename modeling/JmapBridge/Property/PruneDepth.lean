import JmapBridge.Property.Tags
import Mathlib.Data.List.Find

/-! Empty wrappers by their nesting. One pass takes out the elements that hold nothing but
blank text, which makes every nest of them one level less deep. -/

namespace JmapBridge.Content

open Rust Rust.Str Rust.Scan

/-! ### Blank text -/

/-- The length of the whitespace character or the entity that `s` begins with. -/
@[irreducible] def blankLen : Str → Option Nat
  | [] => none
  | c :: s =>
    if isWhitespace c then some 1
    else (blankEntities.find? fun e => startsWith e.toList (c :: s)).map fun e => e.toList.length

theorem blankLen_nil : blankLen [] = none := by
  delta blankLen
  rfl

theorem blankLen_cons (c : Char) (s : Str) : blankLen (c :: s) =
    if isWhitespace c then some 1
    else (blankEntities.find? fun e => startsWith e.toList (c :: s)).map fun e =>
      e.toList.length := by
  delta blankLen
  rfl

/-- What follows the blank text at the head of `s`, of which `k` characters are read. -/
def dropBlank : Nat → Str → Str
  | _, [] => []
  | k + 1, _ :: s => dropBlank k s
  | 0, c :: s =>
    match blankLen (c :: s) with
    | some n => dropBlank (n - 1) s
    | none => c :: s

def isBlankText (s : Str) : Bool := (dropBlank 0 s).isEmpty

theorem dropBlank_skip (w t : Str) : dropBlank w.length (w ++ t) = dropBlank 0 t := by
  induction w with
  | nil => rfl
  | cons c w ih => exact ih

theorem dropBlank_none {s : Str} (h : blankLen s = none) : dropBlank 0 s = s := by
  cases s with
  | nil => rfl
  | cons c s => rw [dropBlank, h]

theorem dropBlank_unit {w t : Str} (hw : w ≠ []) (h : blankLen (w ++ t) = some w.length) :
    dropBlank 0 (w ++ t) = dropBlank 0 t := by
  obtain ⟨c, w, rfl⟩ := List.exists_cons_of_ne_nil hw
  rw [List.cons_append] at h ⊢
  rw [dropBlank, h]
  dsimp only
  rw [List.length_cons, Nat.add_sub_cancel, dropBlank_skip]

theorem dropBlank_space {c : Char} (hc : isWhitespace c = true) (s : Str) :
    dropBlank 0 (c :: s) = dropBlank 0 s := by
  have hlen : blankLen ([c] ++ s) = some [c].length := by
    rw [List.singleton_append, blankLen]
    exact if_pos hc
  exact dropBlank_unit (by simp) hlen

theorem dropBlank_spaces (s : Str) : dropBlank 0 (s.dropWhile isWhitespace) = dropBlank 0 s := by
  induction s with
  | nil => rfl
  | cons c s ih =>
    by_cases hc : isWhitespace c = true
    · rw [List.dropWhile_cons_of_pos hc, ih, dropBlank_space hc]
    · rw [List.dropWhile_cons_of_neg hc]

theorem find_entity {e : String} (he : e ∈ blankEntities) (s : Str) :
    (blankEntities.find? fun e' => startsWith e'.toList (e.toList ++ s)) = some e := by
  have hdiffer : ∀ e' ∈ blankEntities, ∀ e ∈ blankEntities, e'.toList <+: e.toList → e' = e := by
    decide
  have hlength : ∀ e' ∈ blankEntities, e'.toList.length = 6 := by decide
  have honly : ∀ e' ∈ blankEntities, startsWith e'.toList (e.toList ++ s) = true → e' = e := by
    intro e' he' hstart
    refine hdiffer e' he' e he ?_
    have hprefix := List.isPrefixOf_iff_prefix.mp hstart
    exact List.prefix_of_prefix_length_le hprefix (List.prefix_append _ _)
      (by rw [hlength e' he', hlength e he])
  cases hfind : blankEntities.find? fun e' => startsWith e'.toList (e.toList ++ s) with
  | none =>
    have hnot := List.find?_eq_none.mp hfind e he
    exact absurd (startsWith_iff.mpr ⟨s, rfl⟩) hnot
  | some e' =>
    have hstart := List.find?_some hfind
    rw [honly e' (List.mem_of_find?_eq_some hfind) hstart]

theorem dropBlank_entity {e : String} (he : e ∈ blankEntities) (s : Str) :
    dropBlank 0 (e.toList ++ s) = dropBlank 0 s := by
  have hhead : ∀ e ∈ blankEntities, e.toList.head? = some '&' := by decide
  obtain ⟨w, hw⟩ := List.head?_eq_some_iff.mp (hhead e he)
  refine dropBlank_unit (by simp [hw]) ?_
  have hfind := find_entity he s
  rw [hw, List.cons_append] at hfind ⊢
  rw [blankLen_cons, if_neg (by decide), hfind]
  simp [hw]

theorem startsWith_append_lt {t : Str} (ht : '<' ∉ t) (w x : Str) :
    startsWith t (w ++ '<' :: x) = startsWith t w := by
  induction t generalizing w with
  | nil => rfl
  | cons c t ih =>
    cases w with
    | nil =>
      have hc : (c == '<') = false := by
        rw [beq_eq_false_iff_ne]
        rintro rfl
        exact ht List.mem_cons_self
      show (c == '<' && t.isPrefixOf x) = false
      rw [hc, Bool.false_and]
    | cons d w =>
      have hrest := ih (fun hmem => ht (List.mem_cons_of_mem c hmem)) w
      show (c == d && startsWith t (w ++ '<' :: x)) = (c == d && startsWith t w)
      rw [hrest]

theorem blankLen_append_lt (w x : Str) : blankLen (w ++ '<' :: x) = blankLen w := by
  have hlt : ∀ e ∈ blankEntities, '<' ∉ e.toList := by decide
  have hfind : (blankEntities.find? fun e => startsWith e.toList (w ++ '<' :: x)) =
      blankEntities.find? fun e => startsWith e.toList w :=
    List.find?_congr fun e he => startsWith_append_lt (hlt e he) w x
  cases w with
  | nil =>
    have hnone : (blankEntities.find? fun e => startsWith e.toList []) = none := by decide
    rw [hnone] at hfind
    rw [List.nil_append] at hfind ⊢
    rw [blankLen_cons, blankLen_nil, if_neg (by decide), hfind]
    rfl
  | cons c w =>
    rw [List.cons_append] at hfind ⊢
    rw [blankLen_cons, blankLen_cons, hfind]

theorem blankLen_le {s : Str} {n : Nat} (h : blankLen s = some n) : 0 < n ∧ n ≤ s.length := by
  cases s with
  | nil =>
    rw [blankLen_nil] at h
    cases h
  | cons c s =>
    rw [blankLen_cons] at h
    split at h
    · obtain rfl := Option.some.inj h
      simp
    · obtain ⟨e, he, rfl⟩ := Option.map_eq_some_iff.mp h
      have hlength : ∀ e ∈ blankEntities, 0 < e.toList.length := by decide
      have hstart := List.find?_some he
      exact ⟨hlength e (List.mem_of_find?_eq_some he),
        (List.isPrefixOf_iff_prefix.mp hstart).length_le⟩

theorem dropBlank_append_lt {k : Nat} {w : Str} (hk : k ≤ w.length) (x : Str) :
    dropBlank k (w ++ '<' :: x) = dropBlank k w ++ '<' :: x := by
  induction w generalizing k with
  | nil =>
    obtain rfl : k = 0 := Nat.le_zero.mp hk
    exact dropBlank_none ((blankLen_append_lt [] x).trans blankLen_nil)
  | cons c w ih =>
    cases k with
    | succ k => exact ih (Nat.le_of_succ_le_succ hk)
    | zero =>
      have hsame := blankLen_append_lt (c :: w) x
      cases hlen : blankLen (c :: w) with
      | none =>
        rw [dropBlank_none hlen, dropBlank_none (hsame.trans hlen)]
      | some n =>
        rw [hlen, List.cons_append] at hsame
        obtain ⟨-, hle⟩ := blankLen_le hlen
        rw [List.length_cons] at hle
        rw [List.cons_append, dropBlank, dropBlank, hsame, hlen]
        exact ih (by omega)

theorem dropBlank_suffix (k : Nat) (s : Str) : dropBlank k s <:+ s := by
  induction s generalizing k with
  | nil => cases k <;> exact List.suffix_refl _
  | cons c s ih =>
    cases k with
    | succ k => exact (ih k).trans (List.suffix_cons c s)
    | zero =>
      cases hlen : blankLen (c :: s) with
      | none =>
        exact (dropBlank_none hlen).symm ▸ List.suffix_refl (c :: s)
      | some n =>
        rw [dropBlank, hlen]
        exact (ih (n - 1)).trans (List.suffix_cons c s)

theorem blank_before_lt {u x : Str} (h : dropBlank 0 u = '<' :: x) :
    ∃ w, u = w ++ '<' :: x ∧ isBlankText w = true := by
  obtain ⟨w, hw⟩ := dropBlank_suffix 0 u
  rw [h] at hw
  refine ⟨w, hw.symm, ?_⟩
  rw [← hw, dropBlank_append_lt (Nat.zero_le _)] at h
  rw [isBlankText, List.isEmpty_iff]
  exact List.append_left_eq_self.mp h

theorem dropBlank_blank {w : Str} (h : isBlankText w = true) (x : Str) :
    dropBlank 0 (w ++ '<' :: x) = '<' :: x := by
  rw [dropBlank_append_lt (Nat.zero_le _), List.isEmpty_iff.mp h, List.nil_append]

theorem not_mem_blank {w : Str} (h : isBlankText w = true) : '<' ∉ w := by
  intro hmem
  obtain ⟨v, x, rfl⟩ := List.append_of_mem hmem
  rw [isBlankText, dropBlank_append_lt (Nat.zero_le _), List.isEmpty_iff] at h
  simp at h

theorem skipWhitespace_rest {html u : Str} {k : Nat} (hu : Rest html k u) :
    (skipWhitespace html k).Ensures fun j => Rest html j (u.dropWhile isWhitespace) ∧ k ≤ j ∧
      (j = k → u.dropWhile isWhitespace = u) := by
  rw [skipWhitespace]
  refine Ensures.loop
    (fun j => ∃ v, Rest html j v ∧ v.dropWhile isWhitespace = u.dropWhile isWhitespace ∧ k ≤ j ∧
      (j = k → v = u))
    (fun j => byteLen html - j) ⟨u, hu, rfl, le_rfl, fun _ => rfl⟩ ?_
  rintro j ⟨v, hv, hsame, hle, hstart⟩
  rw [sliceFrom_rest hv, pure_bind]
  cases v with
  | nil => exact Ensures.pure ⟨by rw [← hsame]; exact hv, hle, fun h => by rw [← hstart h]; rfl⟩
  | cons c v =>
    by_cases hc : isWhitespace c = true
    · have hsize := c.utf8Size_pos
      have hbound := hv.next.le
      rw [List.dropWhile_cons_of_pos hc] at hsame
      rw [List.head?_cons, Option.filter_some_pos hc]
      refine Ensures.pure ⟨⟨v, hv.next, hsame, by omega, fun h => absurd h (by omega)⟩, ?_⟩
      show byteLen html - (j + c.utf8Size) < byteLen html - j
      omega
    · have hstay : (c :: v).dropWhile isWhitespace = c :: v := List.dropWhile_cons_of_neg hc
      rw [List.head?_cons, Option.filter_some_neg (Bool.eq_false_iff.mpr hc)]
      refine Ensures.pure ⟨by rw [← hsame, hstay]; exact hv, hle, fun h => ?_⟩
      rw [← hstart h]
      exact hstay

theorem skipEntities_rest {html v : Str} {k : Nat} (hv : Rest html k v) {ents : List String}
    (hents : ∀ e ∈ ents, e ∈ blankEntities) :
    (ents.foldlM (skipEntity html) k).Ensures fun j => ∃ w, Rest html j w ∧
      dropBlank 0 w = dropBlank 0 v ∧ k ≤ j ∧
      (j = k → w = v ∧ ∀ e ∈ ents, ¬ startsWith e.toList v) := by
  induction ents generalizing k v with
  | nil => exact Ensures.pure ⟨v, hv, rfl, le_rfl, fun _ => ⟨rfl, by simp⟩⟩
  | cons e ents ih =>
    have he : e ∈ blankEntities := hents e List.mem_cons_self
    have hents : ∀ e ∈ ents, e ∈ blankEntities :=
      fun e' he' => hents e' (List.mem_cons_of_mem e he')
    rw [List.foldlM_cons, skipEntity, sliceFrom_rest hv, pure_bind, pure_bind]
    by_cases hstart : startsWith e.toList v = true
    · rw [if_pos hstart]
      obtain ⟨w, rfl⟩ := startsWith_iff.mp hstart
      refine (ih hv.append hents).mono fun j hrest => ?_
      obtain ⟨x, hx, hsame, hle, -⟩ := hrest
      have hpos : ∀ e ∈ blankEntities, 0 < byteLen e.toList := by decide
      have hlt := hpos e he
      exact ⟨x, hx, hsame.trans (dropBlank_entity he w).symm,
        by omega, fun h => absurd h (by omega)⟩
    · rw [if_neg hstart]
      refine (ih hv hents).mono fun j hrest => ?_
      obtain ⟨x, hx, hsame, hle, hnone⟩ := hrest
      refine ⟨x, hx, hsame, hle, fun h => ⟨(hnone h).1, fun e' he' => ?_⟩⟩
      rcases List.mem_cons.mp he' with rfl | he'
      · exact hstart
      · exact (hnone h).2 e' he'

theorem skipBlankContent_rest {html u : Str} {k : Nat} (hu : Rest html k u) :
    (skipBlankContent html k).Ensures fun j => Rest html j (dropBlank 0 u) := by
  rw [skipBlankContent]
  refine Ensures.loop (fun j => ∃ v, Rest html j v ∧ dropBlank 0 v = dropBlank 0 u)
    (fun j => byteLen html - j) ⟨u, hu, rfl⟩ ?_
  rintro start ⟨v, hv, hsame⟩
  refine Ensures.bind (skipWhitespace_rest hv) fun j hspaces => ?_
  obtain ⟨hj, hle, hspace⟩ := hspaces
  refine Ensures.bind (skipEntities_rest hj fun e he => he) fun j' hentities => ?_
  obtain ⟨w, hw, hblank, hle', hents⟩ := hentities
  by_cases hstay : j' = start
  · -- Neither whitespace nor an entity was there.
    rw [if_pos hstay]
    have hjs : j = start := by omega
    obtain ⟨hwv, hnone⟩ := hents (by omega)
    rw [hspace hjs] at hwv hnone
    subst hwv
    have hlen : blankLen w = none := by
      cases w with
      | nil => exact blankLen_nil
      | cons c w =>
        have hc : ¬ isWhitespace c = true := by
          intro hc
          have hdrop := hspace hjs
          rw [List.dropWhile_cons_of_pos hc] at hdrop
          have hlength := congrArg List.length hdrop
          have hshort := (List.dropWhile_suffix (l := w) isWhitespace).length_le
          rw [List.length_cons] at hlength
          omega
        rw [blankLen_cons, if_neg hc, Option.map_eq_none_iff, List.find?_eq_none]
        exact hnone
    refine Ensures.pure ?_
    show Rest html j' (dropBlank 0 u)
    rw [hstay, ← hsame, dropBlank_none hlen]
    exact hv
  · rw [if_neg hstay]
    have hbound := hw.le
    refine Ensures.pure ⟨⟨w, hw, ?_⟩, ?_⟩
    · rw [hblank, dropBlank_spaces, hsame]
    · show byteLen html - j' < byteLen html - start
      omega

/-! ### Empty elements -/

/-- The name of the wrapper that a tag opens. -/
def opens (t : Str) : Option String :=
  if startsWith "</".toList t then none
  else prunableWhenEmpty.find? fun n => named ("<" ++ n).toList t

def closes (name : String) (t : Str) : Bool := named ("</" ++ name).toList t

theorem openName_ascii : ∀ n ∈ prunableWhenEmpty,
    (∀ c ∈ ("<" ++ n).toList, IsAscii c) ∧ '>' ∉ ("<" ++ n).toList := by
  have hall : ∀ n ∈ prunableWhenEmpty,
      (("<" ++ n).toList.all fun c => decide (IsAscii c)) = true ∧ '>' ∉ ("<" ++ n).toList := by
    decide
  exact fun n hn => ⟨forall_mem_of_all (hall n hn).1, (hall n hn).2⟩

theorem closeName_ascii : ∀ n ∈ prunableWhenEmpty,
    (∀ c ∈ ("</" ++ n).toList, IsAscii c) ∧ '>' ∉ ("</" ++ n).toList := by
  have hall : ∀ n ∈ prunableWhenEmpty,
      (("</" ++ n).toList.all fun c => decide (IsAscii c)) = true ∧ '>' ∉ ("</" ++ n).toList := by
    decide
  exact fun n hn => ⟨forall_mem_of_all (hall n hn).1, (hall n hn).2⟩

theorem opens_mem {t : Str} {n : String} (h : opens t = some n) : n ∈ prunableWhenEmpty := by
  rw [opens] at h
  split at h
  · cases h
  · exact List.mem_of_find?_eq_some h

theorem closes_head {n : String} {t : Str} (h : closes n t = true) : ∃ u, t = '<' :: '/' :: u := by
  rw [closes, named, Bool.and_eq_true] at h
  obtain ⟨v, u, rfl, hlen, hv⟩ := startsFolded_split h.1
  have hname : ("</" ++ n).toList = '<' :: '/' :: n.toList := by simp
  rw [hname] at hlen hv
  rcases v with _ | ⟨c, _ | ⟨d, v⟩⟩
  · cases hlen
  · cases hlen
  · rw [startsFolded, startsFolded, Bool.and_eq_true, Bool.and_eq_true] at hv
    obtain ⟨hc, hd, -⟩ := hv
    rw [eq_of_sameFolded hc (Or.inr (by decide)), eq_of_sameFolded hd (Or.inr (by decide))]
    exact ⟨v ++ u, rfl⟩

theorem opens_of_closes {n : String} {t : Str} (h : closes n t = true) : opens t = none := by
  obtain ⟨u, rfl⟩ := closes_head h
  exact if_pos (startsWith_iff.mpr ⟨u, rfl⟩)

theorem startsWith_close_tag {t : Str} (ht : IsTag t) (u : Str) :
    startsWith "</".toList (t ++ u) = startsWith "</".toList t := by
  obtain ⟨w, rfl, -⟩ := ht
  cases w with
  | nil => rfl
  | cons c w => rfl

theorem prunableOpenName_ensures {t : Str} (ht : IsTag t) (u : Str) :
    (prunableOpenName (t ++ u)).Ensures fun r => r = opens t := by
  rw [prunableOpenName, opens, startsWith_close_tag ht]
  split
  · exact Ensures.pure rfl
  · refine Ensures.findM?_eq fun n hn => ?_
    obtain ⟨hascii, hgt⟩ := openName_ascii n hn
    exact startsTag_tag hascii hgt ht u

/-- An open tag, what stands between, and a close tag make an empty wrapper. -/
def EmptyWrapper (o w c : Str) : Prop :=
  ∃ n, opens o = some n ∧ isBlankText w = true ∧ closes n c = true

/-- The open tag `o` begins an empty wrapper if `l` follows it. -/
def EmptyAt (o : Str) (l : List Token) : Prop :=
  ∃ w c m, l = w.map .chr ++ .tag c :: m ∧ EmptyWrapper o w c

theorem dropBlank_of_emptyAt {o u : Str} (h : EmptyAt o (tokens 0 u)) :
    ∃ n c v, opens o = some n ∧ dropBlank 0 u = c ++ v ∧ IsTag c ∧ closes n c = true := by
  obtain ⟨w, c, m, hl, n, hn, hblank, hc⟩ := h
  have htag : IsTag c := (legible_tokens u).isTag (by rw [hl]; simp)
  have hu : u = w ++ (c ++ write m) := by
    rw [← write_tokens u, hl]
    simp
  refine ⟨n, c, write m, hn, ?_, htag, hc⟩
  obtain ⟨v, rfl, -⟩ := htag
  rw [hu]
  exact dropBlank_blank hblank _

theorem emptyElementEnd_rest {html o u : Str} {i : Nat} (ho : IsTag o) (hi : Rest html i (o ++ u)) :
    (emptyElementEnd html (o ++ u) (i + byteLen o)).Ensures fun r =>
      (r = none ∧ ¬ EmptyAt o (tokens 0 u)) ∨
      ∃ j w c v, r = some j ∧ u = w ++ (c ++ v) ∧ IsTag c ∧ EmptyWrapper o w c ∧
        Rest html j v ∧ i + byteLen o < j := by
  rw [emptyElementEnd]
  refine Ensures.bind (prunableOpenName_ensures ho u) fun name hname => ?_
  subst hname
  cases hopen : opens o with
  | none =>
    refine Ensures.pure (Or.inl ⟨rfl, fun hempty => ?_⟩)
    obtain ⟨n, -, -, hn, -⟩ := dropBlank_of_emptyAt hempty
    rw [hopen] at hn
    cases hn
  | some name =>
    obtain ⟨hascii, hgt⟩ := closeName_ascii name (opens_mem hopen)
    have hu := hi.append
    refine Ensures.bind ((skipBlankContent_rest hu).and (skipBlankContent_ensures ⟨u, hu⟩))
      fun k hskip => ?_
    obtain ⟨hk, _, hle⟩ := hskip
    rw [sliceFrom_rest hk, pure_bind]
    refine Ensures.bind (matchesClose_ensures hascii _) fun matched hmatched => ?_
    -- What an empty wrapper would leave after the blank text closes it.
    have hfound : EmptyAt o (tokens 0 u) → matched = true ∧ '>' ∈ dropBlank 0 u := by
      intro hempty
      obtain ⟨n, c, v, hn, hdrop, hc, hcloses⟩ := dropBlank_of_emptyAt hempty
      obtain rfl : name = n := Option.some.inj (hopen.symm.trans hn)
      rw [hmatched, hdrop, named_tag hc hgt]
      exact ⟨hcloses, List.mem_append_left v hc.close_mem⟩
    by_cases hmatch : matched = true
    · rw [if_pos hmatch]
      have hcloses : closes name (dropBlank 0 u) = true := hmatched.symm.trans hmatch
      obtain ⟨x, hx⟩ := closes_head hcloses
      cases hfind : find (· == '>') (dropBlank 0 u) with
      | none =>
        exact Ensures.pure (Or.inl ⟨rfl, fun hempty => not_mem_of_find hfind (hfound hempty).2⟩)
      | some g =>
        have hmem : '>' ∈ '/' :: x := by
          obtain ⟨c, t, ⟨p, hp, -⟩, hc⟩ := find_rest hfind
          obtain rfl : c = '>' := by simpa using hc
          have hmem : '>' ∈ dropBlank 0 u := by rw [hp]; simp
          rw [hx] at hmem
          exact (List.mem_cons.mp hmem).resolve_left (by decide)
        obtain ⟨w', v, hv, hc⟩ := isTag_of_mem hmem
        have hdrop : dropBlank 0 u = '<' :: (w' ++ ['>']) ++ v := by
          rw [hx, hv]
          simp
        obtain ⟨w, hw, hblank⟩ := blank_before_lt hx
        rw [← hx, hdrop] at hw
        rw [hdrop] at hfind hcloses hk
        obtain ⟨g', hg', hlen⟩ := find_tag hc v
        obtain rfl : g = g' := Option.some.inj (hfind.symm.trans hg')
        refine Ensures.pure (Or.inr ⟨k + g + 1, w, _, v, rfl, hw, hc, ⟨name, hopen, hblank, ?_⟩,
          ?_, ?_⟩)
        · rw [← hcloses]
          exact (named_tag hc hgt v).symm
        · rw [Nat.add_assoc, hlen]
          exact hk.append
        · omega
    · rw [if_neg hmatch]
      exact Ensures.pure (Or.inl ⟨rfl, fun hempty => hmatch (hfound hempty).1⟩)

/-! ### One pass -/

/-- A pass over the tokens, and whether it took an element out. -/
inductive Sweep : List Token → List Token → Bool → Prop
  | nil : Sweep [] [] false
  | chr (c : Char) {l l' : List Token} {b : Bool} (h : Sweep l l' b) :
      Sweep (.chr c :: l) (.chr c :: l') b
  | keep (t : Str) {l l' : List Token} {b : Bool} (ht : ¬ EmptyAt t l) (h : Sweep l l' b) :
      Sweep (.tag t :: l) (.tag t :: l') b
  | drop (o w c : Str) {l l' : List Token} {b : Bool} (he : EmptyWrapper o w c) (h : Sweep l l' b) :
      Sweep (.tag o :: (w.map .chr ++ .tag c :: l)) l' true

namespace Sweep

variable {l l' : List Token} {b : Bool}

theorem chars (w : Str) (h : Sweep l l' b) : Sweep (w.map .chr ++ l) (w.map .chr ++ l') b := by
  induction w with
  | nil => exact h
  | cons c w ih => exact ih.chr c

theorem sublist (h : Sweep l l' b) : l'.Sublist l := by
  induction h with
  | nil => exact List.Sublist.slnil
  | chr c _ ih => exact ih.cons_cons _
  | keep t _ _ ih => exact ih.cons_cons _
  | drop o w c _ _ ih =>
    exact (ih.trans ((List.sublist_cons_self _ _).trans (List.sublist_append_right _ _))).cons _

theorem eq_of_false (h : Sweep l l' b) (hb : b = false) : l' = l := by
  induction h with
  | nil => rfl
  | chr c _ ih => rw [ih hb]
  | keep t _ _ ih => rw [ih hb]
  | drop o w c _ _ _ => cases hb

theorem not_emptyAt (h : Sweep l l' b) (hb : b = false) (p : List Token) {o : Str}
    {q : List Token} (hl : l = p ++ .tag o :: q) : ¬ EmptyAt o q := by
  induction h generalizing p with
  | nil => cases p <;> cases hl
  | chr c _ ih =>
    cases p with
    | nil => cases hl
    | cons x p =>
      obtain ⟨-, hl⟩ := List.cons.inj hl
      exact ih hb p hl
  | keep t ht _ ih =>
    cases p with
    | nil =>
      obtain ⟨ho, rfl⟩ := List.cons.inj hl
      obtain rfl : t = o := by simpa using ho
      exact ht
    | cons x p =>
      obtain ⟨-, hl⟩ := List.cons.inj hl
      exact ih hb p hl
  | drop o w c _ _ _ => cases hb

end Sweep

theorem tokens_no_close {s : Str} (h : '>' ∉ s) : tokens 0 s = s.map .chr := by
  induction s with
  | nil => rfl
  | cons c s ih =>
    have hs : '>' ∉ s := fun hmem => h (List.mem_cons_of_mem c hmem)
    rw [tokens_chr (tagLen_eq_none_iff.mpr fun _ => hs), ih hs, List.map_cons]

/-- At `i`, before `t`, the pass has written the sweep of what it has passed. -/
def Swept (html : Str) (st : Str × Nat × Bool) (t : Str) : Prop :=
  Rest html st.2.1 t ∧ ∃ done, st.1 = write done ∧
    ∀ l' b, Sweep (tokens 0 t) l' b → Sweep (tokens 0 html) (done ++ l') (st.2.2 || b)

namespace Swept

variable {html out : Str} {i : Nat} {changed : Bool}

theorem start (html : Str) : Swept html ([], 0, false) html :=
  ⟨Rest.start html, [], rfl, fun _ _ h => h⟩

theorem chr {c : Char} {u : Str} (h : Swept html (out, i, changed) (c :: u))
    (hc : tagLen (c :: u) = none) : Swept html (out ++ [c], i + c.utf8Size, changed) u := by
  obtain ⟨ht, done, hout, hsweep⟩ := h
  have hout : out = write done := hout
  refine ⟨Rest.next ht, done ++ [.chr c], ?_, fun l' b hl => ?_⟩
  · show out ++ [c] = _
    rw [hout, write_append]
    rfl
  · have hstep := hsweep (.chr c :: l') b (by
      rw [tokens_chr hc]
      exact hl.chr c)
    rwa [List.append_assoc]

theorem keep {o v : Str} (h : Swept html (out, i, changed) (o ++ v)) (ho : IsTag o)
    (hkeep : ¬ EmptyAt o (tokens 0 v)) : Swept html (out ++ o, i + byteLen o, changed) v := by
  obtain ⟨ht, done, hout, hsweep⟩ := h
  have hout : out = write done := hout
  refine ⟨Rest.append ht, done ++ [.tag o], ?_, fun l' b hl => ?_⟩
  · show out ++ o = _
    rw [hout, write_append, write_tag, write_nil, List.append_nil]
  · have hstep := hsweep (.tag o :: l') b (by
      rw [tokens_tag ho]
      exact Sweep.keep o hkeep hl)
    rwa [List.append_assoc]

theorem drop {o w c v : Str} {j : Nat} (h : Swept html (out, i, changed) (o ++ (w ++ (c ++ v))))
    (ho : IsTag o) (hc : IsTag c) (hempty : EmptyWrapper o w c) (hj : Rest html j v) :
    Swept html (out, j, true) v := by
  obtain ⟨-, done, hout, hsweep⟩ := h
  refine ⟨hj, done, hout, fun l' b hl => ?_⟩
  have hwrapper := hempty
  obtain ⟨n, -, hblank, -⟩ := hwrapper
  have hstep := hsweep l' true (by
    rw [tokens_tag ho, tokens_chars (not_mem_blank hblank), tokens_tag hc]
    exact Sweep.drop o w c hempty hl)
  rw [Bool.or_true] at hstep
  exact hstep

theorem finish {t : Str} (h : Swept html (out, i, changed) t) (ht : '>' ∉ t) :
    ∃ l', Sweep (tokens 0 html) l' changed ∧ out ++ t = write l' := by
  obtain ⟨-, done, hout, hsweep⟩ := h
  have hout : out = write done := hout
  have hchars : Sweep (tokens 0 t) (t.map .chr) false := by
    have hnil := Sweep.nil.chars t
    rw [List.append_nil] at hnil
    rwa [tokens_no_close ht]
  have hend := hsweep _ _ hchars
  rw [Bool.or_false] at hend
  exact ⟨_, hend, by rw [hout, write_append, write_chars]⟩

end Swept

theorem pruneEmptyOnce_sweep (html : Str) :
    (pruneEmptyOnce html).Ensures fun r =>
      ∃ l', Sweep (tokens 0 html) l' r.2 ∧ r.1 = write l' := by
  rw [pruneEmptyOnce]
  refine Ensures.loop (fun st : Str × Nat × Bool => ∃ t, Swept html st t)
    (fun st => byteLen html - st.2.1) ⟨html, Swept.start html⟩ ?_
  rintro ⟨out, i, changed⟩ ⟨t, hswept⟩
  have ht : Rest html i t := hswept.1
  dsimp only
  by_cases hlt : i < (bytes html).length
  · rw [if_pos hlt, index_of_getElem? (List.getElem?_eq_getElem hlt), pure_bind]
    rw [length_bytes] at hlt
    obtain ⟨c, u, rfl⟩ := ht.exists_cons hlt
    have hread : ((bytes html)[i] == lt) = (c == '<') :=
      (readsChars_ascii (d := '<') (by decide)).at ht (by rwa [length_bytes])
    have hbne : ((bytes html)[i] != lt) = !(c == '<') := congrArg not hread
    rw [hbne]
    by_cases hc : c = '<'
    · subst hc
      rw [if_neg (by decide), sliceFrom_rest ht, pure_bind]
      cases hfind : find (· == '>') ('<' :: u) with
      | none => exact Ensures.pure (hswept.finish (not_mem_of_find hfind))
      | some g =>
        obtain ⟨o, v, hov, ho, hlen⟩ := tag_of_find hfind
        rw [hov] at ht hswept ⊢
        dsimp only
        rw [Nat.add_assoc, hlen]
        refine Ensures.bind (emptyElementEnd_rest ho ht) fun r hr => ?_
        rcases hr with ⟨rfl, hkeep⟩ | ⟨j, w, c, x, rfl, rfl, hclose, hempty, hj, hadv⟩
        · dsimp only
          rw [slice_rest ht rfl, pure_bind]
          have hbound := ht.append.le
          refine Ensures.pure ⟨⟨v, hswept.keep ho hkeep⟩, ?_⟩
          show byteLen html - (i + byteLen o) < byteLen html - i
          omega
        · have hbound := hj.le
          refine Ensures.pure ⟨⟨x, hswept.drop ho hclose hempty hj⟩, ?_⟩
          show byteLen html - j < byteLen html - i
          omega
    · have hne : (!(c == '<')) = true := by simp [hc]
      rw [if_pos hne, charAt_rest ht, pure_bind]
      have hsize := c.utf8Size_pos
      have hbound := ht.next.le
      have hchr : tagLen (c :: u) = none := tagLen_eq_none_iff.mpr fun h => absurd h hc
      refine Ensures.pure ⟨⟨u, hswept.chr hchr⟩, ?_⟩
      show byteLen html - (i + c.utf8Size) < byteLen html - i
      omega
  · rw [if_neg hlt]
    rw [length_bytes, Nat.not_lt] at hlt
    obtain rfl := ht.eq_nil_iff.mpr hlt
    have hend := hswept.finish (by simp)
    rw [List.append_nil] at hend
    exact Ensures.pure hend

/-! ### The depth of a nest -/

/-- A wrapper that is open: its name, its text so far, and how deep the elements taken out
of it were. -/
structure Frame where
  name : String
  text : Str
  depth : Nat

/-- An element of depth `d` was taken out of the innermost wrapper. -/
def raise (d : Nat) : List Frame → List Frame
  | [] => []
  | f :: fs => { f with depth := max f.depth d } :: fs

/-- How deep the wrappers are nested that end up empty, with `fs` open before `l`. A tag
that stays leaves none of the wrappers around it empty. -/
def emptyDepth : List Frame → List Token → Nat
  | _, [] => 0
  | [], .chr _ :: l => emptyDepth [] l
  | f :: fs, .chr c :: l => emptyDepth ({ f with text := f.text ++ [c] } :: fs) l
  | fs, .tag t :: l =>
    match opens t with
    | some n => emptyDepth (⟨n, [], 0⟩ :: fs) l
    | none =>
      match fs with
      | f :: fs =>
        if closes f.name t && isBlankText f.text then
          max (f.depth + 1) (emptyDepth (raise (f.depth + 1) fs) l)
        else emptyDepth [] l
      | [] => emptyDepth [] l

/-- The depth of the nests of wrappers in a text that hold nothing but blank text. -/
def nestDepth (html : Str) : Nat := emptyDepth [] (tokens 0 html)

/-- The same wrapper after a pass. -/
def Frame.lower (f : Frame) : Frame := { f with depth := f.depth - 1 }

def lowered (fs : List Frame) : List Frame := fs.map Frame.lower

theorem lowered_cons (f : Frame) (fs : List Frame) :
    lowered (f :: fs) = f.lower :: lowered fs := rfl

/-- The innermost wrapper, if nothing was taken out of it, is not one that a pass takes out. -/
def Kept : List Frame → List Token → Prop
  | [], _ => True
  | f :: _, l => f.depth = 0 → ∀ w c m, l = w.map .chr ++ .tag c :: m →
      isBlankText (f.text ++ w) = true → closes f.name c = false

theorem lowered_raise (d : Nat) (fs : List Frame) :
    lowered (raise (d + 1) fs) = raise d (lowered fs) := by
  cases fs with
  | nil => rfl
  | cons f fs =>
    have hmax : max f.depth (d + 1) - 1 = max (f.depth - 1) d := by omega
    show { f with depth := max f.depth (d + 1) - 1 } :: lowered fs = _
    rw [hmax]
    rfl

theorem lowered_raise_one (fs : List Frame) : lowered (raise 1 fs) = lowered fs := by
  rw [lowered_raise]
  cases fs with
  | nil => rfl
  | cons f fs =>
    show { f with depth := max (f.depth - 1) 0 } :: lowered fs = _
    rw [Nat.max_zero]
    rfl

theorem kept_raise {d : Nat} (hd : 0 < d) (fs : List Frame) (l : List Token) :
    Kept (raise d fs) l := by
  cases fs with
  | nil => exact trivial
  | cons f fs =>
    intro hzero
    have hzero : max f.depth d = 0 := hzero
    omega

theorem emptyDepth_opens {t : Str} {n : String} (h : opens t = some n) (fs : List Frame)
    (l : List Token) : emptyDepth fs (.tag t :: l) = emptyDepth (⟨n, [], 0⟩ :: fs) l := by
  cases fs <;> rw [emptyDepth, h]

theorem emptyDepth_closes {t : Str} {f : Frame} (ht : opens t = none)
    (h : (closes f.name t && isBlankText f.text) = true) (fs : List Frame) (l : List Token) :
    emptyDepth (f :: fs) (.tag t :: l) =
      max (f.depth + 1) (emptyDepth (raise (f.depth + 1) fs) l) := by
  rw [emptyDepth, ht]
  exact if_pos h

theorem emptyDepth_nil_tag {t : Str} (ht : opens t = none) (l : List Token) :
    emptyDepth [] (.tag t :: l) = emptyDepth [] l := by
  rw [emptyDepth, ht]

theorem emptyDepth_stays {t : Str} {f : Frame} (ht : opens t = none)
    (h : ¬ (closes f.name t && isBlankText f.text) = true) (fs : List Frame) (l : List Token) :
    emptyDepth (f :: fs) (.tag t :: l) = emptyDepth [] l := by
  rw [emptyDepth, ht]
  exact if_neg h

theorem emptyDepth_chars (f : Frame) (fs : List Frame) (w : Str) (l : List Token) :
    emptyDepth (f :: fs) (w.map .chr ++ l) =
      emptyDepth ({ f with text := f.text ++ w } :: fs) l := by
  induction w generalizing f with
  | nil => rw [List.append_nil]; rfl
  | cons c w ih =>
    have hstep := ih { f with text := f.text ++ [c] }
    rw [List.append_assoc] at hstep
    exact hstep

theorem emptyDepth_wrapper {o w c : Str} (h : EmptyWrapper o w c) (fs : List Frame)
    (l : List Token) :
    emptyDepth fs (.tag o :: (w.map .chr ++ .tag c :: l)) = max 1 (emptyDepth (raise 1 fs) l) := by
  obtain ⟨n, hn, hblank, hc⟩ := h
  rw [emptyDepth_opens hn, emptyDepth_chars, emptyDepth_closes (opens_of_closes hc)]
  exact Bool.and_eq_true_iff.mpr ⟨hc, hblank⟩

theorem Sweep.emptyDepth {l l' : List Token} {b : Bool} (h : Sweep l l' b) {fs : List Frame}
    (hfs : Kept fs l) : emptyDepth (lowered fs) l' = Content.emptyDepth fs l - 1 := by
  induction h generalizing fs with
  | nil => cases fs <;> rfl
  | @chr c l l' b _ ih =>
    cases fs with
    | nil => exact @ih [] trivial
    | cons f fs =>
      have hkept : Kept ({ f with text := f.text ++ [c] } :: fs) l := by
        intro hzero w d m hl hblank
        refine hfs hzero (c :: w) d m (by rw [hl]; rfl) ?_
        rwa [List.append_assoc] at hblank
      exact ih hkept
  | @keep t l l' b ht _ ih =>
    cases hopen : opens t with
    | some n =>
      rw [emptyDepth_opens hopen, emptyDepth_opens hopen]
      have hkept : Kept (⟨n, [], 0⟩ :: fs) l := fun _ w c m hl hblank =>
        Bool.eq_false_iff.mpr fun hc => ht ⟨w, c, m, hl, n, hopen, hblank, hc⟩
      exact ih hkept
    | none =>
      have hclear := @ih [] trivial
      cases fs with
      | nil =>
        rw [emptyDepth_nil_tag hopen]
        exact (emptyDepth_nil_tag hopen l').trans hclear
      | cons f fs =>
        rw [lowered_cons]
        by_cases hclose : (closes f.name t && isBlankText f.text) = true
        · have hdepth : f.depth ≠ 0 := by
            intro hzero
            obtain ⟨hc, hblank⟩ := Bool.and_eq_true_iff.mp hclose
            have hnot := hfs hzero [] t l rfl (by rwa [List.append_nil])
            rw [hc] at hnot
            cases hnot
          have hlower : f.lower.depth + 1 = f.depth := by
            show f.depth - 1 + 1 = f.depth
            omega
          have hnext := ih (kept_raise (Nat.succ_pos f.depth) fs l)
          rw [lowered_raise] at hnext
          have hlow := emptyDepth_closes (f := f.lower) hopen hclose (lowered fs) l'
          rw [hlower, hnext] at hlow
          rw [hlow, emptyDepth_closes hopen hclose]
          show max f.depth (Content.emptyDepth (raise (f.depth + 1) fs) l - 1) =
            max (f.depth + 1) (Content.emptyDepth (raise (f.depth + 1) fs) l) - 1
          omega
        · rw [emptyDepth_stays hopen hclose, emptyDepth_stays (f := f.lower) hopen hclose]
          exact hclear
  | drop o w c he _ ih =>
    have hnext := ih (kept_raise Nat.one_pos fs _)
    rw [lowered_raise_one] at hnext
    rw [emptyDepth_wrapper he, hnext]
    omega

theorem Sweep.depth_pos {l l' : List Token} {b : Bool} (h : Sweep l l' b) (hb : b = true)
    (fs : List Frame) : 0 < Content.emptyDepth fs l := by
  induction h generalizing fs with
  | nil => cases hb
  | chr c _ ih => cases fs <;> exact ih hb _
  | keep t _ _ ih =>
    cases hopen : opens t with
    | some n =>
      rw [emptyDepth_opens hopen]
      exact ih hb _
    | none =>
      cases fs with
      | nil =>
        rw [emptyDepth_nil_tag hopen]
        exact ih hb []
      | cons f fs =>
        by_cases hclose : (closes f.name t && isBlankText f.text) = true
        · rw [emptyDepth_closes hopen hclose]
          omega
        · rw [emptyDepth_stays hopen hclose]
          exact ih hb []
  | drop o w c he _ _ =>
    rw [emptyDepth_wrapper he]
    omega

/-! ### The passes together -/

/-- An empty wrapper is left in the text. -/
def EmptyLeft (html : Str) : Prop := ∃ p o q, tokens 0 html = p ++ .tag o :: q ∧ EmptyAt o q

structure Pruned (html : Str) : Prop where
  unchanged : (pruneEmptyOnce html).Yields (html, false)
  stable : (pruneEmptyElements html).Yields html
  none_left : ¬ EmptyLeft html

theorem pruneEmptyOnce_depth (html : Str) :
    (pruneEmptyOnce html).Ensures fun r => nestDepth r.1 = nestDepth html - 1 ∧
      (r.2 = true ↔ 0 < nestDepth html) ∧ (r.2 = false → r.1 = html ∧ ¬ EmptyLeft html) := by
  refine (pruneEmptyOnce_sweep html).mono fun r ⟨l', hsweep, hr⟩ => ?_
  have hdepth : nestDepth r.1 = nestDepth html - 1 := by
    rw [hr, nestDepth, tokens_write ((legible_tokens html).sublist hsweep.sublist)]
    exact @Sweep.emptyDepth _ _ _ hsweep [] trivial
  have hsame : r.2 = false → r.1 = html := fun hb => by
    rw [hr, hsweep.eq_of_false hb, write_tokens]
  refine ⟨hdepth, ⟨fun hb => hsweep.depth_pos hb [], fun hpos => ?_⟩, fun hb => ⟨hsame hb, ?_⟩⟩
  · refine Bool.eq_true_of_not_eq_false fun hb => ?_
    rw [hsame hb] at hdepth
    omega
  · rintro ⟨p, o, q, hl, hempty⟩
    exact hsweep.not_emptyAt hb p hl hempty

theorem pruneRounds_depth (n : Nat) (html : Str) :
    (pruneRounds n html).Ensures fun r => nestDepth r = nestDepth html - n := by
  induction n generalizing html with
  | zero => exact Ensures.pure rfl
  | succ n ih =>
    refine Ensures.bind (pruneEmptyOnce_depth html) fun ⟨next, changed⟩ ⟨hdepth, hchanged, _⟩ => ?_
    have hdepth : nestDepth next = nestDepth html - 1 := hdepth
    have hchanged : changed = true ↔ 0 < nestDepth html := hchanged
    cases changed with
    | true =>
      refine (ih next).mono fun r hr => ?_
      rw [hr, hdepth]
      omega
    | false =>
      have hzero : ¬ 0 < nestDepth html := fun h => absurd (hchanged.mpr h) Bool.false_ne_true
      refine Ensures.pure ?_
      rw [hdepth]
      omega

/-- Nothing is left to prune exactly where there is no nest. -/
theorem pruned_iff (html : Str) : Pruned html ↔ nestDepth html = 0 := by
  obtain ⟨⟨next, changed⟩, hyields, hdepth, hchanged, hsame⟩ := pruneEmptyOnce_depth html
  have hchanged : changed = true ↔ 0 < nestDepth html := hchanged
  constructor
  · intro h
    obtain ⟨-, rfl⟩ := Prod.mk.inj (hyields.unique h.unchanged)
    refine Nat.eq_zero_of_not_pos fun hpos => ?_
    exact absurd (hchanged.mpr hpos) Bool.false_ne_true
  · intro hzero
    have hfalse : changed = false :=
      Bool.eq_false_iff.mpr fun h => absurd (hchanged.mp h) (by omega)
    subst hfalse
    obtain ⟨hnext, hleft⟩ := hsame rfl
    have hnext : next = html := hnext
    subst hnext
    exact ⟨hyields, hyields.bind (Yields.pure next), hleft⟩

/-- The passes come to their fixed point exactly when no nest is deeper than their number. -/
theorem pruneEmptyElements_pruned_iff (html : Str) :
    (pruneEmptyElements html).Ensures Pruned ↔ nestDepth html ≤ 32 := by
  obtain ⟨r, hr, hdepth⟩ := pruneRounds_depth 32 html
  constructor
  · rintro ⟨r', hr', hpruned⟩
    obtain rfl := hr.unique hr'
    have hzero := (pruned_iff r).mp hpruned
    omega
  · intro hle
    exact ⟨r, hr, (pruned_iff r).mpr (by omega)⟩

/-- `n` bold wrappers around nothing. -/
def nested (n : Nat) : Str :=
  (List.replicate n "<b>".toList).flatten ++ (List.replicate n "</b>".toList).flatten

/-- Of 33 nested wrappers the innermost 32 go. -/
theorem one_of_33_stays : ¬ ∀ html : Str, (pruneEmptyElements html).Ensures Pruned := by
  intro h
  obtain ⟨r, hr, hpruned⟩ := h (nested 33)
  obtain ⟨r', hr', hdepth⟩ := pruneRounds_depth 32 (nested 33)
  obtain rfl := hr.unique hr'
  have hnested : nestDepth (nested 33) = 33 := by decide +kernel
  have hzero := (pruned_iff r).mp hpruned
  omega

end JmapBridge.Content
