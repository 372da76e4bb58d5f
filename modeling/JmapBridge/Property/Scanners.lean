import JmapBridge.Model.Scanners

/-! Whatever an email's body holds, the scanners of the content pipeline come to an
end, and no index or slice of theirs is out of range or inside a character. Each loop
stands at a position of its string, and each of its rounds moves it forward. -/

namespace JmapBridge.Content

open Rust Rust.Str Rust.Scan

/-! ### Searches -/

theorem toLowerByte_ascii {b : UInt8} : toLowerByte b < 128 ↔ b < 128 := by
  rw [toLowerByte]
  split
  · rename_i h
    simp only [Bool.and_eq_true, decide_eq_true_eq, UInt8.le_iff_toNat_le] at h
    obtain ⟨-, h90⟩ := h
    have h90 : b.toNat ≤ 90 := h90
    have hadd : (b + 32).toNat = b.toNat + 32 := by
      rw [UInt8.toNat_add, show (32 : UInt8).toNat = 32 from rfl]
      omega
    rw [UInt8.lt_iff_toNat_lt, UInt8.lt_iff_toNat_lt, hadd, show (128 : UInt8).toNat = 128 from rfl]
    omega
  · exact Iff.rfl

/-- A name of ASCII bytes. -/
def AsciiName (needle : List UInt8) : Prop := needle ≠ [] ∧ ∀ b ∈ needle, b < 128

instance (needle : List UInt8) : Decidable (AsciiName needle) :=
  decidable_of_iff (needle ≠ [] ∧ (needle.all fun b => decide (b < 128)) = true) <| by
    rw [AsciiName, List.all_eq_true]
    simp only [decide_eq_true_eq]

theorem getElem?_eqBytes {xs ys : List UInt8} (h : eqBytes xs ys = true) (hys : ∀ b ∈ ys, b < 128)
    {i : Nat} (hi : i < ys.length) : ∃ b, xs[i]? = some b ∧ b < 128 := by
  have heq : xs.map toLowerByte = ys.map toLowerByte := by simpa [eqBytes] using h
  have hlen : xs.length = ys.length := by simpa using congrArg List.length heq
  have hx : i < xs.length := by omega
  refine ⟨xs[i], List.getElem?_eq_getElem hx, ?_⟩
  have hlow : toLowerByte xs[i] = toLowerByte ys[i] := by
    have := List.getElem_of_eq heq (by simpa using hx)
    simpa using this
  rw [← toLowerByte_ascii, hlow, toLowerByte_ascii]
  exact hys _ (List.getElem_mem hi)

theorem findCi_ensures (haystack needle : List UInt8) (start : Nat) :
    (findCi haystack needle start).Ensures fun r => ∀ i, r = some i →
      start ≤ i ∧ i + needle.length ≤ haystack.length ∧
        eqBytes ((haystack.take (i + needle.length)).drop i) needle = true := by
  rw [findCi]
  split
  · exact Ensures.pure fun i hi => by cases hi
  · rename_i hguard
    simp only [Bool.or_eq_true, decide_eq_true_eq, not_or, Nat.not_lt] at hguard
    obtain ⟨⟨-, hlen⟩, hstart⟩ := hguard
    rw [usizeSub_of_le hlen] at hstart ⊢
    refine (Ensures.findM? (P := fun i b => i + needle.length ≤ haystack.length ∧
      b = eqBytes ((haystack.take (i + needle.length)).drop i) needle) fun i hi => ?_).mono
      fun r hr i hi => ?_
    · have hle : i + needle.length ≤ haystack.length := by
        have := List.mem_range'_1.mp hi
        omega
      rw [sliceList_of_le haystack (by omega) hle, pure_bind]
      exact Ensures.pure ⟨hle, rfl⟩
    · obtain ⟨hmem, hle, heq⟩ := hr i hi
      exact ⟨(List.mem_range'_1.mp hmem).1, hle, heq.symm⟩

theorem findCi_pos {s : Str} {needle : List UInt8} (hneedle : AsciiName needle) (start : Nat) :
    (findCi (bytes s) needle start).Ensures fun r => ∀ i, r = some i →
      start ≤ i ∧ Pos s i ∧ Pos s (i + needle.length) := by
  refine (findCi_ensures (bytes s) needle start).mono fun r hr i hi => ?_
  obtain ⟨hstart, hle, heq⟩ := hr i hi
  have hpos : 0 < needle.length := List.length_pos_iff.mpr hneedle.1
  have hbyte : ∀ k, k < needle.length → ∃ b, (bytes s)[i + k]? = some b ∧ b < 128 := by
    intro k hk
    obtain ⟨b, hb, hlt⟩ := getElem?_eqBytes heq hneedle.2 hk
    rw [List.getElem?_drop, List.getElem?_take_of_lt (by omega)] at hb
    exact ⟨b, hb, hlt⟩
  obtain ⟨b, hb, hlt⟩ := hbyte 0 hpos
  obtain ⟨b', hb', hlt'⟩ := hbyte (needle.length - 1) (by omega)
  obtain ⟨c, t, hrest, -⟩ := Rest.of_ascii hb hlt
  obtain ⟨u, hend⟩ := Rest.next_of_ascii hb' hlt'
  have hadd : i + (needle.length - 1) + 1 = i + needle.length := by omega
  exact ⟨hstart, ⟨_, hrest⟩, u, hadd ▸ hend⟩

theorem findCi_tail_pos {s : Str} {needle : List UInt8} (hneedle : AsciiName needle) {start : Nat}
    (hstart : Pos s start) {β : Type} {f : Option Nat → Scan β} {Q : β → Prop}
    (hnone : (f none).Ensures Q)
    (hsome : ∀ rel, Pos s (start + rel) → Pos s (start + rel + needle.length) →
      (f (some rel)).Ensures Q) :
    (sliceList (bytes s) start (bytes s).length >>= fun tail =>
      findCi tail needle 0 >>= f).Ensures Q := by
  obtain ⟨t, ht⟩ := hstart
  have hle := ht.le
  rw [sliceList_of_le _ (by rwa [length_bytes]) le_rfl, pure_bind, List.take_length, ht.drop_bytes]
  refine Ensures.bind (findCi_pos hneedle 0) fun r hr => ?_
  cases r with
  | none => exact hnone
  | some rel =>
    obtain ⟨-, ⟨u, hu⟩, v, hv⟩ := hr rel rfl
    refine hsome rel ⟨u, ht.trans hu⟩ ⟨v, ?_⟩
    have := ht.trans hv
    rwa [← Nat.add_assoc] at this

theorem findCi_returns (haystack needle : List UInt8) (start : Nat) :
    (findCi haystack needle start).Returns :=
  (findCi_ensures haystack needle start).mono fun _ _ => trivial

theorem startsTag_returns (rest : Str) (name : String) : (startsTag rest name).Returns := by
  rw [startsTag]
  split
  · exact Ensures.pure trivial
  · rename_i hlen
    rw [sliceList_of_le _ (Nat.zero_le _) (Nat.not_lt.mp hlen), pure_bind]
    exact Ensures.pure trivial

theorem startsAny_returns (rest : Str) (names : List String) : (startsAny rest names).Returns :=
  Ensures.anyM (startsTag_returns rest) names

theorem looksLikeHtml_returns (s : Str) : (looksLikeHtml s).Returns :=
  Ensures.anyM (fun _ => Ensures.bind (findCi_returns _ _ 0) fun _ _ => Ensures.pure trivial) _

/-! ### Steps from a position -/

theorem charAt_rest {s t : Str} {i : Nat} {c : Char} (h : Rest s i (c :: t)) :
    charAt s i = pure c := by
  rw [charAt, sliceFrom_rest h, pure_bind]
  rfl

theorem find_pos {p : Char → Bool} {s t : Str} {i g : Nat} (h : Rest s i t)
    (hg : find p t = some g) :
    ∃ c u, Rest s (i + g) (c :: u) ∧ p c = true := by
  obtain ⟨c, u, hrest, hc⟩ := find_rest hg
  exact ⟨c, u, h.trans hrest, hc⟩

theorem findGt_pos {s t : Str} {i g : Nat} (h : Rest s i t) (hg : find (· == '>') t = some g) :
    Pos s (i + g + 1) := by
  obtain ⟨c, u, hrest, hc⟩ := find_pos h hg
  obtain rfl : c = '>' := by simpa using hc
  exact ⟨u, hrest.next⟩

theorem tagEnd_ensures {s t : Str} {i : Nat} (h : Rest s i t) :
    (tagEnd s i).Ensures fun j => Pos s j ∧ i ≤ j ∧ (i < byteLen s → i < j) := by
  rw [tagEnd, sliceFrom_rest h, pure_bind]
  cases hg : find (· == '>') t with
  | none => exact Ensures.pure ⟨Pos.finish s, h.le, id⟩
  | some g =>
    have hpos := findGt_pos h hg
    exact Ensures.pure ⟨hpos, by show i ≤ i + g + 1; omega, fun _ => by show i < i + g + 1; omega⟩

theorem skipBytes_ensures {p : UInt8 → Bool} (hp : ∀ b, p b = true → b < 128) {s : Str} {k : Nat}
    (hk : Pos s k) : (skipBytes p (bytes s) k).Ensures fun j => Pos s j ∧ k ≤ j := by
  rw [skipBytes]
  refine Ensures.loop (fun j => Pos s j ∧ k ≤ j) (fun j => byteLen s - j) ⟨hk, le_rfl⟩ ?_
  rintro j ⟨hj, hkj⟩
  by_cases hlt : j < (bytes s).length
  · rw [if_pos hlt, index_of_getElem? (List.getElem?_eq_getElem hlt), pure_bind]
    split
    · rename_i hb
      obtain ⟨u, hu⟩ := Rest.next_of_ascii (List.getElem?_eq_getElem hlt) (hp _ hb)
      refine Ensures.pure ⟨⟨⟨u, hu⟩, by omega⟩, ?_⟩
      rw [length_bytes] at hlt
      show byteLen s - (j + 1) < byteLen s - j
      omega
    · exact Ensures.pure ⟨hj, hkj⟩
  · rw [if_neg hlt]
    exact Ensures.pure ⟨hj, hkj⟩

theorem isAsciiWhitespace_ascii (b : UInt8) (h : isAsciiWhitespace b = true) : b < 128 := by
  simp only [isAsciiWhitespace, Bool.or_eq_true, beq_iff_eq] at h
  rcases h with (((rfl | rfl) | rfl) | rfl) | rfl <;> decide

theorem isBlank_ascii (b : UInt8) (h : isBlank b = true) : b < 128 := by
  simp only [isBlank, Bool.or_eq_true, beq_iff_eq] at h
  rcases h with ((rfl | rfl) | rfl) | rfl <;> decide

theorem charAt_advances {σ β : Type} {s : Str} {i : Nat} {pos : σ → Nat} {Q : β → Prop}
    {f : Char → Turn σ β} (hpos : Pos s i) (hlt : i < byteLen s)
    (hf : ∀ c, ∃ st, f c = .again st ∧ pos st = i + c.utf8Size) :
    (charAt s i >>= fun c => pure (f c)).Ensures (Turn.Advances s pos i Q) := by
  obtain ⟨t, ht⟩ := hpos
  obtain ⟨c, u, rfl⟩ := ht.exists_cons hlt
  obtain ⟨st, hst, hi⟩ := hf c
  rw [charAt_rest ht, pure_bind, hst]
  have hsize := c.utf8Size_pos
  refine Ensures.pure ⟨hi ▸ ⟨u, ht.next⟩, ?_⟩
  omega

/-! ### Tables and breaks -/

theorem nextIsDivOpen_returns {html : Str} {k : Nat} (hk : Pos html k) :
    (nextIsDivOpen html k).Returns := by
  rw [nextIsDivOpen]
  refine Ensures.scan html id hk ?_
  intro k hk
  refine Ensures.bind (skipBytes_ensures isAsciiWhitespace_ascii hk) fun j ⟨⟨t, ht⟩, hkj⟩ => ?_
  rw [sliceFrom_rest ht, pure_bind]
  split
  · rename_i hcomment
    obtain ⟨u, rfl⟩ := startsWith_iff.mp hcomment
    cases hclose : findStr "-->".toList ("<!--".toList ++ u) with
    | none =>
      refine Ensures.pure ⟨Pos.finish html, ?_⟩
      have hlen := ht.byteLen_eq
      rw [byteLen_append, show byteLen "<!--".toList = 4 from rfl] at hlen
      show k < byteLen html
      omega
    | some p =>
      obtain ⟨v, hv⟩ := findStr_rest hclose
      refine Ensures.pure ⟨⟨v, (ht.trans hv).append⟩, ?_⟩
      show k < j + p + 3
      omega
  · exact Ensures.bind (startsTag_returns _ _) fun _ _ => Ensures.pure trivial

theorem separateTableBlocks_returns (html : Str) (mode : RenderMode) :
    (separateTableBlocks html mode).Returns := by
  rw [separateTableBlocks]
  refine Ensures.scan html (fun st : Str × Nat => st.2) (Pos.start html) ?_
  rintro ⟨out, i⟩ hi
  have hi : Pos html i := hi
  obtain ⟨t, ht⟩ := id hi
  by_cases hlt : i < (bytes html).length
  · have hlt' : i < byteLen html := by rwa [length_bytes] at hlt
    dsimp only
    rw [if_pos hlt, index_of_getElem? (List.getElem?_eq_getElem hlt), pure_bind]
    split
    · exact charAt_advances hi hlt' fun c => ⟨_, rfl, rfl⟩
    · rw [sliceFrom_rest ht, pure_bind]
      refine Ensures.bind (tagEnd_ensures ht) fun stop ⟨hstop, _, hadv⟩ => ?_
      have hnext := hadv hlt'
      obtain ⟨u, hu⟩ := id hstop
      refine Ensures.bind (startsAny_returns _ _) fun cell _ => ?_
      split
      · exact Ensures.pure ⟨hstop, hnext⟩
      refine Ensures.bind (startsAny_returns _ _) fun row _ => ?_
      split
      · exact Ensures.pure ⟨hstop, hnext⟩
      refine Ensures.bind (startsTag_returns _ _) fun divClose _ => ?_
      split
      · exact Ensures.bind (nextIsDivOpen_returns hstop) fun _ _ => Ensures.pure ⟨hstop, hnext⟩
      refine Ensures.bind (startsTag_returns _ _) fun divOpen _ => ?_
      split
      · exact Ensures.pure ⟨hstop, hnext⟩
      refine Ensures.bind (startsAny_returns _ _) fun table _ => ?_
      split
      · exact Ensures.pure ⟨hstop, hnext⟩
      obtain ⟨w, -, -, hslice⟩ := slice_between ht hu hnext.le
      rw [hslice, pure_bind]
      exact Ensures.pure ⟨hstop, hnext⟩
  · dsimp only
    rw [if_neg hlt]
    exact Ensures.pure trivial

theorem endsWith_rest {t s : Str} (h : endsWith t s = true) :
    ∃ p, s = p ++ t ∧ Rest s (byteLen s - byteLen t) t := by
  obtain ⟨p, rfl⟩ := List.isSuffixOf_iff_suffix.mp h
  exact ⟨p, rfl, by simpa using Rest.after p t⟩

theorem lastTagName_returns (out : Str) : (lastTagName out).Returns := by
  rw [lastTagName]
  split
  · rename_i hgt
    obtain ⟨p, hp, hend⟩ := endsWith_rest hgt
    split
    · exact Ensures.pure trivial
    · rename_i start hfind
      obtain ⟨c, u, hopen, hc⟩ := rfind_rest hfind
      obtain rfl : c = '<' := by simpa using hc
      have hlen := hopen.byteLen_eq
      rw [byteLen_cons, show ('<' : Char).utf8Size = 1 from rfl] at hlen
      rw [show byteLen ">".toList = 1 from rfl] at hend
      -- The last character is the `>`, so the `<` stands before it.
      have hne : start ≠ byteLen (trimEnd out) - 1 := by
        rintro heq
        have := (heq ▸ hopen).unique hend
        cases this
      rw [usizeSub_of_le (by omega)]
      obtain ⟨w, -, -, hslice⟩ := slice_between hopen.next hend
        (by rw [show ('<' : Char).utf8Size = 1 from rfl]; omega)
      rw [show start + 1 = start + ('<' : Char).utf8Size from rfl, hslice, pure_bind]
      exact Ensures.pure trivial
  · exact Ensures.pure trivial

theorem firstTagName_returns (rest : Str) : (firstTagName rest).Returns := by
  rw [firstTagName]
  split
  · rename_i s _
    split
    · exact Ensures.pure trivial
    · rename_i close hfind
      obtain ⟨c, u, hclose, -⟩ := find_rest hfind
      have hopen : Rest ('<' :: s) 1 s := Rest.after ['<'] s
      obtain ⟨w, -, -, hslice⟩ := slice_between hopen (hopen.trans hclose) (by omega)
      rw [show close + 1 = 1 + close from Nat.add_comm _ _, hslice, pure_bind]
      exact Ensures.pure trivial
  · exact Ensures.pure trivial

theorem startsWith_pos {t s u : Str} {i : Nat} (hu : Rest s i u) (h : startsWith t u = true) :
    Pos s (i + byteLen t) := by
  obtain ⟨v, rfl⟩ := startsWith_iff.mp h
  exact ⟨v, hu.append⟩

theorem brRunEnd_ensures {s : Str} {i : Nat} (hi : Pos s i) :
    (brRunEnd s i).Ensures fun r => ∀ j, r = some j → Pos s j ∧ i < j := by
  rw [brRunEnd]
  refine Ensures.loop (fun st : Nat × Bool => Pos s st.1 ∧ i ≤ st.1 ∧ (st.2 = true → i < st.1))
    (fun st => byteLen s - st.1) ⟨hi, le_rfl, fun h => by cases h⟩ ?_
  rintro ⟨j, found⟩ ⟨hj, hij, hfound⟩
  refine Ensures.bind (skipBytes_ensures isBlank_ascii hj) fun k ⟨⟨t, ht⟩, hjk⟩ => ?_
  rw [sliceFrom_rest ht, pure_bind]
  split
  · rename_i hbr
    have hnext : Pos s (k + 4) := startsWith_pos ht hbr
    have hle := hnext.le
    have hjk : j ≤ k := hjk
    have hij : i ≤ j := hij
    refine Ensures.pure ⟨⟨hnext, by show i ≤ k + 4; omega, fun _ => by show i < k + 4; omega⟩, ?_⟩
    show byteLen s - (k + 4) < byteLen s - j
    omega
  · refine Ensures.pure fun j' hj' => ?_
    split at hj'
    · rename_i hyes
      obtain rfl := Option.some.inj hj'
      exact ⟨hj, hfound hyes⟩
    · cases hj'

theorem stripBlockAdjacentBreaks_returns (s : Str) : (stripBlockAdjacentBreaks s).Returns := by
  rw [stripBlockAdjacentBreaks]
  refine Ensures.scan s (fun st : Str × Nat => st.2) (Pos.start s) ?_
  rintro ⟨out, i⟩ hi
  have hi : Pos s i := hi
  dsimp only
  by_cases hlt : i < byteLen s
  · rw [if_pos hlt]
    refine Ensures.bind (brRunEnd_ensures hi) fun run hrun => ?_
    cases run with
    | none => exact charAt_advances hi hlt fun c => ⟨_, rfl, rfl⟩
    | some runEnd =>
      obtain ⟨hend, hadv⟩ := hrun runEnd rfl
      obtain ⟨t, ht⟩ := id hi
      obtain ⟨u, hu⟩ := id hend
      refine Ensures.bind (lastTagName_returns out) fun before _ => ?_
      rw [sliceFrom_rest hu, pure_bind]
      refine Ensures.bind (firstTagName_returns u) fun after _ => ?_
      split
      · obtain ⟨w, -, -, hslice⟩ := slice_between ht hu hadv.le
        rw [hslice, pure_bind]
        exact Ensures.pure ⟨hend, hadv⟩
      · exact Ensures.pure ⟨hend, hadv⟩
  · rw [if_neg hlt]
    exact Ensures.pure trivial

/-! ### Blank content -/

theorem blankUnitLen_pos {s t : Str} {i n : Nat} (ht : Rest s i t) (hn : blankUnitLen t = some n) :
    Pos s (i + n) ∧ 0 < n := by
  rw [blankUnitLen] at hn
  split at hn
  · rename_i c hc
    obtain rfl := Option.some.inj hn
    obtain ⟨hhead, -⟩ := Option.filter_eq_some_iff.mp hc
    obtain ⟨u, rfl⟩ := List.head?_eq_some_iff.mp hhead
    exact ⟨⟨u, ht.next⟩, c.utf8Size_pos⟩
  · obtain ⟨ent, hent, rfl⟩ := Option.map_eq_some_iff.mp hn
    have hmem := List.mem_of_find?_eq_some hent
    have hpos : ∀ e ∈ blankEntities, 0 < byteLen e.toList := by decide
    have hstarts := List.find?_some hent
    exact ⟨startsWith_pos ht hstarts, hpos ent hmem⟩

theorem blankRun_ensures {s : Str} {j : Nat} (hj : Pos s j) (count : Int32) :
    (blankRun s j count).Ensures fun r => Pos s r.1 ∧ j ≤ r.1 := by
  rw [blankRun]
  refine Ensures.loop (fun st : Nat × Int32 => Pos s st.1 ∧ j ≤ st.1) (fun st => byteLen s - st.1)
    ⟨hj, le_rfl⟩ ?_
  rintro ⟨k, count⟩ ⟨⟨t, ht⟩, hjk⟩
  have hjk : j ≤ k := hjk
  dsimp only
  rw [sliceFrom_rest ht, pure_bind]
  cases hn : blankUnitLen t with
  | none => exact Ensures.pure ⟨⟨t, ht⟩, hjk⟩
  | some n =>
    obtain ⟨hpos, hn⟩ := blankUnitLen_pos ht hn
    have hle := hpos.le
    refine Ensures.pure ⟨⟨hpos, by show j ≤ k + n; omega⟩, ?_⟩
    show byteLen s - (k + n) < byteLen s - k
    omega

theorem collapseBlankRuns_returns (s : Str) : (collapseBlankRuns s).Returns := by
  rw [collapseBlankRuns]
  refine Ensures.scan s (fun st : Str × Nat => st.2) (Pos.start s) ?_
  rintro ⟨out, i⟩ hi
  have hi : Pos s i := hi
  obtain ⟨t, ht⟩ := id hi
  dsimp only
  by_cases hlt : i < byteLen s
  · rw [if_pos hlt, sliceFrom_rest ht, pure_bind]
    cases hn : blankUnitLen t with
    | none => exact charAt_advances hi hlt fun c => ⟨_, rfl, rfl⟩
    | some first =>
      obtain ⟨hfirst, hpos⟩ := blankUnitLen_pos ht hn
      refine Ensures.bind (blankRun_ensures hfirst 1) fun r ⟨hend, hle⟩ => ?_
      have hadv : i < r.1 := by omega
      obtain ⟨u, hu⟩ := id hend
      split
      · exact Ensures.pure ⟨hend, hadv⟩
      · obtain ⟨w, -, -, hslice⟩ := slice_between ht hu hadv.le
        rw [hslice, pure_bind]
        exact Ensures.pure ⟨hend, hadv⟩
  · rw [if_neg hlt]
    exact Ensures.pure trivial

/-! ### Empty elements -/

theorem prunableOpenName_returns (rest : Str) : (prunableOpenName rest).Returns := by
  rw [prunableOpenName]
  split
  · exact Ensures.pure trivial
  · exact (Ensures.findM? (P := fun _ _ => True) fun n _ => startsTag_returns rest _).mono
      fun _ _ => trivial

theorem skipWhitespace_ensures {html : Str} {k : Nat} (hk : Pos html k) :
    (skipWhitespace html k).Ensures fun j => Pos html j ∧ k ≤ j := by
  rw [skipWhitespace]
  refine Ensures.loop (fun j => Pos html j ∧ k ≤ j) (fun j => byteLen html - j) ⟨hk, le_rfl⟩ ?_
  rintro j ⟨⟨t, ht⟩, hkj⟩
  rw [sliceFrom_rest ht, pure_bind]
  split
  · rename_i c hc
    obtain ⟨hhead, -⟩ := Option.filter_eq_some_iff.mp hc
    obtain ⟨u, rfl⟩ := List.head?_eq_some_iff.mp hhead
    have hsize := c.utf8Size_pos
    have hle := ht.next.le
    refine Ensures.pure ⟨⟨⟨u, ht.next⟩, by omega⟩, ?_⟩
    show byteLen html - (j + c.utf8Size) < byteLen html - j
    omega
  · exact Ensures.pure ⟨⟨t, ht⟩, hkj⟩

theorem skipEntity_ensures {html : Str} {k : Nat} (hk : Pos html k) (ent : String) :
    (skipEntity html k ent).Ensures fun j => Pos html j ∧ k ≤ j := by
  obtain ⟨t, ht⟩ := id hk
  rw [skipEntity, sliceFrom_rest ht, pure_bind]
  split
  · rename_i hent
    exact Ensures.pure ⟨startsWith_pos ht hent, Nat.le_add_right _ _⟩
  · exact Ensures.pure ⟨hk, le_rfl⟩

theorem skipBlankContent_ensures {html : Str} {k : Nat} (hk : Pos html k) :
    (skipBlankContent html k).Ensures fun j => Pos html j ∧ k ≤ j := by
  rw [skipBlankContent]
  refine Ensures.loop (fun j => Pos html j ∧ k ≤ j) (fun j => byteLen html - j) ⟨hk, le_rfl⟩ ?_
  rintro start ⟨hstart, hks⟩
  refine Ensures.bind (skipWhitespace_ensures hstart) fun j ⟨hj, hsj⟩ => ?_
  refine Ensures.bind (Ensures.foldlM (I := fun j => Pos html j ∧ start ≤ j) (fun j ent _ h => ?_)
    ⟨hj, hsj⟩) fun j' ⟨hj', hsj'⟩ => ?_
  · exact (skipEntity_ensures h.1 ent).mono fun j' h' => ⟨h'.1, h.2.trans h'.2⟩
  · split
    · exact Ensures.pure ⟨hj', hks.trans hsj'⟩
    · rename_i hne
      have hle := hj'.le
      refine Ensures.pure ⟨⟨hj', hks.trans hsj'⟩, ?_⟩
      show byteLen html - j' < byteLen html - start
      omega

theorem matchesClose_returns (tail : Str) (name : String) : (matchesClose tail name).Returns := by
  rw [matchesClose]
  split
  · exact Ensures.pure trivial
  · rename_i hlen
    rw [sliceList_of_le _ (Nat.zero_le _) (Nat.not_lt.mp hlen), pure_bind]
    exact Ensures.pure trivial

theorem emptyElementEnd_ensures {html : Str} {openEnd : Nat} (hopen : Pos html openEnd)
    (rest : Str) :
    (emptyElementEnd html rest openEnd).Ensures fun r => ∀ j, r = some j →
      Pos html j ∧ openEnd < j := by
  rw [emptyElementEnd]
  refine Ensures.bind (prunableOpenName_returns rest) fun name _ => ?_
  cases name with
  | none => exact Ensures.pure fun j hj => by cases hj
  | some name =>
    refine Ensures.bind (skipBlankContent_ensures hopen) fun k ⟨⟨t, ht⟩, hle⟩ => ?_
    rw [sliceFrom_rest ht, pure_bind]
    refine Ensures.bind (matchesClose_returns t name) fun closes _ => ?_
    split
    · refine Ensures.pure fun j hj => ?_
      obtain ⟨g, hg, rfl⟩ := Option.map_eq_some_iff.mp hj
      exact ⟨findGt_pos ht hg, by omega⟩
    · exact Ensures.pure fun j hj => by cases hj

theorem pruneEmptyOnce_returns (html : Str) : (pruneEmptyOnce html).Returns := by
  rw [pruneEmptyOnce]
  refine Ensures.scan html (fun st : Str × Nat × Bool => st.2.1) (Pos.start html) ?_
  rintro ⟨out, i, changed⟩ hi
  have hi : Pos html i := hi
  obtain ⟨t, ht⟩ := id hi
  dsimp only
  by_cases hlt : i < (bytes html).length
  · have hlt' : i < byteLen html := by rwa [length_bytes] at hlt
    rw [if_pos hlt, index_of_getElem? (List.getElem?_eq_getElem hlt), pure_bind]
    split
    · exact charAt_advances hi hlt' fun c => ⟨_, rfl, rfl⟩
    · rw [sliceFrom_rest ht, pure_bind]
      cases hg : find (· == '>') t with
      | none => exact Ensures.pure trivial
      | some gt =>
        have hopen := findGt_pos ht hg
        refine Ensures.bind (emptyElementEnd_ensures hopen t) fun r hr => ?_
        cases r with
        | some stop =>
          obtain ⟨hstop, hadv⟩ := hr stop rfl
          refine Ensures.pure ⟨hstop, ?_⟩
          show i < stop
          omega
        | none =>
          obtain ⟨u, hu⟩ := id hopen
          obtain ⟨w, -, -, hslice⟩ := slice_between ht hu (by omega)
          dsimp only
          rw [hslice, pure_bind]
          refine Ensures.pure ⟨hopen, ?_⟩
          show i < i + gt + 1
          omega
  · rw [if_neg hlt]
    exact Ensures.pure trivial

theorem pruneRounds_returns (n : Nat) (cur : Str) : (pruneRounds n cur).Returns := by
  induction n generalizing cur with
  | zero => exact Ensures.pure trivial
  | succ n ih =>
    refine Ensures.bind (pruneEmptyOnce_returns cur) fun ⟨next, changed⟩ _ => ?_
    dsimp only
    split
    · exact ih _
    · exact Ensures.pure trivial

theorem pruneEmptyElements_returns (html : Str) : (pruneEmptyElements html).Returns :=
  pruneRounds_returns 32 html

theorem skipBreaks_ensures {html : Str} {k : Nat} (hk : Pos html k) :
    (skipBreaks html k).Ensures fun j => Pos html j ∧ k ≤ j := by
  rw [skipBreaks]
  refine Ensures.loop (fun j => Pos html j ∧ k ≤ j) (fun j => byteLen html - j) ⟨hk, le_rfl⟩ ?_
  rintro j ⟨⟨t, ht⟩, hkj⟩
  rw [sliceFrom_rest ht, pure_bind]
  split
  · rename_i hbr
    refine Ensures.bind (skipBlankContent_ensures (startsWith_pos ht hbr)) fun j' ⟨hj', hle⟩ => ?_
    have hle : j + 4 ≤ j' := hle
    have hle' := hj'.le
    refine Ensures.pure ⟨⟨hj', by omega⟩, ?_⟩
    show byteLen html - j' < byteLen html - j
    omega
  · exact Ensures.pure ⟨⟨t, ht⟩, hkj⟩

theorem emptyLinkEnd_ensures {html t : Str} {i : Nat} (ht : Rest html i t) :
    (emptyLinkEnd html t i).Ensures fun r => ∀ j, r = some j → Pos html j ∧ i < j := by
  rw [emptyLinkEnd]
  refine Ensures.bind (startsTag_returns _ _) fun link _ => ?_
  split
  · cases hg : find (· == '>') t with
    | none => exact Ensures.pure fun j hj => by cases hj
    | some gt =>
      refine Ensures.bind (skipBlankContent_ensures (findGt_pos ht hg)) fun k ⟨hk, hle⟩ => ?_
      refine Ensures.bind (skipBreaks_ensures hk) fun k' ⟨⟨u, hu⟩, hle'⟩ => ?_
      rw [hu.sliceFrom]
      refine Ensures.bind (startsTag_returns u _) fun closes _ => ?_
      split
      · refine Ensures.pure fun j hj => ?_
        obtain ⟨g, hg', rfl⟩ := Option.map_eq_some_iff.mp hj
        exact ⟨findGt_pos hu hg', by omega⟩
      · exact Ensures.pure fun j hj => by cases hj
  · exact Ensures.pure fun j hj => by cases hj

theorem pruneBrOnlyLinks_returns (html : Str) : (pruneBrOnlyLinks html).Returns := by
  rw [pruneBrOnlyLinks]
  refine Ensures.scan html (fun st : Str × Nat => st.2) (Pos.start html) ?_
  rintro ⟨out, i⟩ hi
  have hi : Pos html i := hi
  obtain ⟨t, ht⟩ := id hi
  dsimp only
  by_cases hlt : i < (bytes html).length
  · rw [if_pos hlt, sliceFrom_rest ht, pure_bind]
    refine Ensures.bind (emptyLinkEnd_ensures ht) fun r hr => ?_
    cases r with
    | some stop => exact Ensures.pure (hr stop rfl)
    | none =>
      rw [length_bytes] at hlt
      exact charAt_advances hi hlt fun c => ⟨_, rfl, rfl⟩
  · rw [if_neg hlt]
    exact Ensures.pure trivial

theorem unwrapLiParagraphs_returns (html : Str) : (unwrapLiParagraphs html).Returns := by
  rw [unwrapLiParagraphs]
  refine Ensures.scan html (fun st : Str × Nat × UInt32 => st.2.1) (Pos.start html) ?_
  rintro ⟨out, i, liDepth⟩ hi
  have hi : Pos html i := hi
  obtain ⟨t, ht⟩ := id hi
  dsimp only
  by_cases hlt : i < (bytes html).length
  · have hlt' : i < byteLen html := by rwa [length_bytes] at hlt
    rw [if_pos hlt, index_of_getElem? (List.getElem?_eq_getElem hlt), pure_bind]
    split
    · rw [sliceFrom_rest ht, pure_bind]
      refine Ensures.bind (tagEnd_ensures ht) fun stop ⟨hstop, _, hadv⟩ => ?_
      have hnext := hadv hlt'
      obtain ⟨u, hu⟩ := id hstop
      obtain ⟨w, -, -, hslice⟩ := slice_between ht hu hnext.le
      simp only [hslice, pure_bind]
      refine Ensures.bind (startsTag_returns _ _) fun openLi _ => ?_
      split
      · exact Ensures.pure ⟨hstop, hnext⟩
      refine Ensures.bind (startsTag_returns _ _) fun closeLi _ => ?_
      split
      · exact Ensures.pure ⟨hstop, hnext⟩
      refine Ensures.bind (startsAny_returns _ _) fun paragraph _ => ?_
      split
      · exact Ensures.pure ⟨hstop, hnext⟩
      · exact Ensures.pure ⟨hstop, hnext⟩
    · exact charAt_advances hi hlt' fun c => ⟨_, rfl, rfl⟩
  · rw [if_neg hlt]
    exact Ensures.pure trivial

/-! ### Reply quotes -/

theorem blockquoteOpen_ascii : AsciiName blockquoteOpen := by decide

theorem blockquoteClose_ascii : AsciiName blockquoteClose := by decide

theorem skipQuote_ensures {html : Str} {j : Nat} (hj : Pos html j) :
    (skipQuote html j).Ensures fun k => Pos html k ∧ j ≤ k := by
  rw [skipQuote]
  refine Ensures.loop (fun st : Nat × UInt32 => Pos html st.1 ∧ j ≤ st.1)
    (fun st => byteLen html - st.1) ⟨hj, le_rfl⟩ ?_
  rintro ⟨k, depth⟩ ⟨hk, hjk⟩
  have hjk : j ≤ k := hjk
  dsimp only
  split
  · rename_i hguard
    obtain ⟨hlt, -⟩ := (Bool.and_eq_true _ _).mp hguard
    have hlt : k < byteLen html := by simpa using hlt
    have hgo : ∀ {k' : Nat} {d : UInt32}, Pos html k' → k < k' →
        (pure (Turn.again (k', d)) : Scan (Turn (Nat × UInt32) Nat)).Ensures
          (Turn.Meets (fun st : Nat × UInt32 => Pos html st.1 ∧ j ≤ st.1)
            (fun st => byteLen html - st.1) (byteLen html - k) fun k => Pos html k ∧ j ≤ k) := by
      intro k' d hk' hkk'
      refine Ensures.pure ⟨⟨hk', hjk.trans hkk'.le⟩, ?_⟩
      show byteLen html - k' < byteLen html - k
      omega
    refine Ensures.bind (findCi_pos blockquoteOpen_ascii k) fun nextOpen hopen => ?_
    refine Ensures.bind (findCi_pos blockquoteClose_ascii k) fun nextClose hclose => ?_
    have hafterOpen : ∀ o, nextOpen = some o → Pos html (o + blockquoteOpen.length) ∧
        k < o + blockquoteOpen.length := by
      intro o ho
      obtain ⟨hle, -, hend⟩ := hopen o ho
      have hlen : 0 < blockquoteOpen.length := by decide
      exact ⟨hend, by omega⟩
    have hafterClose : ∀ c, nextClose = some c →
        (tagEnd html c).Ensures fun stop => Pos html stop ∧ k < stop := by
      intro c hc
      obtain ⟨hle, ⟨u, hu⟩, hend⟩ := hclose c hc
      have hlen : 0 < blockquoteClose.length := by decide
      have hin := hend.le
      exact (tagEnd_ensures hu).mono fun stop ⟨hstop, _, hadv⟩ =>
        ⟨hstop, Nat.lt_of_le_of_lt hle (hadv (by omega))⟩
    split
    · split
      · obtain ⟨hpos, hadv⟩ := hafterOpen _ rfl
        exact hgo hpos hadv
      · exact Ensures.bind (hafterClose _ rfl) fun stop ⟨hpos, hadv⟩ => hgo hpos hadv
    · exact Ensures.bind (hafterClose _ rfl) fun stop ⟨hpos, hadv⟩ => hgo hpos hadv
    · obtain ⟨hpos, hadv⟩ := hafterOpen _ rfl
      exact hgo hpos hadv
    · rw [length_bytes]
      exact hgo (Pos.finish html) hlt
  · exact Ensures.pure ⟨hk, hjk⟩

theorem stripReplyBlockquotes_returns (html : Str) : (stripReplyBlockquotes html).Returns := by
  rw [stripReplyBlockquotes]
  refine Ensures.scan html (fun st : Str × Nat => st.2) (Pos.start html) ?_
  rintro ⟨out, i⟩ hi
  have hi : Pos html i := hi
  obtain ⟨t, ht⟩ := id hi
  dsimp only
  by_cases hlt : i < (bytes html).length
  · rw [if_pos hlt]
    refine Ensures.bind (findCi_pos blockquoteOpen_ascii i) fun r hr => ?_
    cases r with
    | none =>
      dsimp only
      rw [sliceFrom_rest ht, pure_bind]
      exact Ensures.pure trivial
    | some start =>
      obtain ⟨hle, ⟨u, hu⟩, -⟩ := hr start rfl
      dsimp only
      rw [sliceFrom_rest hu, pure_bind]
      cases hg : find (· == '>') u with
      | none =>
        dsimp only
        rw [sliceFrom_rest ht, pure_bind]
        exact Ensures.pure trivial
      | some gt =>
        have hstop := findGt_pos hu hg
        obtain ⟨v, hv⟩ := id hstop
        obtain ⟨w, -, -, htag⟩ := slice_between hu hv (by omega)
        obtain ⟨kept, -, -, hkept⟩ := slice_between ht hv (by omega)
        obtain ⟨before, -, -, hbefore⟩ := slice_between ht hu hle
        dsimp only
        rw [htag, pure_bind]
        split
        · rw [hkept, pure_bind]
          refine Ensures.pure ⟨hstop, ?_⟩
          show i < start + gt + 1
          omega
        · rw [hbefore, pure_bind]
          refine Ensures.bind (skipQuote_ensures hstop) fun j ⟨hj, hadv⟩ => ?_
          refine Ensures.pure ⟨hj, ?_⟩
          show i < j
          omega
  · rw [if_neg hlt]
    exact Ensures.pure trivial

/-! ### Runs of breaks -/

theorem foldBreaks_returns (s : Str) : (foldBreaks s).Returns := by
  rw [foldBreaks]
  refine Ensures.scan s (fun st : Str × Nat × UInt32 => st.2.1) (Pos.start s) ?_
  rintro ⟨out, i, run⟩ hi
  have hi : Pos s i := hi
  dsimp only
  by_cases hlt : i < byteLen s
  · rw [if_pos hlt]
    refine Ensures.bind (skipBytes_ensures isBlank_ascii hi) fun j ⟨⟨t, ht⟩, hij⟩ => ?_
    rw [sliceFrom_rest ht, pure_bind]
    split
    · rename_i hbr
      have hlen : byteLen br = 4 := by decide
      refine Ensures.pure ⟨startsWith_pos ht hbr, ?_⟩
      show i < j + byteLen br
      omega
    · exact charAt_advances hi hlt fun c => ⟨_, rfl, rfl⟩
  · rw [if_neg hlt]
    exact Ensures.pure trivial

theorem dropTrailingBreaks_returns (out : Str) : (dropTrailingBreaks out).Returns := by
  rw [dropTrailingBreaks]
  refine Ensures.loop (fun _ => True) byteLen trivial ?_
  intro out _
  split
  · rename_i hbr
    have hlen : byteLen br = 4 := by decide
    obtain ⟨p, hp, hend⟩ := endsWith_rest hbr
    have hout : byteLen out = byteLen p + 4 := by rw [hp, byteLen_append, hlen]
    obtain ⟨q, hq, hslice⟩ := sliceTo_rest hend
    have hq' : byteLen out = byteLen q + 4 := by
      have := congrArg byteLen hq
      rwa [byteLen_append, hlen] at this
    rw [usizeSub_of_le (by omega), truncate, if_pos (by omega), hslice, pure_bind]
    refine Ensures.pure ⟨trivial, ?_⟩
    omega
  · exact Ensures.pure trivial

theorem byteLen_trimStart_le (s : Str) : byteLen (trimStart s) ≤ byteLen s := by
  induction s with
  | nil => exact le_rfl
  | cons c s ih =>
    rw [trimStart, List.dropWhile_cons]
    split
    · exact ih.trans (by simp)
    · exact le_rfl

theorem dropLeadingBreaks_returns (out : Str) : (dropLeadingBreaks out).Returns := by
  rw [dropLeadingBreaks]
  refine Ensures.loop (fun _ => True) byteLen trivial ?_
  intro out _
  split
  · rename_i hbr
    have hlen : byteLen br = 4 := by decide
    obtain ⟨u, rfl⟩ := startsWith_iff.mp hbr
    rw [sliceFrom_rest (Rest.after br u), pure_bind]
    have hle := byteLen_trimStart_le u
    refine Ensures.pure ⟨trivial, ?_⟩
    rw [byteLen_append]
    omega
  · exact Ensures.pure trivial

theorem collapseBreaks_returns (s : Str) : (collapseBreaks s).Returns :=
  Ensures.bind (foldBreaks_returns s) fun out _ =>
    Ensures.bind (dropTrailingBreaks_returns out) fun _ _ => dropLeadingBreaks_returns _

/-! ### Images -/

theorem quoteAt_pos {tag : Str} {k : Nat} (hk : Pos tag k) :
    Pos tag (quoteAt (bytes tag) k).1 := by
  rw [quoteAt]
  split
  · rename_i b hb
    split
    · rename_i hquote
      obtain rfl := beq_iff_eq.mp hquote
      exact Rest.next_of_ascii hb (by decide)
    · split
      · rename_i hquote
        obtain rfl := beq_iff_eq.mp hquote
        exact Rest.next_of_ascii hb (by decide)
      · exact hk
  · exact hk

/-- The range of a value lies in its tag. -/
def InTag (tag : Str) (r : Str × Nat × Nat) : Prop :=
  Pos tag r.2.1 ∧ Pos tag r.2.2 ∧ r.2.1 ≤ r.2.2

theorem attrValue_ensures {tag : Str} {k : Nat} (hk : Pos tag (k + 1)) :
    (attrValue tag k).Ensures (InTag tag) := by
  rw [attrValue]
  refine Ensures.bind (skipBytes_ensures isBlank_ascii hk) fun j ⟨hj, _⟩ => ?_
  have hstart := quoteAt_pos hj
  obtain ⟨t, ht⟩ := id hstart
  dsimp only
  rw [sliceFrom_rest ht, pure_bind, usizeSub_of_le ht.le]
  cases hfound : find (endsValue (quoteAt (bytes tag) j).2) t with
  | none =>
    have hfinish := Rest.finish tag
    obtain ⟨w, -, -, hslice⟩ := slice_between ht hfinish ht.le
    have hadd : (quoteAt (bytes tag) j).1 + (byteLen tag - (quoteAt (bytes tag) j).1) =
        byteLen tag := Nat.add_sub_cancel' ht.le
    rw [Option.getD_none, hadd, hslice, pure_bind]
    exact Ensures.pure ⟨hstart, ⟨[], hfinish⟩, ht.le⟩
  | some n =>
    obtain ⟨c, u, hu, -⟩ := find_pos ht hfound
    obtain ⟨w, -, -, hslice⟩ := slice_between ht hu (Nat.le_add_right _ n)
    rw [Option.getD_some, hslice, pure_bind]
    exact Ensures.pure ⟨hstart, ⟨_, hu⟩, Nat.le_add_right _ n⟩

theorem attrStarts_returns {tag : Str} {pos : Nat} (hpos : Pos tag pos) :
    (attrStarts (bytes tag) pos).Returns := by
  rw [attrStarts]
  split
  · exact Ensures.pure trivial
  · have hle := hpos.le
    have hlt : pos - 1 < (bytes tag).length := by
      rw [length_bytes]
      omega
    rw [usizeSub_of_le (by omega), index_of_getElem? (List.getElem?_eq_getElem hlt), pure_bind]
    exact Ensures.pure trivial

theorem tagAttr_ensures (tag : Str) {name : String} (hname : AsciiName (bytes name.toList)) :
    (tagAttr tag name).Ensures fun r => ∀ found, r = some found → InTag tag found := by
  rw [tagAttr]
  refine Ensures.scan tag id (Pos.start tag) ?_
  intro search hsearch
  refine findCi_tail_pos hname hsearch
    (Ensures.pure fun found h => by cases h) fun rel hpos hend => ?_
  rw [length_bytes] at hend
  refine Ensures.bind (attrStarts_returns hpos) fun beforeOk _ => ?_
  refine Ensures.bind (skipBytes_ensures (fun b hb => ?_) hend) fun k _ => ?_
  · simp only [Bool.or_eq_true, beq_iff_eq] at hb
    rcases hb with rfl | rfl <;> decide
  split
  · rename_i hvalue
    obtain ⟨-, heq⟩ := (Bool.and_eq_true _ _).mp hvalue
    have hnext : Pos tag (k + 1) := Rest.next_of_ascii (beq_iff_eq.mp heq) (by decide)
    refine Ensures.bind (attrValue_ensures hnext) fun found hfound => ?_
    refine Ensures.pure fun r hr => ?_
    obtain rfl := Option.some.inj hr
    exact hfound
  · have hlen : 0 < byteLen name.toList := by
      rw [← length_bytes]
      exact List.length_pos_iff.mpr hname.1
    refine Ensures.pure ⟨hend, ?_⟩
    show search < search + rel + byteLen name.toList
    omega

theorem tagAttr_returns (tag : Str) {name : String} (hname : AsciiName (bytes name.toList)) :
    (tagAttr tag name).Returns :=
  (tagAttr_ensures tag hname).mono fun _ _ => trivial

theorem isTrackingPixel_returns (tag : Str) : (isTrackingPixel tag).Returns :=
  Ensures.bind (tagAttr_returns tag (by decide)) fun _ _ => Ensures.pure trivial

theorem imgDimension_returns (tag : Str) {name : String} (hname : AsciiName (bytes name.toList)) :
    (imgDimension tag name).Returns :=
  Ensures.bind (tagAttr_returns tag hname) fun _ _ => Ensures.pure trivial

theorem isDecorativeImg_returns (tag : Str) : (isDecorativeImg tag).Returns := by
  rw [isDecorativeImg]
  refine Ensures.bind (imgDimension_returns tag (by decide)) fun w _ => ?_
  refine Ensures.bind (imgDimension_returns tag (by decide)) fun h _ => ?_
  dsimp only
  split
  · exact Ensures.pure trivial
  · exact isTrackingPixel_returns tag

theorem hasVisibleText_returns (html : Str) : (hasVisibleText html).Returns := by
  rw [hasVisibleText]
  refine Ensures.scan html id (Pos.start html) ?_
  intro i hi
  have hi : Pos html i := hi
  obtain ⟨t, ht⟩ := id hi
  by_cases hlt : i < (bytes html).length
  · have hlt' : i < byteLen html := by rwa [length_bytes] at hlt
    rw [if_pos hlt, index_of_getElem? (List.getElem?_eq_getElem hlt), pure_bind]
    split
    · exact Ensures.bind (tagEnd_ensures ht) fun stop ⟨hstop, _, hadv⟩ =>
        Ensures.pure ⟨hstop, hadv hlt'⟩
    · rw [sliceFrom_rest ht, pure_bind]
      cases hn : blankUnitLen t with
      | none => exact Ensures.pure trivial
      | some n =>
        obtain ⟨hpos, hn⟩ := blankUnitLen_pos ht hn
        refine Ensures.pure ⟨hpos, ?_⟩
        show i < i + n
        omega
  · rw [if_neg hlt]
    exact Ensures.pure trivial

theorem ChromeScan.endLink_returns (st : ChromeScan) : st.endLink.Returns := by
  rw [ChromeScan.endLink]
  split
  · exact Ensures.pure trivial
  · split
    · rename_i hone
      obtain ⟨-, hlen⟩ := (Bool.and_eq_true _ _).mp hone
      have hlen : st.aImgs.length = 1 := by simpa using hlen
      obtain ⟨first, hfirst⟩ := List.length_eq_one_iff.mp hlen
      rw [index_of_getElem? (a := first) (by rw [hfirst]; rfl), pure_bind]
      exact Ensures.pure trivial
    · exact Ensures.pure trivial

theorem ChromeScan.closeA_returns (st : ChromeScan) : st.closeA.Returns := by
  rw [ChromeScan.closeA]
  split
  · exact Ensures.bind st.endLink_returns fun _ _ => Ensures.pure trivial
  · exact Ensures.pure trivial

theorem ChromeScan.tag_returns (st : ChromeScan) (docHasText : Bool) (rest : Str) (i : Nat) :
    (st.tag docHasText rest i).Returns := by
  rw [ChromeScan.tag]
  refine Ensures.bind (startsTag_returns _ _) fun _ _ => ?_
  split
  · exact Ensures.pure trivial
  refine Ensures.bind (startsTag_returns _ _) fun _ _ => ?_
  split
  · exact st.closeA_returns
  refine Ensures.bind (startsTag_returns _ _) fun _ _ => ?_
  split
  · exact Ensures.pure trivial
  refine Ensures.bind (startsTag_returns _ _) fun _ _ => ?_
  split
  · exact Ensures.pure trivial
  exact Ensures.bind (startsTag_returns _ _) fun _ _ => Ensures.pure trivial

theorem chromeImageOffsets_returns (html : Str) : (chromeImageOffsets html).Returns := by
  rw [chromeImageOffsets]
  refine Ensures.bind (hasVisibleText_returns html) fun docHasText _ => ?_
  refine Ensures.scan html (fun st : ChromeScan × Nat => st.2) (Pos.start html) ?_
  rintro ⟨st, i⟩ hi
  have hi : Pos html i := hi
  obtain ⟨t, ht⟩ := id hi
  dsimp only
  by_cases hlt : i < (bytes html).length
  · have hlt' : i < byteLen html := by rwa [length_bytes] at hlt
    rw [if_pos hlt, index_of_getElem? (List.getElem?_eq_getElem hlt), pure_bind]
    split
    · rw [sliceFrom_rest ht, pure_bind]
      cases hn : blankUnitLen t with
      | none => exact charAt_advances hi hlt' fun c => ⟨_, rfl, rfl⟩
      | some n =>
        obtain ⟨hpos, hn⟩ := blankUnitLen_pos ht hn
        refine Ensures.pure ⟨hpos, ?_⟩
        show i < i + n
        omega
    · rw [sliceFrom_rest ht, pure_bind]
      refine Ensures.bind (tagEnd_ensures ht) fun stop ⟨hstop, _, hadv⟩ => ?_
      exact Ensures.bind (st.tag_returns docHasText t i) fun _ _ => Ensures.pure ⟨hstop, hadv hlt'⟩
  · rw [if_neg hlt]
    exact Ensures.pure trivial

theorem nextImg_ensures {html : Str} {i : Nat} (hi : Pos html i) :
    (nextImg html i).Ensures fun r => ∀ start stop tag, r = some (start, stop, tag) →
      Pos html start ∧ Pos html stop ∧ i ≤ start ∧ start < stop := by
  rw [nextImg]
  refine findCi_tail_pos (by decide) hi (Ensures.pure fun _ _ _ h => by cases h)
    fun rel hpos hend => ?_
  obtain ⟨t, ht⟩ := id hpos
  have hlt : i + rel < byteLen html := by
    have hle := hend.le
    have hlen : 0 < (bytes "<img".toList).length := by decide
    omega
  refine Ensures.bind (tagEnd_ensures ht) fun stop ⟨hstop, hle, hadv⟩ => ?_
  obtain ⟨u, hu⟩ := id hstop
  obtain ⟨w, -, -, hslice⟩ := slice_between ht hu hle
  rw [hslice, pure_bind]
  refine Ensures.pure fun start' stop' tag' h => ?_
  cases h
  exact ⟨hpos, hstop, Nat.le_add_right _ _, hadv hlt⟩

theorem extractRemoteImages_returns (html : Str) : (extractRemoteImages html).Returns := by
  rw [extractRemoteImages]
  refine Ensures.bind (chromeImageOffsets_returns html) fun chrome _ => ?_
  refine Ensures.scan html (fun st : List RemoteImg × Nat => st.2) (Pos.start html) ?_
  rintro ⟨out, i⟩ hi
  have hi : Pos html i := hi
  dsimp only
  refine Ensures.bind (nextImg_ensures hi) fun r hr => ?_
  split
  · exact Ensures.pure trivial
  · rename_i start stop tag
    obtain ⟨-, hstop, hle, hlt⟩ := hr start stop tag rfl
    have hadv : i < stop := Nat.lt_of_le_of_lt hle hlt
    refine Ensures.bind (tagAttr_returns tag (by decide)) fun found _ => ?_
    split
    · exact Ensures.pure ⟨hstop, hadv⟩
    · split
      · exact Ensures.bind (isDecorativeImg_returns tag) fun _ _ => Ensures.pure ⟨hstop, hadv⟩
      · exact Ensures.pure ⟨hstop, hadv⟩

theorem earnsMarker_returns (chrome : List Nat) (start : Nat) (src tag : Str) :
    (earnsMarker chrome start src tag).Returns := by
  rw [earnsMarker]
  split
  · exact Ensures.bind (isDecorativeImg_returns tag) fun _ _ => Ensures.pure trivial
  · exact Ensures.pure trivial

theorem markRemoteImages_returns (html : Str) : (markRemoteImages html).Returns := by
  rw [markRemoteImages]
  refine Ensures.bind (chromeImageOffsets_returns html) fun chrome _ => ?_
  refine Ensures.scan html (fun st : Marked × Nat => st.2) (Pos.start html) ?_
  rintro ⟨m, i⟩ ⟨t, ht⟩
  have hi : Pos html i := ⟨t, ht⟩
  have ht : Rest html i t := ht
  dsimp only
  refine Ensures.bind (nextImg_ensures hi) fun r hr => ?_
  split
  · rw [sliceFrom_rest ht, pure_bind]
    exact Ensures.pure trivial
  · rename_i start stop tag
    obtain ⟨⟨u, hu⟩, hstop, hle, hlt⟩ := hr start stop tag rfl
    have hadv : i < stop := Nat.lt_of_le_of_lt hle hlt
    obtain ⟨before, -, -, hbefore⟩ := slice_between ht hu hle
    rw [hbefore, pure_bind]
    refine Ensures.bind (tagAttr_returns tag (by decide)) fun found _ => ?_
    refine Ensures.bind (earnsMarker_returns chrome start _ tag) fun marked _ => ?_
    split
    · exact Ensures.pure ⟨hstop, hadv⟩
    · exact Ensures.pure ⟨hstop, hadv⟩

theorem placeholderRemoteImages_returns (html : Str) : (placeholderRemoteImages html).Returns :=
  Ensures.bind (markRemoteImages_returns html) fun _ _ => Ensures.pure trivial

theorem placeholdersFor_returns (mode : RenderMode) (pre : Str) :
    (placeholdersFor mode pre).Returns := by
  rw [placeholdersFor]
  split
  · exact placeholderRemoteImages_returns pre
  · exact Ensures.pure trivial

theorem sanitizeForMatrix_returns (lib : Renderers) (html : Str) (mode : RenderMode) :
    (sanitizeForMatrix lib html mode).Returns := by
  rw [sanitizeForMatrix]
  refine Ensures.bind (stripReplyBlockquotes_returns html) fun pre _ => ?_
  refine Ensures.bind (placeholdersFor_returns mode pre) fun marked _ => ?_
  refine Ensures.bind (separateTableBlocks_returns marked mode) fun separated _ => ?_
  refine Ensures.bind (unwrapLiParagraphs_returns _) fun unwrapped _ => ?_
  refine Ensures.bind (pruneBrOnlyLinks_returns unwrapped) fun linked _ => ?_
  refine Ensures.bind (pruneEmptyElements_returns linked) fun pruned _ => ?_
  refine Ensures.bind (collapseBlankRuns_returns pruned) fun collapsed _ => ?_
  refine Ensures.bind (stripBlockAdjacentBreaks_returns collapsed) fun stripped _ => ?_
  exact collapseBreaks_returns stripped

theorem rewriteImages_returns (html : Str) (urlToMxc : Str → Option Str) :
    (rewriteImages html urlToMxc).Returns := by
  rw [rewriteImages]
  refine Ensures.scan html (fun st : Str × Nat => st.2) (Pos.start html) ?_
  rintro ⟨out, i⟩ ⟨t, ht⟩
  have hi : Pos html i := ⟨t, ht⟩
  have ht : Rest html i t := ht
  dsimp only
  refine Ensures.bind (nextImg_ensures hi) fun r hr => ?_
  split
  · rw [sliceFrom_rest ht, pure_bind]
    exact Ensures.pure trivial
  · rename_i start stop tag
    obtain ⟨⟨u, hu⟩, hstop, hle, hlt⟩ := hr start stop tag rfl
    have hadv : i < stop := Nat.lt_of_le_of_lt hle hlt
    obtain ⟨before, -, -, hbefore⟩ := slice_between ht hu hle
    rw [hbefore, pure_bind]
    refine Ensures.bind (tagAttr_ensures tag (by decide)) fun found hfound => ?_
    split
    · rename_i a b mxc hmap
      obtain ⟨v, rfl, hv⟩ := Option.bind_eq_some_iff.mp hmap
      obtain ⟨mxc', -, heq⟩ := Option.map_eq_some_iff.mp hv
      obtain ⟨hrange, -⟩ := Prod.mk.inj heq
      obtain ⟨⟨x, hx⟩, ⟨y, hy⟩, -⟩ := hfound v rfl
      rw [hrange] at hx hy
      obtain ⟨head, -, hhead⟩ := sliceTo_rest hx
      rw [hhead, pure_bind, sliceFrom_rest hy, pure_bind]
      exact Ensures.pure ⟨hstop, hadv⟩
    · exact Ensures.pure ⟨hstop, hadv⟩

theorem renderInlineImages_returns (lib : Renderers) (html : Str) (urlToMxc : Str → Option Str) :
    (renderInlineImages lib html urlToMxc).Returns :=
  Ensures.bind (rewriteImages_returns html urlToMxc) fun _ _ => sanitizeForMatrix_returns lib _ _

/-! ### The size limit -/

theorem backUp_ensures {s t : Str} {stop : Nat} (ht : Rest s stop t) :
    (backUp s stop).Ensures fun j => Pos s j ∧ j ≤ stop := by
  obtain ⟨p, hp, hslice⟩ := sliceTo_rest ht
  rw [backUp, hslice, pure_bind]
  split
  · rename_i ws hws
    obtain ⟨c, u, hu, -⟩ := rfind_rest hws
    have hle := hu.le
    have hstop : stop = byteLen p := by
      have hlen := ht.byteLen_eq
      rw [hp, byteLen_append] at hlen
      omega
    split
    · refine Ensures.pure ⟨⟨(c :: u) ++ t, ?_⟩, by omega⟩
      obtain ⟨q, hq, hlen⟩ := hu
      exact ⟨q, by rw [hp, hq, List.append_assoc], hlen⟩
    · exact Ensures.pure ⟨⟨t, ht⟩, le_rfl⟩
  · exact Ensures.pure ⟨⟨t, ht⟩, le_rfl⟩

/-- A text that is too long is cut at a position, and loses the whitespace before it. -/
theorem clampUtf8_ensures (s : Str) (maxBytes : Nat) :
    (clampUtf8 s maxBytes).Ensures fun r => (byteLen s ≤ maxBytes ∧ r = s) ∨
      ∃ p t, s = p ++ t ∧ byteLen p ≤ maxBytes ∧ r = trimEnd p := by
  rw [clampUtf8]
  split
  · rename_i hle
    exact Ensures.pure (Or.inl ⟨hle, rfl⟩)
  · refine Ensures.bind (P := fun stop => Pos s stop ∧ stop ≤ maxBytes) ?_
      fun stop ⟨⟨t, ht⟩, hstop⟩ => ?_
    · refine Ensures.loop (fun stop => stop ≤ maxBytes) id le_rfl ?_
      intro stop hstop
      split
      · rename_i hback
        obtain ⟨hpos, -⟩ := (Bool.and_eq_true _ _).mp hback
        have hpos : 0 < stop := by simpa using hpos
        rw [usizeSub_of_le (by omega)]
        refine Ensures.pure ⟨?_, ?_⟩
        · show stop - 1 ≤ maxBytes
          omega
        · show stop - 1 < stop
          omega
      · rename_i hkeep
        refine Ensures.pure ⟨?_, hstop⟩
        rcases Nat.eq_zero_or_pos stop with rfl | hpos
        · exact Pos.start s
        · exact isCharBoundary_rest (by simpa [hpos] using hkeep)
    · refine Ensures.bind (backUp_ensures ht) fun j ⟨⟨u, hu⟩, hj⟩ => ?_
      obtain ⟨p, hp, hslice⟩ := sliceTo_rest hu
      rw [hslice, pure_bind]
      refine Ensures.pure (Or.inr ⟨p, u, hp, ?_, rfl⟩)
      have hlen := hu.byteLen_eq
      rw [hp, byteLen_append] at hlen
      omega

theorem clampToMatrixLimit_returns (plain : Str) (html : Option Str) :
    (clampToMatrixLimit plain html).Returns := by
  rw [clampToMatrixLimit]
  dsimp only
  split
  · exact Ensures.pure trivial
  · exact Ensures.bind (clampUtf8_ensures _ _) fun _ _ => Ensures.pure trivial

/-! ### The body of an email -/

theorem isHtml_returns (text : Str) (contentType : Option Str) :
    (isHtml text contentType).Returns := by
  rw [isHtml]
  split
  · exact Ensures.pure trivial
  · exact looksLikeHtml_returns text

theorem plainCandidate_returns (email : Email) : (plainCandidate email).Returns := by
  rw [plainCandidate]
  split
  · exact Ensures.pure trivial
  · exact Ensures.bind (isHtml_returns _ _) fun _ _ => Ensures.pure trivial

theorem htmlPart_returns (email : Email) (parts : Option (List BodyPart)) :
    (htmlPart email parts).Returns := by
  rw [htmlPart]
  split
  · exact Ensures.pure trivial
  · exact Ensures.bind (isHtml_returns _ _) fun _ _ => Ensures.pure trivial

theorem htmlCandidate_returns (email : Email) : (htmlCandidate email).Returns := by
  rw [htmlCandidate]
  refine Ensures.bind (htmlPart_returns email _) fun found _ => ?_
  split
  · exact Ensures.pure trivial
  · exact htmlPart_returns email _

theorem formattedBody_returns (lib : Renderers) (mode : RenderMode)
    (htmlPart : Option (Str × Bool)) : (formattedBody lib mode htmlPart).Returns := by
  rw [formattedBody.eq_def]
  split
  · exact Ensures.pure trivial
  · exact Ensures.pure trivial
  · exact Ensures.bind (sanitizeForMatrix_returns lib _ _) fun _ _ => Ensures.pure trivial

theorem fromEmail_returns (lib : Renderers) (email : Email) (mode : RenderMode) :
    (fromEmail lib email mode).Returns := by
  rw [fromEmail]
  refine Ensures.bind (plainCandidate_returns email) fun plainPart _ => ?_
  refine Ensures.bind (htmlCandidate_returns email) fun htmlPart _ => ?_
  refine Ensures.bind (formattedBody_returns lib mode htmlPart) fun html _ => ?_
  exact Ensures.bind (clampToMatrixLimit_returns _ html) fun _ _ => Ensures.pure trivial

/-- No body crashes the bridge or keeps a scanner going: rendering an email returns in every
mode, and so does each scanner on every string. -/
theorem content_returns (lib : Renderers) :
    (∀ email mode, (fromEmail lib email mode).Returns) ∧
    (∀ email, (originalHtml email).Returns) ∧
    (∀ html urlToMxc, (renderInlineImages lib html urlToMxc).Returns) ∧
    (∀ html mode, (sanitizeForMatrix lib html mode).Returns) ∧
    (∀ html, (stripReplyBlockquotes html).Returns ∧ (placeholderRemoteImages html).Returns ∧
      (chromeImageOffsets html).Returns ∧ (extractRemoteImages html).Returns ∧
      (unwrapLiParagraphs html).Returns ∧ (pruneBrOnlyLinks html).Returns ∧
      (pruneEmptyElements html).Returns ∧ (collapseBlankRuns html).Returns ∧
      (stripBlockAdjacentBreaks html).Returns ∧ (collapseBreaks html).Returns ∧
      (looksLikeHtml html).Returns) ∧
    (∀ html mode, (separateTableBlocks html mode).Returns) ∧
    (∀ before after, (nextIsDivOpen (before ++ after) (byteLen before)).Returns) ∧
    (∀ tag, (tagAttr tag "src").Returns ∧ (tagAttr tag "width").Returns ∧
      (tagAttr tag "height").Returns ∧ (isDecorativeImg tag).Returns) ∧
    (∀ plain html, (clampToMatrixLimit plain html).Returns) := by
  refine ⟨fromEmail_returns lib, fun email => ?_, renderInlineImages_returns lib,
    sanitizeForMatrix_returns lib, fun html => ?_, separateTableBlocks_returns,
    fun before after => nextIsDivOpen_returns ⟨after, Rest.after before after⟩, fun tag => ?_,
    clampToMatrixLimit_returns⟩
  · exact Ensures.bind (htmlCandidate_returns email) fun _ _ => Ensures.pure trivial
  · exact ⟨stripReplyBlockquotes_returns html, placeholderRemoteImages_returns html,
      chromeImageOffsets_returns html, extractRemoteImages_returns html,
      unwrapLiParagraphs_returns html, pruneBrOnlyLinks_returns html,
      pruneEmptyElements_returns html, collapseBlankRuns_returns html,
      stripBlockAdjacentBreaks_returns html, collapseBreaks_returns html,
      looksLikeHtml_returns html⟩
  · exact ⟨tagAttr_returns tag (by decide), tagAttr_returns tag (by decide),
      tagAttr_returns tag (by decide), isDecorativeImg_returns tag⟩

end JmapBridge.Content
