import JmapBridge.Property.VisibleText

/-! The clean-up of a sanitised body loses no text. Each pass takes out tags and blank text
only, wherever its look-ahead leads it. -/

namespace JmapBridge.Content

open Rust Rust.Str Rust.Scan

/-- The passes over the sanitiser's output. -/
def cleanUp (html : Str) : Scan Str := do
  let cleaned ← unwrapLiParagraphs html
  let cleaned ← pruneBrOnlyLinks cleaned
  let cleaned ← pruneEmptyElements cleaned
  let cleaned ← collapseBlankRuns cleaned
  let cleaned ← stripBlockAdjacentBreaks cleaned
  collapseBreaks cleaned

/-- `s` is well shaped and has the visible text of `html`. -/
def SameText (html s : Str) : Prop := Shaped s ∧ visible 0 s = visible 0 html

theorem SameText.thin {html x u v : Str} (h : SameText html (x ++ u)) (hthin : Thins u v) :
    SameText html (x ++ v) := by
  obtain ⟨hshaped, hsame⟩ := hthin x h.1
  exact ⟨hshaped, hsame.trans h.2⟩

theorem SameText.refl {html : Str} (h : Shaped html) : SameText html html := ⟨h, rfl⟩

theorem SameText.trans {html s t : Str} (h : SameText html s) (h' : SameText s t) :
    SameText html t :=
  ⟨h'.1, h'.2.trans h.2⟩

/-- A scanner stands at `i`, and what it has written and what is left have the text. -/
def Halfway (html out : Str) (i : Nat) : Prop := ∃ t, Rest html i t ∧ SameText html (out ++ t)

theorem Halfway.start {html : Str} (h : Shaped html) : Halfway html [] 0 :=
  ⟨html, Rest.start html, SameText.refl h⟩

theorem Halfway.finish {html out : Str} {i : Nat} (h : Halfway html out i)
    (hi : ¬ i < byteLen html) : SameText html out := by
  obtain ⟨t, ht, hsame⟩ := h
  obtain rfl := ht.eq_nil_iff.mpr (Nat.not_lt.mp hi)
  rwa [List.append_nil] at hsame

theorem halfway_keep {html out p v : Str} {i : Nat} (ht : Rest html i (p ++ v))
    (h : SameText html (out ++ (p ++ v))) : Halfway html (out ++ p) (i + byteLen p) :=
  ⟨v, ht.append, by rwa [List.append_assoc]⟩

theorem halfway_drop {html out t v : Str} {j : Nat} (hv : Rest html j v) (hthin : Thins t v)
    (h : SameText html (out ++ t)) : Halfway html out j := ⟨v, hv, h.thin hthin⟩

theorem byteLen_pos {p : Str} (hne : p ≠ []) : 0 < byteLen p := by
  obtain ⟨c, w, rfl⟩ := List.exists_cons_of_ne_nil hne
  have hsize := c.utf8Size_pos
  rw [byteLen_cons]
  omega

theorem past_lt {html p v : Str} {i : Nat} (hne : p ≠ []) (ht : Rest html i (p ++ v)) :
    byteLen html - (i + byteLen p) < byteLen html - i := by
  have hpos := byteLen_pos hne
  have hbound := ht.append.le
  omega

theorem IsTag.ne_nil {t : Str} (ht : IsTag t) : t ≠ [] := List.length_pos_iff.mp ht.length_pos

/-- The step of a scanner that copies one character. -/
theorem charAt_keeps {σ β : Type} {html t out : Str} {i : Nat} {pos : σ → Nat}
    {written : σ → Str} {Q : β → Prop} {k : Char → Scan (Turn σ β)}
    (ht : Rest html i t) (hlt : i < byteLen html) (h : SameText html (out ++ t))
    (hk : ∀ c, ∃ st', k c = pure (.again st') ∧ written st' = out ++ [c] ∧
      pos st' = i + c.utf8Size) :
    (charAt html i >>= k).Ensures (Turn.Meets (fun st => Halfway html (written st) (pos st))
      (fun st => byteLen html - pos st) (byteLen html - i) Q) := by
  obtain ⟨c, u, rfl⟩ := ht.exists_cons hlt
  obtain ⟨st', hst, hwritten, hpos⟩ := hk c
  have hone : Rest html i ([c] ++ u) := ht
  have hkeep := halfway_keep hone h
  have hless := past_lt (List.cons_ne_nil c []) hone
  rw [charAt_rest ht, pure_bind, hst]
  have hsize : byteLen [c] = c.utf8Size := by simp
  rw [hsize] at hkeep hless
  refine Ensures.pure ⟨?_, ?_⟩
  · show Halfway html (written st') (pos st')
    rwa [hwritten, hpos]
  · show byteLen html - pos st' < byteLen html - i
    rwa [hpos]

/-! ### Paragraphs of list items -/

theorem unwrapLiParagraphs_same {html : Str} (hshaped : Shaped html) :
    (unwrapLiParagraphs html).Ensures (SameText html) := by
  rw [unwrapLiParagraphs]
  refine Ensures.loop (fun st : Str × Nat × UInt32 => Halfway html st.1 st.2.1)
    (fun st => byteLen html - st.2.1) (Halfway.start hshaped) ?_
  rintro ⟨out, i, liDepth⟩ hhalf
  dsimp only
  by_cases hlt : i < (bytes html).length
  · obtain ⟨t, ht, hsame⟩ := hhalf
    have ht : Rest html i t := ht
    have hsame : SameText html (out ++ t) := hsame
    have hlt' : i < byteLen html := by rwa [length_bytes] at hlt
    rw [if_pos hlt, index_of_getElem? (List.getElem?_eq_getElem hlt), pure_bind]
    obtain ⟨c, u, rfl⟩ := ht.exists_cons hlt'
    have hread : ((bytes html)[i] == lt) = (c == '<') :=
      (readsChars_ascii (d := '<') (by decide)).at ht hlt
    rw [hread]
    by_cases hc : c = '<'
    · subst hc
      obtain ⟨o, v, ho, hov⟩ := hsame.1.tag_of_lt
      rw [hov] at ht hsame
      have hkeep := halfway_keep ht hsame
      have hdec := past_lt ho.ne_nil ht
      rw [if_pos (by decide), sliceFrom_rest ht, pure_bind, tagEnd_tag ho ht, pure_bind]
      simp only [slice_rest ht rfl, pure_bind]
      refine Ensures.bind (startsTag_returns _ _) fun openLi _ => ?_
      split
      · exact Ensures.pure ⟨hkeep, hdec⟩
      refine Ensures.bind (startsTag_returns _ _) fun closeLi _ => ?_
      split
      · exact Ensures.pure ⟨hkeep, hdec⟩
      refine Ensures.bind (startsAny_returns _ _) fun paragraph _ => ?_
      split
      · exact Ensures.pure ⟨halfway_drop ht.append (thins_tag ho v) hsame, hdec⟩
      · exact Ensures.pure ⟨hkeep, hdec⟩
    · rw [if_neg (by simpa using hc)]
      exact charAt_keeps ht hlt' hsame fun c => ⟨_, rfl, rfl, rfl⟩
  · rw [if_neg hlt]
    rw [length_bytes] at hlt
    exact Ensures.pure (hhalf.finish hlt)

/-! ### Links that hold breaks only -/

theorem isTag_br : IsTag br := ⟨['b', 'r'], rfl, by decide⟩

theorem startsTag_lt {name : String} (hname : ∀ c ∈ name.toList, IsAscii c)
    (hlt : name.toList.head? = some '<') (s : Str) :
    (startsTag s name).Ensures fun b => b = true → ∃ u, s = '<' :: u := by
  refine (startsTag_ensures hname s).mono fun b hb htrue => ?_
  rw [htrue, eq_comm, Bool.and_eq_true] at hb
  obtain ⟨w, hw⟩ := List.head?_eq_some_iff.mp hlt
  rw [hw] at hb
  cases s with
  | nil => exact absurd hb.1 (by simp [startsFolded])
  | cons c u =>
    have hstart := hb.1
    rw [startsFolded, Bool.and_eq_true] at hstart
    exact ⟨u, by rw [eq_of_sameFolded hstart.1 (Or.inr (by decide))]⟩

theorem skipBreaks_thins {html t : Str} {k : Nat} (ht : Rest html k t) :
    (skipBreaks html k).Ensures fun j => ∃ v, Rest html j v ∧ Thins t v ∧ k ≤ j := by
  rw [skipBreaks]
  refine Ensures.loop (fun j => ∃ v, Rest html j v ∧ Thins t v ∧ k ≤ j) (fun j => byteLen html - j)
    ⟨t, ht, Thins.refl t, le_rfl⟩ ?_
  rintro j ⟨v, hv, hthin, hle⟩
  rw [sliceFrom_rest hv, pure_bind]
  split
  · rename_i hstart
    obtain ⟨w, rfl⟩ := startsWith_iff.mp hstart
    have hbr : "<br>".toList = br := rfl
    rw [hbr] at hv hthin
    have hpast : Rest html (j + 4) w := hv.append
    refine Ensures.bind ((skipBlankContent_rest hpast).and (skipBlankContent_ensures ⟨w, hpast⟩))
      fun j' hnext => ?_
    obtain ⟨hj', _, hadv⟩ := hnext
    have hbound := hj'.le
    refine Ensures.pure ⟨⟨_, hj', hthin.trans ((thins_tag isTag_br w).trans (thins_dropBlank w)),
      ?_⟩, ?_⟩
    · omega
    · show byteLen html - j' < byteLen html - j
      omega
  · exact Ensures.pure ⟨v, hv, hthin, hle⟩

theorem emptyLinkEnd_thins {html t : Str} {i : Nat} (ht : Rest html i t) :
    (emptyLinkEnd html t i).Ensures fun r => ∀ stop, r = some stop →
      ∃ v, Rest html stop v ∧ Thins t v ∧ byteLen html - stop < byteLen html - i := by
  rw [emptyLinkEnd]
  refine Ensures.bind
    (startsTag_lt (forall_mem_of_all (by decide)) (by decide) t) fun isLink hlink => ?_
  split
  · rename_i htrue
    obtain ⟨u, rfl⟩ := hlink htrue
    cases hfind : find (· == '>') ('<' :: u) with
    | none => exact Ensures.pure fun _ h => by cases h
    | some gt =>
      obtain ⟨o, v, hov, ho, hlen⟩ := tag_of_find hfind
      rw [hov] at ht ⊢
      have hpast : Rest html (i + gt + 1) v := by
        rw [Nat.add_assoc, hlen]
        exact ht.append
      refine Ensures.bind ((skipBlankContent_rest hpast).and (skipBlankContent_ensures ⟨v, hpast⟩))
        fun k hskip => ?_
      obtain ⟨hk, _, hle⟩ := hskip
      refine Ensures.bind (skipBreaks_thins hk) fun j hbreaks => ?_
      obtain ⟨w, hw, hthin, hle'⟩ := hbreaks
      have hslice : (Str.sliceFrom j html).toOption = some w := by rw [hw.sliceFrom]; rfl
      rw [hslice]
      refine Ensures.bind (startsTag_lt (forall_mem_of_all (by decide)) (by decide) w)
        fun isClose hclose => ?_
      split
      · rename_i htrue
        obtain ⟨u', rfl⟩ := hclose htrue
        refine Ensures.pure fun stop hstop => ?_
        obtain ⟨cgt, hcgt, rfl⟩ := Option.map_eq_some_iff.mp hstop
        obtain ⟨c, x, hcx, hc, hclen⟩ := tag_of_find hcgt
        rw [hcx] at hw hthin
        have hend : Rest html (j + cgt + 1) x := by
          rw [Nat.add_assoc, hclen]
          exact hw.append
        have hbound := hend.le
        exact ⟨x, hend,
          (thins_tag ho v).trans ((thins_dropBlank v).trans (hthin.trans (thins_tag hc x))),
          by omega⟩
      · exact Ensures.pure fun _ h => by cases h
  · exact Ensures.pure fun _ h => by cases h

theorem pruneBrOnlyLinks_same {html : Str} (hshaped : Shaped html) :
    (pruneBrOnlyLinks html).Ensures (SameText html) := by
  rw [pruneBrOnlyLinks]
  refine Ensures.loop (fun st : Str × Nat => Halfway html st.1 st.2)
    (fun st => byteLen html - st.2) (Halfway.start hshaped) ?_
  rintro ⟨out, i⟩ hhalf
  dsimp only
  by_cases hlt : i < (bytes html).length
  · obtain ⟨t, ht, hsame⟩ := hhalf
    have ht : Rest html i t := ht
    have hlt' : i < byteLen html := by rwa [length_bytes] at hlt
    rw [if_pos hlt, sliceFrom_rest ht, pure_bind]
    refine Ensures.bind (emptyLinkEnd_thins ht) fun r hr => ?_
    cases r with
    | some stop =>
      obtain ⟨v, hv, hthin, hdec⟩ := hr stop rfl
      exact Ensures.pure ⟨halfway_drop hv hthin hsame, hdec⟩
    | none => exact charAt_keeps ht hlt' hsame fun c => ⟨_, rfl, rfl, rfl⟩
  · rw [if_neg hlt]
    rw [length_bytes] at hlt
    exact Ensures.pure (hhalf.finish hlt)

/-! ### Empty elements -/

theorem Sweep.thins {l l' : List Token} {b : Bool} (h : Sweep l l' b)
    (hl : ∀ t, .tag t ∈ l → IsTag t) : Thins (write l) (write l') := by
  induction h with
  | nil => exact Thins.refl []
  | chr c _ ih => exact (ih fun t ht => hl t (List.mem_cons_of_mem _ ht)).cons c
  | keep t _ _ ih => exact (ih fun t' ht => hl t' (List.mem_cons_of_mem _ ht)).append t
  | @drop o w c l l' b he _ ih =>
    have ho := hl o List.mem_cons_self
    have hc := hl c (by simp)
    obtain ⟨n, -, hblank, -⟩ := he
    rw [write_tag, write_append, write_chars, write_tag]
    refine (thins_tag ho _).trans (Thins.trans ?_ ((thins_tag hc _).trans (ih fun t ht => hl t ?_)))
    · obtain ⟨v, rfl, -⟩ := hc
      have hdrop := thins_dropBlank (w ++ '<' :: ((v ++ ['>']) ++ write l))
      rwa [dropBlank_blank hblank] at hdrop
    · simp [ht]

theorem pruneEmptyOnce_same {html : Str} (hshaped : Shaped html) :
    (pruneEmptyOnce html).Ensures fun r => SameText html r.1 := by
  refine (pruneEmptyOnce_sweep html).mono fun r ⟨l', hsweep, hr⟩ => ?_
  have hlegible := legible_tokens html
  have hthin := hsweep.thins fun t ht => hlegible.isTag ht
  rw [write_tokens, ← hr] at hthin
  exact SameText.thin (x := []) (SameText.refl hshaped) hthin

theorem pruneRounds_same (n : Nat) {html : Str} (hshaped : Shaped html) :
    (pruneRounds n html).Ensures (SameText html) := by
  induction n generalizing html with
  | zero => exact Ensures.pure (SameText.refl hshaped)
  | succ n ih =>
    refine Ensures.bind (pruneEmptyOnce_same hshaped) fun ⟨next, changed⟩ hnext => ?_
    have hnext : SameText html next := hnext
    cases changed with
    | true => exact (ih hnext.1).mono fun r hr => hnext.trans hr
    | false => exact Ensures.pure hnext

/-! ### Blank runs -/

theorem blankUnitLen_unit {t : Str} {n : Nat} (h : blankUnitLen t = some n) :
    ∃ w v, t = w ++ v ∧ n = byteLen w ∧ BlankUnit w := by
  rw [blankUnitLen] at h
  split at h
  · rename_i c hc
    obtain rfl := Option.some.inj h
    obtain ⟨hhead, hspace⟩ := Option.filter_eq_some_iff.mp hc
    obtain ⟨v, rfl⟩ := List.head?_eq_some_iff.mp hhead
    exact ⟨[c], v, rfl, by simp, .space c hspace⟩
  · obtain ⟨e, he, rfl⟩ := Option.map_eq_some_iff.mp h
    have hstart := List.find?_some he
    obtain ⟨v, rfl⟩ := startsWith_iff.mp hstart
    exact ⟨e.toList, v, rfl, rfl, .entity e (List.mem_of_find?_eq_some he)⟩

theorem blankRun_thins {s u : Str} {j : Nat} (hu : Rest s j u) (count : Int32) :
    (blankRun s j count).Ensures fun r => ∃ v, Rest s r.1 v ∧ Thins u v ∧ j ≤ r.1 := by
  rw [blankRun]
  refine Ensures.loop (fun st : Nat × Int32 => ∃ v, Rest s st.1 v ∧ Thins u v ∧ j ≤ st.1)
    (fun st => byteLen s - st.1) ⟨u, hu, Thins.refl u, le_rfl⟩ ?_
  rintro ⟨k, count⟩ ⟨v, hv, hthin, hle⟩
  have hv : Rest s k v := hv
  have hle : j ≤ k := hle
  dsimp only
  rw [sliceFrom_rest hv, pure_bind]
  cases hn : blankUnitLen v with
  | none => exact Ensures.pure ⟨v, hv, hthin, hle⟩
  | some n =>
    obtain ⟨w, x, rfl, rfl, hw⟩ := blankUnitLen_unit hn
    have hdec := past_lt hw.ne_nil hv
    exact Ensures.pure ⟨⟨x, hv.append, hthin.trans (thins_blank hw (Or.inl rfl) x),
      hle.trans (Nat.le_add_right _ _)⟩, hdec⟩

theorem collapseBlankRuns_same {html : Str} (hshaped : Shaped html) :
    (collapseBlankRuns html).Ensures (SameText html) := by
  rw [collapseBlankRuns]
  refine Ensures.loop (fun st : Str × Nat => Halfway html st.1 st.2)
    (fun st => byteLen html - st.2) (Halfway.start hshaped) ?_
  rintro ⟨out, i⟩ hhalf
  dsimp only
  by_cases hlt : i < byteLen html
  · obtain ⟨t, ht, hsame⟩ := hhalf
    have ht : Rest html i t := ht
    have hsame : SameText html (out ++ t) := hsame
    rw [if_pos hlt, sliceFrom_rest ht, pure_bind]
    cases hn : blankUnitLen t with
    | none => exact charAt_keeps ht hlt hsame fun c => ⟨_, rfl, rfl, rfl⟩
    | some first =>
      obtain ⟨w, v, rfl, rfl, hw⟩ := blankUnitLen_unit hn
      refine Ensures.bind (blankRun_thins ht.append 1) fun run hrun => ?_
      obtain ⟨j, count⟩ := run
      obtain ⟨x, hx, hthin, hle⟩ := hrun
      have hx : Rest html j x := hx
      have hle : i + byteLen w ≤ j := hle
      have hpos := byteLen_pos hw.ne_nil
      have hbound := hx.le
      have hdec : byteLen html - j < byteLen html - i := by omega
      dsimp only
      split
      · have hspace := hsame.thin ((thins_blank hw (Or.inr rfl) v).trans (hthin.append [' ']))
        exact Ensures.pure ⟨⟨x, hx, by rwa [List.append_assoc]⟩, hdec⟩
      · obtain ⟨run, hrun, -, hslice⟩ := slice_between ht hx (by omega)
        rw [hslice, pure_bind]
        rw [hrun] at hsame
        exact Ensures.pure ⟨⟨x, hx, by rwa [List.append_assoc]⟩, hdec⟩
  · rw [if_neg hlt]
    exact Ensures.pure (hhalf.finish hlt)

/-! ### Breaks -/

theorem blankChar_isWhitespace {c : Char} (h : blankChar c = true) : isWhitespace c = true := by
  simp only [blankChar, Bool.or_eq_true, beq_iff_eq] at h
  rcases h with ((rfl | rfl) | rfl) | rfl <;> decide

theorem brRunEnd_thins {s t : Str} {i : Nat} (ht : Rest s i t) :
    (brRunEnd s i).Ensures fun r => ∀ j, r = some j → ∃ v, Rest s j v ∧ Thins t v ∧ i < j := by
  rw [brRunEnd]
  refine Ensures.loop
    (fun st : Nat × Bool => ∃ v, Rest s st.1 v ∧ Thins t v ∧ i ≤ st.1 ∧ (st.2 = true → i < st.1))
    (fun st => byteLen s - st.1) ⟨t, ht, Thins.refl t, le_rfl, fun h => by cases h⟩ ?_
  rintro ⟨j, found⟩ ⟨v, hv, hthin, hle, hfound⟩
  have hv : Rest s j v := hv
  have hle : i ≤ j := hle
  dsimp only
  refine Ensures.bind (skipBytes_chars isBlank_ascii isBlank_readsChars hv) fun k hskip => ?_
  obtain ⟨hk, hrest⟩ := hskip
  rw [sliceFrom_rest hrest, pure_bind]
  split
  · rename_i hstart
    obtain ⟨x, hx⟩ := startsWith_iff.mp hstart
    have hdrop := thins_dropWhile (fun _ => blankChar_isWhitespace) v
    rw [hx] at hrest hdrop
    have hend : Rest s (k + 4) x := hrest.append
    have hbound := hend.le
    have hadv : i < k + 4 := by omega
    refine Ensures.pure ⟨⟨x, hend, hthin.trans (hdrop.trans (thins_tag isTag_br x)), hadv.le,
      fun _ => hadv⟩, ?_⟩
    show byteLen s - (k + 4) < byteLen s - j
    omega
  · refine Ensures.pure fun j' hj' => ?_
    split at hj'
    · rename_i hyes
      obtain rfl := Option.some.inj hj'
      exact ⟨v, hv, hthin, hfound hyes⟩
    · cases hj'

theorem stripBlockAdjacentBreaks_same {html : Str} (hshaped : Shaped html) :
    (stripBlockAdjacentBreaks html).Ensures (SameText html) := by
  rw [stripBlockAdjacentBreaks]
  refine Ensures.loop (fun st : Str × Nat => Halfway html st.1 st.2)
    (fun st => byteLen html - st.2) (Halfway.start hshaped) ?_
  rintro ⟨out, i⟩ hhalf
  dsimp only
  by_cases hlt : i < byteLen html
  · obtain ⟨t, ht, hsame⟩ := hhalf
    have ht : Rest html i t := ht
    have hsame : SameText html (out ++ t) := hsame
    rw [if_pos hlt]
    refine Ensures.bind (brRunEnd_thins ht) fun run hrun => ?_
    cases run with
    | none => exact charAt_keeps ht hlt hsame fun c => ⟨_, rfl, rfl, rfl⟩
    | some runEnd =>
      obtain ⟨x, hx, hthin, hadv⟩ := hrun runEnd rfl
      have hbound := hx.le
      have hdec : byteLen html - runEnd < byteLen html - i := by omega
      refine Ensures.bind (lastTagName_returns out) fun before _ => ?_
      rw [sliceFrom_rest hx, pure_bind]
      refine Ensures.bind (firstTagName_returns x) fun after _ => ?_
      split
      · obtain ⟨kept, hkept, -, hslice⟩ := slice_between ht hx hadv.le
        rw [hslice, pure_bind]
        rw [hkept] at hsame
        exact Ensures.pure ⟨⟨x, hx, by rwa [List.append_assoc]⟩, hdec⟩
      · exact Ensures.pure ⟨halfway_drop hx hthin hsame, hdec⟩
  · rw [if_neg hlt]
    exact Ensures.pure (hhalf.finish hlt)

theorem foldBreaks_same {html : Str} (hshaped : Shaped html) :
    (foldBreaks html).Ensures (SameText html) := by
  rw [foldBreaks]
  refine Ensures.loop (fun st : Str × Nat × UInt32 => Halfway html st.1 st.2.1)
    (fun st => byteLen html - st.2.1) (Halfway.start hshaped) ?_
  rintro ⟨out, i, run⟩ hhalf
  dsimp only
  by_cases hlt : i < byteLen html
  · obtain ⟨t, ht, hsame⟩ := hhalf
    have ht : Rest html i t := ht
    have hsame : SameText html (out ++ t) := hsame
    rw [if_pos hlt]
    refine Ensures.bind (skipBytes_chars isBlank_ascii isBlank_readsChars ht) fun j hskip => ?_
    obtain ⟨hj, hrest⟩ := hskip
    rw [sliceFrom_rest hrest, pure_bind]
    split
    · rename_i hstart
      obtain ⟨x, hx⟩ := startsWith_iff.mp hstart
      have hdrop := thins_dropWhile (fun _ => blankChar_isWhitespace) t
      rw [hx] at hrest hdrop
      have hend : Rest html (j + byteLen br) x := hrest.append
      have hbound := hend.le
      have hlen := byteLen_pos isTag_br.ne_nil
      have hdec : byteLen html - (j + byteLen br) < byteLen html - i := by omega
      have hbreak := hsame.thin hdrop
      refine Ensures.pure ⟨?_, hdec⟩
      show Halfway html (if run + 1 ≤ 2 then out ++ br else out) (j + byteLen br)
      split
      · exact halfway_keep hrest hbreak
      · exact halfway_drop hend (thins_tag isTag_br x) hbreak
    · exact charAt_keeps ht hlt hsame fun c => ⟨_, rfl, rfl, rfl⟩
  · rw [if_neg hlt]
    exact Ensures.pure (hhalf.finish hlt)

theorem dropTrailingBreaks_same {html : Str} (hshaped : Shaped html) :
    (dropTrailingBreaks html).Ensures (SameText html) := by
  rw [dropTrailingBreaks]
  refine Ensures.loop (SameText html) byteLen (SameText.refl hshaped) ?_
  intro out hsame
  split
  · rename_i hbr
    have hlen : byteLen br = 4 := by decide
    obtain ⟨p, rfl, hend⟩ := endsWith_rest hbr
    obtain ⟨q, hq, hslice⟩ := sliceTo_rest hend
    obtain rfl : p = q := List.append_cancel_right hq
    have hthin := hsame.thin (v := []) (by
      have hdrop := thins_tag isTag_br []
      rwa [List.append_nil] at hdrop)
    rw [List.append_nil] at hthin
    have hshort : byteLen p < byteLen (p ++ br) := by
      rw [byteLen_append]
      omega
    rw [usizeSub_of_le
      (by rw [byteLen_append]; omega), truncate, if_pos (by omega), hslice, pure_bind]
    exact Ensures.pure ⟨hthin, hshort⟩
  · exact Ensures.pure hsame

theorem sameText_trim {html : Str} (hshaped : Shaped html) : SameText html (Str.trim html) := by
  have hstart : SameText html (trimStart html) :=
    SameText.thin (x := []) (SameText.refl hshaped) (thins_dropWhile (fun _ h => h) html)
  obtain ⟨w, hw, hblank⟩ := trimEnd_append (trimStart html)
  have hnil : w.dropWhile isWhitespace = [] := List.dropWhile_eq_nil_iff.mpr hblank
  have hthin := thins_dropWhile (fun _ h => h) w
  rw [hnil] at hthin
  rw [hw] at hstart
  have htrim := hstart.thin hthin
  rwa [List.append_nil] at htrim

theorem dropLeadingBreaks_same {html : Str} (hshaped : Shaped html) :
    (dropLeadingBreaks html).Ensures (SameText html) := by
  rw [dropLeadingBreaks]
  refine Ensures.loop (SameText html) byteLen (SameText.refl hshaped) ?_
  intro out hsame
  split
  · rename_i hbr
    have hlen : byteLen br = 4 := by decide
    obtain ⟨u, rfl⟩ := startsWith_iff.mp hbr
    rw [sliceFrom_rest (Rest.after br u), pure_bind]
    have hle := byteLen_trimStart_le u
    have hthin : SameText html (trimStart u) := SameText.thin (x := []) hsame
      ((thins_tag isTag_br u).trans (thins_dropWhile (fun _ h => h) u))
    refine Ensures.pure ⟨hthin, ?_⟩
    rw [byteLen_append]
    omega
  · exact Ensures.pure hsame

theorem collapseBreaks_same {html : Str} (hshaped : Shaped html) :
    (collapseBreaks html).Ensures (SameText html) := by
  refine Ensures.bind (foldBreaks_same hshaped) fun folded hfolded => ?_
  refine Ensures.bind (dropTrailingBreaks_same hfolded.1) fun ended hended => ?_
  have htrim := sameText_trim hended.1
  exact (dropLeadingBreaks_same htrim.1).mono fun r hr =>
    hfolded.trans (hended.trans (htrim.trans hr))

/-! ### The passes together -/

theorem sanitizeForMatrix_cleanUp (lib : Renderers) (html : Str) (mode : RenderMode) :
    sanitizeForMatrix lib html mode = (do
      let pre ← stripReplyBlockquotes html
      let pre ← placeholdersFor mode pre
      let pre ← separateTableBlocks pre mode
      cleanUp (stripInvisibles (lib.clean (mode == .links) pre))) := rfl

/-- The passes leave the visible text of a well-shaped body as it is. -/
theorem cleanUp_same_text {html : Str} (hshaped : Shaped html) :
    (cleanUp html).Ensures (SameText html) := by
  refine Ensures.bind (unwrapLiParagraphs_same hshaped) fun unwrapped hunwrap => ?_
  refine Ensures.bind (pruneBrOnlyLinks_same hunwrap.1) fun linked hlink => ?_
  refine Ensures.bind (pruneRounds_same 32 hlink.1) fun pruned hprune => ?_
  refine Ensures.bind (collapseBlankRuns_same hprune.1) fun collapsed hcollapse => ?_
  refine Ensures.bind (stripBlockAdjacentBreaks_same hcollapse.1) fun stripped hstrip => ?_
  refine (collapseBreaks_same hstrip.1).mono fun r hr => ?_
  exact hunwrap.trans (hlink.trans (hprune.trans (hcollapse.trans (hstrip.trans hr))))

theorem cleanUp_same_text_entities :
    (cleanUp "<p>a&nbsp;&amp;<br>b</p>".toList).Ensures
      (SameText "<p>a&nbsp;&amp;<br>b</p>".toList) := by
  refine cleanUp_same_text ⟨["<p>".toList, "a".toList, "&nbsp;".toList, "&amp;".toList,
    "<br>".toList,
    "b".toList, "</p>".toList], by decide, ?_⟩
  have hp : Atom "<p>".toList := .tag ['p'] (by decide) (by decide)
  have ha : Atom "a".toList := .chr 'a' (by decide) (by decide)
  have hnbsp : Atom "&nbsp;".toList := .entity "nbsp".toList (forall_mem_of_all (by decide))
  have hamp : Atom "&amp;".toList := .entity "amp".toList (forall_mem_of_all (by decide))
  have hbr : Atom "<br>".toList := .tag ['b', 'r'] (by decide) (by decide)
  have hb : Atom "b".toList := .chr 'b' (by decide) (by decide)
  have hend : Atom "</p>".toList := .tag ['/', 'p'] (by decide) (by decide)
  exact ((((((Atoms.nil.cons hend).cons hb).cons hbr).cons hamp).cons hnbsp).cons ha).cons hp

end JmapBridge.Content
