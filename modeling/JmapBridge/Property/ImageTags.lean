import JmapBridge.Property.TagAttr
import JmapBridge.Property.Tags
import Mathlib.Data.List.Forall2

/-! The image passes of a body, against the body cut at its `<img` tags. Each pass walks
the same pieces: the text between the tags it copies, and only a tag may change. -/

namespace JmapBridge.Content

open Rust Rust.Str Rust.Scan

def imgName : Str := "<img".toList

/-- `g` goes to the first `>` of `g ++ u`, or to its end where there is none. -/
def Through (g u : Str) : Prop := (∃ w, g = w ++ ['>'] ∧ '>' ∉ w) ∨ ('>' ∉ g ∧ u = [])

/-- `html` cut at its `<img` tags: each tag with the text before it, and the text after
the last. -/
inductive Cut : Str → List (Str × Str) → Str → Prop where
  | last {t : Str} (free : Free imgName t []) : Cut t [] t
  | img {p g u t : Str} {gs : List (Str × Str)} (free : Free imgName p (g ++ u))
      (starts : startsFolded imgName (g ++ u) = true) (through : Through g u) (rest : Cut u gs t) :
      Cut (p ++ (g ++ u)) ((p, g) :: gs) t

/-- The pieces and the last text put together. -/
def assembled (gs : List (Str × Str)) (t : Str) : Str := (gs.flatMap fun x => x.1 ++ x.2) ++ t

@[simp] theorem assembled_nil (t : Str) : assembled [] t = t := rfl

theorem assembled_cons (p g : Str) (gs : List (Str × Str)) (t : Str) :
    assembled ((p, g) :: gs) t = p ++ (g ++ assembled gs t) := by
  simp [assembled]

theorem Cut.assembled_eq {html t : Str} {gs : List (Str × Str)} (h : Cut html gs t) :
    assembled gs t = html := by
  induction h with
  | last _ => rfl
  | img _ _ _ _ ih => rw [assembled_cons, ih]

/-! ### One way to cut -/

theorem eq_of_free {name p u p' u' : Str} (h : p ++ u = p' ++ u') (hfree : Free name p u)
    (hfree' : Free name p' u') (hu : startsFolded name u = true)
    (hu' : startsFolded name u' = true) :
    p = p' ∧ u = u' := by
  rcases List.append_eq_append_iff.mp h with ⟨a, rfl, rfl⟩ | ⟨a, rfl, rfl⟩
  · cases a with
    | nil => exact ⟨(List.append_nil p).symm, rfl⟩
    | cons c a =>
      have hnot := hfree' p (c :: a) rfl (by simp)
      rw [hu] at hnot
      cases hnot
  · cases a with
    | nil => exact ⟨List.append_nil p', rfl⟩
    | cons c a =>
      have hnot := hfree p' (c :: a) rfl (by simp)
      rw [hu'] at hnot
      cases hnot

theorem eq_nil_of_through {g a u : Str} (hg : Through g (a ++ u)) (hga : Through (g ++ a) u) :
    a = [] := by
  rcases hg with ⟨w, rfl, -⟩ | ⟨-, hnil⟩
  · rcases hga with ⟨w', hw', hno⟩ | ⟨hno, -⟩
    · rcases List.eq_nil_or_concat a with rfl | ⟨a, c, rfl⟩
      · rfl
      · rw [List.concat_eq_append, ← List.append_assoc] at hw'
        obtain ⟨rfl, -⟩ := List.append_inj' hw' rfl
        exact absurd (by simp) hno
    · exact absurd (by simp) hno
  · exact (List.append_eq_nil_iff.mp hnil).1

theorem eq_of_through {g u g' u' : Str} (h : g ++ u = g' ++ u') (hg : Through g u)
    (hg' : Through g' u') : g = g' ∧ u = u' := by
  rcases List.append_eq_append_iff.mp h with ⟨a, rfl, rfl⟩ | ⟨a, rfl, rfl⟩
  · obtain rfl := eq_nil_of_through hg hg'
    exact ⟨(List.append_nil g).symm, rfl⟩
  · obtain rfl := eq_nil_of_through hg' hg
    exact ⟨List.append_nil g', rfl⟩

theorem Free.not_starts {name p u : Str} (h : Free name (p ++ u) []) (hne : name ≠ []) :
    startsFolded name u = false := by
  cases u with
  | nil =>
    obtain ⟨c, name, rfl⟩ := List.exists_cons_of_ne_nil hne
    rfl
  | cons c u =>
    have hfree := h p (c :: u) rfl (by simp)
    rwa [List.append_nil] at hfree

theorem Cut.unique {html t t' : Str} {gs gs' : List (Str × Str)} (h : Cut html gs t)
    (h' : Cut html gs' t') : gs = gs' ∧ t = t' := by
  induction h generalizing gs' t' with
  | last hfree =>
    cases h' with
    | last _ => exact ⟨rfl, rfl⟩
    | @img p g u _ _ _ hstarts _ _ =>
      rw [hfree.not_starts (by decide)] at hstarts
      cases hstarts
  | @img p g u t gs hfree hstarts hthrough _ ih =>
    generalize hhtml : p ++ (g ++ u) = html at h'
    cases h' with
    | last hfree' =>
      rw [← hhtml] at hfree'
      rw [hfree'.not_starts (by decide)] at hstarts
      cases hstarts
    | @img p' g' u' _ gs' hfree' hstarts' hthrough' hrest' =>
      obtain ⟨rfl, hgu⟩ := eq_of_free hhtml hfree hfree' hstarts hstarts'
      obtain ⟨rfl, rfl⟩ := eq_of_through hgu hthrough hthrough'
      obtain ⟨rfl, rfl⟩ := ih hrest'
      exact ⟨rfl, rfl⟩

theorem Through.ne_nil {g u : Str} (h : Through g u) (hne : g ++ u ≠ []) : g ≠ [] := by
  rcases h with ⟨w, rfl, -⟩ | ⟨-, rfl⟩
  · simp
  · rwa [List.append_nil] at hne

theorem ne_nil_of_starts {s : Str} (h : startsFolded imgName s = true) : s ≠ [] := by
  rintro rfl
  cases h

theorem exists_through (v : Str) : ∃ g u, v = g ++ u ∧ Through g u := by
  by_cases hmem : '>' ∈ v
  · obtain ⟨w, u, rfl, hw⟩ := List.eq_append_cons_of_mem hmem
    exact ⟨w ++ ['>'], u, by simp, Or.inl ⟨w, rfl, hw⟩⟩
  · exact ⟨v, [], (List.append_nil v).symm, Or.inr ⟨hmem, rfl⟩⟩

theorem free_or_starts (name s : Str) :
    Free name s [] ∨ ∃ p u, s = p ++ u ∧ Free name p u ∧ startsFolded name u = true ∧ u ≠ [] := by
  induction s with
  | nil => exact Or.inl fun a b hab hb => absurd (List.append_eq_nil_iff.mp hab.symm).2 hb
  | cons c s ih =>
    by_cases hstart : startsFolded name (c :: s) = true
    · exact Or.inr ⟨[], c :: s, rfl,
        fun a b hab hb => absurd (List.append_eq_nil_iff.mp hab.symm).2 hb, hstart, by simp⟩
    · have hno : startsFolded name (c :: s) = false := by simpa using hstart
      have hcons : ∀ {p u : Str}, s = p ++ u → Free name p u → Free name (c :: p) u := by
        rintro p u rfl hfree a b hab hb
        cases a with
        | nil =>
          obtain rfl : b = c :: p := hab.symm
          exact hno
        | cons d a => exact hfree a b (List.cons.inj hab).2 hb
      rcases ih with hfree | ⟨p, u, rfl, hfree, hu, hne⟩
      · exact Or.inl (hcons (List.append_nil s).symm hfree)
      · exact Or.inr ⟨c :: p, u, rfl, hcons rfl hfree, hu, hne⟩

theorem exists_cut (html : Str) : ∃ gs t, Cut html gs t := by
  induction hn : html.length using Nat.strong_induction_on generalizing html with
  | _ n ih =>
    rcases free_or_starts imgName html with hfree | ⟨p, v, rfl, hfree, hv, hne⟩
    · exact ⟨[], html, .last hfree⟩
    · obtain ⟨g, u, rfl, hthrough⟩ := exists_through v
      have hg := List.length_pos_iff.mpr (hthrough.ne_nil hne)
      obtain ⟨gs, t, hcut⟩ := ih u.length (by simp only [List.length_append] at hn; omega) u rfl
      exact ⟨(p, g) :: gs, t, .img hfree hv hthrough hcut⟩

/-! ### The next tag -/

theorem imgName_ascii : ∀ c ∈ imgName, IsAscii c := forall_mem_of_all (by decide)

theorem tagEnd_through {html g u : Str} {i : Nat} (hthrough : Through g u)
    (hi : Rest html i (g ++ u)) : tagEnd html i = pure (i + byteLen g) := by
  rcases hthrough with ⟨w, rfl, hw⟩ | ⟨hno, rfl⟩
  · have hfind : find (· == '>') (w ++ ['>'] ++ u) = some (byteLen w) := by
      rw [List.append_assoc, List.singleton_append, find_close hw]
    rw [tagEnd, sliceFrom_rest hi, pure_bind, hfind, byteLen_append]
    rfl
  · have hlen := hi.byteLen_eq
    have hfind : find (· == '>') (g ++ []) = none := by
      rw [List.append_nil]
      exact find_of_not_mem hno
    rw [tagEnd, sliceFrom_rest hi, pure_bind, hfind, hlen, List.append_nil]
    rfl

/-- The place of the first tag of a cut that begins at `i`, and the tag. -/
def firstTag (i : Nat) : List (Str × Str) → Option (Nat × Nat × Str)
  | [] => none
  | (p, g) :: _ => some (i + byteLen p, i + byteLen p + byteLen g, g)

theorem nextImg_cut {html s t : Str} {i : Nat} {gs : List (Str × Str)} (hs : Rest html i s)
    (hcut : Cut s gs t) : (nextImg html i).Ensures fun r => r = firstTag i gs := by
  have hle := hs.le
  rw [nextImg, sliceList_of_le _ (by rwa [length_bytes]) le_rfl, pure_bind, List.take_length,
    hs.drop_bytes]
  have hfind := findCi_rest imgName_ascii (by decide) (Rest.start s)
  refine Ensures.bind hfind fun rel hrel => ?_
  cases hcut with
  | last hfree =>
    rcases hrel with ⟨rfl, -⟩ | ⟨p, u, rfl, -, -, hu⟩
    · exact Ensures.pure rfl
    · rw [hfree.not_starts (by decide)] at hu
      cases hu
  | @img p g v _ gs hfree hstarts hthrough _ =>
    rcases hrel with ⟨-, hnone⟩ | ⟨p', u, heq, rfl, hfree', hu⟩
    · rw [hnone.not_starts (by decide)] at hstarts
      cases hstarts
    · obtain ⟨rfl, rfl⟩ := eq_of_free heq hfree hfree' hstarts hu
      have htag : Rest html (i + byteLen p) (g ++ v) := hs.append
      rw [Nat.zero_add]
      dsimp only
      rw [tagEnd_through hthrough htag, pure_bind, slice_rest htag rfl, pure_bind]
      exact Ensures.pure rfl

/-! ### The source of a tag -/

theorem firstHit_isSuffix {name y : Str} {b : Bool} {s : Str} (h : firstHit name b s = some y) :
    y <:+ s := by
  induction s generalizing b with
  | nil => cases h
  | cons c s ih =>
    rw [firstHit] at h
    split at h
    · obtain rfl := Option.some.inj h
      exact List.suffix_rfl
    · exact (ih h).trans (List.suffix_cons c s)

theorem readValue_text (y : Str) : (readValue y).1 <+: (readValue y).2 ∧ (readValue y).2 <:+ y := by
  cases y with
  | nil => exact ⟨List.prefix_rfl, List.suffix_rfl⟩
  | cons c z =>
    rw [readValue]
    split
    · exact ⟨List.takeWhile_prefix _, List.suffix_cons c z⟩
    · split
      · exact ⟨List.takeWhile_prefix _, List.suffix_cons c z⟩
      · exact ⟨List.takeWhile_prefix _, List.suffix_rfl⟩

/-- `tag` has `src` as its source: `src` stands between `head` and `tail`, where `tag_attr`
finds it. -/
def Sourced (tag head src tail : Str) : Prop :=
  tag = head ++ (src ++ tail) ∧
    (tagAttr tag "src").Yields (some (src, byteLen head, byteLen head + byteLen src))

theorem tagAttr_sourced (tag : Str) :
    (tagAttr tag "src").Yields none ∨ ∃ head src tail, Sourced tag head src tail := by
  have hsrc : (tagAttr tag "src").Ensures fun r =>
      r = (firstHit "src".toList true tag).map (hitValue tag "src".toList) :=
    tagAttr_firstHit (by decide) (forall_mem_of_all (by decide)) (forall_mem_of_all (by decide)) tag
  obtain ⟨r, hr, heq⟩ := hsrc
  cases hhit : firstHit "src".toList true tag with
  | none =>
    rw [hhit, Option.map_none] at heq
    exact Or.inl (heq ▸ hr)
  | some y =>
    rw [hhit, Option.map_some] at heq
    obtain ⟨⟨tail, htail⟩, hsuffix⟩ := readValue_text (valueText "src".toList y)
    have hvalue : valueText "src".toList y <:+ y :=
      (((List.dropWhile_suffix _).trans (List.drop_suffix _ _)).trans
        (List.dropWhile_suffix _)).trans
        (List.drop_suffix _ _)
    obtain ⟨head, hhead⟩ := (hsuffix.trans hvalue).trans (firstHit_isSuffix hhit)
    refine Or.inr ⟨head, (readValue (valueText "src".toList y)).1, tail, ?_, ?_⟩
    · rw [htail, hhead]
    · have hlen :
          byteLen tag - byteLen (readValue (valueText "src".toList y)).2 = byteLen head := by
        rw [← hhead, byteLen_append, Nat.add_sub_cancel]
      rw [heq, hitValue, hlen] at hr
      exact hr

/-! ### The passes -/

/-- What `render_inline_images` makes of a tag. -/
inductive Rewritten (urlToMxc : Str → Option Str) (tag : Str) : Str → Prop where
  | mapped {head src tail mxc : Str} (sourced : Sourced tag head src tail)
      (known : urlToMxc src = some mxc) : Rewritten urlToMxc tag (head ++ (mxc ++ tail))
  | kept (unknown : ∀ head src tail, Sourced tag head src tail → urlToMxc src = none) :
      Rewritten urlToMxc tag tag

/-- `out` is the pieces with each tag replaced by one that `R` relates it to. -/
def Replaced (R : Str → Str → Prop) (gs : List (Str × Str)) (t out : Str) : Prop :=
  ∃ hs, List.Forall₂ R (gs.map (·.2)) hs ∧ out = assembled ((gs.map (·.1)).zip hs) t

theorem assembled_append (gs hs : List (Str × Str)) (t : Str) :
    assembled (gs ++ hs) t = assembled gs [] ++ assembled hs t := by
  simp [assembled]

theorem Replaced.nil (R : Str → Str → Prop) : Replaced R [] [] [] := ⟨[], .nil, rfl⟩

theorem Replaced.snoc {R : Str → Str → Prop} {gs : List (Str × Str)} {out p g h : Str}
    (hout : Replaced R gs [] out) (hg : R g h) :
      Replaced R (gs ++ [(p, g)]) [] (out ++ (p ++ h)) := by
  obtain ⟨hs, hforall, rfl⟩ := hout
  have hlen : (gs.map (·.1)).length = hs.length := by
    have hlen := hforall.length_eq
    rwa [List.length_map] at hlen ⊢
  refine ⟨hs ++ [h], ?_, ?_⟩
  · rw [List.map_append]
    exact List.rel_append hforall (.cons hg .nil)
  · rw [List.map_append, List.zip_append hlen, assembled_append]
    simp [assembled]

theorem Replaced.finish {R : Str → Str → Prop} {gs : List (Str × Str)} {out : Str}
    (hout : Replaced R gs [] out) (t : Str) : Replaced R gs t (out ++ t) := by
  obtain ⟨hs, hforall, rfl⟩ := hout
  exact ⟨hs, hforall, by simp [assembled]⟩

/-- A scanner stands at `i`, past the tags `done` of the cut. -/
def Past (html : Str) (gs : List (Str × Str)) (t : Str) (i : Nat)
    (done : List (Str × Str)) : Prop :=
  ∃ rest s, gs = done ++ rest ∧ Rest html i s ∧ Cut s rest t

theorem Past.start {html t : Str} {gs : List (Str × Str)} (hcut : Cut html gs t) :
    Past html gs t 0 [] := ⟨gs, html, rfl, Rest.start html, hcut⟩

theorem nextImg_past {html t : Str} {gs done : List (Str × Str)} {i : Nat}
    (hpast : Past html gs t i done) :
    (nextImg html i).Ensures fun r =>
      (r = none ∧ gs = done ∧ Rest html i t) ∨
      ∃ p g v, r = some (i + byteLen p, i + byteLen p + byteLen g, g) ∧ (p, g) ∈ gs ∧
        Rest html i (p ++ (g ++ v)) ∧
        Past html gs t (i + byteLen p + byteLen g) (done ++ [(p, g)]) ∧
        byteLen html - (i + byteLen p + byteLen g) < byteLen html - i := by
  obtain ⟨rest, s, rfl, hs, hcut⟩ := hpast
  refine (nextImg_cut hs hcut).mono fun r hr => ?_
  cases hcut with
  | last _ => exact Or.inl ⟨hr, List.append_nil done, hs⟩
  | @img p g v _ gs _ hstarts hthrough hrest =>
    have hpos : 0 < byteLen g := by
      obtain ⟨c, w, rfl⟩ := List.exists_cons_of_ne_nil (hthrough.ne_nil (ne_nil_of_starts hstarts))
      have hsize := c.utf8Size_pos
      rw [byteLen_cons]
      omega
    have hnext : Rest html (i + byteLen p + byteLen g) v := hs.append.append
    have hle := hnext.le
    exact Or.inr ⟨p, g, v, hr, by simp, hs, ⟨gs, v, by simp, hnext, hrest⟩, by omega⟩

/-- What a writing pass has done by the time it stands at `st.2`. -/
def Writing (R : Str → Str → Prop) (html : Str) (gs : List (Str × Str)) (t : Str) (out : Str)
    (i : Nat) :
    Prop := ∃ done, Past html gs t i done ∧ Replaced R done [] out

theorem markRemoteImages_replaced {html t : Str} {gs : List (Str × Str)} (hcut : Cut html gs t) :
    (markRemoteImages html).Ensures fun m =>
      Replaced (fun _ mark => mark = [] ∨ mark = imageMarker) gs t m.out := by
  rw [markRemoteImages]
  refine Ensures.bind (chromeImageOffsets_returns html) fun chrome _ => ?_
  refine Ensures.loop
    (fun st : Marked × Nat => Writing (fun _ mark => mark = [] ∨ mark = imageMarker) html gs t
      st.1.out st.2)
    (fun st => byteLen html - st.2) ⟨[], Past.start hcut, Replaced.nil _⟩ ?_
  rintro ⟨m, i⟩ ⟨done, hpast, hout⟩
  dsimp only
  refine Ensures.bind (nextImg_past hpast) fun r hr => ?_
  rcases hr with ⟨rfl, rfl, hend⟩ | ⟨p, g, v, rfl, -, htext, hnext, hdec⟩
  · dsimp only
    rw [sliceFrom_rest hend, pure_bind]
    exact Ensures.pure (hout.finish t)
  · dsimp only
    rw [slice_rest htext rfl, pure_bind]
    refine Ensures.bind (tagAttr_returns g (by decide)) fun found _ => ?_
    refine Ensures.bind (earnsMarker_returns chrome _ _ g) fun marked _ => ?_
    split
    · refine Ensures.pure ⟨⟨done ++ [(p, g)], hnext, ?_⟩, hdec⟩
      have hsnoc := hout.snoc (p := p) (g := g) (h := imageMarker) (Or.inr rfl)
      rwa [← List.append_assoc] at hsnoc
    · refine Ensures.pure ⟨⟨done ++ [(p, g)], hnext, ?_⟩, hdec⟩
      have hsnoc := hout.snoc (p := p) (g := g) (h := []) (Or.inl rfl)
      rwa [List.append_nil] at hsnoc

theorem rewriteImages_replaced {html t : Str} {gs : List (Str × Str)} (hcut : Cut html gs t)
    (urlToMxc : Str → Option Str) :
    (rewriteImages html urlToMxc).Ensures (Replaced (Rewritten urlToMxc) gs t) := by
  rw [rewriteImages]
  refine Ensures.loop
    (fun st : Str × Nat => Writing (Rewritten urlToMxc) html gs t st.1 st.2)
    (fun st => byteLen html - st.2) ⟨[], Past.start hcut, Replaced.nil _⟩ ?_
  rintro ⟨out, i⟩ ⟨done, hpast, hout⟩
  dsimp only
  refine Ensures.bind (nextImg_past hpast) fun r hr => ?_
  rcases hr with ⟨rfl, rfl, hend⟩ | ⟨p, g, v, rfl, -, htext, hnext, hdec⟩
  · dsimp only
    rw [sliceFrom_rest hend, pure_bind]
    exact Ensures.pure (hout.finish t)
  · dsimp only
    rw [slice_rest htext rfl, pure_bind]
    have hkept : (∀ head src tail, Sourced g head src tail → urlToMxc src = none) →
        Writing (Rewritten urlToMxc) html gs t (out ++ p ++ g) (i + byteLen p + byteLen g) := by
      intro hunknown
      refine ⟨done ++ [(p, g)], hnext, ?_⟩
      rw [List.append_assoc]
      exact hout.snoc (.kept hunknown)
    rcases tagAttr_sourced g with hnone | ⟨head, src, tail, htag, hfound⟩
    · refine Ensures.bind (hnone.ensures (Q := fun found => found = none) rfl) fun found hf => ?_
      subst hf
      refine Ensures.pure ⟨hkept fun head src tail h => ?_, hdec⟩
      cases hnone.unique h.2
    · refine Ensures.bind (hfound.ensures (Q := fun found => found = _) rfl) fun found hf => ?_
      subst hf
      dsimp only [Option.bind_some]
      cases hknown : urlToMxc src with
      | none =>
        refine Ensures.pure ⟨hkept fun head' src' tail' h => ?_, hdec⟩
        obtain rfl : src = src' := congrArg Prod.fst (Option.some.inj (hfound.unique h.2))
        exact hknown
      | some mxc =>
        have hhead : Rest g (byteLen head) (src ++ tail) := ⟨head, htag, rfl⟩
        obtain ⟨head', htag', hslice⟩ := sliceTo_rest hhead
        obtain rfl : head = head' := List.append_cancel_right (htag.symm.trans htag')
        dsimp only [Option.map_some]
        rw [hslice, pure_bind, sliceFrom_rest hhead.append, pure_bind]
        refine Ensures.pure ⟨⟨done ++ [(p, g)], hnext, ?_⟩, hdec⟩
        have hsnoc := hout.snoc (p := p) (Rewritten.mapped ⟨htag, hfound⟩ hknown)
        simpa only [List.append_assoc] using hsnoc

theorem extractRemoteImages_sourced {html t : Str} {gs : List (Str × Str)} (hcut : Cut html gs t) :
    (extractRemoteImages html).Ensures fun out =>
      ∀ r ∈ out, ∃ x ∈ gs, ∃ head tail, Sourced x.2 head r.url tail := by
  rw [extractRemoteImages]
  refine Ensures.bind (chromeImageOffsets_returns html) fun chrome _ => ?_
  refine Ensures.loop
    (fun st : List RemoteImg × Nat => (∃ done, Past html gs t st.2 done) ∧
      ∀ r ∈ st.1, ∃ x ∈ gs, ∃ head tail, Sourced x.2 head r.url tail)
    (fun st => byteLen html - st.2) ⟨⟨[], Past.start hcut⟩, List.forall_mem_nil _⟩ ?_
  rintro ⟨out, i⟩ ⟨⟨done, hpast⟩, hout⟩
  dsimp only
  refine Ensures.bind (nextImg_past hpast) fun r hr => ?_
  rcases hr with ⟨rfl, -, -⟩ | ⟨p, g, v, rfl, hmem, -, hnext, hdec⟩
  · exact Ensures.pure hout
  · have hagain : ∃ done, Past html gs t (i + byteLen p + byteLen g) done := ⟨_, hnext⟩
    dsimp only
    rcases tagAttr_sourced g with hnone | ⟨head, src, tail, hsourced⟩
    · refine Ensures.bind (hnone.ensures (Q := fun found => found = none) rfl) fun found hf => ?_
      subst hf
      exact Ensures.pure ⟨⟨hagain, hout⟩, hdec⟩
    · refine Ensures.bind (hsourced.2.ensures (Q := fun found => found = _) rfl) fun found hf => ?_
      subst hf
      dsimp only
      split
      · refine Ensures.bind (isDecorativeImg_returns g) fun decorative _ => ?_
        refine Ensures.pure ⟨⟨hagain, fun r hr => ?_⟩, hdec⟩
        rcases List.mem_append.mp hr with hr | hr
        · exact hout r hr
        · obtain rfl := List.mem_singleton.mp hr
          exact ⟨(p, g), hmem, head, tail, hsourced⟩
      · exact Ensures.pure ⟨⟨hagain, hout⟩, hdec⟩

/-- The image passes change nothing but the image tags: `html` is cut in one way, the
placeholders stand in place of the tags, the tags of known sources are rewritten where the
source stands before the whole is sanitised, and what is listed can be found again. -/
theorem image_passes_keep_text (html : Str) : ∃ gs t, Cut html gs t ∧
    (∀ gs' t', Cut html gs' t' → gs' = gs ∧ t' = t) ∧ assembled gs t = html ∧
    (placeholderRemoteImages html).Ensures
      (Replaced (fun _ mark => mark = [] ∨ mark = imageMarker) gs t) ∧
    (∀ urlToMxc, (rewriteImages html urlToMxc).Ensures (Replaced (Rewritten urlToMxc) gs t) ∧
      ∀ lib, renderInlineImages lib html urlToMxc =
        rewriteImages html urlToMxc >>= fun out => sanitizeForMatrix lib out .rich) ∧
    (extractRemoteImages html).Ensures fun out =>
      ∀ r ∈ out, ∃ x ∈ gs, ∃ head tail, Sourced x.2 head r.url tail := by
  obtain ⟨gs, t, hcut⟩ := exists_cut html
  have hplaceholders : (placeholderRemoteImages html).Ensures
      (Replaced (fun _ mark => mark = [] ∨ mark = imageMarker) gs t) :=
    Ensures.bind (markRemoteImages_replaced hcut) fun m hm => Ensures.pure hm
  have hrewritten : ∀ urlToMxc, (rewriteImages html urlToMxc).Ensures
      (Replaced (Rewritten urlToMxc) gs t) := rewriteImages_replaced hcut
  exact ⟨gs, t, hcut, fun gs' t' hcut' => hcut'.unique hcut, hcut.assembled_eq, hplaceholders,
    fun urlToMxc => ⟨hrewritten urlToMxc, fun lib => rfl⟩, extractRemoteImages_sourced hcut⟩

end JmapBridge.Content
