import JmapBridge.Property.PruneDepth
import JmapBridge.Rust.Trim

/-! The text of a sanitised body that can be seen, and what may be taken out of a body
without changing it: tags and blank text. -/

namespace JmapBridge.Content

open Rust Rust.Str Rust.Scan

/-- A character of an entity, between its `&` and its `;`. -/
def entityChar (c : Char) : Bool := c.isAlphanum || c == '#'

/-- A tag with no bracket inside, a complete entity, or a character of the text. -/
inductive Atom : Str → Prop where
  | tag (w : Str) (opens : '<' ∉ w) (closes : '>' ∉ w) : Atom ('<' :: (w ++ ['>']))
  | entity (w : Str) (valid : ∀ c ∈ w, entityChar c = true) : Atom ('&' :: (w ++ [';']))
  | chr (c : Char) (noTag : c ≠ '<') (noEntity : c ≠ '&') : Atom [c]

/-- The shape of the sanitiser's output. That tags are balanced is not asked for. -/
def Shaped (s : Str) : Prop := ∃ l : List Str, s = l.flatten ∧ ∀ u ∈ l, Atom u

/-- The characters outside tags that are not blank, the first `k` characters of the text
belonging to a tag or a blank unit. -/
def visible : Nat → Str → Str
  | _, [] => []
  | k + 1, _ :: s => visible k s
  | 0, c :: s =>
    match tagLen (c :: s), blankLen (c :: s) with
    | some n, _ => visible (n - 1) s
    | none, some n => visible (n - 1) s
    | none, none => c :: visible 0 s

/-- What is read as one blank: whitespace, or one of the entities of a space. -/
inductive BlankUnit : Str → Prop where
  | space (c : Char) (h : isWhitespace c = true) : BlankUnit [c]
  | entity (e : String) (h : e ∈ blankEntities) : BlankUnit e.toList

/-! ### Reading the visible text -/

theorem visible_skip (w t : Str) : visible w.length (w ++ t) = visible 0 t := by
  induction w with
  | nil => rfl
  | cons c w ih => exact ih

theorem visible_tag {t : Str} (ht : IsTag t) (u : Str) : visible 0 (t ++ u) = visible 0 u := by
  have hlen := tagLen_tag ht u
  obtain ⟨w, rfl, -⟩ := ht
  rw [List.cons_append] at hlen ⊢
  rw [visible, hlen]
  exact visible_skip (w ++ ['>']) u

theorem visible_chr {c : Char} {s : Str} (htag : tagLen (c :: s) = none)
    (hblank : blankLen (c :: s) = none) : visible 0 (c :: s) = c :: visible 0 s := by
  rw [visible, htag, hblank]

theorem blankEntities_head {e : String} (he : e ∈ blankEntities) :
    ∃ w, e.toList = '&' :: (w ++ [';']) ∧ ∀ c ∈ w, entityChar c = true := by
  have hall : ∀ e ∈ blankEntities, e.toList = '&' :: (e.toList.tail.dropLast ++ [';']) ∧
      (e.toList.tail.dropLast.all entityChar) = true := by decide
  obtain ⟨htext, hvalid⟩ := hall e he
  exact ⟨_, htext, fun c hc => List.all_eq_true.mp hvalid c hc⟩

theorem blankLen_space {c : Char} (hc : isWhitespace c = true) (s : Str) :
    blankLen (c :: s) = some 1 := by
  rw [blankLen_cons, if_pos hc]

theorem blankLen_entity {e : String} (he : e ∈ blankEntities) (s : Str) :
    blankLen (e.toList ++ s) = some e.toList.length := by
  obtain ⟨w, hw, -⟩ := blankEntities_head he
  have hfind := find_entity he s
  rw [hw, List.cons_append] at hfind ⊢
  rw [blankLen_cons, if_neg (by decide), hfind]
  simp [hw]

theorem blankLen_chr {c : Char} (hspace : ¬ isWhitespace c = true) (hc : c ≠ '&') (s : Str) :
    blankLen (c :: s) = none := by
  rw [blankLen_cons, if_neg hspace, Option.map_eq_none_iff, List.find?_eq_none]
  intro e he hstart
  obtain ⟨w, hw, -⟩ := blankEntities_head he
  obtain ⟨v, hv⟩ := startsWith_iff.mp hstart
  rw [hw] at hv
  exact hc (List.cons.inj hv).1

theorem BlankUnit.blankLen {w : Str} (h : BlankUnit w) (s : Str) :
    blankLen (w ++ s) = some w.length := by
  cases h with
  | space c hc => exact blankLen_space hc s
  | entity e he => exact blankLen_entity he s

theorem BlankUnit.ne_nil {w : Str} (h : BlankUnit w) : w ≠ [] := by
  cases h with
  | space c _ => exact List.cons_ne_nil c []
  | entity e he =>
    obtain ⟨w, hw, -⟩ := blankEntities_head he
    rw [hw]
    exact List.cons_ne_nil _ _

theorem entityChar_range {c : Char} (h : entityChar c = true) : 35 ≤ c.toNat ∧ c.toNat ≤ 122 := by
  rw [entityChar, Bool.or_eq_true] at h
  rcases h with halnum | hhash
  · obtain ⟨hge, hle⟩ := alphanum_range halnum
    omega
  · obtain rfl := eq_of_beq hhash
    decide

theorem not_whitespace_of_entityChar {c : Char} (h : entityChar c = true) :
    isWhitespace c = false := by
  obtain ⟨hge, hle⟩ := entityChar_range h
  exact not_isWhitespace_of_range (by omega) (by omega)

theorem BlankUnit.not_mem {w : Str} (h : BlankUnit w) : '<' ∉ w ∧ '>' ∉ w := by
  cases h with
  | space c hc =>
    constructor
    · rintro hmem
      rw [← List.mem_singleton.mp hmem] at hc
      cases hc
    · rintro hmem
      rw [← List.mem_singleton.mp hmem] at hc
      cases hc
  | entity e he =>
    have hall : ∀ e ∈ blankEntities, '<' ∉ e.toList ∧ '>' ∉ e.toList := by decide
    exact hall e he

theorem visible_blank {w : Str} (h : BlankUnit w) (s : Str) : visible 0 (w ++ s) = visible 0 s := by
  have hlen := h.blankLen s
  have hlt := h.not_mem.1
  obtain ⟨c, w, rfl⟩ := List.exists_cons_of_ne_nil h.ne_nil
  have htag : tagLen (c :: (w ++ s)) = none :=
    tagLen_eq_none_iff.mpr fun hc => absurd (hc ▸ List.mem_cons_self) hlt
  rw [List.cons_append] at hlen ⊢
  rw [visible, htag, hlen]
  exact visible_skip w s

theorem blankUnit_of_blankLen {s : Str} {n : Nat} (h : blankLen s = some n) :
    ∃ w t, s = w ++ t ∧ w.length = n ∧ BlankUnit w := by
  cases s with
  | nil =>
    rw [blankLen_nil] at h
    cases h
  | cons c s =>
    rw [blankLen_cons] at h
    split at h
    · rename_i hc
      exact ⟨[c], s, rfl, Option.some.inj h, .space c hc⟩
    · obtain ⟨e, he, rfl⟩ := Option.map_eq_some_iff.mp h
      have hstart := List.find?_some he
      obtain ⟨t, ht⟩ := startsWith_iff.mp hstart
      exact ⟨e.toList, t, ht, rfl, .entity e (List.mem_of_find?_eq_some he)⟩

theorem eq_of_first {e : Char} {x x' z z' : Str} (hx : e ∉ x) (hx' : e ∉ x')
    (h : x ++ e :: z = x' ++ e :: z') : x = x' ∧ z = z' := by
  induction x generalizing x' with
  | nil =>
    cases x' with
    | nil => exact ⟨rfl, (List.cons.inj h).2⟩
    | cons c x' => exact absurd ((List.cons.inj h).1 ▸ List.mem_cons_self) hx'
  | cons c x ih =>
    cases x' with
    | nil => exact absurd ((List.cons.inj h).1 ▸ List.mem_cons_self) hx
    | cons c' x' =>
      obtain ⟨rfl, htail⟩ := List.cons.inj h
      obtain ⟨rfl, rfl⟩ := ih (fun h => hx (List.mem_cons_of_mem c h))
        (fun h => hx' (List.mem_cons_of_mem c h)) htail
      exact ⟨rfl, rfl⟩

/-! ### Atoms -/

theorem Atom.ne_nil {u : Str} (h : Atom u) : u ≠ [] := by
  cases h <;> simp

theorem visible_chars {w : Str} (hlt : '<' ∉ w) (hamp : '&' ∉ w) (s : Str) :
    visible 0 (w ++ s) = visible 0 w ++ visible 0 s := by
  induction w with
  | nil => rfl
  | cons c w ih =>
    have hrest :=
      ih (fun h => hlt (List.mem_cons_of_mem c h)) fun h => hamp (List.mem_cons_of_mem c h)
    by_cases hspace : isWhitespace c = true
    · have hunit : ∀ t, visible 0 (c :: t) = visible 0 t := visible_blank (.space c hspace)
      rw [List.cons_append, hunit, hunit, hrest]
    · have hc : c ≠ '<' := fun h => hlt (h ▸ List.mem_cons_self)
      have hcamp : c ≠ '&' := fun h => hamp (h ▸ List.mem_cons_self)
      have hread : ∀ t, visible 0 (c :: t) = c :: visible 0 t := fun t =>
        visible_chr (tagLen_eq_none_iff.mpr fun h => absurd h hc) (blankLen_chr hspace hcamp t)
      rw [List.cons_append, hread, hread, hrest, List.cons_append]

theorem not_mem_entity {w : Str} (hw : ∀ c ∈ w, entityChar c = true) {d : Char}
    (hd : entityChar d = false) : d ∉ w := fun h => by
  rw [hw d h] at hd
  cases hd

theorem entity_cases {w : Str} (hw : ∀ c ∈ w, entityChar c = true) :
    BlankUnit ('&' :: (w ++ [';'])) ∨ ∀ s, blankLen ('&' :: (w ++ [';']) ++ s) = none := by
  by_cases hmem : ∃ e ∈ blankEntities, e.toList = '&' :: (w ++ [';'])
  · obtain ⟨e, he, htext⟩ := hmem
    exact Or.inl (htext ▸ .entity e he)
  · refine Or.inr fun s => ?_
    rw [List.cons_append, blankLen_cons,
      if_neg (by decide), Option.map_eq_none_iff, List.find?_eq_none]
    intro e he hstart
    obtain ⟨v, hv, hvalid⟩ := blankEntities_head he
    obtain ⟨t, ht⟩ := startsWith_iff.mp hstart
    rw [hv, List.cons_append, List.append_assoc, List.append_assoc, List.cons.injEq] at ht
    have hsemi : entityChar ';' = false := by decide
    have hsame := eq_of_first (not_mem_entity hw hsemi) (not_mem_entity hvalid hsemi) ht.2
    exact hmem ⟨e, he, by rw [hv, hsame.1]⟩

theorem visible_atom {u : Str} (h : Atom u) (s : Str) :
    visible 0 (u ++ s) = visible 0 u ++ visible 0 s := by
  cases h with
  | tag w hopen hclose =>
    have htag : IsTag ('<' :: (w ++ ['>'])) := ⟨w, rfl, hclose⟩
    have hnil := visible_tag htag []
    rw [List.append_nil] at hnil
    rw [visible_tag htag s, hnil]
    rfl
  | entity w hw =>
    have hlt : '<' ∉ w ++ [';'] := by simp [not_mem_entity hw (d := '<') (by decide)]
    have hamp : '&' ∉ w ++ [';'] := by simp [not_mem_entity hw (d := '&') (by decide)]
    rcases entity_cases hw with hblank | hnone
    · have hnil := visible_blank hblank []
      rw [List.append_nil] at hnil
      rw [visible_blank hblank s, hnil]
      rfl
    · have htag : ∀ t, tagLen ('&' :: t) = none := fun t =>
        tagLen_eq_none_iff.mpr fun h => absurd h (by decide)
      have hself := hnone []
      rw [List.append_nil] at hself
      have hread : visible 0 ('&' :: (w ++ [';'] ++ s)) = '&' :: visible 0 (w ++ [';'] ++ s) :=
        visible_chr (htag _) (hnone s)
      rw [List.cons_append, hread, visible_chr (htag _) hself, visible_chars hlt hamp s,
        List.cons_append]
  | chr c hlt hamp =>
    exact visible_chars (by simpa using hlt.symm) (by simpa using hamp.symm) s

theorem visible_atoms {l : List Str} (hl : ∀ u ∈ l, Atom u) (s : Str) :
    visible 0 (l.flatten ++ s) = visible 0 l.flatten ++ visible 0 s := by
  induction l with
  | nil => rfl
  | cons u l ih =>
    have hu := hl u List.mem_cons_self
    have hrest := ih fun v hv => hl v (List.mem_cons_of_mem u hv)
    rw [List.flatten_cons, List.append_assoc, visible_atom hu, hrest, visible_atom hu,
      List.append_assoc]

/-! ### Where a character stands -/

def Atoms (l : List Str) : Prop := ∀ u ∈ l, Atom u

theorem Atoms.nil : Atoms [] := fun _ h => nomatch h

theorem Atoms.append {l m : List Str} (hl : Atoms l) (hm : Atoms m) : Atoms (l ++ m) :=
  fun u hu => (List.mem_append.mp hu).elim (hl u) (hm u)

theorem Atoms.cons {u : Str} {l : List Str} (hl : Atoms l) (hu : Atom u) : Atoms (u :: l) :=
  List.forall_mem_cons.mpr ⟨hu, hl⟩

theorem Shaped.stands {x z : Str} {c : Char} (h : Shaped (x ++ c :: z))
    (hc : entityChar c = false) (hsemi : c ≠ ';') :
    (∃ l u m, Atoms l ∧ Atom u ∧ Atoms m ∧ x = l.flatten ∧ c :: z = u ++ m.flatten) ∨
    ∃ l p q m, Atoms l ∧ Atoms m ∧ '<' ∉ p ++ q ∧ '>' ∉ p ++ q ∧ x = l.flatten ++ '<' :: p ∧
      c :: z = q ++ '>' :: m.flatten := by
  obtain ⟨l, htext, hatoms⟩ := h
  rcases List.append_eq_flatten_iff.mp htext with ⟨l, m, rfl, rfl, hm⟩ | ⟨l, p, d, q, m, rfl,
    rfl, hm⟩
  · obtain ⟨hl, hm'⟩ := List.forall_mem_append.mp hatoms
    cases m with
    | nil => cases hm
    | cons u m =>
      obtain ⟨hu, hm'⟩ := List.forall_mem_cons.mp hm'
      exact Or.inl ⟨l, u, m, hl, hu, hm', rfl, hm⟩
  · obtain ⟨hl, hrest⟩ := List.forall_mem_append.mp hatoms
    obtain ⟨hu, hm'⟩ := List.forall_mem_cons.mp hrest
    obtain ⟨rfl, rfl⟩ := List.cons.inj hm
    cases p with
    | nil => exact Or.inl ⟨l, c :: q, m, hl, hu, hm', List.append_nil _, rfl⟩
    | cons b p =>
      refine Or.inr ?_
      generalize hbody : b :: p ++ c :: q = u at hu
      cases hu with
      | tag w hopen hclose =>
        obtain ⟨rfl, hw⟩ := List.cons.inj hbody
        have hw : p ++ c :: q = w ++ ['>'] := hw
        rcases List.eq_nil_or_concat q with rfl | ⟨q, e, rfl⟩
        · obtain ⟨rfl, hlast⟩ := List.append_inj' hw rfl
          refine ⟨l, p, [], m, hl, hm', by simpa using hopen, by simpa using hclose, rfl, ?_⟩
          rw [(List.cons.inj hlast).1]
          rfl
        · rw [List.concat_eq_append, ← List.cons_append, ← List.append_assoc] at hw
          obtain ⟨rfl, hlast⟩ := List.append_inj' hw rfl
          refine ⟨l, p, c :: q, m, hl, hm', hopen, hclose, rfl, ?_⟩
          rw [(List.cons.inj hlast).1, List.concat_eq_append]
          simp
      | entity w hw =>
        obtain ⟨-, htail⟩ := List.cons.inj hbody
        have hmem : c ∈ w ++ [';'] := by
          rw [← htail]
          simp
        rcases List.mem_append.mp hmem with hmem | hmem
        · rw [hw c hmem] at hc
          cases hc
        · exact absurd (List.mem_singleton.mp hmem) hsemi
      | chr e _ _ =>
        have hlen := congrArg List.length hbody
        simp at hlen

theorem Atom.head_lt {u z : Str} (hu : Atom u) {w s : Str} (hw : '>' ∉ w)
    (h : '<' :: (w ++ '>' :: s) = u ++ z) : u = '<' :: (w ++ ['>']) ∧ z = s := by
  cases hu with
  | tag w' hopen hclose =>
    have htail : w ++ '>' :: s = w' ++ '>' :: z := by simpa using h
    obtain ⟨rfl, rfl⟩ := eq_of_first hw hclose htail
    exact ⟨rfl, rfl⟩
  | entity w' hw' => exact absurd (List.cons.inj h).1 (by decide)
  | chr c hlt hamp => exact absurd (List.cons.inj h).1.symm hlt

theorem Atom.head_blank {u z d s : Str} (hu : Atom u) (hd : BlankUnit d) (h : d ++ s = u ++ z) :
    u = d ∧ z = s := by
  cases hd with
  | space c hc =>
    cases hu with
    | tag w hopen hclose =>
      rw [(List.cons.inj h).1] at hc
      cases hc
    | entity w hw =>
      rw [(List.cons.inj h).1] at hc
      cases hc
    | chr e hlt hamp =>
      obtain ⟨rfl, rfl⟩ := List.cons.inj h
      exact ⟨rfl, rfl⟩
  | entity e he =>
    obtain ⟨v, hv, hvalid⟩ := blankEntities_head he
    rw [hv] at h ⊢
    cases hu with
    | tag w hopen hclose => exact absurd (List.cons.inj h).1 (by decide)
    | entity w hw =>
      have htail : v ++ ';' :: s = w ++ ';' :: z := by simpa using h
      obtain ⟨rfl, rfl⟩ := eq_of_first (not_mem_entity hvalid (by decide))
        (not_mem_entity hw (by decide)) htail
      exact ⟨rfl, rfl⟩
    | chr c hlt hamp => exact absurd (List.cons.inj h).1.symm hamp

/-! ### What may be taken out -/

/-- `v` in the place of `u` leaves a body well shaped, with the same visible text. -/
def Thins (u v : Str) : Prop :=
  ∀ x, Shaped (x ++ u) → Shaped (x ++ v) ∧ visible 0 (x ++ v) = visible 0 (x ++ u)

theorem Thins.refl (u : Str) : Thins u u := fun _ h => ⟨h, rfl⟩

theorem Thins.trans {u v w : Str} (h : Thins u v) (h' : Thins v w) : Thins u w := by
  intro x hx
  obtain ⟨hv, hsame⟩ := h x hx
  obtain ⟨hw, hsame'⟩ := h' x hv
  exact ⟨hw, hsame'.trans hsame⟩

theorem Thins.append {u v : Str} (h : Thins u v) (p : Str) : Thins (p ++ u) (p ++ v) := by
  intro x hx
  rw [← List.append_assoc] at hx ⊢
  rw [← List.append_assoc]
  exact h (x ++ p) hx

theorem Thins.cons {u v : Str} (h : Thins u v) (c : Char) : Thins (c :: u) (c :: v) := h.append [c]

theorem shaped_append {l : List Str} {s : Str} (hl : Atoms l) (hs : Shaped s) :
    Shaped (l.flatten ++ s) := by
  obtain ⟨m, rfl, hm⟩ := hs
  exact ⟨l ++ m, (List.flatten_append).symm, hl.append hm⟩

theorem thins_tag {t : Str} (ht : IsTag t) (y : Str) : Thins (t ++ y) y := by
  intro x hx
  obtain ⟨w, rfl, hw⟩ := ht
  have hx' : Shaped (x ++ '<' :: (w ++ '>' :: y)) := by simpa using hx
  rcases hx'.stands (by decide) (by decide) with
    ⟨l, u, m, hl, hu, hm, rfl, htext⟩ | ⟨l, p, q, m, -, -, hopen, -, -, htext⟩
  · obtain ⟨rfl, rfl⟩ := hu.head_lt hw htext
    refine ⟨shaped_append hl ⟨m, rfl, hm⟩, ?_⟩
    rw [visible_atoms hl, visible_atoms hl, visible_tag ⟨w, rfl, hw⟩]
  · cases q with
    | nil => exact absurd (List.cons.inj htext).1 (by decide)
    | cons c q =>
      rw [← (List.cons.inj htext).1] at hopen
      exact absurd (by simp) hopen

theorem thins_blank {d d' : Str} (hd : BlankUnit d) (hd' : d' = [] ∨ d' = [' ']) (y : Str) :
    Thins (d ++ y) (d' ++ y) := by
  have hnew : ∃ n, d' = n.flatten ∧ Atoms n ∧ ∀ s, visible 0 (d' ++ s) = visible 0 s := by
    rcases hd' with rfl | rfl
    · exact ⟨[], rfl, Atoms.nil, fun _ => rfl⟩
    · exact ⟨[[' ']], rfl, Atoms.nil.cons (.chr ' ' (by decide) (by decide)),
        visible_blank (.space ' ' (by decide))⟩
  have hclean : '<' ∉ d' ∧ '>' ∉ d' := by rcases hd' with rfl | rfl <;> decide
  obtain ⟨n, hn, hatoms, hvisible⟩ := hnew
  have hhead : ∃ c w, d = c :: w ∧ entityChar c = false ∧ c ≠ ';' := by
    cases hd with
    | space c hc =>
      refine ⟨c, [], rfl, Bool.eq_false_iff.mpr fun h => ?_, ?_⟩
      · rw [not_whitespace_of_entityChar h] at hc
        cases hc
      · rintro rfl
        cases hc
    | entity e he =>
      obtain ⟨v, hv, -⟩ := blankEntities_head he
      exact ⟨'&', _, hv, by decide, by decide⟩
  obtain ⟨c, w, hcw, hc, hsemi⟩ := hhead
  intro x hx
  have hx' : Shaped (x ++ c :: (w ++ y)) := by rwa [hcw] at hx
  rcases hx'.stands hc hsemi with
    ⟨l, u, m, hl, hu, hm, rfl, htext⟩ | ⟨l, p, q, m, hl, hm, hopen, hclose, rfl, htext⟩
  · rw [← List.cons_append, ← hcw] at htext
    obtain ⟨rfl, rfl⟩ := hu.head_blank hd htext
    refine ⟨shaped_append hl (hn ▸ shaped_append hatoms ⟨m, rfl, hm⟩), ?_⟩
    rw [visible_atoms hl, visible_atoms hl, visible_blank hd, hvisible]
  · -- In a tag, which stays a tag.
    rw [← List.cons_append, ← hcw] at htext
    have hsplit : ∃ r, q = d ++ r ∧ y = r ++ '>' :: m.flatten := by
      rcases List.append_eq_append_iff.mp htext with ⟨r, hr, hy⟩ | ⟨r, hr, hy⟩
      · exact ⟨r, hr, hy⟩
      · cases r with
        | nil => exact ⟨[], by rw [hr]; simp, by simpa using hy.symm⟩
        | cons e r =>
          rw [← (List.cons.inj hy).1] at hr
          exact absurd (by rw [hr]; simp) hd.not_mem.2
    obtain ⟨r, rfl, rfl⟩ := hsplit
    have hopen' : '<' ∉ p ++ (d' ++ r) := by
      simp only [List.mem_append, not_or] at hopen ⊢
      exact ⟨hopen.1, hclean.1, hopen.2.2⟩
    have hclose' : '>' ∉ p ++ (d' ++ r) := by
      simp only [List.mem_append, not_or] at hclose ⊢
      exact ⟨hclose.1, hclean.2, hclose.2.2⟩
    have hsame : l.flatten ++ '<' :: p ++ (d ++ (r ++ '>' :: m.flatten)) =
        l.flatten ++ ('<' :: (p ++ (d ++ r) ++ ['>']) ++ m.flatten) := by simp
    have hsame' : l.flatten ++ '<' :: p ++ (d' ++ (r ++ '>' :: m.flatten)) =
        l.flatten ++ ('<' :: (p ++ (d' ++ r) ++ ['>']) ++ m.flatten) := by simp
    rw [hsame, hsame']
    refine ⟨shaped_append hl ⟨_ :: m, rfl, hm.cons (.tag _ hopen' hclose')⟩, ?_⟩
    rw [visible_atoms hl, visible_atoms hl, visible_tag ⟨_, rfl, hclose⟩,
      visible_tag ⟨_, rfl, hclose'⟩]

theorem thins_space {c : Char} (hc : isWhitespace c = true) (s : Str) : Thins (c :: s) s :=
  thins_blank (.space c hc) (Or.inl rfl) s

theorem thins_dropWhile {p : Char → Bool} (hp : ∀ c, p c = true → isWhitespace c = true) (s : Str) :
    Thins s (s.dropWhile p) := by
  induction s with
  | nil => exact Thins.refl []
  | cons c s ih =>
    by_cases hc : p c = true
    · rw [List.dropWhile_cons_of_pos hc]
      exact (thins_space (hp c hc) s).trans ih
    · rw [List.dropWhile_cons_of_neg hc]
      exact Thins.refl (c :: s)

theorem thins_dropBlank (s : Str) : Thins s (dropBlank 0 s) := by
  induction hn : s.length using Nat.strong_induction_on generalizing s with
  | _ n ih =>
    cases hlen : blankLen s with
    | none =>
      rw [dropBlank_none hlen]
      exact Thins.refl s
    | some k =>
      obtain ⟨w, t, rfl, rfl, hw⟩ := blankUnit_of_blankLen hlen
      have hpos := List.length_pos_iff.mpr hw.ne_nil
      rw [dropBlank_unit hw.ne_nil hlen]
      exact (thins_blank hw (Or.inl rfl) t).trans
        (ih t.length (by rw [← hn, List.length_append]; omega) t rfl)

theorem Shaped.tag_of_lt {x z : Str} (h : Shaped (x ++ '<' :: z)) :
    ∃ t v, IsTag t ∧ '<' :: z = t ++ v := by
  rcases h.stands (by decide) (by decide) with
    ⟨l, u, m, -, hu, -, -, htext⟩ | ⟨l, p, q, m, -, -, hopen, -, -, htext⟩
  · cases hu with
    | tag w hopen hclose => exact ⟨_, m.flatten, ⟨w, rfl, hclose⟩, htext⟩
    | entity w hw => exact absurd (List.cons.inj htext).1 (by decide)
    | chr c hlt hamp => exact absurd (List.cons.inj htext).1.symm hlt
  · cases q with
    | nil => exact absurd (List.cons.inj htext).1 (by decide)
    | cons c q =>
      rw [← (List.cons.inj htext).1] at hopen
      exact absurd (by simp) hopen

end JmapBridge.Content
