import JmapBridge.Model.Content
import JmapBridge.Rust.Trim

/-! The normal form of a subject: what is left when the marks of replies and forwards, and
the white space between them, are taken from its beginning. -/

namespace JmapBridge

open Rust Rust.Str

/-- The string begins with `re:`, `fwd:` or `fw:`, in some case. -/
def BeginsMarked (s : Str) : Prop :=
  ∃ p ∈ subjectPrefixes, p.toList <+: toAsciiLowercase s

def IsMark (x : Str) : Prop := ∃ p ∈ subjectPrefixes, toAsciiLowercase x = p.toList

/-- Nothing but marks and white space. -/
inductive MarksOnly : Str → Prop where
  | nil : MarksOnly []
  | blank {c : Char} {s : Str} : isWhitespace c = true → MarksOnly s → MarksOnly (c :: s)
  | mark {x s : Str} : IsMark x → MarksOnly s → MarksOnly (x ++ s)

/-- What the loop leaves of a subject. -/
def stripped (subject : String) : Str :=
  stripSubjectPrefixes (Str.trim subject.toList).length (Str.trim subject.toList)

theorem IsMark.length_pos {x : Str} (h : IsMark x) : 0 < x.length := by
  obtain ⟨p, hp, hx⟩ := h
  have hlen : x.length = p.toList.length := by rw [← hx, toAsciiLowercase, List.length_map]
  have hpos : ∀ p ∈ subjectPrefixes, 0 < p.toList.length := by decide
  rw [hlen]
  exact hpos p hp

theorem toLower_isWhitespace {c : Char} (h : isWhitespace c = true) : c.toLower = c := by
  delta Char.toLower
  rw [dif_neg]
  rintro ⟨hlo, hhi⟩
  have hlo : 65 ≤ c.toNat := UInt32.le_iff_toNat_le.mp hlo
  have hhi : c.toNat ≤ 90 := UInt32.le_iff_toNat_le.mp hhi
  simp only [isWhitespace, Bool.or_eq_true, Bool.and_eq_true, decide_eq_true_eq, beq_iff_eq] at h
  omega

theorem IsMark.trimStart {x : Str} (h : IsMark x) (s : Str) : trimStart (x ++ s) = x ++ s := by
  obtain ⟨p, hp, hx⟩ := h
  cases x with
  | nil => exact absurd (IsMark.length_pos ⟨p, hp, hx⟩) (by simp)
  | cons c x =>
    have hc : isWhitespace c = false := by
      refine Bool.eq_false_iff.mpr fun hblank => ?_
      rw [toAsciiLowercase, List.map_cons, toLower_isWhitespace hblank] at hx
      have hheads : ∀ p ∈ subjectPrefixes, p.toList.head?.all fun c => !isWhitespace c := by decide
      have hhead := hheads p hp
      rw [← hx] at hhead
      simp [hblank] at hhead
    rw [List.cons_append, trimStart_cons, hc, if_neg Bool.false_ne_true]

theorem IsMark.trimEnd {x : Str} (h : IsMark x) : trimEnd x = x := by
  obtain ⟨p, hp, hx⟩ := h
  induction x using List.reverseRecOn with
  | nil => rfl
  | append_singleton x c _ =>
    have hc : isWhitespace c = false := by
      refine Bool.eq_false_iff.mpr fun hblank => ?_
      rw [toAsciiLowercase, List.map_append, List.map_singleton, toLower_isWhitespace hblank] at hx
      have hlasts : ∀ p ∈ subjectPrefixes, p.toList.getLast?.all fun c => !isWhitespace c := by
        decide
      have hlast := hlasts p hp
      rw [← hx] at hlast
      simp [hblank] at hlast
    rw [trimEnd_concat, hc, if_neg Bool.false_ne_true]

/-! ### One round of the loop -/

theorem beginsMarked_iff {s : Str} : BeginsMarked s ↔ ∃ x t, s = x ++ t ∧ IsMark x := by
  constructor
  · rintro ⟨p, hp, u, hu⟩
    obtain ⟨x, t, rfl, hx, -⟩ := List.map_eq_append_iff.mp hu.symm
    exact ⟨x, t, rfl, p, hp, hx⟩
  · rintro ⟨x, t, rfl, p, hp, hx⟩
    refine ⟨p, hp, toAsciiLowercase t, ?_⟩
    rw [← hx, toAsciiLowercase, toAsciiLowercase, toAsciiLowercase, List.map_append]

theorem mark_unique {p q : String} {s : Str} (hp : p ∈ subjectPrefixes) (hq : q ∈ subjectPrefixes)
    (hps : p.toList <+: s) (hqs : q.toList <+: s) : p = q := by
  have hnone : ∀ p ∈ subjectPrefixes, ∀ q ∈ subjectPrefixes,
      p.toList <+: q.toList → p = q := by decide
  rcases List.prefix_or_prefix_of_prefix hps hqs with h | h
  · exact hnone p hp q hq h
  · exact (hnone q hq p hp h).symm

theorem strip_of_not_marked {s : Str} (h : ¬BeginsMarked s) (n : Nat) :
    stripSubjectPrefixes n s = s := by
  cases n with
  | zero => rfl
  | succ n =>
    have hnone :
        (subjectPrefixes.find? fun p => p.toList.isPrefixOf (toAsciiLowercase s)) = none := by
      refine List.find?_eq_none.mpr fun p hp hstart => h ⟨p, hp, ?_⟩
      exact List.isPrefixOf_iff_prefix.mp hstart
    rw [stripSubjectPrefixes, hnone]

theorem strip_mark {x : Str} (hx : IsMark x) (s : Str) (n : Nat) :
    stripSubjectPrefixes (n + 1) (x ++ s) = stripSubjectPrefixes n (trimStart s) := by
  obtain ⟨p, hp, hlower⟩ := hx
  have hstart : p.toList <+: toAsciiLowercase (x ++ s) := by
    refine ⟨toAsciiLowercase s, ?_⟩
    rw [← hlower, toAsciiLowercase, toAsciiLowercase, toAsciiLowercase, List.map_append]
  have hlen : x.length = p.length := by
    rw [← String.length_toList, ← hlower, toAsciiLowercase, List.length_map]
  cases hfind : subjectPrefixes.find? fun p => p.toList.isPrefixOf (toAsciiLowercase (x ++ s)) with
  | none =>
    have hno := List.find?_eq_none.mp hfind p hp
    exact absurd (List.isPrefixOf_iff_prefix.mpr hstart) hno
  | some q =>
    have hqstart : q.toList <+: toAsciiLowercase (x ++ s) := by
      have hsome := List.find?_some hfind
      exact List.isPrefixOf_iff_prefix.mp hsome
    obtain rfl := mark_unique (List.mem_of_find?_eq_some hfind) hp hqstart hstart
    rw [stripSubjectPrefixes, hfind]
    show stripSubjectPrefixes n (trimStart ((x ++ s).drop q.length)) = _
    rw [← hlen, List.drop_left]

theorem length_trimStart_le (s : Str) : (trimStart s).length ≤ s.length :=
  (List.dropWhile_sublist _).length_le

/-! ### The whole loop -/

/-- A subject, or what is left of one, is stripped. -/
def peel (s : Str) : Str := stripSubjectPrefixes s.length (trimStart s)

theorem strip_enough {s : Str} {n : Nat} (hn : s.length ≤ n) :
    stripSubjectPrefixes n s = stripSubjectPrefixes s.length s := by
  induction n using Nat.strong_induction_on generalizing s with
  | _ n ih =>
    by_cases hm : BeginsMarked s
    · obtain ⟨x, t, rfl, hx⟩ := beginsMarked_iff.mp hm
      have hpos := hx.length_pos
      have ht := length_trimStart_le t
      rw [List.length_append] at hn ⊢
      obtain ⟨m, rfl⟩ : ∃ m, n = m + 1 := ⟨n - 1, by omega⟩
      obtain ⟨k, hk⟩ : ∃ k, x.length + t.length = k + 1 := ⟨x.length + t.length - 1, by omega⟩
      rw [hk, strip_mark hx, strip_mark hx]
      by_cases hkm : k = m
      · rw [hkm]
      · rw [ih m (by omega) (by omega), ih k (by omega) (by omega)]
    · rw [strip_of_not_marked hm, strip_of_not_marked hm]

theorem peel_eq (s : Str) :
    peel s = stripSubjectPrefixes (trimStart s).length (trimStart s) :=
  strip_enough (length_trimStart_le s)

theorem peel_trimStart (s : Str) : peel (trimStart s) = peel s := by
  rw [peel_eq, peel_eq s, trimStart_trimStart]

theorem peel_blank {c : Char} (hc : isWhitespace c = true) (s : Str) : peel (c :: s) = peel s := by
  rw [← peel_trimStart, trimStart_cons, if_pos hc, peel_trimStart]

theorem peel_mark {x : Str} (hx : IsMark x) (s : Str) : peel (x ++ s) = peel s := by
  have hpos := hx.length_pos
  obtain ⟨n, hn⟩ : ∃ n, (x ++ s).length = n + 1 :=
    ⟨x.length + s.length - 1, by rw [List.length_append]; omega⟩
  rw [peel, hn, hx.trimStart, strip_mark hx, peel_eq]
  rw [List.length_append] at hn
  exact strip_enough ((length_trimStart_le s).trans (by omega))

theorem peel_append {d : Str} (hd : MarksOnly d) (s : Str) : peel (d ++ s) = peel s := by
  induction hd with
  | nil => rfl
  | blank hc _ ih => rw [List.cons_append, peel_blank hc, ih]
  | mark hx _ ih => rw [List.append_assoc, peel_mark hx, ih]

theorem peel_of_not_marked {s : Str} (hs : trimStart s = s) (h : ¬BeginsMarked s) : peel s = s := by
  rw [peel, hs, strip_of_not_marked h]

theorem MarksOnly.append_blank {t d : Str} (ht : Blank t) (hd : MarksOnly d) :
    MarksOnly (t ++ d) := by
  induction t with
  | nil => exact hd
  | cons c t ih =>
    obtain ⟨hc, ht⟩ := blank_cons.mp ht
    exact .blank hc (ih ht)

theorem exists_marks (s : Str) : ∃ d r, s = d ++ r ∧ MarksOnly d ∧ trimStart r = r ∧
    ¬BeginsMarked r := by
  obtain ⟨n, hn⟩ : ∃ n, s.length ≤ n := ⟨_, le_rfl⟩
  induction n generalizing s with
  | zero =>
    obtain rfl := List.eq_nil_of_length_eq_zero (Nat.le_zero.mp hn)
    refine ⟨[], [], rfl, .nil, rfl, ?_⟩
    rintro ⟨p, hp, hstart⟩
    exact absurd (List.prefix_nil.mp hstart)
      ((by decide : ∀ p ∈ subjectPrefixes, p.toList ≠ []) p hp)
  | succ n ih =>
    obtain ⟨t, hs, ht⟩ := trimStart_append s
    by_cases hm : BeginsMarked (trimStart s)
    · obtain ⟨x, u, hu, hx⟩ := beginsMarked_iff.mp hm
      have hlen := length_trimStart_le s
      have hpos := hx.length_pos
      rw [hu, List.length_append] at hlen
      obtain ⟨d, r, rfl, hd, hr, hnot⟩ := ih u (by omega)
      refine ⟨t ++ (x ++ d), r, ?_, .append_blank ht (.mark hx hd), hr, hnot⟩
      rw [hs, hu]
      simp
    · refine ⟨t, trimStart s, hs, ?_, trimStart_trimStart s, hm⟩
      have h := MarksOnly.append_blank ht .nil
      rwa [List.append_nil] at h

theorem MarksOnly.trimEnd {d : Str} (h : MarksOnly d) : MarksOnly (trimEnd d) := by
  induction h with
  | nil => exact .nil
  | @blank c d hc _ ih =>
    by_cases hnil : Str.trimEnd d = []
    · have hall : Blank (c :: d) := blank_cons.mpr ⟨hc, trimEnd_eq_nil_iff.mp hnil⟩
      rw [trimEnd_eq_nil_iff.mpr hall]
      exact .nil
    · rw [← List.singleton_append, trimEnd_append_of_ne hnil]
      exact .blank hc ih
  | @mark x d hx _ ih =>
    by_cases hnil : Str.trimEnd d = []
    · rw [trimEnd_append_blank _ (trimEnd_eq_nil_iff.mp hnil), hx.trimEnd]
      have h := MarksOnly.mark hx .nil
      rwa [List.append_nil] at h
    · rw [trimEnd_append_of_ne hnil]
      exact .mark hx ih

theorem peel_marks {d : Str} (hd : MarksOnly d) : peel d = [] := by
  have h := peel_append hd []
  rw [List.append_nil] at h
  exact h

/-- The white space at the end of a subject is taken before or after its marks alike. -/
theorem stripped_eq (subject : String) : stripped subject = trimEnd (peel subject.toList) := by
  have hpeel : stripped subject = peel (trimEnd subject.toList) := by
    rw [peel_eq, trimStart_trimEnd]
    rfl
  obtain ⟨d, r, hs, hd, hr, hnot⟩ := exists_marks subject.toList
  have hrest : peel (d ++ r) = r := by rw [peel_append hd, peel_of_not_marked hr hnot]
  rw [hpeel, hs, hrest]
  by_cases hnil : trimEnd r = []
  · rw [trimEnd_append_blank _ (trimEnd_eq_nil_iff.mp hnil), peel_marks hd.trimEnd, hnil]
  · rw [trimEnd_append_of_ne hnil, peel_append hd]
    refine peel_of_not_marked
      (by rw [trimStart_trimEnd, hr]) fun ⟨p, hp, hstart⟩ => hnot ⟨p, hp, ?_⟩
    exact hstart.trans ((trimEnd_starts r).map _)

theorem stripped_spec (subject : String) : ¬BeginsMarked (stripped subject) ∧
    trimStart (stripped subject) = stripped subject ∧
    trimEnd (stripped subject) = stripped subject ∧
    (stripped subject = [] → MarksOnly subject.toList) := by
  obtain ⟨d, r, hs, hd, hr, hnot⟩ := exists_marks subject.toList
  have hrest : stripped subject = trimEnd r := by
    rw [stripped_eq, hs, peel_append hd, peel_of_not_marked hr hnot]
  rw [hrest]
  refine ⟨fun ⟨p, hp, hstart⟩ => hnot ⟨p, hp, hstart.trans ((trimEnd_starts r).map _)⟩,
    by rw [trimStart_trimEnd, hr], trimEnd_trimEnd r, fun hnil => ?_⟩
  have hr' : r = [] := by
    rw [← hr]
    exact trimStart_eq_nil_iff.mpr (trimEnd_eq_nil_iff.mp hnil)
  rw [hs, hr', List.append_nil]
  exact hd

theorem cleanSubject_of_stripped {subject : String} (h : stripped subject ≠ []) :
    cleanSubject subject = String.ofList (stripped subject) := by
  have hne : (stripped subject).isEmpty = false := List.isEmpty_eq_false_iff.mpr h
  rw [cleanSubject, ← stripped, hne]
  rfl

theorem cleanSubject_of_marks {subject : String} (h : stripped subject = []) :
    cleanSubject subject = String.ofList (Str.trim subject.toList) := by
  rw [cleanSubject, ← stripped, h]
  rfl

theorem cleanSubject_stripped (subject : String) (h : stripped subject ≠ []) :
    cleanSubject (String.ofList (stripped subject)) = String.ofList (stripped subject) := by
  obtain ⟨hnot, hstart, hend, -⟩ := stripped_spec subject
  have hself : stripped (String.ofList (stripped subject)) = stripped subject := by
    rw [stripped_eq, String.toList_ofList, peel_of_not_marked hstart hnot, hend]
  rw [cleanSubject_of_stripped (by rwa [hself]), hself]

structure Canonical (subject : String) : Prop where
  terminates : ¬BeginsMarked (stripped subject) ∧
    ∀ n, (Str.trim subject.toList).length ≤ n →
      stripSubjectPrefixes n (Str.trim subject.toList) = stripped subject
  idempotent : cleanSubject (cleanSubject subject) = cleanSubject subject
  unmarked : BeginsMarked (cleanSubject subject).toList → MarksOnly subject.toList
  invariant : ∀ d, MarksOnly d → stripped subject ≠ [] →
    cleanSubject (String.ofList d ++ subject) = cleanSubject subject

theorem cleanSubject_canonical (subject : String) : Canonical subject := by
  obtain ⟨hnot, -, -, honly⟩ := stripped_spec subject
  refine ⟨⟨hnot, fun n hn => strip_enough hn⟩, ?_, fun hm => ?_, fun d hd hne => ?_⟩
  · by_cases h : stripped subject = []
    · have htrim : stripped (String.ofList (Str.trim subject.toList)) = [] := by
        rw [stripped, String.toList_ofList, trim_trim]
        exact h
      rw [cleanSubject_of_marks h, cleanSubject_of_marks htrim, String.toList_ofList, trim_trim]
    · rw [cleanSubject_of_stripped h, cleanSubject_stripped subject h]
  · by_cases h : stripped subject = []
    · exact honly h
    · rw [cleanSubject_of_stripped h, String.toList_ofList] at hm
      exact absurd hm hnot
  · have hsame : stripped (String.ofList d ++ subject) = stripped subject := by
      rw [stripped_eq, stripped_eq, String.toList_append, String.toList_ofList, peel_append hd]
    rw [cleanSubject_of_stripped (by rwa [hsame]), cleanSubject_of_stripped hne, hsame]

end JmapBridge
