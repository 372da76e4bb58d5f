import JmapBridge.Rust.Utf8
import Mathlib.Data.List.DropRight

/-! White space at the two ends of a string: what trimming takes from it, and what it
leaves alone. -/

namespace Rust.Str

def Blank (s : Str) : Prop := ∀ c ∈ s, isWhitespace c = true

@[simp] theorem blank_nil : Blank [] := fun _ hc => nomatch hc

@[simp] theorem blank_cons {c : Char} {s : Str} :
    Blank (c :: s) ↔ isWhitespace c = true ∧ Blank s := List.forall_mem_cons

theorem trimEnd_concat (s : Str) (c : Char) :
    trimEnd (s ++ [c]) = if isWhitespace c then trimEnd s else s ++ [c] :=
  List.rdropWhile_concat _ _ _

theorem trimStart_cons (c : Char) (s : Str) :
    trimStart (c :: s) = if isWhitespace c then trimStart s else c :: s := List.dropWhile_cons

theorem trimEnd_starts (s : Str) : trimEnd s <+: s := List.rdropWhile_prefix _ _

theorem trimEnd_append (s : Str) : ∃ t, s = trimEnd s ++ t ∧ Blank t := by
  refine ⟨(s.reverse.takeWhile isWhitespace).reverse, ?_, fun c hc => ?_⟩
  · rw [trimEnd, ← List.reverse_append, List.takeWhile_append_dropWhile, List.reverse_reverse]
  · exact List.mem_takeWhile_imp (List.mem_reverse.mp hc)

theorem trimStart_append (s : Str) : ∃ t, s = t ++ trimStart s ∧ Blank t :=
  ⟨s.takeWhile isWhitespace, List.takeWhile_append_dropWhile.symm,
    fun _ hc => List.mem_takeWhile_imp hc⟩

theorem trimEnd_eq_nil_iff {s : Str} : trimEnd s = [] ↔ Blank s := List.rdropWhile_eq_nil_iff

theorem trimStart_eq_nil_iff {s : Str} : trimStart s = [] ↔ Blank s := List.dropWhile_eq_nil_iff

theorem trimEnd_trimEnd (s : Str) : trimEnd (trimEnd s) = trimEnd s :=
  List.rdropWhile_idempotent _ _

theorem trimStart_trimStart (s : Str) : trimStart (trimStart s) = trimStart s :=
  List.dropWhile_idempotent _ _

theorem trimStart_append_blank {t : Str} (ht : Blank t) (s : Str) :
    trimStart (t ++ s) = trimStart s := by
  induction t with
  | nil => rfl
  | cons c t ih =>
    obtain ⟨hc, ht⟩ := blank_cons.mp ht
    rw [List.cons_append, trimStart_cons, if_pos hc, ih ht]

theorem trimEnd_append_blank (s : Str) {t : Str} (ht : Blank t) :
    trimEnd (s ++ t) = trimEnd s := by
  induction t using List.reverseRecOn with
  | nil => rw [List.append_nil]
  | append_singleton t c ih =>
    rw [← List.append_assoc, trimEnd_concat, if_pos (ht c (by simp)),
      ih fun d hd => ht d (by simp [hd])]

theorem trimEnd_append_of_ne {s t : Str} (ht : trimEnd t ≠ []) :
    trimEnd (s ++ t) = s ++ trimEnd t := by
  induction t using List.reverseRecOn with
  | nil => exact absurd rfl ht
  | append_singleton t c ih =>
    rw [trimEnd_concat] at ht
    rw [← List.append_assoc, trimEnd_concat, trimEnd_concat]
    by_cases hc : isWhitespace c = true
    · rw [if_pos hc] at ht
      rw [if_pos hc, if_pos hc, ih ht]
    · rw [if_neg hc, if_neg hc, List.append_assoc]

theorem trimStart_append_of_ne {s t : Str} (hs : trimStart s ≠ []) :
    trimStart (s ++ t) = trimStart s ++ t := by
  induction s with
  | nil => exact absurd rfl hs
  | cons c s ih =>
    rw [trimStart_cons] at hs
    rw [List.cons_append, trimStart_cons, trimStart_cons]
    by_cases hc : isWhitespace c = true
    · rw [if_pos hc] at hs
      rw [if_pos hc, if_pos hc, ih hs]
    · rw [if_neg hc, if_neg hc, List.cons_append]

theorem blank_trimEnd {s : Str} (h : Blank (trimEnd s)) : Blank s :=
  trimEnd_eq_nil_iff.mp ((trimEnd_trimEnd s).symm.trans (trimEnd_eq_nil_iff.mpr h))

theorem trimStart_trimEnd (s : Str) : trimStart (trimEnd s) = trimEnd (trimStart s) := by
  obtain ⟨t, hs, ht⟩ := trimStart_append s
  by_cases hnil : trimEnd (trimStart s) = []
  · have hblank : Blank s := by
      rw [hs]
      exact List.forall_mem_append.mpr ⟨ht, trimEnd_eq_nil_iff.mp hnil⟩
    rw [trimEnd_eq_nil_iff.mpr hblank, hnil]
    rfl
  · have hend : trimEnd s = t ++ trimEnd (trimStart s) := by
      conv_lhs => rw [hs]
      exact trimEnd_append_of_ne hnil
    rw [hend, trimStart_append_blank ht]
    obtain ⟨u, hu⟩ := trimEnd_starts (trimStart s)
    cases hx : trimEnd (trimStart s) with
    | nil => exact absurd hx hnil
    | cons c w =>
      have hidem := trimStart_trimStart s
      rw [← hu, hx, List.cons_append, trimStart_cons] at hidem
      by_cases hc : isWhitespace c = true
      · rw [if_pos hc] at hidem
        have hlen := (List.dropWhile_sublist isWhitespace (l := w ++ u)).length_le
        rw [← trimStart, hidem, List.length_cons] at hlen
        omega
      · rw [trimStart_cons, if_neg hc]

theorem trim_trim (s : Str) : trim (trim s) = trim s := by
  rw [trim, trim, trimStart_trimEnd, trimStart_trimStart, trimEnd_trimEnd]

section

variable {p : Char → Bool}

/-- What is counted of a string is not touched by trimming it, if no white space is counted. -/
theorem filter_blank (hp : ∀ c, isWhitespace c = true → p c = false) {s : Str} (h : Blank s) :
    s.filter p = [] :=
  List.filter_eq_nil_iff.mpr fun c hc => by rw [hp c (h c hc)]; exact Bool.false_ne_true

theorem filter_trimEnd (hp : ∀ c, isWhitespace c = true → p c = false) (s : Str) :
    (trimEnd s).filter p = s.filter p := by
  obtain ⟨t, hs, ht⟩ := trimEnd_append s
  conv_rhs => rw [hs, List.filter_append, filter_blank hp ht, List.append_nil]

theorem filter_trim (hp : ∀ c, isWhitespace c = true → p c = false) (s : Str) :
    (trim s).filter p = s.filter p := by
  obtain ⟨t, hs, ht⟩ := trimStart_append s
  rw [trim, filter_trimEnd hp]
  conv_rhs => rw [hs, List.filter_append, filter_blank hp ht, List.nil_append]

end

theorem not_isWhitespace_of_concat {s : Str} {c : Char} (h : trimEnd (s ++ [c]) = s ++ [c]) :
    isWhitespace c = false := by
  refine Bool.eq_false_iff.mpr fun hc => ?_
  rw [trimEnd_concat, if_pos hc] at h
  have hlen := (trimEnd_starts s).length_le
  rw [h, List.length_append, List.length_singleton] at hlen
  omega

/-! ### Characters that are no white space -/

theorem not_isWhitespace_of_range {c : Char} (hge : 33 ≤ c.toNat) (hle : c.toNat ≤ 126) :
    isWhitespace c = false := by
  refine Bool.eq_false_iff.mpr fun hspace => ?_
  simp only [isWhitespace, Bool.or_eq_true, Bool.and_eq_true, decide_eq_true_eq,
    beq_iff_eq] at hspace
  omega

theorem alphanum_range {c : Char} (h : c.isAlphanum = true) : 48 ≤ c.toNat ∧ c.toNat ≤ 122 := by
  delta Char.isAlphanum Char.isAlpha Char.isUpper Char.isLower Char.isDigit at h
  simp only [Bool.or_eq_true, Bool.and_eq_true, decide_eq_true_eq, ge_iff_le,
    UInt32.le_iff_toNat_le] at h
  have h : ((65 ≤ c.toNat ∧ c.toNat ≤ 90) ∨ (97 ≤ c.toNat ∧ c.toNat ≤ 122)) ∨
    (48 ≤ c.toNat ∧ c.toNat ≤ 57) := h
  omega

theorem trim_eq_self {s : Str} (h : ∀ c ∈ s, isWhitespace c = false) : trim s = s := by
  have hstart : trimStart s = s := by
    cases s with
    | nil => rfl
    | cons c s => rw [trimStart_cons, if_neg (by simp [h c List.mem_cons_self])]
  rw [trim, hstart]
  induction s using List.reverseRecOn with
  | nil => rfl
  | append_singleton s c _ => rw [trimEnd_concat, if_neg (by simp [h c (by simp)])]

end Rust.Str
