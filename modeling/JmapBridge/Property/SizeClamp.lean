import JmapBridge.Property.Scanners
import JmapBridge.Rust.Trim

/-! The size limit on a bridged body. Both texts fit the budget exactly when the plain one
fits beside the formatted one, or at least the truncation notice does. -/

namespace JmapBridge.Content

open Rust Rust.Str Rust.Scan

/-- The bytes a plain text and a formatted body take together. -/
def bodyLen (r : Str × Option Str) : Nat := byteLen r.1 + (r.2.map byteLen).getD 0

/-- What is left of the budget beside the formatted body, which goes where it is larger. -/
def allowanceBeside (html : Option Str) : Nat :=
  matrixBodyBudget - ((html.filter fun h => byteLen h ≤ matrixBodyBudget).map byteLen).getD 0

structure ClampExact (plain : Str) (html : Option Str) (r : Str × Option Str) : Prop where
  fits : bodyLen r ≤ matrixBodyBudget
  html_or_none : r.2 = html ∨ r.2 = none
  unchanged : bodyLen (plain, html) ≤ matrixBodyBudget → r = (plain, html)
  cut : r.1 ≠ plain → ∃ p t, plain = p ++ t ∧ r.1 = p ++ matrixTruncationNotice

/-- The plain text fits beside the formatted body, or the truncation notice does. -/
def HasRoom (plain : Str) (html : Option Str) : Prop :=
  byteLen plain ≤ allowanceBeside html ∨ byteLen matrixTruncationNotice ≤ allowanceBeside html

instance (plain : Str) (html : Option Str) : Decidable (HasRoom plain html) :=
  inferInstanceAs (Decidable (_ ∨ _))

theorem kept_le (html : Option Str) :
    ((html.filter fun h => byteLen h ≤ matrixBodyBudget).map byteLen).getD 0 ≤
      matrixBodyBudget := by
  cases hf : html.filter fun h => byteLen h ≤ matrixBodyBudget with
  | none => exact Nat.zero_le _
  | some h =>
    obtain ⟨-, hle⟩ := Option.filter_eq_some_iff.mp hf
    simpa using hle

theorem filter_html (html : Option Str) :
    (html.filter fun h => byteLen h ≤ matrixBodyBudget) = html ∨
      (html.filter fun h => byteLen h ≤ matrixBodyBudget) = none := by
  cases html with
  | none => exact Or.inl rfl
  | some h =>
    by_cases hle : byteLen h ≤ matrixBodyBudget
    · exact Or.inl (by simp [hle])
    · exact Or.inr (by simpa using hle)

theorem filter_html_of_fits {plain : Str} {html : Option Str}
    (h : bodyLen (plain, html) ≤ matrixBodyBudget) :
    (html.filter fun h => byteLen h ≤ matrixBodyBudget) = html := by
  cases html with
  | none => rfl
  | some x =>
    have hx : byteLen x ≤ matrixBodyBudget := by
      have hsum : byteLen plain + byteLen x ≤ matrixBodyBudget := h
      omega
    simp [hx]

/-- What the clamp makes of a body: nothing is cut, or the plain text ends in the notice. -/
theorem clampToMatrixLimit_ensures (plain : Str) (html : Option Str) :
    (clampToMatrixLimit plain html).Ensures fun r =>
      r.2 = (html.filter fun h => byteLen h ≤ matrixBodyBudget) ∧
      (byteLen plain ≤ allowanceBeside html → r.1 = plain) ∧
      (allowanceBeside html < byteLen plain → ∃ p t, plain = p ++ t ∧
        r.1 = p ++ matrixTruncationNotice ∧
        byteLen p ≤ allowanceBeside html - byteLen matrixTruncationNotice) := by
  rw [clampToMatrixLimit]
  dsimp only
  rw [usizeSub_of_le (kept_le html)]
  split
  · rename_i hle
    have hle : byteLen plain ≤ allowanceBeside html := hle
    exact Ensures.pure ⟨rfl, fun _ => rfl, fun hlt => absurd hlt (by omega)⟩
  · rename_i hlt
    have hlt : allowanceBeside html < byteLen plain := Nat.not_le.mp hlt
    refine Ensures.bind (clampUtf8_ensures _ _) fun out hout => ?_
    refine Ensures.pure ⟨rfl, fun hle => absurd hle (by omega), fun _ => ?_⟩
    rcases hout with ⟨hle, rfl⟩ | ⟨p, t, hp, hlen, rfl⟩
    · have hle : byteLen out ≤ allowanceBeside html - byteLen matrixTruncationNotice := hle
      omega
    · obtain ⟨u, hu, -⟩ := trimEnd_append p
      refine ⟨trimEnd p, u ++ t, ?_, rfl, ?_⟩
      · rw [← List.append_assoc, ← hu]
        exact hp
      · have hsum := congrArg byteLen hu
        rw [byteLen_append] at hsum
        exact Nat.le_trans (by omega) hlen

theorem bodyLen_filter {html : Option Str} {r : Str × Option Str}
    (h : r.2 = html.filter fun h => byteLen h ≤ matrixBodyBudget) :
    bodyLen r = byteLen r.1 + (matrixBodyBudget - allowanceBeside html) := by
  have hle := kept_le html
  rw [bodyLen, h, allowanceBeside]
  omega

theorem clamp_too_long {plain : Str} {html : Option Str} (h : ¬ HasRoom plain html) :
    (clampToMatrixLimit plain html).Ensures fun r => matrixBodyBudget < bodyLen r := by
  obtain ⟨hplain, hnotice⟩ := not_or.mp h
  refine (clampToMatrixLimit_ensures plain html).mono fun r ⟨hhtml, _, hcut⟩ => ?_
  obtain ⟨p, t, -, hr, -⟩ := hcut (Nat.not_le.mp hplain)
  rw [bodyLen_filter hhtml, hr, byteLen_append]
  have hle : allowanceBeside html ≤ matrixBodyBudget := Nat.sub_le _ _
  omega

theorem clamp_exact {plain : Str} {html : Option Str} (h : HasRoom plain html) :
    (clampToMatrixLimit plain html).Ensures (ClampExact plain html) := by
  refine (clampToMatrixLimit_ensures plain html).mono fun r ⟨hhtml, hsame, hcut⟩ => ?_
  have hle : allowanceBeside html ≤ matrixBodyBudget := Nat.sub_le _ _
  have hlen := bodyLen_filter hhtml
  by_cases hfit : byteLen plain ≤ allowanceBeside html
  · have hr := hsame hfit
    refine ⟨?_, ?_, fun htogether => ?_, fun hne => absurd hr hne⟩
    · rw [hlen, hr]
      omega
    · rw [hhtml]
      exact filter_html html
    · rw [filter_html_of_fits htogether] at hhtml
      exact Prod.ext hr hhtml
  · obtain ⟨p, t, hp, hr, hplen⟩ := hcut (Nat.not_le.mp hfit)
    have hnotice : byteLen matrixTruncationNotice ≤ allowanceBeside html := h.resolve_left hfit
    refine ⟨?_, ?_, fun htogether => ?_, fun _ => ⟨p, t, hp, hr⟩⟩
    · rw [hlen, hr, byteLen_append]
      omega
    · rw [hhtml]
      exact filter_html html
    · exfalso
      apply hfit
      rw [allowanceBeside, filter_html_of_fits htogether]
      have hsum : byteLen plain + (html.map byteLen).getD 0 ≤ matrixBodyBudget := htogether
      omega

/-- The clamp is exact on the bodies with room beside the formatted one, and on no others. -/
theorem clamp_exact_iff (plain : Str) (html : Option Str) :
    (clampToMatrixLimit plain html).Ensures (ClampExact plain html) ↔ HasRoom plain html := by
  constructor
  · intro hexact
    apply Decidable.byContradiction
    intro hroom
    obtain ⟨r, hr, hfits⟩ := hexact
    have hlong := (clamp_too_long hroom).of_yields hr
    have hle := hfits.fits
    omega
  · exact clamp_exact

theorem byteLen_replicate (n : Nat) (c : Char) : byteLen (List.replicate n c) = n * c.utf8Size := by
  simp [byteLen, List.map_replicate]

/-- A formatted body that takes the whole budget leaves no room for one character of text. -/
theorem full_html_overflows :
    ¬ (clampToMatrixLimit ['a'] (some (List.replicate matrixBodyBudget 'b'))).Ensures
      (ClampExact ['a'] (some (List.replicate matrixBodyBudget 'b'))) := by
  have hfull : byteLen (List.replicate matrixBodyBudget 'b') = matrixBodyBudget := by
    rw [byteLen_replicate, show ('b' : Char).utf8Size = 1 from rfl, Nat.mul_one]
  have hallow : allowanceBeside (some (List.replicate matrixBodyBudget 'b')) = 0 := by
    rw [allowanceBeside, Option.filter_some, if_pos (by simp [hfull]), Option.map_some,
      Option.getD_some, hfull, Nat.sub_self]
  have hroom : ¬ HasRoom ['a'] (some (List.replicate matrixBodyBudget 'b')) := by
    rw [HasRoom, hallow]
    decide
  rintro ⟨r, hr, hfits⟩
  have hlong := (clamp_too_long hroom).of_yields hr
  have hle := hfits.fits
  omega

end JmapBridge.Content
