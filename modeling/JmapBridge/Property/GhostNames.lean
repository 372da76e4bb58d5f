import JmapBridge.Model.Content
import Mathlib.Data.List.Forall2

/-! The Matrix names of the ghosts. An escape has no end mark, so two addresses have one
name exactly when the hexadecimal code of a character of one of them goes on as plain text
in the other, and the name of the bot is that of the address `bot`. -/

namespace JmapBridge

open Rust

/-- The characters that stand for themselves in a localpart. -/
def isPlainChar (c : Char) : Bool := c.isLower || c.isDigit || c == '.' || c == '_' || c == '-'

/-- The plain text an address begins with, and each escaped character with the plain text
after it. -/
def escapes : Str → Str × List (Char × Str)
  | [] => ([], [])
  | c :: s =>
    if isPlainChar c then (c :: (escapes s).1, (escapes s).2)
    else ([], (c, (escapes s).1) :: (escapes s).2)

/-- The code of one character goes on, as plain text, to that of the other. -/
def RunsOn (x y : Char × Str) : Prop :=
  (∃ u, hexByte y.1.toNat = hexByte x.1.toNat ++ u ∧ x.2 = u ++ y.2) ∨
    ∃ u, hexByte x.1.toNat = hexByte y.1.toNat ++ u ∧ y.2 = u ++ x.2

/-- The two addresses differ at most in where the codes of their escaped characters end. -/
def SpelledAlike (s t : Str) : Prop :=
  (escapes s).1 = (escapes t).1 ∧ List.Forall₂ RunsOn (escapes s).2 (escapes t).2

def spell (s : Str) : Str := s.flatMap localpartChar

theorem localpartChar_plain {c : Char} (h : isPlainChar c = true) : localpartChar c = [c] :=
  if_pos h

theorem localpartChar_escaped {c : Char} (h : ¬ isPlainChar c = true) :
    localpartChar c = '=' :: hexByte c.toNat := if_neg h

/-- The text after the `=` of an escape, up to the next one. -/
def escapeText (b : Char × Str) : Str := hexByte b.1.toNat ++ b.2

theorem spell_eq (s : Str) :
    spell s = (escapes s).1 ++ (escapes s).2.flatMap fun b => '=' :: escapeText b := by
  induction s with
  | nil => rfl
  | cons c s ih =>
    rw [spell, List.flatMap_cons, ← spell, ih, escapes]
    by_cases hc : isPlainChar c = true
    · rw [localpartChar_plain hc, if_pos hc]
      rfl
    · rw [localpartChar_escaped hc, if_neg hc]
      simp [escapeText]

theorem isPlainChar_ne_mark {c : Char} (h : isPlainChar c = true) : c ≠ '=' := by
  rintro rfl
  exact absurd h (by decide)

theorem escapes_plain (s : Str) :
    (∀ c ∈ (escapes s).1, isPlainChar c = true) ∧
      ∀ b ∈ (escapes s).2, isPlainChar b.1 = false ∧ ∀ c ∈ b.2, isPlainChar c = true := by
  induction s with
  | nil => simp [escapes]
  | cons c s ih =>
    obtain ⟨hhead, hrest⟩ := ih
    rw [escapes]
    by_cases hc : isPlainChar c = true
    · rw [if_pos hc]
      refine ⟨fun d hd => ?_, hrest⟩
      rcases List.mem_cons.mp hd with rfl | hd
      · exact hc
      · exact hhead d hd
    · rw [if_neg hc]
      refine ⟨fun d hd => (by cases hd), fun b hb => ?_⟩
      rcases List.mem_cons.mp hb with rfl | hb
      · exact ⟨Bool.eq_false_iff.mpr hc, hhead⟩
      · exact hrest b hb

theorem digitChar_ne_mark {n : Nat} (h : n < 16) : n.digitChar ≠ '=' := by
  have hall : ∀ m : Fin 16, m.val.digitChar ≠ '=' := by decide
  exact hall ⟨n, h⟩

theorem toDigits_no_mark (n : Nat) : '=' ∉ Nat.toDigits 16 n := by
  induction n using Nat.strong_induction_on with
  | _ n ih =>
    rw [Nat.toDigits_eq_if (by decide)]
    split
    · rename_i hlt
      rw [List.mem_singleton]
      exact (digitChar_ne_mark hlt).symm
    · rw [List.mem_append, not_or]
      refine ⟨ih _ (by omega), ?_⟩
      rw [List.mem_singleton]
      exact (digitChar_ne_mark (Nat.mod_lt n (by decide))).symm

theorem hexByte_no_mark (n : Nat) : '=' ∉ hexByte n := by
  have hdigits := toDigits_no_mark n
  rw [hexByte]
  split
  · rw [List.mem_cons, not_or]
    exact ⟨by decide, hdigits⟩
  · exact hdigits

theorem escapeText_no_mark {s : Str} {b : Char × Str} (hb : b ∈ (escapes s).2) :
    '=' ∉ escapeText b := by
  rw [escapeText, List.mem_append, not_or]
  refine ⟨hexByte_no_mark _, fun hmem => ?_⟩
  exact isPlainChar_ne_mark (((escapes_plain s).2 b hb).2 _ hmem) rfl

/-- Texts without the mark are read back from what begins with one of them and goes on
with the mark or ends. -/
theorem takeWhile_mark {p r : Str} (hp : '=' ∉ p) (hr : ∀ c ∈ r.head?, c = '=') :
    (p ++ r).takeWhile (· != '=') = p := by
  rw [List.takeWhile_append_of_pos fun c hc => by
    have hne : c ≠ '=' := fun h => hp (h ▸ hc)
    simpa using hne]
  cases r with
  | nil => simp
  | cons c r =>
    obtain rfl := hr c rfl
    simp

theorem append_marked_inj {p q r t : Str} (hp : '=' ∉ p) (hq : '=' ∉ q)
    (hr : ∀ c ∈ r.head?, c = '=') (ht : ∀ c ∈ t.head?, c = '=') (h : p ++ r = q ++ t) :
    p = q ∧ r = t := by
  have heq : p = q := by rw [← takeWhile_mark hp hr, h, takeWhile_mark hq ht]
  subst heq
  exact ⟨rfl, List.append_cancel_left h⟩

theorem marks_head {l : List Str} : ∀ c ∈ (l.flatMap fun q => '=' :: q).head?, c = '=' := by
  cases l with
  | nil => simp
  | cons q l => simp

theorem marks_inj {l m : List Str} (hl : ∀ q ∈ l, '=' ∉ q) (hm : ∀ q ∈ m, '=' ∉ q)
    (h : (l.flatMap fun q => '=' :: q) = m.flatMap fun q => '=' :: q) : l = m := by
  induction l generalizing m with
  | nil =>
    cases m with
    | nil => rfl
    | cons q m => simp at h
  | cons p l ih =>
    cases m with
    | nil => simp at h
    | cons q m =>
      rw [List.flatMap_cons, List.flatMap_cons, List.cons_append, List.cons_append] at h
      obtain ⟨rfl, hrest⟩ := append_marked_inj (hl p List.mem_cons_self) (hm q List.mem_cons_self)
        marks_head marks_head (List.cons.inj h).2
      rw [ih (fun r hr => hl r (List.mem_cons_of_mem _ hr))
        (fun r hr => hm r (List.mem_cons_of_mem _ hr)) hrest]

theorem runsOn_iff (x y : Char × Str) : RunsOn x y ↔ escapeText x = escapeText y := by
  rw [escapeText, escapeText, List.append_eq_append_iff, RunsOn]

theorem forall₂_runsOn_iff {l m : List (Char × Str)} :
    List.Forall₂ RunsOn l m ↔ l.map escapeText = m.map escapeText := by
  induction l generalizing m with
  | nil => cases m <;> simp
  | cons x l ih =>
    cases m with
    | nil => simp
    | cons y m =>
      rw [List.forall₂_cons, runsOn_iff, ih, List.map_cons, List.map_cons, List.cons.injEq]

theorem spell_eq_iff (s t : Str) : spell s = spell t ↔ SpelledAlike s t := by
  have hhead : ∀ s : Str, '=' ∉ (escapes s).1 := fun s hmem =>
    isPlainChar_ne_mark ((escapes_plain s).1 _ hmem) rfl
  have htexts : ∀ s : Str, ∀ q ∈ (escapes s).2.map escapeText, '=' ∉ q := by
    intro s q hq
    obtain ⟨b, hb, rfl⟩ := List.mem_map.mp hq
    exact escapeText_no_mark hb
  have hmarks : ∀ s : Str, spell s =
      (escapes s).1 ++ ((escapes s).2.map escapeText).flatMap fun q => '=' :: q := by
    intro s
    rw [spell_eq, List.flatMap_map]
  rw [SpelledAlike, forall₂_runsOn_iff, hmarks s, hmarks t]
  constructor
  · intro h
    obtain ⟨hfirst, hrest⟩ := append_marked_inj (hhead s) (hhead t) marks_head marks_head h
    exact ⟨hfirst, marks_inj (htexts s) (htexts t) hrest⟩
  · rintro ⟨hfirst, hrest⟩
    rw [hfirst, hrest]

/-- The localpart of the bot. -/
def botLocalpart : String := "_jmap_bot"

theorem emailToLocalpart_inj (cfg : Config) (a b : String) :
    emailToLocalpart cfg a = emailToLocalpart cfg b ↔
      spell (cfg.toLowercase a).toList = spell (cfg.toLowercase b).toList := by
  unfold emailToLocalpart
  exact String.ofList_inj.trans (List.append_right_inj _)

theorem emailToLocalpart_eq_iff (cfg : Config) (a b : String) :
    emailToLocalpart cfg a = emailToLocalpart cfg b ↔
      SpelledAlike (cfg.toLowercase a).toList (cfg.toLowercase b).toList :=
  (emailToLocalpart_inj cfg a b).trans (spell_eq_iff _ _)

theorem spell_plain {s : Str} (h : ∀ c ∈ s, isPlainChar c = true) : spell s = s := by
  induction s with
  | nil => rfl
  | cons c s ih =>
    rw [spell, List.flatMap_cons, localpartChar_plain (h c List.mem_cons_self), ← spell,
      ih fun d hd => h d (List.mem_cons_of_mem c hd)]
    rfl

theorem spell_eq_plain_iff {s t : Str} (ht : ∀ c ∈ t, isPlainChar c = true) :
    spell s = t ↔ s = t := by
  constructor
  · intro h
    have hs : ∀ c ∈ s, isPlainChar c = true := by
      intro c hc
      apply Decidable.byContradiction
      intro hplain
      have hmark : '=' ∈ spell s := by
        refine List.mem_flatMap.mpr ⟨c, hc, ?_⟩
        rw [localpartChar_escaped hplain]
        exact List.mem_cons_self
      rw [h] at hmark
      exact isPlainChar_ne_mark (ht _ hmark) rfl
    rw [← h, spell_plain hs]
  · rintro rfl
    exact spell_plain ht

theorem emailToLocalpart_eq_bot_iff (cfg : Config) (a : String) :
    emailToLocalpart cfg a = botLocalpart ↔ cfg.toLowercase a = "bot" := by
  have hbot : botLocalpart = String.ofList ("_jmap_".toList ++ "bot".toList) := rfl
  have hplain : ∀ c ∈ "bot".toList, isPlainChar c = true := Str.forall_mem_of_all (by decide)
  rw [hbot]
  unfold emailToLocalpart
  rw [String.ofList_inj, List.append_right_inj]
  exact (spell_eq_plain_iff hplain).trans String.toList_inj

/-- Two correspondents with different addresses have different names, and the first of them
does not have the name of the bot. -/
def NamesApart (cfg : Config) (a b : String) : Prop :=
  (cfg.toLowercase a ≠ cfg.toLowercase b → emailToLocalpart cfg a ≠ emailToLocalpart cfg b) ∧
    emailToLocalpart cfg a ≠ botLocalpart

/-- Names are apart exactly when no code of an escaped character runs on into the text after
it, and the address is not `bot`. -/
theorem namesApart_iff (cfg : Config) (a b : String) :
    NamesApart cfg a b ↔
      (cfg.toLowercase a ≠ cfg.toLowercase b →
        ¬ SpelledAlike (cfg.toLowercase a).toList (cfg.toLowercase b).toList) ∧
      cfg.toLowercase a ≠ "bot" := by
  rw [NamesApart, Ne, Ne, Ne, emailToLocalpart_eq_iff, emailToLocalpart_eq_bot_iff]

/-- A Greek letter before a digit and an emoji have one ghost. -/
theorem greek_and_emoji_share_ghost : ¬ NamesApart {} "ὠ0@example.com" "😀@example.com" := by
  intro h
  exact h.1 (by decide +kernel) (by decide +kernel)

end JmapBridge
