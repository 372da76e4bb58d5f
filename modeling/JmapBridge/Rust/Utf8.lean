import JmapBridge.Rust.Str
import Mathlib.Data.List.Basic

/-! The bytes of a `str` and the offsets at which it may be sliced: a position is
what is left of the string there, and an ASCII byte always stands at one. -/

namespace Rust.Str

/-- `s.as_bytes()`. -/
def bytes (s : Str) : List UInt8 := s.flatMap String.utf8EncodeChar

@[simp] theorem bytes_nil : bytes [] = [] := rfl

@[simp] theorem bytes_cons (c : Char) (s : Str) :
    bytes (c :: s) = String.utf8EncodeChar c ++ bytes s := rfl

@[simp] theorem bytes_append (s t : Str) : bytes (s ++ t) = bytes s ++ bytes t := by
  simp [bytes]

@[simp] theorem length_bytes (s : Str) : (bytes s).length = byteLen s := by
  induction s with
  | nil => rfl
  | cons c s ih => simp [ih]

/-- `s.find(p)` with a predicate on characters. -/
def find (p : Char → Bool) : Str → Option Nat
  | [] => none
  | c :: s => if p c then some 0 else (find p s).map (c.utf8Size + ·)

/-- `s.rfind(p)`. -/
def rfind (p : Char → Bool) : Str → Option Nat
  | [] => none
  | c :: s => ((rfind p s).map (c.utf8Size + ·)).or (if p c then some 0 else none)

def startsWith (t s : Str) : Bool := t.isPrefixOf s

def endsWith (t s : Str) : Bool := t.isSuffixOf s

/-- `s.find(t)` with a string. -/
def findStr (t : Str) : Str → Option Nat
  | [] => if t.isEmpty then some 0 else none
  | c :: s => if startsWith t (c :: s) then some 0 else (findStr t s).map (c.utf8Size + ·)

def contains (t s : Str) : Bool := (findStr t s).isSome

def trimStartMatches (d : Char) (s : Str) : Str := s.dropWhile (· == d)

/-- `s.split(p).next()`, which is never absent. -/
def splitFirst (p : Char → Bool) (s : Str) : Str := s.takeWhile fun c => !p c

/-- `s.lines()`, with the line under way in reverse. -/
def linesFrom (line : Str) : Str → List Str
  | [] => if line.isEmpty then [] else [line.reverse]
  | c :: s =>
    if c = '\n' then
      (if line.head? = some '\r' then line.tail else line).reverse :: linesFrom [] s
    else linesFrom (c :: line) s

def lines (s : Str) : List Str := linesFrom [] s

def parseU32 (s : Str) : Option Nat := (parseNat s).filter (· < 2 ^ 32)

def isCharBoundary (s : Str) (n : Nat) : Bool := (splitAt n s).isOk

/-- `t` is what is left of `s` at the offset `i`. -/
def Rest (s : Str) (i : Nat) (t : Str) : Prop := ∃ p, s = p ++ t ∧ byteLen p = i

namespace Rest

variable {s t u : Str} {i j k : Nat} {c : Char}

theorem start (s : Str) : Rest s 0 s := ⟨[], rfl, rfl⟩

theorem finish (s : Str) : Rest s (byteLen s) [] := ⟨s, by simp, rfl⟩

theorem trans (h : Rest s i t) (h' : Rest t k u) : Rest s (i + k) u := by
  obtain ⟨p, rfl, rfl⟩ := h
  obtain ⟨q, rfl, rfl⟩ := h'
  exact ⟨p ++ q, by simp, by simp⟩

theorem after (w u : Str) : Rest (w ++ u) (byteLen w) u := ⟨w, rfl, rfl⟩

theorem append {w : Str} (h : Rest s i (w ++ u)) : Rest s (i + byteLen w) u := h.trans (after w u)

theorem next (h : Rest s i (c :: t)) : Rest s (i + c.utf8Size) t := by
  have h' := append (w := [c]) h
  simpa using h'

theorem byteLen_eq (h : Rest s i t) : byteLen s = i + byteLen t := by
  obtain ⟨p, rfl, rfl⟩ := h
  simp

theorem le (h : Rest s i t) : i ≤ byteLen s := by
  have := h.byteLen_eq
  omega

theorem sliceFrom (h : Rest s i t) : Str.sliceFrom i s = .ok t := by
  obtain ⟨p, rfl, rfl⟩ := h
  exact sliceFrom_byteLen p t

theorem unique {t' : Str} (h : Rest s i t) (h' : Rest s i t') : t = t' := by
  have heq := h.sliceFrom.symm.trans h'.sliceFrom
  exact Except.ok.inj heq

theorem eq_nil_iff (h : Rest s i t) : t = [] ↔ byteLen s ≤ i := by
  have hlen := h.byteLen_eq
  constructor
  · rintro rfl
    simp [hlen]
  · intro hle
    cases t with
    | nil => rfl
    | cons c t =>
      have := c.utf8Size_pos
      rw [byteLen_cons] at hlen
      omega

theorem exists_cons (h : Rest s i t) (hlt : i < byteLen s) : ∃ c u, t = c :: u := by
  cases t with
  | nil => exact absurd (h.eq_nil_iff.mp rfl) (by omega)
  | cons c u => exact ⟨c, u, rfl⟩

theorem between (h : Rest s i t) (h' : Rest s j u) (hij : i ≤ j) :
    ∃ w, t = w ++ u ∧ j = i + byteLen w := by
  obtain ⟨p, rfl, rfl⟩ := h
  obtain ⟨q, hq, rfl⟩ := h'
  rcases List.append_eq_append_iff.mp hq with ⟨a, rfl, rfl⟩ | ⟨a, rfl, rfl⟩
  · exact ⟨a, rfl, by simp⟩
  · have hnil : a = [] := by
      cases a with
      | nil => rfl
      | cons c a =>
        have := c.utf8Size_pos
        rw [byteLen_append, byteLen_cons] at hij
        omega
    subst hnil
    exact ⟨[], by simp, by simp⟩

theorem slice {w : Str} (h : Rest s i (w ++ u)) : Str.slice i (i + byteLen w) s = .ok w := by
  obtain ⟨p, rfl, rfl⟩ := h
  have hto : Str.sliceTo (byteLen p + byteLen w) (p ++ (w ++ u)) = .ok (p ++ w) := by
    have := sliceTo_byteLen (p ++ w) u
    simpa using this
  rw [Str.slice, if_neg (by omega), hto]
  exact sliceFrom_byteLen p w

theorem sliceTo (h : Rest s i t) : ∃ p, s = p ++ t ∧ Str.sliceTo i s = .ok p := by
  obtain ⟨p, rfl, rfl⟩ := h
  exact ⟨p, rfl, sliceTo_byteLen p t⟩

theorem drop_bytes (h : Rest s i t) : (bytes s).drop i = bytes t := by
  obtain ⟨p, rfl, rfl⟩ := h
  simp [← length_bytes]

theorem getElem? (h : Rest s i t) : (bytes s)[i]? = (bytes t).head? := by
  rw [← h.drop_bytes, List.head?_drop]

end Rest

theorem encode_of_ascii {c : Char} {b : UInt8} (hb : b ∈ String.utf8EncodeChar c) (hlt : b < 128) :
    String.utf8EncodeChar c = [b] ∧ c.toNat = b.toNat ∧ c.utf8Size = 1 := by
  have hsize := String.length_utf8EncodeChar c
  have hlt : b.toNat < 128 := hlt
  have hval : c.toNat = c.val.toNat := rfl
  unfold String.utf8EncodeChar at hb hsize ⊢
  simp only at hb hsize ⊢
  by_cases h1 : c.val.toNat ≤ 0x7f
  · rw [if_pos h1] at hb hsize ⊢
    obtain rfl := List.mem_singleton.mp hb
    refine ⟨rfl, ?_, hsize.symm⟩
    rw [hval, UInt8.toNat_ofNat']
    omega
  · exfalso
    by_cases h2 : c.val.toNat ≤ 0x7ff
    · rw [if_neg h1, if_pos h2] at hb
      simp only [List.mem_cons, List.not_mem_nil, or_false] at hb
      rcases hb with rfl | rfl <;> rw [UInt8.toNat_ofNat'] at hlt <;> omega
    · by_cases h3 : c.val.toNat ≤ 0xffff
      · rw [if_neg h1, if_neg h2, if_pos h3] at hb
        simp only [List.mem_cons, List.not_mem_nil, or_false] at hb
        rcases hb with rfl | rfl | rfl <;> rw [UInt8.toNat_ofNat'] at hlt <;> omega
      · rw [if_neg h1, if_neg h2, if_neg h3] at hb
        simp only [List.mem_cons, List.not_mem_nil, or_false] at hb
        rcases hb with rfl | rfl | rfl | rfl <;> rw [UInt8.toNat_ofNat'] at hlt <;> omega

theorem Rest.of_ascii {s : Str} {i : Nat} {b : UInt8} (hb : (bytes s)[i]? = some b)
    (hlt : b < 128) : ∃ c t, Rest s i (c :: t) ∧ c.toNat = b.toNat ∧ c.utf8Size = 1 := by
  induction s generalizing i with
  | nil => simp at hb
  | cons c s ih =>
    rw [bytes_cons, List.getElem?_append] at hb
    split at hb
    · obtain ⟨henc, hc, hsize⟩ := encode_of_ascii (List.mem_of_getElem? hb) hlt
      have hi : i = 0 := by
        rename_i hi
        rw [henc, List.length_singleton] at hi
        omega
      subst hi
      exact ⟨c, s, Rest.start _, hc, hsize⟩
    · rename_i hi
      rw [String.length_utf8EncodeChar] at hb hi
      obtain ⟨d, t, hrest, hd, hsize⟩ := ih hb
      have h := Rest.trans (Rest.after [c] s) hrest
      refine ⟨d, t, ?_, hd, hsize⟩
      rw [byteLen_cons, byteLen_nil] at h
      have hadd : c.utf8Size + 0 + (i - c.utf8Size) = i := by omega
      rwa [hadd] at h

theorem Rest.next_of_ascii {s : Str} {i : Nat} {b : UInt8} (hb : (bytes s)[i]? = some b)
    (hlt : b < 128) : ∃ t, Rest s (i + 1) t := by
  obtain ⟨c, t, hrest, -, hsize⟩ := Rest.of_ascii hb hlt
  exact ⟨t, hsize ▸ hrest.next⟩

theorem splitAt_rest {s p t : Str} {n : Nat} (h : splitAt n s = .ok (p, t)) :
    s = p ++ t ∧ byteLen p = n := by
  induction s generalizing n p t with
  | nil =>
    cases n with
    | zero => cases h; exact ⟨rfl, rfl⟩
    | succ n => cases h
  | cons c s ih =>
    cases n with
    | zero => cases h; exact ⟨rfl, rfl⟩
    | succ n =>
      rw [splitAt] at h
      split at h
      · rename_i hle
        cases hs : splitAt (n + 1 - c.utf8Size) s with
        | error e => rw [hs] at h; cases h
        | ok r =>
          rw [hs] at h
          obtain ⟨hr, hlen⟩ := ih hs
          cases h
          refine ⟨by rw [List.cons_append, ← hr], ?_⟩
          rw [byteLen_cons, hlen]
          omega
      · cases h

theorem isCharBoundary_rest {s : Str} {n : Nat} (h : isCharBoundary s n = true) :
    ∃ t, Rest s n t := by
  rw [isCharBoundary] at h
  cases hs : splitAt n s with
  | error e => rw [hs] at h; cases h
  | ok r =>
    obtain ⟨p, t⟩ := r
    obtain ⟨heq, hlen⟩ := splitAt_rest hs
    exact ⟨t, p, heq, hlen⟩

theorem find_rest {p : Char → Bool} {s : Str} {k : Nat} (h : find p s = some k) :
    ∃ c t, Rest s k (c :: t) ∧ p c := by
  induction s generalizing k with
  | nil => cases h
  | cons d s ih =>
    rw [find] at h
    split at h
    · rename_i hd
      obtain rfl := Option.some.inj h
      exact ⟨d, s, Rest.start _, hd⟩
    · obtain ⟨k, hk, rfl⟩ := Option.map_eq_some_iff.mp h
      obtain ⟨c, t, hrest, hc⟩ := ih hk
      have h := Rest.trans (Rest.after [d] s) hrest
      exact ⟨c, t, by simpa using h, hc⟩

theorem rfind_rest {p : Char → Bool} {s : Str} {k : Nat} (h : rfind p s = some k) :
    ∃ c t, Rest s k (c :: t) ∧ p c := by
  induction s generalizing k with
  | nil => cases h
  | cons d s ih =>
    rw [rfind, Option.or_eq_some_iff] at h
    rcases h with h | ⟨-, h⟩
    · obtain ⟨k, hk, rfl⟩ := Option.map_eq_some_iff.mp h
      obtain ⟨c, t, hrest, hc⟩ := ih hk
      have h := Rest.trans (Rest.after [d] s) hrest
      exact ⟨c, t, by simpa using h, hc⟩
    · split at h
      · rename_i hd
        obtain rfl := Option.some.inj h
        exact ⟨d, s, Rest.start _, hd⟩
      · cases h

theorem startsWith_iff {t s : Str} : startsWith t s = true ↔ ∃ u, s = t ++ u := by
  rw [startsWith, List.isPrefixOf_iff_prefix]
  exact ⟨fun ⟨u, hu⟩ => ⟨u, hu.symm⟩, fun ⟨u, hu⟩ => ⟨u, hu.symm⟩⟩

theorem findStr_rest {t s : Str} {k : Nat} (h : findStr t s = some k) :
    ∃ u, Rest s k (t ++ u) := by
  induction s generalizing k with
  | nil =>
    rw [findStr] at h
    split at h
    · rename_i ht
      obtain rfl := Option.some.inj h
      exact ⟨[], by simpa [List.isEmpty_iff.mp ht] using Rest.start []⟩
    · cases h
  | cons d s ih =>
    rw [findStr] at h
    split at h
    · rename_i hd
      obtain rfl := Option.some.inj h
      obtain ⟨u, hu⟩ := startsWith_iff.mp hd
      exact ⟨u, hu ▸ Rest.start _⟩
    · obtain ⟨k, hk, rfl⟩ := Option.map_eq_some_iff.mp h
      obtain ⟨u, hrest⟩ := ih hk
      have h := Rest.trans (Rest.after [d] s) hrest
      exact ⟨u, by simpa using h⟩

end Rust.Str
