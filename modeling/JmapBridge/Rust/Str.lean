import Mathlib.Algebra.Order.Ring.Nat
import Mathlib.Data.List.TakeWhile

/-! String slices as the Rust standard library has them. A `str` is the list of
its characters, offsets count UTF-8 bytes, and an operation that would panic
returns the panic. -/

namespace Rust

inductive Panic where
  | outOfRange
  | startAfterEnd
  | notCharBoundary
  | indexOutOfBounds
deriving DecidableEq, Repr

abbrev Str := List Char

namespace Str

/-- The Unicode property `White_Space`. -/
def isWhitespace (c : Char) : Bool :=
  (0x9 ≤ c.toNat && c.toNat ≤ 0xD) || c.toNat == 0x20 || c.toNat == 0x85 || c.toNat == 0xA0 ||
    c.toNat == 0x1680 || (0x2000 ≤ c.toNat && c.toNat ≤ 0x200A) || c.toNat == 0x2028 ||
    c.toNat == 0x2029 || c.toNat == 0x202F || c.toNat == 0x205F || c.toNat == 0x3000

def byteLen (s : Str) : Nat := (s.map Char.utf8Size).sum

@[simp] theorem byteLen_nil : byteLen [] = 0 := rfl

@[simp] theorem byteLen_cons (c : Char) (s : Str) : byteLen (c :: s) = c.utf8Size + byteLen s := by
  simp [byteLen]

@[simp] theorem byteLen_append (s t : Str) : byteLen (s ++ t) = byteLen s + byteLen t := by
  simp [byteLen]

/-- A property of all elements of a closed list is decided by going through the list. -/
theorem forall_mem_of_all {α : Type} {p : α → Prop} [DecidablePred p] {l : List α}
    (h : (l.all fun x => decide (p x)) = true) : ∀ x ∈ l, p x :=
  fun x hx => of_decide_eq_true (List.all_eq_true.mp h x hx)

/-- `split_at(n)`. -/
def splitAt : Nat → Str → Except Panic (Str × Str)
  | 0, s => .ok ([], s)
  | _ + 1, [] => .error .outOfRange
  | n + 1, c :: s =>
    if c.utf8Size ≤ n + 1 then
      (splitAt (n + 1 - c.utf8Size) s).map fun r => (c :: r.1, r.2)
    else .error .notCharBoundary
termination_by structural _ s => s

/-- `&s[n..]`. -/
def sliceFrom (n : Nat) (s : Str) : Except Panic Str := (splitAt n s).map (·.2)

/-- `&s[..n]`. -/
def sliceTo (n : Nat) (s : Str) : Except Panic Str := (splitAt n s).map (·.1)

/-- `&s[a..b]`. -/
def slice (a b : Nat) (s : Str) : Except Panic Str :=
  if b < a then .error .startAfterEnd else (sliceTo b s).bind (sliceFrom a)

theorem splitAt_byteLen (s t : Str) : splitAt (byteLen s) (s ++ t) = .ok (s, t) := by
  induction s with
  | nil => cases t <;> rfl
  | cons c s ih =>
    obtain ⟨n, hn⟩ : ∃ n, byteLen (c :: s) = n + 1 :=
      ⟨byteLen (c :: s) - 1, by have := c.utf8Size_pos; simp; omega⟩
    have hle : c.utf8Size ≤ n + 1 := by rw [← hn]; simp
    have hsub : n + 1 - c.utf8Size = byteLen s := by rw [← hn]; simp
    rw [hn, List.cons_append, splitAt, if_pos hle, hsub, ih]
    rfl

theorem sliceFrom_byteLen (s t : Str) : sliceFrom (byteLen s) (s ++ t) = .ok t := by
  simp [sliceFrom, splitAt_byteLen, Except.map]

theorem sliceTo_byteLen (s t : Str) : sliceTo (byteLen s) (s ++ t) = .ok s := by
  simp [sliceTo, splitAt_byteLen, Except.map]

def trimStart (s : Str) : Str := s.dropWhile isWhitespace

def trimEnd (s : Str) : Str := (s.reverse.dropWhile isWhitespace).reverse

def trim (s : Str) : Str := trimEnd (trimStart s)

def toAsciiLowercase (s : Str) : Str := s.map Char.toLower

def eqIgnoreAsciiCase (s t : Str) : Bool := toAsciiLowercase s == toAsciiLowercase t

/-- `s.split(c).next()`. -/
def splitNext (c : Char) (s : Str) : Str := s.takeWhile (· != c)

/-- `s.split(c)`, which is never empty. -/
def split (c : Char) : Str → List Str
  | [] => [[]]
  | d :: s =>
    if d = c then [] :: split c s
    else
      match split c s with
      | [] => [[d]]
      | w :: ws => (d :: w) :: ws

/-- `s.split_whitespace()`, with the word under way in reverse. -/
def splitWhitespaceFrom (word : Str) : Str → List Str
  | [] => if word.isEmpty then [] else [word.reverse]
  | c :: s =>
    if isWhitespace c then
      if word.isEmpty then splitWhitespaceFrom [] s else word.reverse :: splitWhitespaceFrom [] s
    else splitWhitespaceFrom (c :: word) s

def splitWhitespace (s : Str) : List Str := splitWhitespaceFrom [] s

/-- An unsigned decimal, as `str::parse` reads it. -/
def parseNat (s : Str) : Option Nat :=
  let digits := match s with
    | '+' :: ds => ds
    | ds => ds
  if digits.isEmpty || !digits.all Char.isDigit then none
  else some (digits.foldl (fun n c => 10 * n + (c.toNat - '0'.toNat)) 0)

def parseUsize (s : Str) : Option Nat := (parseNat s).filter (· < 2 ^ 64)

theorem parseNat_toString (n : Nat) : parseNat (toString n).toList = some n := by
  have hlist : (toString n).toList = Nat.toDigits 10 n := by
    simp [ToString.toString, Nat.repr]
  have hdigit : ∀ c ∈ Nat.toDigits 10 n, c.isDigit := fun c hc =>
    Nat.isDigit_of_mem_toDigits (by decide) (by decide) hc
  have hfold : (Nat.toDigits 10 n).foldl (fun n c => 10 * n + (c.toNat - '0'.toNat)) 0 = n := by
    rw [← Nat.ofDigitChars_eq_foldl, Nat.ofDigitChars_ten_toDigits]
  rw [hlist]
  cases hds : Nat.toDigits 10 n with
  | nil => exact absurd hds Nat.toDigits_ne_nil
  | cons d ds =>
    rw [hds] at hdigit hfold
    have hplus : d ≠ '+' := by
      rintro rfl
      have := hdigit '+' List.mem_cons_self
      simp [Char.isDigit] at this
    have hall : (d :: ds).all Char.isDigit := List.all_eq_true.mpr hdigit
    unfold parseNat
    split
    · rename_i heq
      cases heq
      exact absurd rfl hplus
    · simp only [hall, List.isEmpty_cons, Bool.not_true, Bool.or_false, Bool.false_eq_true,
        if_false]
      exact congrArg some hfold

theorem parseUsize_toString {n m : Nat} (h : parseUsize (toString n).toList = some m) : m = n := by
  simp only [parseUsize, parseNat_toString, Option.filter_some] at h
  split at h
  · exact (Option.some.inj h).symm
  · cases h

theorem parseUsize_toString_of_lt {n : Nat} (h : n < 2 ^ 64) :
    parseUsize (toString n).toList = some n := by
  rw [parseUsize, parseNat_toString, Option.filter_some, if_pos (by simpa using h)]

def parseI64 (s : Str) : Option Int :=
  match s with
  | '-' :: '+' :: _ => none
  | '-' :: ds => ((parseNat ds).filter (· ≤ 2 ^ 63)).map fun n => -(n : Int)
  | ds => ((parseNat ds).filter (· < 2 ^ 63)).map fun n => (n : Int)

end Str

end Rust
