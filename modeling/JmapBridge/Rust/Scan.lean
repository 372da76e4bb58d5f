import JmapBridge.Rust.Utf8

/-! Scanners: loops over a string by byte offsets, where a slice or an index may
panic and a loop may go on for ever. A computation takes the number of rounds each
of its loops may make, and has no result where that was too few. -/

namespace Rust

def Scan (α : Type) : Type := Nat → Option (Except Panic α)

/-- What one round of a loop comes to. -/
inductive Turn (σ β : Type) where
  | again (s : σ)
  | done (b : β)

namespace Scan

variable {α β σ : Type}

protected def pure (a : α) : Scan α := fun _ => some (.ok a)

protected def bind (x : Scan α) (f : α → Scan β) : Scan β := fun n =>
  match x n with
  | some (.ok a) => f a n
  | some (.error p) => some (.error p)
  | none => none

instance : Monad Scan where
  pure := Scan.pure
  bind := Scan.bind

theorem bind_def (x : Scan α) (f : α → Scan β) (n : Nat) :
    (x >>= f) n = match x n with
      | some (.ok a) => f a n
      | some (.error p) => some (.error p)
      | none => none := rfl

instance : LawfulMonad Scan := LawfulMonad.mk' _
  (fun x => by
    funext n
    change (x >>= fun a => pure (id a)) n = x n
    rw [bind_def]
    rcases x n with _ | _ | _ <;> rfl)
  (fun _ _ => rfl)
  (fun x f g => by
    funext n
    simp only [bind_def]
    rcases x n with _ | _ | _ <;> rfl)

def raise (p : Panic) : Scan α := fun _ => some (.error p)

/-- Up to `k` rounds of a loop whose own loops may make `n`. -/
def rounds (body : σ → Scan (Turn σ β)) (n : Nat) : Nat → σ → Option (Except Panic β)
  | 0, _ => none
  | k + 1, s =>
    match body s n with
    | some (.ok (.again s)) => rounds body n k s
    | some (.ok (.done b)) => some (.ok b)
    | some (.error p) => some (.error p)
    | none => none

def loop (body : σ → Scan (Turn σ β)) (s : σ) : Scan β := fun n => rounds body n n s

/-- `xs[i]`. -/
def index {α : Type} (xs : List α) (i : Nat) : Scan α :=
  match xs[i]? with
  | some a => pure a
  | none => raise .indexOutOfBounds

/-- `&xs[a..b]`. -/
def sliceList {α : Type} (xs : List α) (a b : Nat) : Scan (List α) :=
  if b < a then raise .startAfterEnd
  else if xs.length < b then raise .outOfRange
  else pure ((xs.take b).drop a)

def ofExcept : Except Panic α → Scan α
  | .ok a => pure a
  | .error p => raise p

/-- `&s[n..]`. -/
def sliceFrom (s : Str) (n : Nat) : Scan Str := ofExcept (Str.sliceFrom n s)

/-- `&s[..n]`. -/
def sliceTo (s : Str) (n : Nat) : Scan Str := ofExcept (Str.sliceTo n s)

/-- `&s[a..b]`. -/
def slice (s : Str) (a b : Nat) : Scan Str := ofExcept (Str.slice a b s)

/-- `s.truncate(n)`. -/
def truncate (s : Str) (n : Nat) : Scan Str :=
  if n ≤ Str.byteLen s then sliceTo s n else pure s

/-- The subtraction of two `usize`, which wraps. -/
def usizeSub (a b : Nat) : Nat := if b ≤ a then a - b else a + 2 ^ 64 - b

/-- The computation returns `a`, given enough rounds. -/
def Yields (x : Scan α) (a : α) : Prop := ∃ n, ∀ m, n ≤ m → x m = some (.ok a)

/-- It returns, without a panic, a value with `Q`. -/
def Ensures (x : Scan α) (Q : α → Prop) : Prop := ∃ a, x.Yields a ∧ Q a

abbrev Returns (x : Scan α) : Prop := x.Ensures fun _ => True

namespace Yields

theorem unique {x : Scan α} {a b : α} (ha : x.Yields a) (hb : x.Yields b) : a = b := by
  obtain ⟨n, hn⟩ := ha
  obtain ⟨m, hm⟩ := hb
  have h := (hn _ (Nat.le_max_left n m)).symm.trans (hm _ (Nat.le_max_right n m))
  cases h
  rfl

theorem pure (a : α) : (pure a : Scan α).Yields a := ⟨0, fun _ _ => rfl⟩

theorem bind {x : Scan α} {f : α → Scan β} {a : α} {b : β} (hx : x.Yields a)
    (hf : (f a).Yields b) : (x >>= f).Yields b := by
  obtain ⟨n, hn⟩ := hx
  obtain ⟨m, hm⟩ := hf
  refine ⟨max n m, fun k hk => ?_⟩
  rw [bind_def, hn k (by omega)]
  exact hm k (by omega)

theorem ensures {x : Scan α} {a : α} {Q : α → Prop} (h : x.Yields a) (hq : Q a) : x.Ensures Q :=
  ⟨a, h, hq⟩

end Yields

namespace Ensures

variable {P Q : α → Prop} {R : β → Prop}

theorem pure {a : α} (h : Q a) : (pure a : Scan α).Ensures Q := ⟨a, Yields.pure a, h⟩

theorem bind {x : Scan α} {f : α → Scan β} (hx : x.Ensures P) (hf : ∀ a, P a → (f a).Ensures R) :
    (x >>= f).Ensures R := by
  obtain ⟨a, ha, hp⟩ := hx
  obtain ⟨b, hb, hr⟩ := hf a hp
  exact ⟨b, ha.bind hb, hr⟩

theorem mono {x : Scan α} (hx : x.Ensures P) (h : ∀ a, P a → Q a) : x.Ensures Q := by
  obtain ⟨a, ha, hp⟩ := hx
  exact ⟨a, ha, h a hp⟩

theorem and {x : Scan α} (hp : x.Ensures P) (hq : x.Ensures Q) : x.Ensures fun a => P a ∧ Q a := by
  obtain ⟨a, ha, hpa⟩ := hp
  obtain ⟨b, hb, hqb⟩ := hq
  obtain rfl := ha.unique hb
  exact ⟨a, ha, hpa, hqb⟩

theorem of_yields {x : Scan α} {a : α} (h : x.Ensures Q) (ha : x.Yields a) : Q a := by
  obtain ⟨b, hb, hq⟩ := h
  exact ha.unique hb ▸ hq

end Ensures

/-- A round that goes on keeps `I` and makes the measure smaller, one that ends has `Q`. -/
def Turn.Meets (I : σ → Prop) (measure : σ → Nat) (bound : Nat) (Q : β → Prop) : Turn σ β → Prop
  | .again s => I s ∧ measure s < bound
  | .done b => Q b

theorem Ensures.loop {body : σ → Scan (Turn σ β)} {Q : β → Prop} (I : σ → Prop)
    (measure : σ → Nat) {s : σ} (hI : I s)
    (hbody : ∀ s, I s → (body s).Ensures (Turn.Meets I measure (measure s) Q)) :
    (loop body s).Ensures Q := by
  suffices h : ∃ b, Q b ∧ ∃ n, ∀ m, n ≤ m → ∀ k, n ≤ k → rounds body m k s = some (.ok b) by
    obtain ⟨b, hq, n, hn⟩ := h
    exact ⟨b, ⟨n, fun m hm => hn m hm m hm⟩, hq⟩
  induction hd : measure s using Nat.strong_induction_on generalizing s with
  | _ d ih =>
    obtain ⟨turn, ⟨n, hn⟩, hturn⟩ := hbody s hI
    cases turn with
    | done b =>
      refine ⟨b, hturn, n + 1, fun m hm k hk => ?_⟩
      obtain ⟨k, rfl⟩ : ∃ j, k = j + 1 := ⟨k - 1, by omega⟩
      rw [rounds, hn m (by omega)]
    | again s' =>
      obtain ⟨hI', hlt⟩ := hturn
      obtain ⟨b, hq, n', hn'⟩ := ih (measure s') (hd ▸ hlt) hI' rfl
      refine ⟨b, hq, max n n' + 1, fun m hm k hk => ?_⟩
      obtain ⟨k, rfl⟩ : ∃ j, k = j + 1 := ⟨k - 1, by omega⟩
      rw [rounds, hn m (by omega)]
      exact hn' m (by omega) k (by omega)

theorem index_of_getElem? {xs : List α} {i : Nat} {a : α} (h : xs[i]? = some a) :
    index xs i = pure a := by
  rw [index, h]

theorem sliceList_of_le (xs : List α) {a b : Nat} (hab : a ≤ b) (hb : b ≤ xs.length) :
    sliceList xs a b = pure ((xs.take b).drop a) := by
  rw [sliceList, if_neg (by omega), if_neg (by omega)]

theorem sliceFrom_rest {s t : Str} {i : Nat} (h : Str.Rest s i t) : sliceFrom s i = pure t := by
  rw [sliceFrom, h.sliceFrom]
  rfl

theorem slice_rest {s w u : Str} {i j : Nat} (h : Str.Rest s i (w ++ u))
    (hj : j = i + Str.byteLen w) : slice s i j = pure w := by
  rw [slice, hj, h.slice]
  rfl

theorem slice_between {s t u : Str} {i j : Nat} (h : Str.Rest s i t) (h' : Str.Rest s j u)
    (hij : i ≤ j) : ∃ w, t = w ++ u ∧ j = i + Str.byteLen w ∧ slice s i j = pure w := by
  obtain ⟨w, rfl, hj⟩ := h.between h' hij
  exact ⟨w, rfl, hj, slice_rest h hj⟩

theorem sliceTo_rest {s t : Str} {i : Nat} (h : Str.Rest s i t) :
    ∃ p, s = p ++ t ∧ sliceTo s i = pure p := by
  obtain ⟨p, hs, hp⟩ := h.sliceTo
  refine ⟨p, hs, ?_⟩
  rw [sliceTo, hp]
  rfl

theorem usizeSub_of_le {a b : Nat} (h : b ≤ a) : usizeSub a b = a - b := if_pos h

theorem Ensures.anyM {p : α → Scan Bool} (hp : ∀ a, (p a).Returns) (xs : List α) :
    (xs.anyM p).Returns := by
  induction xs with
  | nil => exact Ensures.pure trivial
  | cons a xs ih =>
    refine Ensures.bind (hp a) fun b _ => ?_
    cases b with
    | true => exact Ensures.pure trivial
    | false => exact ih

theorem Ensures.findM? {p : α → Scan Bool} {P : α → Bool → Prop} {xs : List α}
    (hp : ∀ a, a ∈ xs → (p a).Ensures (P a)) :
    (xs.findM? p).Ensures fun r => ∀ a, r = some a → a ∈ xs ∧ P a true := by
  induction xs with
  | nil => exact Ensures.pure fun a ha => by cases ha
  | cons a xs ih =>
    refine Ensures.bind (hp a List.mem_cons_self) fun b hb => ?_
    cases b with
    | true =>
      refine Ensures.pure fun c hc => ?_
      obtain rfl := Option.some.inj hc
      exact ⟨List.mem_cons_self, hb⟩
    | false =>
      refine (ih fun c hc => hp c (List.mem_cons_of_mem a hc)).mono fun r hr c hc => ?_
      obtain ⟨hmem, hyes⟩ := hr c hc
      exact ⟨List.mem_cons_of_mem a hmem, hyes⟩

theorem Ensures.findM?_eq {p : α → Scan Bool} {q : α → Bool} {xs : List α}
    (hp : ∀ a, a ∈ xs → (p a).Ensures fun b => b = q a) :
    (xs.findM? p).Ensures fun r => r = xs.find? q := by
  induction xs with
  | nil => exact Ensures.pure rfl
  | cons a xs ih =>
    refine Ensures.bind (hp a List.mem_cons_self) fun b hb => ?_
    subst hb
    rw [List.find?_cons]
    cases q a with
    | true => exact Ensures.pure rfl
    | false => exact ih fun c hc => hp c (List.mem_cons_of_mem a hc)

theorem Ensures.foldlM {f : β → α → Scan β} {I : β → Prop} {xs : List α}
    (hf : ∀ b a, a ∈ xs → I b → (f b a).Ensures I) {b : β} (hb : I b) :
    (xs.foldlM f b).Ensures I := by
  induction xs generalizing b with
  | nil => exact Ensures.pure hb
  | cons a xs ih =>
    exact Ensures.bind (hf b a List.mem_cons_self hb) fun c hc =>
      ih (fun d e he => hf d e (List.mem_cons_of_mem a he)) hc

/-! ### Loops over the positions of a string -/

/-- `i` is a position of `s`. -/
def Pos (s : Str) (i : Nat) : Prop := ∃ t, Str.Rest s i t

theorem Pos.start (s : Str) : Pos s 0 := ⟨s, Str.Rest.start s⟩

theorem Pos.finish (s : Str) : Pos s (Str.byteLen s) := ⟨[], Str.Rest.finish s⟩

theorem Pos.le {s : Str} {i : Nat} (h : Pos s i) : i ≤ Str.byteLen s := by
  obtain ⟨t, ht⟩ := h
  exact ht.le

/-- A round at `i` that goes on does so from a later position. -/
def Turn.Advances (s : Str) (pos : σ → Nat) (i : Nat) (Q : β → Prop) : Turn σ β → Prop
  | .again st => Pos s (pos st) ∧ i < pos st
  | .done b => Q b

theorem Ensures.scan {body : σ → Scan (Turn σ β)} {Q : β → Prop} (s : Str) (pos : σ → Nat) {st : σ}
    (hst : Pos s (pos st))
    (hbody : ∀ st, Pos s (pos st) → (body st).Ensures (Turn.Advances s pos (pos st) Q)) :
    (Scan.loop body st).Ensures Q := by
  refine Ensures.loop (fun st => Pos s (pos st)) (fun st => Str.byteLen s - pos st) hst ?_
  intro st hpos
  refine (hbody st hpos).mono fun turn hturn => ?_
  cases turn with
  | done b => exact hturn
  | again st' =>
    obtain ⟨hpos', hlt⟩ := hturn
    have hle := hpos'.le
    refine ⟨hpos', ?_⟩
    show Str.byteLen s - pos st' < Str.byteLen s - pos st
    omega

end Scan

end Rust
