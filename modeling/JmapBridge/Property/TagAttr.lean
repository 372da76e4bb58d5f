import JmapBridge.Property.FoldedCase

/-! The search for an attribute in the text of a tag, against the attributes the tag was
written from. What the search takes is the first place that looks like the attribute, and
a quoted value before it may look so. -/

namespace JmapBridge.Content

open Rust Rust.Str Rust.Scan

def attrBoundaryChar (c : Char) : Bool := blankChar c || c == '"' || c == '\'' || c == '/'

def spaceTab (c : Char) : Bool := c == ' ' || c == '\t'

/-- `y` begins with the name and a `=` after it. -/
def hitAt (name y : Str) : Bool :=
  startsFolded name y && ((y.drop name.length).dropWhile spaceTab).head? == some '='

/-- Where the name stands as an attribute for the first time, `b` telling whether it may
at the head. -/
def firstHit (name : Str) : Bool → Str → Option Str
  | _, [] => none
  | b, c :: s =>
    if b && hitAt name (c :: s) then some (c :: s) else firstHit name (attrBoundaryChar c) s

/-- What follows the `=` of a hit. -/
def valueText (name y : Str) : Str :=
  (((y.drop name.length).dropWhile spaceTab).drop 1).dropWhile blankChar

/-- A value and the text it starts. -/
def readValue : Str → Str × Str
  | [] => ([], [])
  | c :: z =>
    if c = '"' then (z.takeWhile (· != '"'), z)
    else if c = '\'' then (z.takeWhile (· != '\''), z)
    else ((c :: z).takeWhile fun d => !isUnquotedEnd d, c :: z)

/-- The value of the hit at `y` and its range in the tag. -/
def hitValue (tag name y : Str) : Str × Nat × Nat :=
  let r := readValue (valueText name y)
  (r.1, byteLen tag - byteLen r.2, byteLen tag - byteLen r.2 + byteLen r.1)

/-- A character that no attribute name has. -/
def nameChar (c : Char) : Bool :=
  !(c == ' ' || c == '\t' || c == '\n' || c == '\x0c' || c == '\r' || c == '"' || c == '\'' ||
    c == '/' || c == '=' || c == '>')

/-- The name of an attribute or an element. -/
structure Name where
  text : Str
  nonempty : text ≠ []
  valid : ∀ c ∈ text, nameChar c = true

/-! ### The search -/

theorem nameChar_boundary {c : Char} (h : nameChar c = true) : attrBoundaryChar c = false := by
  simp only [nameChar, Bool.not_eq_true', Bool.or_eq_false_iff] at h
  simp [attrBoundaryChar, blankChar, h]

theorem isAttrBoundary_readsChars : ReadsChars isAttrBoundary attrBoundaryChar :=
  ((isBlank_readsChars.or (readsChars_ascii (by decide))).or (readsChars_ascii (by decide))).or
    (readsChars_ascii (by decide))

theorem isAttrBoundary_ascii {b : UInt8} (h : isAttrBoundary b = true) : b < 128 := by
  simp only [isAttrBoundary, isBlank, Bool.or_eq_true, beq_iff_eq] at h
  rcases h with (((((rfl | rfl) | rfl) | rfl) | rfl) | rfl) | rfl <;> decide

theorem isAttrBoundary_mem {c : Char} {b : UInt8} (hb : b ∈ String.utf8EncodeChar c) :
    isAttrBoundary b = attrBoundaryChar c := by
  obtain ⟨e, xs, hc⟩ := List.exists_cons_of_ne_nil (String.utf8EncodeChar_ne_nil (c := c))
  have hread := isAttrBoundary_readsChars c e (by rw [hc]; rfl)
  by_cases hlt : b < 128
  · obtain ⟨hsingle, -, -⟩ := encode_of_ascii hb hlt
    rw [hc] at hsingle
    rw [← (List.cons.inj hsingle).1, hread]
  · have hbyte : isAttrBoundary b = false :=
      Bool.eq_false_iff.mpr fun h => hlt (isAttrBoundary_ascii h)
    have hhead : isAttrBoundary e = false := by
      refine Bool.eq_false_iff.mpr fun h => ?_
      obtain ⟨hsingle, -, -⟩ := encode_of_ascii (hc ▸ List.mem_cons_self) (isAttrBoundary_ascii h)
      rw [hsingle, List.mem_singleton] at hb
      exact hlt (hb ▸ isAttrBoundary_ascii h)
    rw [hbyte, ← hread, hhead]

/-- An attribute may begin after `x`. -/
def beforeOk (x : Str) : Bool := x.getLast?.all attrBoundaryChar

theorem attrStarts_after {tag x u : Str} (htag : tag = x ++ u) :
    (attrStarts (bytes tag) (byteLen x)).Ensures fun b => b = beforeOk x := by
  rw [attrStarts]
  rcases List.eq_nil_or_concat x with rfl | ⟨x, c, rfl⟩
  · rw [byteLen_nil, if_pos rfl]
    exact Ensures.pure rfl
  · rw [List.concat_eq_append] at htag ⊢
    have hsize := c.utf8Size_pos
    have hlen : byteLen (x ++ [c]) = byteLen x + c.utf8Size := by simp
    obtain ⟨b, hb, hmem⟩ : ∃ b, (bytes tag)[byteLen x + c.utf8Size - 1]? = some b ∧
        b ∈ String.utf8EncodeChar c := by
      have hencode := String.length_utf8EncodeChar c
      refine ⟨(String.utf8EncodeChar c)[c.utf8Size - 1], ?_, List.getElem_mem _⟩
      rw [htag, bytes_append, bytes_append, bytes_cons, bytes_nil, List.append_nil,
        List.getElem?_append_left (by simp; omega), List.getElem?_append_right (by simp; omega),
        length_bytes, show byteLen x + c.utf8Size - 1 - byteLen x = c.utf8Size - 1 by omega,
        List.getElem?_eq_getElem]
    rw [hlen, if_neg (by omega), usizeSub_of_le (by omega), index_of_getElem? hb, pure_bind]
    refine Ensures.pure ?_
    rw [isAttrBoundary_mem hmem]
    simp [beforeOk]

theorem firstHit_free {name p s : Str} (h : Free name p s) (x : Str) :
    firstHit name (beforeOk x) (p ++ s) = firstHit name (beforeOk (x ++ p)) s := by
  induction p generalizing x with
  | nil => rw [List.append_nil, List.nil_append]
  | cons c p ih =>
    have hno : hitAt name (c :: (p ++ s)) = false := by rw [hitAt, h.head, Bool.false_and]
    have hstep := ih h.tail (x ++ [c])
    rw [List.append_assoc, List.singleton_append] at hstep
    rw [List.cons_append, firstHit, hno, Bool.and_false, if_neg Bool.false_ne_true, ← hstep]
    simp [beforeOk]

theorem firstHit_names {name v w : Str} (hv : ∀ c ∈ v, attrBoundaryChar c = false) :
    firstHit name false (v ++ w) = firstHit name false w := by
  induction v with
  | nil => rfl
  | cons c v ih =>
    rw [List.cons_append, firstHit, Bool.false_and, if_neg Bool.false_ne_true,
      hv c List.mem_cons_self]
    exact ih fun d hd => hv d (List.mem_cons_of_mem c hd)

theorem beforeOk_names {x v : Str} (hne : v ≠ []) (hv : ∀ c ∈ v, attrBoundaryChar c = false) :
    beforeOk (x ++ v) = false := by
  obtain ⟨v, c, rfl⟩ := (List.eq_nil_or_concat v).resolve_left hne
  rw [List.concat_eq_append, ← List.append_assoc, beforeOk, List.getLast?_concat]
  exact hv c (by simp)

theorem sameFolded_boundary {c d : Char} (h : sameFolded c d = true)
    (hd : attrBoundaryChar d = false) : attrBoundaryChar c = false := by
  refine Bool.eq_false_iff.mpr fun hc => ?_
  have hlt : c.toNat < 65 := by
    simp only [attrBoundaryChar, blankChar, Bool.or_eq_true, beq_iff_eq] at hc
    rcases hc with (((((rfl | rfl) | rfl) | rfl) | rfl) | rfl) | rfl <;> decide
  rw [← eq_of_sameFolded h (Or.inl hlt), hc] at hd
  cases hd

theorem find_takeWhile (p : Char → Bool) (s : Str) :
    (find p s).getD (byteLen s) = byteLen (s.takeWhile fun c => !p c) := by
  induction s with
  | nil => rfl
  | cons c s ih =>
    rw [find, List.takeWhile_cons]
    by_cases hc : p c = true
    · simp [hc]
    · rw [if_neg hc]
      cases hfind : find p s with
      | none =>
        rw [hfind] at ih
        simpa [hc] using ih
      | some k =>
        rw [hfind] at ih
        simpa [hc] using ih

theorem attrValue_read {tag r : Str} {k : Nat} (hk : Rest tag k ('=' :: r)) :
    (attrValue tag k).Ensures fun found => found =
      let z := readValue (r.dropWhile blankChar)
      (z.1, byteLen tag - byteLen z.2, byteLen tag - byteLen z.2 + byteLen z.1) := by
  have hnext : Rest tag (k + 1) r := hk.next
  rw [attrValue]
  refine Ensures.bind (skipBytes_chars isBlank_ascii isBlank_readsChars hnext) fun j hskip => ?_
  obtain ⟨-, hj⟩ := hskip
  have hquote : ∃ q z, quoteAt (bytes tag) j = (byteLen tag - byteLen z, q) ∧
      Rest tag (byteLen tag - byteLen z) z ∧
      readValue (r.dropWhile blankChar) = (z.takeWhile (fun c => !endsValue q c), z) := by
    rw [quoteAt, hj.getElem?]
    cases hdrop : r.dropWhile blankChar with
    | nil =>
      rw [hdrop] at hj
      have hlen := hj.byteLen_eq
      rw [byteLen_nil] at hlen
      refine ⟨none, [], ?_, by simpa using Rest.finish tag, rfl⟩
      simp [hlen]
    | cons c z =>
      rw [hdrop] at hj
      obtain ⟨b, xs, hb⟩ := List.exists_cons_of_ne_nil (String.utf8EncodeChar_ne_nil (c := c))
      have hhead : (String.utf8EncodeChar c).head? = some b := by rw [hb]; rfl
      have hdouble : (b == '"'.toUInt8) = (c == '"') :=
        readsChars_ascii (d := '"') (by decide) c b hhead
      have hsingle : (b == '\''.toUInt8) = (c == '\'') :=
        readsChars_ascii (d := '\'') (by decide) c b hhead
      have hlen := hj.byteLen_eq
      rw [byteLen_cons] at hlen
      rw [bytes_cons, hb, List.cons_append, List.head?_cons]
      dsimp only
      rw [hdouble, hsingle]
      by_cases hd : c = '"'
      · subst hd
        have hsize : ('"' : Char).utf8Size = 1 := by decide
        have hstart : byteLen tag - byteLen z = j + 1 := by omega
        refine ⟨some '"', z, ?_, ?_, rfl⟩
        · rw [hstart]
          rfl
        · rw [hstart]
          exact hj.next
      · by_cases hs : c = '\''
        · subst hs
          have hsize : ('\'' : Char).utf8Size = 1 := by decide
          have hstart : byteLen tag - byteLen z = j + 1 := by omega
          refine ⟨some '\'', z, ?_, ?_, rfl⟩
          · rw [hstart]
            rfl
          · rw [hstart]
            exact hj.next
        · have hstart : byteLen tag - byteLen (c :: z) = j := by
            rw [byteLen_cons]
            omega
          refine ⟨none, c :: z, ?_, ?_, ?_⟩
          · rw [hstart, if_neg (by simpa using hd), if_neg (by simpa using hs)]
          · rw [hstart]
            exact hj
          · rw [readValue, if_neg hd, if_neg hs]
            rfl
  obtain ⟨q, z, hq, hz, hread⟩ := hquote
  have hlen := hz.byteLen_eq
  rw [hq, hread]
  dsimp only
  rw [sliceFrom_rest hz, pure_bind, usizeSub_of_le (by omega),
    show byteLen tag - (byteLen tag - byteLen z) = byteLen z by omega, find_takeWhile]
  have hsplit : Rest tag (byteLen tag - byteLen z)
      (z.takeWhile (fun c => !endsValue q c) ++ z.dropWhile fun c => !endsValue q c) := by
    rwa [List.takeWhile_append_dropWhile]
  rw [slice_rest hsplit rfl, pure_bind]
  exact Ensures.pure rfl

theorem spaceTab_readsChars : ReadsChars (fun b => b == 32 || b == 9) spaceTab :=
  (readsChars_ascii (d := ' ') (by decide)).or (readsChars_ascii (d := '\t') (by decide))

theorem spaceTab_ascii : ∀ b : UInt8, (b == 32 || b == 9) = true → b < 128 := by
  intro b hb
  simp only [Bool.or_eq_true, beq_iff_eq] at hb
  rcases hb with rfl | rfl <;> decide

theorem tagAttr_firstHit {name : String} (hne : name.toList ≠ [])
    (hascii : ∀ c ∈ name.toList, IsAscii c) (hvalid : ∀ c ∈ name.toList, nameChar c = true)
    (tag : Str) :
    (tagAttr tag name).Ensures fun r =>
      r = (firstHit name.toList true tag).map (hitValue tag name.toList) := by
  have hbytes : byteLen name.toList = name.toList.length := by
    rw [← length_bytes]
    exact length_bytes_ascii hascii
  rw [tagAttr]
  refine Ensures.loop
    (fun search => ∃ x t, tag = x ++ t ∧ byteLen x = search ∧
      firstHit name.toList true tag = firstHit name.toList (beforeOk x) t)
    (fun search => byteLen tag - search) ⟨[], tag, rfl, rfl, rfl⟩ ?_
  rintro search ⟨x, t, htag, rfl, hfirst⟩
  have ht : Rest tag (byteLen x) t := ⟨x, htag, rfl⟩
  have hle := ht.le
  rw [sliceList_of_le _ (by rwa [length_bytes]) le_rfl, pure_bind, List.take_length, ht.drop_bytes]
  refine Ensures.bind (findCi_rest hascii hne (Rest.start t)) fun rel hrel => ?_
  rcases hrel with ⟨rfl, hfree⟩ | ⟨p, u, rfl, rfl, hfree, hstart⟩
  · have hnone := firstHit_free hfree x
    rw [List.append_nil] at hnone
    refine Ensures.pure ?_
    show none = _
    rw [hfirst, hnone]
    rfl
  · rw [firstHit_free hfree] at hfirst
    have hxp : tag = (x ++ p) ++ u := by rw [htag, List.append_assoc]
    have hpos : byteLen x + (0 + byteLen p) = byteLen (x ++ p) := by
      rw [byteLen_append, Nat.zero_add]
    dsimp only
    rw [hpos]
    refine Ensures.bind (attrStarts_after hxp) fun before hbefore => ?_
    subst hbefore
    obtain ⟨v, w, rfl, hlen, hmatch⟩ := startsFolded_split hstart
    have hvlen : byteLen v = name.toList.length := by
      rw [← length_bytes, length_bytes_ascii (startsFolded_ascii hascii hlen hmatch), hlen]
    have hw : Rest tag (byteLen (x ++ p) + byteLen name.toList) w := by
      rw [hbytes, ← hvlen]
      exact Rest.append ⟨x ++ p, hxp, rfl⟩
    refine Ensures.bind (skipBytes_chars spaceTab_ascii spaceTab_readsChars hw) fun k hskip => ?_
    obtain ⟨-, hk⟩ := hskip
    have hdrop : (v ++ w).drop name.toList.length = w := by rw [← hlen, List.drop_left]
    have heq : ((bytes tag)[k]? == some '='.toUInt8) =
        ((w.dropWhile spaceTab).head? == some '=') := by
      rw [hk.getElem?]
      cases hdw : w.dropWhile spaceTab with
      | nil => rfl
      | cons c z =>
        obtain ⟨b, xs, hb⟩ := List.exists_cons_of_ne_nil (String.utf8EncodeChar_ne_nil (c := c))
        have hread := readsChars_ascii (d := '=') (by decide) c b (by rw [hb]; rfl)
        rw [bytes_cons, hb]
        exact hread
    have hcond : (beforeOk (x ++ p) && (bytes tag)[k]? == some '='.toUInt8) =
        (beforeOk (x ++ p) && hitAt name.toList (v ++ w)) := by
      rw [heq, hitAt, hstart, hdrop, Bool.true_and]
    rw [hcond]
    by_cases hhit : (beforeOk (x ++ p) && hitAt name.toList (v ++ w)) = true
    · rw [if_pos hhit]
      obtain ⟨hbefore, hhit'⟩ := Bool.and_eq_true_iff.mp hhit
      have hfound : firstHit name.toList true tag = some (v ++ w) := by
        rw [hfirst]
        cases hvw : v ++ w with
        | nil =>
          rw [hvw] at hhit'
          obtain ⟨d, m, hdm⟩ := List.exists_cons_of_ne_nil hne
          rw [hitAt, hdm, startsFolded] at hhit'
          cases hhit'
        | cons c s =>
          rw [hvw] at hhit
          rw [firstHit, if_pos hhit]
      obtain ⟨z, hz⟩ : ∃ z, w.dropWhile spaceTab = '=' :: z := by
        rw [hitAt, hdrop, Bool.and_eq_true, beq_iff_eq] at hhit'
        exact List.head?_eq_some_iff.mp hhit'.2
      rw [hz] at hk
      refine Ensures.bind (attrValue_read hk) fun found hf => ?_
      refine Ensures.pure ?_
      show some found = _
      rw [hfound, hf, Option.map_some, hitValue, valueText, hdrop, hz]
      rfl
    · rw [if_neg hhit]
      have hnames : ∀ c ∈ v, attrBoundaryChar c = false := by
        intro c hc
        obtain ⟨d, hd, hsame⟩ := mem_startsFolded hlen hmatch hc
        exact sameFolded_boundary hsame (nameChar_boundary (hvalid d hd))
      have hvne : v ≠ [] := by
        rintro rfl
        exact hne (List.eq_nil_of_length_eq_zero hlen.symm)
      have hpos : 0 < name.toList.length := List.length_pos_iff.mpr hne
      have hbound := hw.le
      refine Ensures.pure ⟨⟨x ++ p ++ v, w, by rw [hxp, List.append_assoc (x ++ p)], ?_, ?_⟩, ?_⟩
      · rw [byteLen_append, hbytes, hvlen]
      · rw [hfirst, beforeOk_names hvne hnames]
        obtain ⟨c, v, rfl⟩ := List.exists_cons_of_ne_nil hvne
        rw [List.cons_append] at hhit ⊢
        rw [firstHit, if_neg hhit, hnames c List.mem_cons_self]
        exact firstHit_names fun d hd => hnames d (List.mem_cons_of_mem c hd)
      · show byteLen tag - (byteLen (x ++ p) + byteLen name.toList) < byteLen tag - byteLen x
        rw [byteLen_append] at hbound ⊢
        omega

/-! ### Tags that are written -/

/-- A character of an unquoted value. -/
def bareChar (c : Char) : Bool :=
  !(c == ' ' || c == '\t' || c == '\n' || c == '\x0c' || c == '\r' || c == '"' || c == '\'' ||
    c == '=' || c == '<' || c == '>' || c == '`')

/-- A value in double quotes, in single quotes, or in none. -/
inductive Value where
  | double (v : Str) (h : '"' ∉ v)
  | single (v : Str) (h : '\'' ∉ v)
  | bare (v : Str) (hne : v ≠ []) (h : ∀ c ∈ v, bareChar c = true)

namespace Value

def content : Value → Str
  | double v _ => v
  | single v _ => v
  | bare v _ _ => v

/-- What stands between the `=` and the value. -/
def lead : Value → Str
  | double _ _ => ['"']
  | single _ _ => ['\'']
  | bare _ _ _ => []

/-- The value as it is written. -/
def text (x : Value) : Str := x.lead ++ (x.content ++ x.lead)

/-- Text in the quotes looks like the attribute called `name`. -/
def hides (name : Str) : Value → Bool
  | double v _ => (firstHit name true v).isSome
  | single v _ => (firstHit name true v).isSome
  | bare _ _ _ => false

/-- No character of an unquoted value ends it early. -/
def whole : Value → Bool
  | double _ _ => true
  | single _ _ => true
  | bare v _ _ => v.all fun c => !isUnquotedEnd c

end Value

structure Attr where
  name : Name
  value : Value

def Attr.text (a : Attr) : Str := ' ' :: (a.name.text ++ '=' :: a.value.text)

/-- An element with attributes of different names. -/
structure MarkupTag where
  element : Name
  attrs : List Attr
  distinct : attrs.Pairwise fun a b => Str.eqIgnoreAsciiCase a.name.text b.name.text = false

/-- Attributes as they are written, to the end of the tag. -/
def attrsText (l : List Attr) : Str := l.flatMap Attr.text ++ ['>']

def MarkupTag.text (t : MarkupTag) : Str := '<' :: (t.element.text ++ attrsText t.attrs)

/-- The value of the attribute called `name`, and its range where the first attribute
stands at `i`. -/
def lookup (name : Str) : Nat → List Attr → Option (Str × Nat × Nat)
  | _, [] => none
  | i, a :: l =>
    if Str.eqIgnoreAsciiCase a.name.text name then
      let start := i + byteLen (' ' :: (a.name.text ++ '=' :: a.value.lead))
      some (a.value.content, start, start + byteLen a.value.content)
    else lookup name (i + byteLen a.text) l

def MarkupTag.attr (t : MarkupTag) (name : Str) : Option (Str × Nat × Nat) :=
  lookup name (byteLen ('<' :: t.element.text)) t.attrs

/-- The attribute called `name` is written whole, and no quoted value before it looks like it. -/
def Readable (name : Str) : List Attr → Bool
  | [] => true
  | a :: l =>
    if Str.eqIgnoreAsciiCase a.name.text name then a.value.whole
    else !a.value.hides name && Readable name l

/-- The name of an attribute that is searched. -/
structure SoughtName where
  text : String
  nonempty : text.toList ≠ []
  ascii : ∀ c ∈ text.toList, IsAscii c
  valid : ∀ c ∈ text.toList, nameChar c = true

/-! ### Hits in what is written -/

section

variable {name : Str}

theorem nameChar_ne {c d : Char} (hc : nameChar c = true) (hd : nameChar d = false) : c ≠ d := by
  rintro rfl
  rw [hc] at hd
  cases hd

theorem not_mem_name (hname : ∀ c ∈ name, nameChar c = true) {d : Char} (hd : nameChar d = false) :
    d ∉ name := fun h => nameChar_ne (hname d h) hd rfl

theorem startsFolded_length {s : Str} (h : startsFolded name s = true) :
    name.length ≤ s.length := by
  obtain ⟨v, u, rfl, hlen, -⟩ := startsFolded_split h
  rw [List.length_append]
  omega

theorem eqIgnoreAsciiCase_iff (m : Str) :
    Str.eqIgnoreAsciiCase m name = true ↔ startsFolded name m = true ∧ m.length = name.length := by
  induction name generalizing m with
  | nil => cases m <;> simp [Str.eqIgnoreAsciiCase, toAsciiLowercase, startsFolded]
  | cons d name ih =>
    cases m with
    | nil => simp [Str.eqIgnoreAsciiCase, toAsciiLowercase, startsFolded]
    | cons c m =>
      have hih := ih m
      simp only [Str.eqIgnoreAsciiCase, toAsciiLowercase, beq_iff_eq] at hih
      simp [Str.eqIgnoreAsciiCase, toAsciiLowercase, startsFolded, sameFolded, hih, and_assoc]

theorem hitAt_other {d : Char} (hne : name ≠ []) (hname : ∀ c ∈ name, nameChar c = true)
    (hd : nameChar d = false) (hlt : d.toNat < 65) (s : Str) : hitAt name (d :: s) = false := by
  obtain ⟨e, m, rfl⟩ := List.exists_cons_of_ne_nil hne
  have hsame : sameFolded d e = false := by
    refine Bool.eq_false_iff.mpr fun h => ?_
    exact nameChar_ne (hname e List.mem_cons_self) hd (eq_of_sameFolded h (Or.inl hlt)).symm
  rw [hitAt, startsFolded, hsame, Bool.false_and, Bool.false_and]

/-- What may follow a value: the next attribute, or the end of the tag. -/
def Follow (s : Str) : Prop := s = ['>'] ∨ ∃ c u, s = ' ' :: c :: u ∧ nameChar c = true

theorem follow_attrsText (l : List Attr) : Follow (attrsText l) := by
  cases l with
  | nil => exact Or.inl rfl
  | cons a l =>
    obtain ⟨c, m, hm⟩ := List.exists_cons_of_ne_nil a.name.nonempty
    refine Or.inr ⟨c, m ++ '=' :: a.value.text ++ attrsText l, ?_, a.name.valid c (by simp [hm])⟩
    simp [attrsText, Attr.text, hm]

theorem dropWhile_head {y s : Str} {c : Char} (hy : y.head? = some c) (hc : spaceTab c = false) :
    ((y ++ s).dropWhile spaceTab).head? = some c := by
  obtain ⟨y, rfl⟩ := List.head?_eq_some_iff.mp hy
  rw [List.cons_append, List.dropWhile_cons_of_neg (by simp [hc])]
  rfl

theorem hitAt_follow (hname : ∀ c ∈ name, nameChar c = true) {y s : Str}
    (hy : ∀ c ∈ y, spaceTab c = false ∧ c ≠ '=') (hs : Follow s) : hitAt name (y ++ s) = false := by
  refine Bool.eq_false_iff.mpr fun hhit => ?_
  rw [hitAt, Bool.and_eq_true, beq_iff_eq] at hhit
  obtain ⟨hstart, hequals⟩ := hhit
  have hlen : name.length ≤ y.length := by
    refine startsFolded_length ?_
    rcases hs with rfl | ⟨c, u, rfl, -⟩
    · rwa [startsFolded_append_of_not_mem (by decide) (not_mem_name hname (by decide))] at hstart
    · rwa [startsFolded_append_of_not_mem (by decide) (not_mem_name hname (by decide))] at hstart
  rw [List.drop_append_of_le_length hlen] at hequals
  cases hdrop : y.drop name.length with
  | nil =>
    rw [hdrop, List.nil_append] at hequals
    rcases hs with rfl | ⟨c, u, rfl, hc⟩
    · exact absurd hequals (by decide)
    · have hspace : spaceTab c = false := by
        simp only [spaceTab, Bool.or_eq_false_iff, beq_eq_false_iff_ne]
        exact ⟨nameChar_ne hc (by decide), nameChar_ne hc (by decide)⟩
      rw [List.dropWhile_cons_of_pos (by decide), List.dropWhile_cons_of_neg (by simp [hspace]),
        List.head?_cons, Option.some.injEq] at hequals
      exact nameChar_ne hc (by decide) hequals
  | cons c z =>
    obtain ⟨hspace, hne⟩ := hy c (List.mem_of_mem_drop (i := name.length) (by rw [hdrop]; simp))
    rw [hdrop, dropWhile_head rfl hspace, Option.some.injEq] at hequals
    exact hne hequals

theorem hitAt_quote (hname : ∀ c ∈ name, nameChar c = true) {q : Char} (hq : q = '"' ∨ q = '\'')
    (y s : Str) : hitAt name (y ++ q :: s) = hitAt name y := by
  have hqname : q ∉ name := by
    rcases hq with rfl | rfl
    · exact not_mem_name hname (by decide)
    · exact not_mem_name hname (by decide)
  have hlt : q.toNat < 65 := by rcases hq with rfl | rfl <;> decide
  have hequals : q ≠ '=' := by rcases hq with rfl | rfl <;> decide
  have hspace : spaceTab q = false := by rcases hq with rfl | rfl <;> decide
  rw [hitAt, hitAt, startsFolded_append_of_not_mem hlt hqname]
  cases hstart : startsFolded name y with
  | false => rfl
  | true =>
    rw [List.drop_append_of_le_length (startsFolded_length hstart), Bool.true_and, Bool.true_and]
    generalize y.drop name.length = z
    induction z with
    | nil =>
      rw [List.nil_append, List.dropWhile_cons_of_neg (by simp [hspace])]
      simpa using hequals
    | cons c z ih =>
      by_cases hc : spaceTab c = true
      · rw [List.cons_append, List.dropWhile_cons_of_pos hc, List.dropWhile_cons_of_pos hc, ih]
      · rw [List.cons_append, List.dropWhile_cons_of_neg hc, List.dropWhile_cons_of_neg hc]
        rfl

theorem hitAt_name (hname : ∀ c ∈ name, nameChar c = true) {m : Str}
    (hm : ∀ c ∈ m, nameChar c = true) (s : Str) :
    hitAt name (m ++ '=' :: s) = Str.eqIgnoreAsciiCase m name := by
  rw [Bool.eq_iff_iff, eqIgnoreAsciiCase_iff, hitAt, Bool.and_eq_true, beq_iff_eq,
    startsFolded_append_of_not_mem (by decide) (not_mem_name hname (by decide))]
  refine and_congr_right fun hstart => ?_
  have hlen := startsFolded_length hstart
  rw [List.drop_append_of_le_length hlen]
  cases hdrop : m.drop name.length with
  | nil =>
    have hle := List.drop_eq_nil_iff.mp hdrop
    exact ⟨fun _ => by omega, fun _ => rfl⟩
  | cons c z =>
    have hc := hm c (List.mem_of_mem_drop (i := name.length) (by rw [hdrop]; simp))
    have hspace : spaceTab c = false := by
      simp only [spaceTab, Bool.or_eq_false_iff, beq_eq_false_iff_ne]
      exact ⟨nameChar_ne hc (by decide), nameChar_ne hc (by decide)⟩
    have hlong := congrArg List.length hdrop
    rw [List.length_drop, List.length_cons] at hlong
    rw [dropWhile_head rfl hspace, Option.some.injEq]
    exact ⟨fun h => absurd h (nameChar_ne hc (by decide)), fun h => by omega⟩

theorem firstHit_skip {b : Bool} {c : Char} {s : Str} (h : hitAt name (c :: s) = false) :
    firstHit name b (c :: s) = firstHit name (attrBoundaryChar c) s := by
  rw [firstHit, h, Bool.and_false, if_neg Bool.false_ne_true]

theorem firstHit_follow (hne : name ≠ []) (hname : ∀ c ∈ name, nameChar c = true) {s : Str}
    (hs : Follow s) (b : Bool) : firstHit name b s = firstHit name true s := by
  rcases hs with rfl | ⟨c, u, rfl, -⟩
  · have hno := hitAt_other (d := '>') hne hname (by decide) (by decide) []
    rw [firstHit_skip hno, firstHit_skip hno]
  · have hno := hitAt_other (d := ' ') hne hname (by decide) (by decide) (c :: u)
    rw [firstHit_skip hno, firstHit_skip hno]

theorem firstHit_pass (hne : name ≠ []) (hname : ∀ c ∈ name, nameChar c = true) {y s : Str}
    (hy : ∀ c ∈ y, spaceTab c = false ∧ c ≠ '=') (hs : Follow s) (b : Bool) :
    firstHit name b (y ++ s) = firstHit name true s := by
  induction y generalizing b with
  | nil => exact firstHit_follow hne hname hs b
  | cons c y ih =>
    have hno := hitAt_follow hname hy hs
    rw [List.cons_append] at hno ⊢
    rw [firstHit_skip hno]
    exact ih (fun d hd => hy d (List.mem_cons_of_mem c hd)) _

theorem firstHit_quoted (hne : name ≠ []) (hname : ∀ c ∈ name, nameChar c = true) {q : Char}
    (hq : q = '"' ∨ q = '\'') (b : Bool) (v s : Str) :
    firstHit name b (v ++ q :: s) =
      match firstHit name b v with
      | some y => some (y ++ q :: s)
      | none => firstHit name true s := by
  induction v generalizing b with
  | nil =>
    have hno : hitAt name (q :: s) = false := by
      rcases hq with rfl | rfl
      · exact hitAt_other hne hname (by decide) (by decide) s
      · exact hitAt_other hne hname (by decide) (by decide) s
    have hboundary : attrBoundaryChar q = true := by rcases hq with rfl | rfl <;> decide
    rw [List.nil_append, firstHit_skip hno, hboundary]
    rfl
  | cons c v ih =>
    have hsame := hitAt_quote hname hq (c :: v) s
    rw [List.cons_append] at hsame ⊢
    rw [firstHit, firstHit, hsame]
    by_cases hhit : (b && hitAt name (c :: v)) = true
    · rw [if_pos hhit, if_pos hhit]
      rfl
    · rw [if_neg hhit, if_neg hhit]
      exact ih _

theorem firstHit_attr (hne : name ≠ []) (hname : ∀ c ∈ name, nameChar c = true) {m : Name}
    (z : Str) :
    firstHit name true (' ' :: (m.text ++ '=' :: z)) =
      if Str.eqIgnoreAsciiCase m.text name then some (m.text ++ '=' ::
        z) else firstHit name false z := by
  rw [firstHit_skip (hitAt_other hne hname (by decide) (by decide) _),
    show attrBoundaryChar ' ' = true by decide]
  have hhit := hitAt_name hname m.valid z
  obtain ⟨c, w, hw⟩ := List.exists_cons_of_ne_nil m.nonempty
  have hvalid := m.valid
  rw [hw] at hhit hvalid ⊢
  rw [List.cons_append] at hhit ⊢
  rw [firstHit, hhit, Bool.true_and]
  refine if_congr Iff.rfl rfl ?_
  rw [nameChar_boundary (hvalid c List.mem_cons_self),
    firstHit_names fun d hd => nameChar_boundary (hvalid d (List.mem_cons_of_mem c hd))]
  rw [firstHit, Bool.false_and, if_neg Bool.false_ne_true]
  rfl

theorem firstHit_suffix {b : Bool} {v y : Str} (h : firstHit name b v = some y) :
    (∃ x, v = x ++ y) ∧ hitAt name y = true := by
  induction v generalizing b with
  | nil => cases h
  | cons c v ih =>
    rw [firstHit] at h
    split at h
    · rename_i hhit
      obtain rfl := Option.some.inj h
      exact ⟨⟨[], rfl⟩, (Bool.and_eq_true_iff.mp hhit).2⟩
    · obtain ⟨⟨x, rfl⟩, hhit⟩ := ih h
      exact ⟨⟨c :: x, rfl⟩, hhit⟩

theorem hitValue_hidden {tag y s : Str} {q : Char} (hq : q = '"' ∨ q = '\'')
    (hhit : hitAt name y = true) :
      (hitValue tag name (y ++ q :: s)).2.1 ≤ byteLen tag - byteLen s := by
  rw [hitAt, Bool.and_eq_true, beq_iff_eq] at hhit
  obtain ⟨z, hz⟩ := List.head?_eq_some_iff.mp hhit.2
  have hspace : ∀ (w : Str), w.dropWhile spaceTab = '=' :: z →
      (w ++ q :: s).dropWhile spaceTab = '=' :: (z ++ q :: s) := by
    intro w hw
    induction w with
    | nil => cases hw
    | cons c w ih =>
      by_cases hc : spaceTab c = true
      · rw [List.dropWhile_cons_of_pos hc] at hw
        rw [List.cons_append, List.dropWhile_cons_of_pos hc, ih hw]
      · rw [List.dropWhile_cons_of_neg hc] at hw
        rw [List.cons_append, List.dropWhile_cons_of_neg hc, ← List.cons_append, hw]
        rfl
  have hblank : blankChar q = false := by rcases hq with rfl | rfl <;> decide
  have hsuffix : ∃ x, valueText name (y ++ q :: s) = x ++ q :: s := by
    rw [valueText, List.drop_append_of_le_length (startsFolded_length hhit.1), hspace _ hz,
      List.drop_one, List.tail_cons]
    clear hz hspace
    induction z with
    | nil => exact ⟨[], List.dropWhile_cons_of_neg (by simp [hblank])⟩
    | cons c z ih =>
      by_cases hc : blankChar c = true
      · rw [List.cons_append, List.dropWhile_cons_of_pos hc]
        exact ih
      · exact ⟨c :: z, by rw [List.cons_append, List.dropWhile_cons_of_neg hc]⟩
  obtain ⟨x, hx⟩ := hsuffix
  have hread : byteLen s ≤ byteLen (readValue (valueText name (y ++ q :: s))).2 := by
    rw [hx]
    have htail : ∀ (c : Char) (u w : Str), x ++ q :: s = c :: u → (w = u ∨ w = c :: u) →
        byteLen s ≤ byteLen w := by
      rintro c u w hcu hw
      have hlen : byteLen s ≤ byteLen u := by
        cases x with
        | nil =>
          obtain ⟨-, rfl⟩ := List.cons.inj hcu
          exact le_rfl
        | cons d x =>
          obtain ⟨-, rfl⟩ := List.cons.inj hcu
          show byteLen s ≤ byteLen (x ++ q :: s)
          rw [byteLen_append, byteLen_cons]
          omega
      rcases hw with rfl | rfl
      · exact hlen
      · rw [byteLen_cons]
        omega
    cases hcu : x ++ q :: s with
    | nil => simp at hcu
    | cons c u =>
      refine htail c u _ hcu ?_
      rw [readValue]
      split
      · exact Or.inl rfl
      · split
        · exact Or.inl rfl
        · exact Or.inr rfl
  show byteLen tag - byteLen (readValue (valueText name (y ++ q :: s))).2 ≤ byteLen tag - byteLen s
  omega

theorem lookup_start {i s e : Nat} {l : List Attr} {v : Str}
    (h : lookup name i l = some (v, s, e)) :
    i < s := by
  induction l generalizing i with
  | nil => cases h
  | cons a l ih =>
    rw [lookup] at h
    split at h
    · obtain ⟨-, hs⟩ := Prod.mk.inj (Option.some.inj h)
      obtain ⟨rfl, -⟩ := Prod.mk.inj hs
      rw [byteLen_cons]
      have hsize := (' ' : Char).utf8Size_pos
      omega
    · have hle := ih h
      omega

theorem attrsText_cons (a : Attr) (l : List Attr) :
    attrsText (a :: l) = ' ' :: (a.name.text ++ '=' :: (a.value.text ++ attrsText l)) := by
  simp [attrsText, Attr.text]

theorem firstHit_other (hne : name ≠ []) (hname : ∀ c ∈ name, nameChar c = true) (x : Value)
    {s : Str} (hs : Follow s) :
    (x.hides name = true ∧ ∃ y q, (q = '"' ∨ q = '\'') ∧ hitAt name y = true ∧
        firstHit name false (x.text ++ s) = some (y ++ q :: s)) ∨
      (x.hides name = false ∧ firstHit name false (x.text ++ s) = firstHit name true s) := by
  have hquoted : ∀ q : Char, q = '"' ∨ q = '\'' → ∀ v : Str,
      firstHit name false ([q] ++ (v ++ [q]) ++ s) =
        match firstHit name true v with
        | some y => some (y ++ q :: s)
        | none => firstHit name true s := by
    intro q hq v
    have hno : hitAt name (q :: (v ++ q :: s)) = false := by
      rcases hq with rfl | rfl
      · exact hitAt_other hne hname (by decide) (by decide) _
      · exact hitAt_other hne hname (by decide) (by decide) _
    have hboundary : attrBoundaryChar q = true := by rcases hq with rfl | rfl <;> decide
    rw [show [q] ++ (v ++ [q]) ++ s = q :: (v ++ q :: s) by simp, firstHit_skip hno, hboundary,
      firstHit_quoted hne hname hq]
  have hcases : ∀ q : Char, (hq : q = '"' ∨ q = '\'') → ∀ v : Str,
      ((firstHit name true v).isSome = true ∧ ∃ y q', (q' = '"' ∨ q' = '\'') ∧ hitAt name y = true ∧
        firstHit name false ([q] ++ (v ++ [q]) ++ s) = some (y ++ q' :: s)) ∨
      ((firstHit name true v).isSome = false ∧
        firstHit name false ([q] ++ (v ++ [q]) ++ s) = firstHit name true s) := by
    intro q hq v
    rw [hquoted q hq v]
    cases hfirst : firstHit name true v with
    | none => exact Or.inr ⟨rfl, rfl⟩
    | some y => exact Or.inl ⟨rfl, y, q, hq, (firstHit_suffix hfirst).2, rfl⟩
  cases x with
  | double v h => exact hcases '"' (Or.inl rfl) v
  | single v h => exact hcases '\'' (Or.inr rfl) v
  | bare v hv h =>
    have hbare : ∀ c ∈ v, spaceTab c = false ∧ c ≠ '=' := by
      intro c hc
      have hc := h c hc
      simp only [bareChar, Bool.not_eq_true', Bool.or_eq_false_iff, beq_eq_false_iff_ne] at hc
      simp [spaceTab, hc]
    refine Or.inr ⟨rfl, ?_⟩
    rw [show Value.text (.bare v hv h) = v by simp [Value.text, Value.lead, Value.content]]
    exact firstHit_pass hne hname hbare hs false

/-- The value of the attribute itself is read whole or cut, from the place where it starts. -/
theorem readValue_written (x : Value) {s : Str} (hs : Follow s) :
    ∃ v, readValue ((x.text ++ s).dropWhile blankChar) = (v, x.content ++ (x.lead ++ s)) ∧
      (v = x.content ↔ x.whole = true) := by
  have hquoted : ∀ (q : Char) (v : Str), q ∉ v → (v ++ q :: s).takeWhile (· != q) = v := by
    intro q v hq
    have hpos : ∀ c ∈ v, (c != q) = true := fun c hc => bne_iff_ne.mpr fun h => hq (h ▸ hc)
    rw [List.takeWhile_append_of_pos hpos, List.takeWhile_cons_of_neg (by simp), List.append_nil]
  cases x with
  | double v h =>
    have htext : (Value.text (.double v h) ++ s).dropWhile blankChar = '"' :: (v ++ '"' :: s) := by
      simp only [Value.text, Value.lead, Value.content, List.cons_append, List.nil_append,
        List.append_assoc]
      exact List.dropWhile_cons_of_neg (by decide)
    refine ⟨v, ?_, fun _ => rfl, fun _ => rfl⟩
    rw [htext, readValue, if_pos rfl, hquoted '"' v h]
    rfl
  | single v h =>
    have htext :
        (Value.text (.single v h) ++ s).dropWhile blankChar = '\'' :: (v ++ '\'' :: s) := by
      simp only [Value.text, Value.lead, Value.content, List.cons_append, List.nil_append,
        List.append_assoc]
      exact List.dropWhile_cons_of_neg (by decide)
    refine ⟨v, ?_, fun _ => rfl, fun _ => rfl⟩
    rw [htext, readValue, if_neg (by decide), if_pos rfl, hquoted '\'' v h]
    rfl
  | bare v hv h =>
    obtain ⟨c, w, rfl⟩ := List.exists_cons_of_ne_nil hv
    have hc := h c List.mem_cons_self
    simp only [bareChar, Bool.not_eq_true', Bool.or_eq_false_iff, beq_eq_false_iff_ne] at hc
    have hblank : ¬ blankChar c = true := by simp [blankChar, hc]
    have htext : (Value.text (.bare (c :: w) hv h) ++ s).dropWhile blankChar = c :: (w ++ s) := by
      simp only [Value.text, Value.lead, Value.content, List.nil_append, List.append_nil,
        List.cons_append]
      exact List.dropWhile_cons_of_neg hblank
    have hend : ∃ d u, s = d :: u ∧ isUnquotedEnd d = true := by
      rcases hs with rfl | ⟨d, u, rfl, -⟩
      · exact ⟨'>', [], rfl, by decide⟩
      · exact ⟨' ', d :: u, rfl, by decide⟩
    obtain ⟨d, u, rfl, hd⟩ := hend
    refine ⟨((c :: w) ++ d :: u).takeWhile fun e => !isUnquotedEnd e, ?_, ?_, ?_⟩
    · rw [htext, readValue, if_neg (by simp [hc]), if_neg (by simp [hc])]
      rfl
    · intro heq
      show (c :: w).all (fun e => !isUnquotedEnd e) = true
      rw [List.all_eq_true]
      intro e he
      have heq : ((c :: w) ++ d :: u).takeWhile (fun e => !isUnquotedEnd e) = c :: w := heq
      rw [← heq] at he
      have hpass := List.mem_takeWhile_imp he
      exact hpass
    · intro hwhole
      have hwhole : (c :: w).all (fun e => !isUnquotedEnd e) = true := hwhole
      show ((c :: w) ++ d :: u).takeWhile (fun e => !isUnquotedEnd e) = c :: w
      rw [List.takeWhile_append_of_pos (List.all_eq_true.mp hwhole),
        List.takeWhile_cons_of_neg (by simp [hd]), List.append_nil]

theorem valueText_name {m : Str} (hsame : Str.eqIgnoreAsciiCase m name = true) (z : Str) :
    valueText name (m ++ '=' :: z) = z.dropWhile blankChar := by
  obtain ⟨-, hlen⟩ := (eqIgnoreAsciiCase_iff m).mp hsame
  rw [valueText, ← hlen, List.drop_left, List.dropWhile_cons_of_neg (by decide), List.drop_one,
    List.tail_cons]

theorem firstHit_lookup (hne : name ≠ []) (hname : ∀ c ∈ name, nameChar c = true) {tag p : Str}
    {l : List Attr} (htag : tag = p ++ attrsText l) :
    (firstHit name true (attrsText l)).map (hitValue tag name) = lookup name (byteLen p) l ↔
      Readable name l = true := by
  induction l generalizing p with
  | nil =>
    have hno := hitAt_other (d := '>') hne hname (by decide) (by decide) []
    show (firstHit name true ['>']).map _ = _ ↔ _
    rw [firstHit_skip hno]
    exact ⟨fun _ => rfl, fun _ => rfl⟩
  | cons a l ih =>
    have hfollow := follow_attrsText l
    have hlen : byteLen tag = byteLen p + byteLen (attrsText (a :: l)) := by
      rw [htag, byteLen_append]
    rw [attrsText_cons] at hlen ⊢
    rw [firstHit_attr hne hname, lookup, Readable]
    by_cases hsame : Str.eqIgnoreAsciiCase a.name.text name = true
    · rw [if_pos hsame, if_pos hsame, if_pos hsame]
      obtain ⟨v, hread, hwhole⟩ := readValue_written a.value hfollow
      have hvalue := valueText_name hsame (a.value.text ++ attrsText l)
      have hstart : byteLen tag - byteLen (a.value.content ++ (a.value.lead ++ attrsText l)) =
          byteLen p + byteLen (' ' :: (a.name.text ++ '=' :: a.value.lead)) := by
        simp only [Value.text, byteLen_cons, byteLen_append] at hlen ⊢
        omega
      rw [Option.map_some, hitValue, hvalue, hread]
      dsimp only
      rw [hstart, ← hwhole]
      constructor
      · intro heq
        exact (Prod.mk.inj (Option.some.inj heq)).1
      · intro heq
        rw [heq]
    · rw [if_neg hsame, if_neg hsame, if_neg hsame]
      have hnext : byteLen p + byteLen a.text = byteLen (p ++ a.text) := (byteLen_append _ _).symm
      have htag' : tag = (p ++ a.text) ++ attrsText l := by
        rw [htag, attrsText_cons, Attr.text]
        simp
      rw [hnext]
      rcases firstHit_other hne hname a.value hfollow with ⟨hhides, y, q, hq, hhit,
        hfirst⟩ | ⟨hhides, hfirst⟩
      · rw [hfirst, hhides, Option.map_some]
        refine ⟨fun heq => ?_, fun h => by cases h⟩
        -- The value starts before the next attribute does.
        have hle : (hitValue tag name (y ++ q :: attrsText l)).2.1 ≤
            byteLen tag - byteLen (attrsText l) := hitValue_hidden hq hhit
        have hlt := lookup_start (v := (hitValue tag name (y ++ q :: attrsText l)).1)
          (s := (hitValue tag name (y ++ q :: attrsText l)).2.1)
          (e := (hitValue tag name (y ++ q :: attrsText l)).2.2) heq.symm
        have htotal : byteLen tag = byteLen (p ++ a.text) + byteLen (attrsText l) := by
          rw [htag', byteLen_append]
        omega
      · rw [hfirst, hhides, Bool.not_false, Bool.true_and]
        exact ih htag'

end

/-- The search gives the attribute with its range exactly when its unquoted value has no
character that ends it early and no quoted value before it looks like it. -/
theorem tagAttr_attr_iff (t : MarkupTag) (name : SoughtName) :
    (tagAttr t.text name.text).Ensures (fun r => r = t.attr name.text.toList) ↔
      Readable name.text.toList t.attrs = true := by
  obtain ⟨r, hr, hfirst⟩ := tagAttr_firstHit name.nonempty name.ascii name.valid t.text
  have helement : firstHit name.text.toList true t.text =
      firstHit name.text.toList true (attrsText t.attrs) := by
    have hbare : ∀ c ∈ '<' :: t.element.text, spaceTab c = false ∧ c ≠ '=' := by
      intro c hc
      rcases List.mem_cons.mp hc with rfl | hc
      · decide
      · have hc := t.element.valid c hc
        simp only [nameChar, Bool.not_eq_true', Bool.or_eq_false_iff, beq_eq_false_iff_ne] at hc
        simp [spaceTab, hc]
    exact firstHit_pass name.nonempty name.valid hbare (follow_attrsText t.attrs) true
  have htag : t.text = ('<' :: t.element.text) ++ attrsText t.attrs := rfl
  rw [← firstHit_lookup name.nonempty name.valid htag, ← helement, ← hfirst]
  constructor
  · rintro ⟨r', hr', heq⟩
    rw [hr.unique hr']
    exact heq
  · exact fun h => ⟨r, hr, h⟩

def soughtSrc : SoughtName :=
  ⟨"src", by decide, forall_mem_of_all (by decide), forall_mem_of_all (by decide)⟩

/-- `<img src=http://x>`. -/
def bareImg : MarkupTag where
  element := ⟨"img".toList, by decide, forall_mem_of_all (by decide)⟩
  attrs := [⟨⟨"src".toList, by decide, forall_mem_of_all (by decide)⟩,
    .bare "http://x".toList (by decide) (forall_mem_of_all (by decide))⟩]
  distinct := by simp

/-- An unquoted URL is cut at its first slash. -/
theorem bare_url_is_cut : ¬ ∀ (t : MarkupTag) (name : SoughtName),
    (tagAttr t.text name.text).Ensures fun r => r = t.attr name.text.toList := by
  intro h
  obtain ⟨r, hr, hattr⟩ := h bareImg soughtSrc
  obtain ⟨r', hr', hfirst⟩ :=
    tagAttr_firstHit soughtSrc.nonempty soughtSrc.ascii soughtSrc.valid bareImg.text
  have hsame := hr.unique hr'
  rw [hattr, hfirst] at hsame
  exact absurd hsame (by decide +kernel)

end JmapBridge.Content
