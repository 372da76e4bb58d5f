import JmapBridge.Property.Tags

/-! Reply quotes against the tree of a body's blockquotes. The scan of a reply quote counts
the names it meets, also those in the text of an open tag inside it: where the count comes
to zero at the quote's own close tag, the quote goes with all it holds and nothing else. -/

namespace JmapBridge.Content

open Rust Rust.Str Rust.Scan

def quoteOpen : Str := "<blockquote".toList

def quoteClose : Str := "</blockquote".toList

/-! ### The two scans -/

/-- With `d` quotes open, the scan of a reply quote comes from the first text to the second. -/
inductive Skips : Nat → Str → Str → Prop
  | done (s : Str) : Skips 0 s s
  | chr {d : Nat} {c : Char} {s v : Str} (hd : 0 < d)
    (hopen : startsFolded quoteOpen (c :: s) = false)
      (hclose : startsFolded quoteClose (c :: s) = false) (h : Skips d s v) : Skips d (c :: s) v
  | opn {d : Nat} {c : Char} {s v : Str} (hd : 0 < d) (hlt : d + 1 < 2 ^ 32)
      (hopen : startsFolded quoteOpen (c :: s) = true) (h : Skips (d + 1) s v) : Skips d (c :: s) v
  | cls {d : Nat} {s t u v : Str} (hd : 0 < d) (hs : s = t ++ u) (ht : IsTag t)
      (hclose : startsFolded quoteClose s = true) (h : Skips (d - 1) u v) : Skips d s v

/-- The scan of a body writes the second text for the first. -/
inductive Strips : Str → Str → Prop
  | nil : Strips [] []
  | chr {c : Char} {s r : Str} (hopen : startsFolded quoteOpen (c :: s) = false) (h : Strips s r) :
      Strips (c :: s) (c :: r)
  | keep {s o u r : Str} (hs : s = o ++ u) (ho : IsTag o) (hopen : startsFolded quoteOpen s = true)
      (hreply : isReplyTag o = false) (h : Strips u r) : Strips s (o ++ r)
  | drop {s o u v r : Str} (hs : s = o ++ u) (ho : IsTag o)
    (hopen : startsFolded quoteOpen s = true)
      (hreply : isReplyTag o = true) (hskip : Skips 1 u v) (h : Strips v r) : Strips s r

theorem quoteOpen_ascii : ∀ c ∈ quoteOpen, IsAscii c := forall_mem_of_all (by decide)

theorem quoteClose_ascii : ∀ c ∈ quoteClose, IsAscii c := forall_mem_of_all (by decide)

/-- What a search for `name` from a text `t` at `start` finds. -/
def FindsFirst (name t : Str) (start : Nat) (r : Option Nat) : Prop :=
  (r = none ∧ Free name t []) ∨
    ∃ p u, t = p ++ u ∧ r = some (start + byteLen p) ∧ Free name p u ∧ startsFolded name u = true

theorem findOpen_rest {html t : Str} {start : Nat} (ht : Rest html start t) :
    (findCi (bytes html) blockquoteOpen start).Ensures (FindsFirst quoteOpen t start) :=
  findCi_rest quoteOpen_ascii (by decide) ht

theorem findClose_rest {html t : Str} {start : Nat} (ht : Rest html start t) :
    (findCi (bytes html) blockquoteClose start).Ensures (FindsFirst quoteClose t start) :=
  findCi_rest quoteClose_ascii (by decide) ht

theorem startsFolded_of_ne {m s : Str} {c : Char} (hc : c ≠ '<') :
    startsFolded ('<' :: m) (c :: s) = false := by
  rw [startsFolded]
  have hsame : sameFolded c '<' = false :=
    Bool.eq_false_iff.mpr fun h => hc (eq_of_sameFolded h (Or.inr (by decide)))
  rw [hsame, Bool.false_and]

theorem free_of_not_mem {m p : Str} (hp : '<' ∉ p) (s : Str) : Free ('<' :: m) p s := by
  intro a b hab hb
  obtain ⟨c, b, rfl⟩ := List.exists_cons_of_ne_nil hb
  refine startsFolded_of_ne ?_
  rintro rfl
  exact hp (by rw [hab]; simp)

theorem quoteOpen_eq : quoteOpen = '<' :: "blockquote".toList := by decide

theorem quoteClose_eq : quoteClose = '<' :: '/' :: "blockquote".toList := by decide

theorem open_ne_close {s : Str} (h : startsFolded quoteClose s = true) :
    startsFolded quoteOpen s = false := by
  have hname : "blockquote".toList = 'b' :: "lockquote".toList := by decide
  cases s with
  | nil =>
    rw [quoteClose_eq] at h
    cases h
  | cons c s =>
    cases s with
    | nil =>
      rw [quoteClose_eq, startsFolded, startsFolded, Bool.and_false] at h
      cases h
    | cons d s =>
      rw [quoteClose_eq, startsFolded, startsFolded, Bool.and_eq_true, Bool.and_eq_true] at h
      obtain rfl : d = '/' := eq_of_sameFolded h.2.1 (Or.inr (by decide))
      have hsame : sameFolded '/' 'b' = false := by decide
      rw [quoteOpen_eq, hname, startsFolded, startsFolded, hsame, Bool.false_and, Bool.and_false]

namespace Skips

variable {d : Nat} {s v : Str}

theorem nil (hd : 0 < d) : ¬ Skips d [] v := by
  intro h
  cases h with
  | done => exact absurd hd (Nat.lt_irrefl 0)
  | cls _ hs ht _ _ =>
    have hlen := congrArg List.length hs
    have hpos := ht.length_pos
    rw [List.length_append, List.length_nil] at hlen
    omega

theorem of_free {p : Str} (hd : 0 < d) (hopen : Free quoteOpen p s) (hclose : Free quoteClose p s)
    (h : Skips d (p ++ s) v) : Skips d s v := by
  induction p with
  | nil => exact h
  | cons c p ih =>
    rw [List.cons_append] at h
    cases h with
    | done => exact absurd hd (Nat.lt_irrefl 0)
    | chr _ _ _ h => exact ih hopen.tail hclose.tail h
    | opn _ _ hyes _ =>
      rw [hopen.head] at hyes
      cases hyes
    | cls _ _ _ hyes _ =>
      rw [hclose.head] at hyes
      cases hyes

theorem at_open (hd : 0 < d) (hopen : startsFolded quoteOpen s = true) (h : Skips d s v) :
    ∃ w y, s = w ++ y ∧ byteLen w = quoteOpen.length ∧ d + 1 < 2 ^ 32 ∧ Skips (d + 1) y v := by
  obtain ⟨w, y, rfl, hlen, hw⟩ := startsFolded_split hopen
  have hbytes := length_bytes_ascii (startsFolded_ascii quoteOpen_ascii hlen hw)
  rw [length_bytes, hlen] at hbytes
  refine ⟨w, y, rfl, hbytes, ?_⟩
  obtain ⟨c, w, rfl⟩ := List.exists_cons_of_length_pos (l := w) (by rw [hlen]; decide)
  rw [List.cons_append] at h hopen
  cases h with
  | done => exact absurd hd (Nat.lt_irrefl 0)
  | chr _ hno _ _ =>
    rw [hopen] at hno
    cases hno
  | cls _ _ _ hyes _ =>
    rw [open_ne_close hyes] at hopen
    cases hopen
  | opn _ hlt _ h =>
    -- The rest of the name holds no `<`.
    have hrest : '<' ∉ w := by
      intro hmem
      have hw : startsFolded "blockquote".toList w = true := (Bool.and_eq_true_iff.mp hw).2
      obtain ⟨e, he, hsame⟩ := mem_startsFolded (Nat.succ.inj hlen) hw hmem
      rw [← eq_of_sameFolded hsame (Or.inl (by decide))] at he
      exact absurd he (by decide)
    exact ⟨hlt, of_free (Nat.succ_pos d) (free_of_not_mem hrest y) (free_of_not_mem hrest y) h⟩

theorem at_close (hd : 0 < d) (hclose : startsFolded quoteClose s = true) (h : Skips d s v) :
    ∃ t y, s = t ++ y ∧ IsTag t ∧ Skips (d - 1) y v := by
  cases h with
  | done => exact absurd hd (Nat.lt_irrefl 0)
  | chr _ _ hno _ =>
    rw [hclose] at hno
    cases hno
  | opn _ _ hyes _ =>
    rw [open_ne_close hclose] at hyes
    cases hyes
  | cls _ hs ht _ h => exact ⟨_, _, hs, ht, h⟩

end Skips

theorem skipQuote_rest {html s v : Str} {j : Nat} (hs : Rest html j s) (h : Skips 1 s v) :
    (skipQuote html j).Ensures fun k => Rest html k v := by
  rw [skipQuote]
  refine Ensures.loop
    (fun st : Nat × UInt32 => ∃ s, Rest html st.1 s ∧ Skips st.2.toNat s v)
    (fun st => byteLen html - st.1) ⟨s, hs, h⟩ ?_
  rintro ⟨j, depth⟩ ⟨s, hs, h⟩
  have hs : Rest html j s := hs
  have h : Skips depth.toNat s v := h
  dsimp only
  by_cases hzero : depth = 0
  · subst hzero
    have hcond : ¬ (j < (bytes html).length && (0 : UInt32) < 0) = true := by simp
    rw [if_neg hcond]
    have hv : s = v := by
      generalize hd : (0 : UInt32).toNat = d at h
      cases h with
      | done => rfl
      | chr hd' => exact absurd (hd ▸ hd') (by decide)
      | opn hd' => exact absurd (hd ▸ hd') (by decide)
      | cls hd' => exact absurd (hd ▸ hd') (by decide)
    exact Ensures.pure (hv ▸ hs)
  · have hd : 0 < depth.toNat := by
      refine Nat.pos_of_ne_zero fun hz => hzero ?_
      rw [← UInt32.toNat_inj]
      exact hz
    have hlt : j < byteLen html := by
      refine Decidable.byContradiction fun hge => ?_
      rw [hs.eq_nil_iff.mpr (Nat.not_lt.mp hge)] at h
      exact h.nil hd
    have hcond : (j < (bytes html).length && (0 : UInt32) < depth) = true := by
      rw [length_bytes, Bool.and_eq_true, decide_eq_true_eq, decide_eq_true_eq,
        UInt32.lt_iff_toNat_lt]
      exact ⟨hlt, hd⟩
    rw [if_pos hcond]
    -- What a round does at the first name, an open or a close one.
    have hopened : ∀ p u, s = p ++ u → Free quoteOpen p u → Free quoteClose p u →
        startsFolded quoteOpen u = true →
        (∃ s', Rest html (j + byteLen p + quoteOpen.length) s' ∧ Skips (depth + 1).toNat s' v) ∧
          byteLen html - (j + byteLen p + quoteOpen.length) < byteLen html - j := by
      rintro p u rfl hopen hclose hu
      obtain ⟨w, y, rfl, hlen, hbound, hnext⟩ := (h.of_free hd hopen hclose).at_open hd hu
      have hy := hs.append.append
      rw [hlen] at hy
      have hle := hy.le
      have hpos : 0 < quoteOpen.length := by decide
      refine ⟨⟨y, hy, ?_⟩, by omega⟩
      rwa [UInt32.toNat_add, show (1 : UInt32).toNat = 1 from rfl, Nat.mod_eq_of_lt hbound]
    have hclosed : ∀ p u, s = p ++ u → Free quoteOpen p u → Free quoteClose p u →
        startsFolded quoteClose u = true →
        ∃ stop, tagEnd html (j + byteLen p) = pure stop ∧
          (∃ s', Rest html stop s' ∧ Skips (depth - 1).toNat s' v) ∧
          byteLen html - stop < byteLen html - j := by
      rintro p u rfl hopen hclose hu
      obtain ⟨t, y, rfl, ht, hnext⟩ := (h.of_free hd hopen hclose).at_close hd hu
      have hle := hs.append.append.le
      have hpos : 0 < byteLen t := by
        obtain ⟨w, rfl, -⟩ := ht
        rw [byteLen_cons]
        exact Nat.lt_of_lt_of_le ('<' : Char).utf8Size_pos (Nat.le_add_right _ _)
      refine ⟨_, tagEnd_tag ht hs.append, ⟨y, hs.append.append, ?_⟩, by omega⟩
      have hsub : (depth - 1).toNat = depth.toNat - 1 :=
        UInt32.toNat_sub_of_le depth 1 (UInt32.le_iff_toNat_le.mpr hd)
      rwa [hsub]
    have hlength : blockquoteOpen.length = quoteOpen.length := length_bytes_ascii quoteOpen_ascii
    refine Ensures.bind (findOpen_rest hs) fun nextOpen hnextOpen => ?_
    refine Ensures.bind (findClose_rest hs) fun nextClose hnextClose => ?_
    rcases hnextOpen with ⟨rfl, hfreeOpen⟩ | ⟨p, u, hpu, rfl, hpOpen, huOpen⟩
    · rcases hnextClose with ⟨rfl, hfreeClose⟩ | ⟨q, u', hqu, rfl, hqClose, huClose⟩
      · rw [← List.append_nil s] at h
        exact absurd (h.of_free hd hfreeOpen hfreeClose) (Skips.nil hd)
      · obtain ⟨stop, hstop, hinv, hdec⟩ :=
          hclosed q u' hqu (by rw [hqu] at hfreeOpen; exact hfreeOpen.of_nil) hqClose huClose
        dsimp only
        rw [hstop, pure_bind]
        exact Ensures.pure ⟨hinv, hdec⟩
    · rcases hnextClose with ⟨rfl, hfreeClose⟩ | ⟨q, u', hqu, rfl, hqClose, huClose⟩
      · dsimp only
        rw [hlength]
        exact Ensures.pure
          (hopened p u hpu hpOpen (by rw [hpu] at hfreeClose; exact hfreeClose.of_nil) huOpen)
      · dsimp only
        have hpRest : Rest html (j + byteLen p) u := by
          rw [hpu] at hs
          exact hs.append
        have hqRest : Rest html (j + byteLen q) u' := by
          rw [hqu] at hs
          exact hs.append
        by_cases horder : j + byteLen p < j + byteLen q
        · obtain ⟨x, rfl, -⟩ := hpRest.between hqRest horder.le
          rw [if_pos horder, hlength]
          refine Ensures.pure (hopened p _ hpu hpOpen ?_ huOpen)
          have hqp : q = p ++ x := by
            rw [hpu, ← List.append_assoc] at hqu
            exact (List.append_cancel_right hqu).symm
          rw [hqp] at hqClose
          exact hqClose.of_append
        · obtain ⟨x, rfl, -⟩ := hqRest.between hpRest (Nat.not_lt.mp horder)
          have hpq : p = q ++ x := by
            rw [hqu, ← List.append_assoc] at hpu
            exact (List.append_cancel_right hpu).symm
          rw [hpq] at hpOpen
          obtain ⟨stop, hstop, hinv, hdec⟩ := hclosed q _ hqu hpOpen.of_append hqClose huClose
          rw [if_neg horder, hstop, pure_bind]
          exact Ensures.pure ⟨hinv, hdec⟩

namespace Strips

variable {s r : Str}

theorem of_nil (h : Strips [] r) : r = [] := by
  cases h with
  | nil => rfl
  | keep hs ho _ _ _ =>
    have hlen := congrArg List.length hs
    have hpos := ho.length_pos
    rw [List.length_append, List.length_nil] at hlen
    omega
  | drop hs ho _ _ _ _ =>
    have hlen := congrArg List.length hs
    have hpos := ho.length_pos
    rw [List.length_append, List.length_nil] at hlen
    omega

theorem of_free {p : Str} (hopen : Free quoteOpen p s) (h : Strips (p ++ s) r) :
    ∃ r', r = p ++ r' ∧ Strips s r' := by
  induction p generalizing r with
  | nil => exact ⟨r, rfl, h⟩
  | cons c p ih =>
    rw [List.cons_append] at h
    cases h with
    | chr _ h =>
      obtain ⟨r', rfl, hr'⟩ := ih hopen.tail h
      exact ⟨r', rfl, hr'⟩
    | keep _ _ hyes _ _ =>
      rw [hopen.head] at hyes
      cases hyes
    | drop _ _ hyes _ _ _ =>
      rw [hopen.head] at hyes
      cases hyes

end Strips

theorem stripReplyBlockquotes_strips {html r : Str} (h : Strips html r) :
    (stripReplyBlockquotes html).Ensures fun out => out = r := by
  rw [stripReplyBlockquotes]
  refine Ensures.loop
    (fun st : Str × Nat => ∃ s r', Rest html st.2 s ∧ Strips s r' ∧ st.1 ++ r' = r)
    (fun st => byteLen html - st.2) ⟨html, r, Rest.start html, h, rfl⟩ ?_
  rintro ⟨out, i⟩ ⟨s, r', hs, hstrips, hout⟩
  have hs : Rest html i s := hs
  have hout : out ++ r' = r := hout
  dsimp only
  by_cases hlt : i < (bytes html).length
  · rw [if_pos hlt]
    refine Ensures.bind (findOpen_rest hs) fun start hstart => ?_
    rcases hstart with ⟨rfl, hfree⟩ | ⟨p, u, rfl, rfl, hfree, hopen⟩
    · -- No quote opens any more.
      rw [← List.append_nil s] at hstrips
      obtain ⟨r'', rfl, hnil⟩ := hstrips.of_free hfree
      rw [hnil.of_nil, List.append_nil] at hout
      dsimp only
      rw [sliceFrom_rest hs, pure_bind]
      exact Ensures.pure hout
    · obtain ⟨r'', rfl, hrest⟩ := hstrips.of_free hfree
      have hu := hs.append
      dsimp only
      rw [sliceFrom_rest hu, pure_bind]
      cases hrest with
      | nil => cases hopen
      | chr hno _ =>
        rw [hopen] at hno
        cases hno
      | @keep _ o u' r₁ hou ho _ hreply hnext =>
        subst hou
        obtain ⟨g, hg, hlen⟩ := find_tag ho u'
        have hstop : i + byteLen p + g + 1 = i + byteLen p + byteLen o := by omega
        have hpo : Rest html i ((p ++ o) ++ u') := by rwa [List.append_assoc]
        have hbound := hu.append.le
        have hpos : 0 < byteLen o := by omega
        rw [hg]
        dsimp only
        rw [hstop, slice_rest hu rfl, pure_bind, hreply, if_pos (by decide),
          slice_rest hpo (by rw [byteLen_append, Nat.add_assoc]), pure_bind]
        refine Ensures.pure ⟨⟨u', r₁, hu.append, hnext, ?_⟩, ?_⟩
        · rw [← hout]
          simp
        · show byteLen html - (i + byteLen p + byteLen o) < byteLen html - i
          omega
      | @drop _ o u' v _ hou ho _ hreply hskip hnext =>
        subst hou
        obtain ⟨g, hg, hlen⟩ := find_tag ho u'
        have hstop : i + byteLen p + g + 1 = i + byteLen p + byteLen o := by omega
        have hbound := hu.append.le
        have hpos : 0 < byteLen o := by omega
        rw [hg]
        dsimp only
        rw [hstop, slice_rest hu rfl, pure_bind, hreply,
          if_neg (by decide), slice_rest hs rfl, pure_bind]
        refine Ensures.bind
          ((skipQuote_rest hu.append hskip).and (skipQuote_ensures ⟨u', hu.append⟩))
          fun j hskipped => ?_
        obtain ⟨hj, _, hle⟩ := hskipped
        have hend := hj.le
        refine Ensures.pure ⟨⟨v, r'', hj, hnext, ?_⟩, ?_⟩
        · rw [← hout, List.append_assoc]
        · show byteLen html - j < byteLen html - i
          omega
  · rw [if_neg hlt]
    rw [length_bytes, Nat.not_lt] at hlt
    rw [hs.eq_nil_iff.mpr hlt] at hstrips
    rw [hstrips.of_nil, List.append_nil] at hout
    exact Ensures.pure hout

/-! ### Forests -/

/-- A text that holds neither name. -/
structure PlainText where
  text : Str
  no_open : ∀ a b, text = a ++ b → startsFolded quoteOpen b = false
  no_close : ∀ a b, text = a ++ b → startsFolded quoteClose b = false

/-- An open tag, by what stands between `<` and `>`. -/
structure OpenTag where
  inner : Str
  is_named : startsFolded "blockquote".toList inner = true
  no_end : '>' ∉ inner

/-- A close tag, by what stands between `</` and `>`. -/
structure CloseTag where
  inner : Str
  is_named : startsFolded "blockquote".toList inner = true
  no_start : '<' ∉ inner
  no_end : '>' ∉ inner

def OpenTag.text (o : OpenTag) : Str := '<' :: (o.inner ++ ['>'])

def CloseTag.text (c : CloseTag) : Str := '<' :: '/' :: (c.inner ++ ['>'])

/-- Texts with closed blockquotes between them, each with a forest inside. -/
inductive Forest where
  | text (t : PlainText)
  | quote (t : PlainText) (o : OpenTag) (inner : Forest) (c : CloseTag) (rest : Forest)

namespace Forest

def serialise : Forest → Str
  | text t => t.text
  | quote t o inner c rest => t.text ++ (o.text ++ (inner.serialise ++ (c.text ++ rest.serialise)))

/-- The serialisation without the marked quotes and what they hold. -/
def withoutReplies : Forest → Str
  | text t => t.text
  | quote t o inner c rest =>
    if isReplyTag o.text then t.text ++ rest.withoutReplies
    else t.text ++ (o.text ++ (inner.withoutReplies ++ (c.text ++ rest.withoutReplies)))

end Forest

/-- The names in a text up to the first close name, and whether there is one. -/
def tally : Str → Nat × Bool
  | [] => (0, false)
  | c :: s =>
    if startsFolded quoteOpen (c :: s) then ((tally s).1 + 1, (tally s).2)
    else if startsFolded quoteClose (c :: s) then (0, true)
    else tally s

/-- The count after an open tag that is met at count `d`. -/
def OpenTag.after (o : OpenTag) (d : Nat) : Nat :=
  if (tally o.inner).2 then d + (tally o.inner).1 else d + 1 + (tally o.inner).1

inductive QuoteTag where
  | opn (o : OpenTag)
  | cls (c : CloseTag)

def QuoteTag.text : QuoteTag → Str
  | opn o => o.text
  | cls c => c.text

/-- The tags of a forest and of the close tag after it, each with the text before it. -/
def Forest.segments : Forest → CloseTag → List (PlainText × QuoteTag)
  | text t, c => [(t, .cls c)]
  | quote t o inner c' rest, c => (t, .opn o) :: (inner.segments c' ++ rest.segments c)

def serialiseSegments (l : List (PlainText × QuoteTag)) : Str :=
  l.flatMap fun x => x.1.text ++ x.2.text

/-- The count comes from `d` to zero at the last tag, and at none before it. -/
def Counted : Nat → List (PlainText × QuoteTag) → Prop
  | d, [] => d = 0
  | d, (_, .opn o) :: l => 0 < d ∧ d + 1 + (tally o.inner).1 < 2 ^ 32 ∧ Counted (o.after d) l
  | d, (_, .cls _) :: l => 0 < d ∧ Counted (d - 1) l

instance : ∀ (d : Nat) (l : List (PlainText × QuoteTag)), Decidable (Counted d l)
  | d, [] => inferInstanceAs (Decidable (d = 0))
  | d, (_, .opn o) :: l =>
    have : Decidable (Counted (o.after d) l) := instDecidableCounted (o.after d) l
    inferInstanceAs (Decidable (0 < d ∧ d + 1 + (tally o.inner).1 < 2 ^ 32 ∧ Counted (o.after d) l))
  | d, (_, .cls _) :: l =>
    have : Decidable (Counted (d - 1) l) := instDecidableCounted (d - 1) l
    inferInstanceAs (Decidable (0 < d ∧ Counted (d - 1) l))

/-- The count of each marked quote that lies in no other ends at the quote's close tag. -/
def Forest.Counted : Forest → Prop
  | text _ => True
  | quote _ o inner c rest =>
    (if isReplyTag o.text then Content.Counted 1 (inner.segments c) else inner.Counted) ∧
    rest.Counted

/-! ### The scan of a forest -/

theorem serialiseSegments_cons (x : PlainText × QuoteTag) (l : List (PlainText × QuoteTag)) :
    serialiseSegments (x :: l) = x.1.text ++ (x.2.text ++ serialiseSegments l) := by
  rw [serialiseSegments, List.flatMap_cons, List.append_assoc]
  rfl

theorem serialiseSegments_append (l m : List (PlainText × QuoteTag)) :
    serialiseSegments (l ++ m) = serialiseSegments l ++ serialiseSegments m := by
  simp [serialiseSegments]

theorem Forest.serialise_segments (f : Forest) (c : CloseTag) :
    serialiseSegments (f.segments c) = f.serialise ++ c.text := by
  induction f generalizing c with
  | text t => simp [segments, serialise, serialiseSegments, QuoteTag.text]
  | quote t o inner c' rest ihi ihr =>
    rw [segments, serialiseSegments_cons, serialiseSegments_append, ihi, ihr, serialise]
    simp [QuoteTag.text]

/-- What may follow a text: a tag, or nothing. -/
def Fence (s : Str) : Prop := s = [] ∨ ∃ u, s = '<' :: u

theorem startsFolded_fence {m b s : Str} (hm : '<' ∉ m) (hs : Fence s) (hb : b ≠ []) :
    startsFolded ('<' :: m) (b ++ s) = startsFolded ('<' :: m) b := by
  rcases hs with rfl | ⟨u, rfl⟩
  · rw [List.append_nil]
  · obtain ⟨c, b, rfl⟩ := List.exists_cons_of_ne_nil hb
    rw [List.cons_append, startsFolded, startsFolded, startsFolded_append_of_not_mem (by decide) hm]

theorem PlainText.free (t : PlainText) {s : Str} (hs : Fence s) :
    Free quoteOpen t.text s ∧ Free quoteClose t.text s := by
  refine ⟨fun a b hab hb => ?_, fun a b hab hb => ?_⟩
  · exact (startsFolded_fence (by decide) hs hb).trans (t.no_open a b hab)
  · exact (startsFolded_fence (by decide) hs hb).trans (t.no_close a b hab)

theorem Skips.append_free {d : Nat} {p s v : Str} (hd : 0 < d) (hopen : Free quoteOpen p s)
    (hclose : Free quoteClose p s) (h : Skips d s v) : Skips d (p ++ s) v := by
  induction p with
  | nil => exact h
  | cons c p ih => exact Skips.chr hd hopen.head hclose.head (ih hopen.tail hclose.tail)

theorem Strips.append_free {p s r : Str} (hopen : Free quoteOpen p s) (h : Strips s r) :
    Strips (p ++ s) (p ++ r) := by
  induction p with
  | nil => exact h
  | cons c p ih => exact Strips.chr hopen.head (ih hopen.tail)

theorem OpenTag.isTag (o : OpenTag) : IsTag o.text := ⟨o.inner, rfl, o.no_end⟩

theorem CloseTag.isTag (c : CloseTag) : IsTag c.text :=
  ⟨'/' :: c.inner, rfl, fun h => c.no_end ((List.mem_cons.mp h).resolve_left (by decide))⟩

theorem OpenTag.starts (o : OpenTag) (s : Str) : startsFolded quoteOpen (o.text ++ s) = true := by
  obtain ⟨v, u, hv, hlen, hmatch⟩ := startsFolded_split o.is_named
  have hsame : sameFolded '<' '<' = true := by decide
  rw [quoteOpen_eq, text, List.cons_append, startsFolded, hsame, Bool.true_and, hv,
    List.append_assoc,
    List.append_assoc, startsFolded_append hlen.ge, hmatch]

theorem CloseTag.starts (c : CloseTag) (s : Str) :
    startsFolded quoteClose (c.text ++ s) = true := by
  obtain ⟨v, u, hv, hlen, hmatch⟩ := startsFolded_split c.is_named
  have hsame : sameFolded '<' '<' = true := by decide
  have hslash : sameFolded '/' '/' = true := by decide
  rw [quoteClose_eq, text, List.cons_append, List.cons_append, startsFolded, startsFolded,
    hsame, hslash,
    Bool.true_and, Bool.true_and, hv, List.append_assoc, List.append_assoc,
    startsFolded_append hlen.ge, hmatch]

theorem CloseTag.free (c : CloseTag) (s : Str) : Free quoteOpen c.text s := by
  have hrest : '<' ∉ '/' :: (c.inner ++ ['>']) := by
    simp [c.no_start]
  intro a b hab hb
  cases a with
  | nil =>
    have hab : c.text = b := hab
    rw [← hab]
    exact open_ne_close (c.starts s)
  | cons d a =>
    obtain ⟨-, hab⟩ := List.cons.inj hab
    exact free_of_not_mem hrest s a b hab hb

theorem fence_open (o : OpenTag) (s : Str) : Fence (o.text ++ s) := Or.inr ⟨_, rfl⟩

theorem fence_close (c : CloseTag) (s : Str) : Fence (c.text ++ s) := Or.inr ⟨_, rfl⟩

theorem skips_inner {a s v : Str} {d : Nat} (ha : '>' ∉ a) (hd : 0 < d)
    (hlt : d + (tally a).1 < 2 ^ 32)
    (h : Skips (if (tally a).2 then d + (tally a).1 - 1 else d + (tally a).1) s v) :
    Skips d (a ++ '>' :: s) v := by
  have hgtOpen : '>' ∉ quoteOpen := by decide
  have hgtClose : '>' ∉ quoteClose := by decide
  induction a generalizing d with
  | nil => exact Skips.chr hd (startsFolded_of_ne (by decide)) (startsFolded_of_ne (by decide)) h
  | cons c a ih =>
    have ha' : '>' ∉ a := fun hmem => ha (List.mem_cons_of_mem c hmem)
    have hopen := startsFolded_append_of_not_mem (by decide) hgtOpen (c :: a) s
    have hclose := startsFolded_append_of_not_mem (by decide) hgtClose (c :: a) s
    rw [tally] at h hlt
    by_cases ho : startsFolded quoteOpen (c :: a) = true
    · rw [if_pos ho] at h hlt
      have hlt : d + ((tally a).1 + 1) < 2 ^ 32 := hlt
      refine Skips.opn hd (by omega) (hopen.trans ho) (ih ha' (Nat.succ_pos d) (by omega) ?_)
      rw [Nat.add_right_comm d 1]
      exact h
    · rw [if_neg ho] at h hlt
      have ho := Bool.eq_false_iff.mpr ho
      by_cases hc : startsFolded quoteClose (c :: a) = true
      · rw [if_pos hc] at h
        have hlt' : c = '<' := by
          rw [quoteClose_eq, startsFolded, Bool.and_eq_true] at hc
          exact eq_of_sameFolded hc.1 (Or.inr (by decide))
        subst hlt'
        have hsplit : '<' :: a ++ '>' :: s = '<' :: (a ++ ['>']) ++ s := by simp
        exact Skips.cls hd hsplit ⟨a, rfl, ha'⟩ (hclose.trans hc) h
      · rw [if_neg hc] at h hlt
        exact Skips.chr hd (hopen.trans ho) (hclose.trans (Bool.eq_false_iff.mpr hc))
          (ih ha' hd hlt h)

theorem skips_open {o : OpenTag} {s v : Str} {d : Nat} (hd : 0 < d)
    (hlt : d + 1 + (tally o.inner).1 < 2 ^ 32) (h : Skips (o.after d) s v) :
    Skips d (o.text ++ s) v := by
  have htext : o.text ++ s = '<' :: (o.inner ++ '>' :: s) := by simp [OpenTag.text]
  have hstarts := o.starts s
  rw [htext] at hstarts ⊢
  refine Skips.opn hd (by omega) hstarts (skips_inner o.no_end (Nat.succ_pos d) hlt ?_)
  rw [OpenTag.after] at h
  rwa [Nat.add_right_comm d 1, Nat.add_sub_cancel, ← Nat.add_right_comm d 1]

theorem skips_counted {l : List (PlainText × QuoteTag)} {d : Nat} (h : Counted d l) (s : Str) :
    Skips d (serialiseSegments l ++ s) s := by
  induction l generalizing d with
  | nil =>
    obtain rfl : d = 0 := h
    exact Skips.done s
  | cons x l ih =>
    obtain ⟨t, tag⟩ := x
    rw [serialiseSegments_cons, List.append_assoc, List.append_assoc]
    cases tag with
    | opn o =>
      obtain ⟨hd, hlt, hrest⟩ := h
      obtain ⟨hopen, hclose⟩ := t.free (fence_open o (serialiseSegments l ++ s))
      exact Skips.append_free hd hopen hclose (skips_open hd hlt (ih hrest))
    | cls c =>
      obtain ⟨hd, hrest⟩ := h
      obtain ⟨hopen, hclose⟩ := t.free (fence_close c (serialiseSegments l ++ s))
      exact Skips.append_free hd hopen hclose (Skips.cls hd rfl c.isTag (c.starts _) (ih hrest))

theorem Forest.strips {f : Forest} (hf : f.Counted) {s r : Str} (hs : Fence s) (h : Strips s r) :
    Strips (f.serialise ++ s) (f.withoutReplies ++ r) := by
  induction f generalizing s r with
  | text t => exact Strips.append_free (t.free hs).1 h
  | quote t o inner c rest ihi ihr =>
    obtain ⟨hinner, hrest⟩ := hf
    have hafter := ihr hrest hs h
    rw [serialise, withoutReplies]
    have hfence := fence_open o (inner.serialise ++ (c.text ++ (rest.serialise ++ s)))
    by_cases hreply : isReplyTag o.text = true
    · rw [if_pos hreply] at hinner ⊢
      have hskip := skips_counted hinner (rest.serialise ++ s)
      rw [serialise_segments, List.append_assoc] at hskip
      have hdrop := Strips.drop rfl o.isTag (o.starts _) hreply hskip hafter
      simpa using Strips.append_free (t.free hfence).1 hdrop
    · rw [if_neg hreply] at hinner ⊢
      have hclose := Strips.append_free (c.free (rest.serialise ++ s)) hafter
      have hinside := ihi hinner (fence_close c (rest.serialise ++ s)) hclose
      have hkeep := Strips.keep rfl o.isTag (o.starts _) (Bool.eq_false_iff.mpr hreply) hinside
      simpa using Strips.append_free (t.free hfence).1 hkeep

/-- Where each count ends at its own close tag, the marked quotes go and nothing else. -/
theorem stripReplyBlockquotes_forest (f : Forest) (hf : f.Counted) :
    (stripReplyBlockquotes f.serialise).Ensures fun out => out = f.withoutReplies := by
  have h := f.strips hf (Or.inl rfl) Strips.nil
  rw [List.append_nil, List.append_nil] at h
  exact stripReplyBlockquotes_strips h

/-! ### Open tags that hold no name -/

def Forest.height : Forest → Nat
  | text _ => 0
  | quote _ _ inner _ rest => max (inner.height + 1) rest.height

/-- No open tag has a name in its text. -/
def Forest.PlainTags : Forest → Prop
  | text _ => True
  | quote _ o inner _ rest => tally o.inner = (0, false) ∧ inner.PlainTags ∧ rest.PlainTags

theorem counted_segments {f : Forest} (hf : f.PlainTags) {d : Nat} (hd : 0 < d)
    (hlt : d + f.height < 2 ^ 32) {c : CloseTag} {l : List (PlainText × QuoteTag)}
    (h : Counted (d - 1) l) : Counted d (f.segments c ++ l) := by
  induction f generalizing d c l with
  | text t => exact ⟨hd, h⟩
  | quote t o inner c' rest ihi ihr =>
    obtain ⟨htally, hinner, hrest⟩ := hf
    have hlt : d + max (inner.height + 1) rest.height < 2 ^ 32 := hlt
    have hafter : o.after d = d + 1 := by
      rw [OpenTag.after, htally]
      rfl
    rw [Forest.segments, List.cons_append, List.append_assoc]
    refine ⟨hd, ?_, ?_⟩
    · rw [htally]
      omega
    · rw [hafter]
      refine ihi hinner (Nat.succ_pos d) (by omega) ?_
      exact ihr hrest hd (by omega) h

theorem Forest.PlainTags.counted {f : Forest} (hf : f.PlainTags) (hlt : f.height < 2 ^ 32) :
    f.Counted := by
  induction f with
  | text t => exact trivial
  | quote t o inner c rest ihi ihr =>
    obtain ⟨-, hinner, hrest⟩ := hf
    have hlt : max (inner.height + 1) rest.height < 2 ^ 32 := hlt
    refine ⟨?_, ihr hrest (by omega)⟩
    split
    · have hnil : Content.Counted (1 - 1) [] := rfl
      have hcount := counted_segments hinner Nat.one_pos (by omega) (c := c) hnil
      rwa [List.append_nil] at hcount
    · exact ihi hinner (by omega)

/-! ### Miscounts -/

def PlainText.empty : PlainText :=
  ⟨[], fun a b h => by rw [(List.append_eq_nil_iff.mp h.symm).2]; decide,
    fun a b h => by rw [(List.append_eq_nil_iff.mp h.symm).2]; decide⟩

def replyTag : OpenTag := ⟨"blockquote _quote".toList, by decide, by decide⟩

def bareClose : CloseTag := ⟨"blockquote".toList, by decide, by decide, by decide⟩

/-- An open tag with the close name in its text. -/
def closingTag : OpenTag := ⟨"blockquote </blockquote".toList, by decide, by decide⟩

/-- An open tag with the open name in its text. -/
def openingTag : OpenTag := ⟨"blockquote <blockquote".toList, by decide, by decide⟩

/-- A quote by itself. -/
def Forest.alone (o : OpenTag) (inner : Forest) : Forest :=
  .quote .empty o inner bareClose (.text .empty)

/-- A reply that quotes a reply goes as a whole. -/
theorem nested_reply_dropped :
    (stripReplyBlockquotes
      (Forest.alone replyTag (.alone replyTag (.text .empty))).serialise).Ensures
      fun out => out = (Forest.alone replyTag (.alone replyTag (.text .empty))).withoutReplies :=
  stripReplyBlockquotes_forest _ ⟨by rw [if_pos (by decide +kernel)]; decide +kernel, trivial⟩

/-- The close name in the text of an inner open tag ends the reply too early. -/
theorem close_name_in_tag_leaks : ¬ ∀ f : Forest,
    (stripReplyBlockquotes f.serialise).Ensures fun out => out = f.withoutReplies := by
  intro h
  obtain ⟨out, hout, heq⟩ := h (.alone replyTag (.alone closingTag (.text .empty)))
  have hcount : Counted 1 [(.empty, .opn closingTag), (.empty, .cls bareClose)] := by decide +kernel
  have hskip := skips_counted hcount bareClose.text
  have hafter := Strips.append_free (bareClose.free []) Strips.nil
  rw [List.append_nil] at hafter
  have hserial : (Forest.alone replyTag (.alone closingTag (.text .empty))).serialise =
      replyTag.text ++ (serialiseSegments [(.empty, .opn closingTag), (.empty, .cls bareClose)] ++
        bareClose.text) := by decide +kernel
  have hstrips :=
    Strips.drop hserial replyTag.isTag (by decide +kernel) (by decide +kernel) hskip hafter
  obtain ⟨out', hout', heq'⟩ := stripReplyBlockquotes_strips hstrips
  have hsame := hout.unique hout'
  rw [heq, heq'] at hsame
  exact absurd hsame (by decide +kernel)

/-- A count that ends too early and one that ends too late may come to the right text
together: the scan of the second quote goes on over what the first one left. -/
theorem miscounts_cancel : ∃ f : Forest, ¬ f.Counted ∧
    (stripReplyBlockquotes f.serialise).Ensures fun out => out = f.withoutReplies := by
  let first : List (PlainText × QuoteTag) := [(.empty, .opn closingTag), (.empty, .cls bareClose)]
  let second : List (PlainText × QuoteTag) := [(.empty, .opn openingTag), (.empty, .cls bareClose),
    (.empty, .cls bareClose), (.empty, .cls bareClose)]
  let f : Forest := .alone replyTag (.quote .empty closingTag (.text .empty) bareClose
    (.alone replyTag (.alone openingTag (.text .empty))))
  refine ⟨f, fun h => ?_, ?_⟩
  · have hcount := h.1
    rw [if_pos (by decide +kernel)] at hcount
    exact absurd hcount (by decide +kernel)
  · have hfirst : Counted 1 first := by decide +kernel
    have hsecond : Counted 1 second := by decide +kernel
    have hend := skips_counted hsecond []
    rw [List.append_nil] at hend
    have hreply : isReplyTag replyTag.text = true := by decide +kernel
    have hrest := Strips.drop rfl replyTag.isTag (replyTag.starts _) hreply hend Strips.nil
    have hserial : f.serialise = replyTag.text ++ (serialiseSegments first ++
        (replyTag.text ++ serialiseSegments second)) := by decide +kernel
    have hopen : startsFolded quoteOpen f.serialise = true := by decide +kernel
    have hstrips := Strips.drop hserial replyTag.isTag hopen hreply (skips_counted hfirst _) hrest
    have hnone : f.withoutReplies = [] := by decide +kernel
    rw [hnone]
    exact stripReplyBlockquotes_strips hstrips

end JmapBridge.Content
