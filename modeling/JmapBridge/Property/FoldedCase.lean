import JmapBridge.Property.BreakPieces

/-! Comparisons of bytes that ignore ASCII case are comparisons of characters: what a
scanner compares with an ASCII name is the text it stands at. -/

namespace JmapBridge.Content

open Rust Rust.Str Rust.Scan

def lowerNat (n : Nat) : Nat := if 65 ≤ n ∧ n ≤ 90 then n + 32 else n

theorem toNat_toLowerByte (b : UInt8) : (toLowerByte b).toNat = lowerNat b.toNat := by
  have hb := b.toNat_lt
  rw [toLowerByte, lowerNat]
  simp only [Bool.and_eq_true, decide_eq_true_eq, UInt8.le_iff_toNat_le]
  show (if 65 ≤ b.toNat ∧ b.toNat ≤ 90 then b + 32 else b).toNat = _
  split
  · rw [UInt8.toNat_add, show (32 : UInt8).toNat = 32 from rfl]
    omega
  · rfl

theorem toNat_toLower (c : Char) : c.toLower.toNat = lowerNat c.toNat := by
  have hval : c.toNat = c.val.toNat := rfl
  delta Char.toLower lowerNat
  split
  · rename_i h
    obtain ⟨hge, hle⟩ := h
    have hge : 65 ≤ c.toNat := hge
    have hle : c.toNat ≤ 90 := hle
    rw [if_pos ⟨hge, hle⟩]
    show (c.val + 32).toNat = _
    rw [UInt32.toNat_add, show (32 : UInt32).toNat = 32 from rfl]
    omega
  · rename_i h
    rw [if_neg (show ¬(65 ≤ c.toNat ∧ c.toNat ≤ 90) from h)]

/-- The same character but for ASCII case. -/
def sameFolded (c d : Char) : Bool := c.toLower == d.toLower

theorem sameFolded_iff {c d : Char} :
    sameFolded c d = true ↔ lowerNat c.toNat = lowerNat d.toNat := by
  rw [sameFolded, beq_iff_eq, ← toNat_toLower, ← toNat_toLower, Char.toNat_inj]

theorem eq_of_sameFolded {c d : Char} (h : sameFolded c d = true)
    (hlt : c.toNat < 65 ∨ d.toNat < 65) :
    c = d := by
  rw [sameFolded_iff, lowerNat, lowerNat] at h
  rw [← Char.toNat_inj]
  split at h <;> split at h <;> omega

/-- `s` begins with `name`, but for ASCII case. -/
def startsFolded : Str → Str → Bool
  | [], _ => true
  | _ :: _, [] => false
  | d :: name, c :: s => sameFolded c d && startsFolded name s

/-- An ASCII character. -/
def IsAscii (c : Char) : Prop := c.toNat < 128

instance : DecidablePred IsAscii := fun c => inferInstanceAs (Decidable (c.toNat < 128))

theorem toNat_toUInt8 {c : Char} (h : IsAscii c) : c.toUInt8.toNat = c.toNat := by
  have h : c.val.toNat < 128 := h
  show c.val.toUInt8.toNat = c.val.toNat
  rw [UInt32.toNat_toUInt8]
  exact Nat.mod_eq_of_lt (by omega)

theorem encode_ascii {c : Char} (h : IsAscii c) :
    ∃ b, String.utf8EncodeChar c = [b] ∧ b.toNat = c.toNat ∧ b < 128 := by
  have hsize : c.utf8Size = 1 := by
    rw [Char.utf8Size_eq_one_iff, UInt32.le_iff_toNat_le]
    exact Nat.le_of_lt_succ h
  have hbyte := toNat_toUInt8 h
  refine ⟨c.toUInt8, String.utf8EncodeChar_eq_singleton hsize, hbyte, ?_⟩
  rw [UInt8.lt_iff_toNat_lt, hbyte]
  exact h

theorem length_bytes_ascii {name : Str} (h : ∀ c ∈ name, IsAscii c) :
    (bytes name).length = name.length := by
  induction name with
  | nil => rfl
  | cons c name ih =>
    obtain ⟨b, hb, -⟩ := encode_ascii (h c List.mem_cons_self)
    rw [bytes_cons, hb, List.length_append, ih fun d hd => h d (List.mem_cons_of_mem c hd),
      List.length_singleton, List.length_cons, Nat.add_comm]

theorem eqBytes_cons (a b : UInt8) (xs ys : List UInt8) :
    eqBytes (a :: xs) (b :: ys) = (toLowerByte a == toLowerByte b && eqBytes xs ys) := rfl

theorem eqBytes_take {name : Str} (h : ∀ c ∈ name, IsAscii c) (s : Str) :
    eqBytes ((bytes s).take name.length) (bytes name) = startsFolded name s := by
  induction name generalizing s with
  | nil => rfl
  | cons d name ih =>
    obtain ⟨b, hb, hbd, hlt⟩ := encode_ascii (h d List.mem_cons_self)
    rw [bytes_cons, hb, List.singleton_append]
    cases s with
    | nil => rfl
    | cons c s =>
      have hih := ih (fun e he => h e (List.mem_cons_of_mem d he)) s
      by_cases hc : IsAscii c
      · obtain ⟨a, ha, hac, -⟩ := encode_ascii hc
        rw [bytes_cons, ha, List.singleton_append, List.length_cons, List.take_succ_cons,
          eqBytes_cons,
          hih, startsFolded]
        have hsame : (toLowerByte a == toLowerByte b) = sameFolded c d := by
          rw [Bool.eq_iff_iff, beq_iff_eq, sameFolded_iff, ← UInt8.toNat_inj, toNat_toLowerByte,
            toNat_toLowerByte, hac, hbd]
        rw [hsame]
      · -- No byte of the character is an ASCII byte.
        obtain ⟨a, xs, hax⟩ := List.exists_cons_of_ne_nil (String.utf8EncodeChar_ne_nil (c := c))
        have ha : ¬ a < 128 := by
          intro hlt
          obtain ⟨-, hac, -⟩ := encode_of_ascii (hax ▸ List.mem_cons_self) hlt
          exact hc (by rw [IsAscii, hac]; exact hlt)
        have hbyte : (toLowerByte a == toLowerByte b) = false := by
          rw [beq_eq_false_iff_ne]
          intro heq
          exact ha (toLowerByte_ascii.mp (by rw [heq]; exact toLowerByte_ascii.mpr hlt))
        have hchar : sameFolded c d = false := by
          rw [Bool.eq_false_iff, Ne, sameFolded_iff]
          intro heq
          have hd : d.toNat < 128 := h d List.mem_cons_self
          have hc : ¬ c.toNat < 128 := hc
          rw [lowerNat, lowerNat] at heq
          split at heq <;> split at heq <;> omega
        rw [bytes_cons, hax, List.length_cons, List.cons_append, List.take_succ_cons, eqBytes_cons,
          startsFolded, hbyte, hchar, Bool.false_and, Bool.false_and]

theorem startsFolded_split {name s : Str} (h : startsFolded name s = true) :
    ∃ v u, s = v ++ u ∧ v.length = name.length ∧ startsFolded name v = true := by
  induction name generalizing s with
  | nil => exact ⟨[], s, rfl, rfl, rfl⟩
  | cons d name ih =>
    cases s with
    | nil => cases h
    | cons c s =>
      rw [startsFolded, Bool.and_eq_true] at h
      obtain ⟨v, u, rfl, hlen, hv⟩ := ih h.2
      exact ⟨c :: v, u, rfl, by simp [hlen], by rw [startsFolded, h.1, hv]; rfl⟩

theorem ascii_of_sameFolded {c d : Char} (h : sameFolded c d = true) (hd : IsAscii d) :
    IsAscii c := by
  rw [sameFolded_iff, lowerNat, lowerNat] at h
  have hd : d.toNat < 128 := hd
  show c.toNat < 128
  split at h <;> split at h <;> omega

theorem mem_startsFolded {name v : Str} (hlen : v.length = name.length)
    (h : startsFolded name v = true) {c : Char} (hc : c ∈ v) :
      ∃ d ∈ name, sameFolded c d = true := by
  induction name generalizing v with
  | nil =>
    obtain rfl := List.eq_nil_of_length_eq_zero hlen
    cases hc
  | cons d name ih =>
    cases v with
    | nil => cases hlen
    | cons e v =>
      rw [startsFolded, Bool.and_eq_true] at h
      rcases List.mem_cons.mp hc with rfl | hc
      · exact ⟨d, List.mem_cons_self, h.1⟩
      · obtain ⟨f, hf, hsame⟩ := ih (Nat.succ.inj hlen) h.2 hc
        exact ⟨f, List.mem_cons_of_mem d hf, hsame⟩

theorem startsFolded_ascii {name v : Str} (hname : ∀ c ∈ name, IsAscii c)
    (hlen : v.length = name.length) (h : startsFolded name v = true) : ∀ c ∈ v, IsAscii c := by
  intro c hc
  obtain ⟨d, hd, hsame⟩ := mem_startsFolded hlen h hc
  exact ascii_of_sameFolded hsame (hname d hd)

theorem getElem?_after_name {name s : Str} (hname : ∀ c ∈ name, IsAscii c)
    (h : startsFolded name s = true) :
    (bytes s)[name.length]? = (bytes (s.drop name.length)).head? := by
  obtain ⟨v, u, rfl, hlen, hv⟩ := startsFolded_split h
  have hbytes := length_bytes_ascii (startsFolded_ascii hname hlen hv)
  rw [← hlen, List.drop_left, bytes_append, List.getElem?_append_right (by omega), hbytes,
    Nat.sub_self, List.head?_eq_getElem?]

theorem startsFolded_append {name v : Str} (hlen : name.length ≤ v.length) (u : Str) :
    startsFolded name (v ++ u) = startsFolded name v := by
  induction name generalizing v with
  | nil => rfl
  | cons d name ih =>
    cases v with
    | nil => cases hlen
    | cons c v =>
      rw [List.cons_append, startsFolded, startsFolded, ih (Nat.le_of_succ_le_succ hlen)]

theorem startsFolded_append_of_not_mem {name : Str} {e : Char} (hlt : e.toNat < 65)
    (hname : e ∉ name)
    (x s : Str) : startsFolded name (x ++ e :: s) = startsFolded name x := by
  induction name generalizing x with
  | nil => rfl
  | cons d name ih =>
    cases x with
    | nil =>
      have hsame : sameFolded e d = false := by
        refine Bool.eq_false_iff.mpr fun h => ?_
        rw [eq_of_sameFolded h (Or.inl hlt)] at hname
        exact hname List.mem_cons_self
      show (sameFolded e d && startsFolded name s) = false
      rw [hsame, Bool.false_and]
    | cons c x =>
      rw [List.cons_append, startsFolded, startsFolded,
        ih fun h => hname (List.mem_cons_of_mem d h)]

/-! ### Searches -/

/-- No occurrence of `name` begins in `p` where `s` follows it. -/
def Free (name p s : Str) : Prop := ∀ a b, p = a ++ b → b ≠ [] → startsFolded name (b ++ s) = false

theorem Free.head {name p s : Str} {c : Char} (h : Free name (c :: p) s) :
    startsFolded name (c :: (p ++ s)) = false := h [] (c :: p) rfl (by simp)

theorem Free.tail {name p s : Str} {c : Char} (h : Free name (c :: p) s) : Free name p s :=
  fun a b hab hb => h (c :: a) b (by rw [hab]; rfl) hb

theorem Free.of_append {name p x s : Str} (h : Free name (p ++ x) s) : Free name p (x ++ s) := by
  intro a b hab hb
  have hfree := h a (b ++ x) (by rw [hab, List.append_assoc]) (by simp [hb])
  rwa [List.append_assoc] at hfree

theorem Free.of_nil {name p u : Str} (h : Free name (p ++ u) []) : Free name p u := by
  have hfree := h.of_append
  rwa [List.append_nil] at hfree

theorem length_le_byteLen {name s : Str} (hname : ∀ c ∈ name, IsAscii c)
    (h : startsFolded name s = true) : name.length ≤ byteLen s := by
  obtain ⟨v, u, rfl, hlen, hv⟩ := startsFolded_split h
  have hbytes := length_bytes_ascii (startsFolded_ascii hname hlen hv)
  rw [length_bytes] at hbytes
  rw [byteLen_append]
  omega

theorem eqBytes_window {html name t : Str} {i : Nat} (hname : ∀ c ∈ name, IsAscii c)
    (ht : Rest html i t) :
    eqBytes (((bytes html).take (i + name.length)).drop i) (bytes name) = startsFolded name t := by
  rw [List.drop_take, Nat.add_sub_cancel_left, ht.drop_bytes, eqBytes_take hname]

theorem findCi_rest {html name t : Str} {start : Nat} (hname : ∀ c ∈ name, IsAscii c)
    (hne : name ≠ []) (ht : Rest html start t) :
    (findCi (bytes html) (bytes name) start).Ensures fun r =>
      (r = none ∧ Free name t []) ∨
      ∃ p u, t = p ++ u ∧ r = some (start + byteLen p) ∧ Free name p u ∧
        startsFolded name u = true := by
  have hlen := length_bytes_ascii hname
  have hpos : 0 < name.length := List.length_pos_iff.mpr hne
  have hempty : (bytes name).isEmpty = false := by
    rw [Bool.eq_false_iff, Ne, List.isEmpty_iff_length_eq_zero]
    omega
  -- An occurrence lies in the range that is searched.
  have hrange : ∀ a b, t = a ++ b → startsFolded name b = true →
      Rest html (start + byteLen a) b ∧ start + byteLen a + name.length ≤ byteLen html := by
    rintro a b rfl hb
    have hb' := ht.append
    have heq := hb'.byteLen_eq
    have hle := length_le_byteLen hname hb
    exact ⟨hb', by omega⟩
  rw [findCi, hempty, hlen, length_bytes]
  by_cases hguard : byteLen html < name.length ∨ usizeSub (byteLen html) name.length < start
  · rw [if_pos (by simpa using hguard)]
    refine Ensures.pure (Or.inl ⟨rfl, fun a b hab _ => ?_⟩)
    rw [List.append_nil]
    refine Bool.eq_false_iff.mpr fun hb => ?_
    obtain ⟨-, hle⟩ := hrange a b hab hb
    rcases hguard with hguard | hguard
    · omega
    · rw [usizeSub_of_le (by omega)] at hguard
      omega
  · rw [if_neg (by simpa using hguard)]
    rw [not_or, Nat.not_lt, Nat.not_lt] at hguard
    obtain ⟨hlong, hstart⟩ := hguard
    rw [usizeSub_of_le hlong] at hstart ⊢
    refine (Ensures.findM?_eq (q := fun i =>
      eqBytes (((bytes html).take (i + name.length)).drop i) (bytes name)) fun i hi => ?_).mono
      fun r hr => ?_
    · have hmem := List.mem_range'_1.mp hi
      rw [sliceList_of_le _ (by omega) (by rw [length_bytes]; omega), pure_bind]
      exact Ensures.pure rfl
    · subst hr
      cases hfind : (List.range' start (byteLen html - name.length + 1 - start)).find? fun i =>
          eqBytes (((bytes html).take (i + name.length)).drop i) (bytes name) with
      | none =>
        rw [List.find?_range'_eq_none] at hfind
        refine Or.inl ⟨rfl, fun a b hab _ => ?_⟩
        rw [List.append_nil]
        refine Bool.eq_false_iff.mpr fun hb => ?_
        obtain ⟨hrest, hle⟩ := hrange a b hab hb
        have hnot := hfind (start + byteLen a) (Nat.le_add_right _ _) (by omega)
        rw [eqBytes_window hname hrest, hb] at hnot
        cases hnot
      | some i =>
        rw [List.find?_range'_eq_some] at hfind
        obtain ⟨hmatch, hmem, hfirst⟩ := hfind
        obtain ⟨hge, hlt⟩ := List.mem_range'_1.mp hmem
        obtain ⟨c, u, hu⟩ : ∃ c u, Rest html i (c :: u) := by
          have hascii : ∀ b ∈ bytes name, b < 128 := by
            intro b hb
            obtain ⟨d, hd, hbd⟩ := List.mem_flatMap.mp hb
            obtain ⟨e, he, -, hlt⟩ := encode_ascii (hname d hd)
            rw [he, List.mem_singleton] at hbd
            exact hbd ▸ hlt
          obtain ⟨b, hb, hb'⟩ := getElem?_eqBytes hmatch hascii (i := 0) (by omega)
          rw [List.getElem?_drop, List.getElem?_take_of_lt (by omega), Nat.add_zero] at hb
          obtain ⟨c, u, hrest, -⟩ := Rest.of_ascii hb hb'
          exact ⟨c, u, hrest⟩
        obtain ⟨p, rfl, rfl⟩ := ht.between hu hge
        rw [eqBytes_window hname hu] at hmatch
        refine Or.inr ⟨p, c :: u, rfl, rfl, fun a b hab hb => ?_, hmatch⟩
        refine Bool.eq_false_iff.mpr fun hstarts => ?_
        have hab' : p ++ c :: u = a ++ (b ++ c :: u) := by rw [hab, List.append_assoc]
        obtain ⟨hrest, hle⟩ := hrange a _ hab' hstarts
        have hbpos : 0 < byteLen b := by
          obtain ⟨d, b, rfl⟩ := List.exists_cons_of_ne_nil hb
          have hsize := d.utf8Size_pos
          rw [byteLen_cons]
          omega
        have hnot := hfirst (start + byteLen a) (Nat.le_add_right _ _) (by
          rw [hab, byteLen_append]
          omega)
        rw [eqBytes_window hname hrest, hstarts] at hnot
        cases hnot

/-! ### Names of tags -/

/-- A character that may follow a complete tag name. -/
def boundaryChar (c : Char) : Bool := c == '>' || c == '/' || blankChar c

theorem readsChars_ascii {d : Char} (hd : IsAscii d) :
    ReadsChars (fun b => b == d.toUInt8) fun c => c == d := by
  intro c b hb
  have hmem : b ∈ String.utf8EncodeChar c := List.mem_of_mem_head? hb
  rw [Bool.eq_iff_iff, beq_iff_eq, beq_iff_eq, ← UInt8.toNat_inj, toNat_toUInt8 hd,
    ← Char.toNat_inj]
  by_cases hlt : b < 128
  · obtain ⟨-, hc, -⟩ := encode_of_ascii hmem hlt
    rw [hc]
  · have hge : ¬ b.toNat < 128 := hlt
    have hd' : d.toNat < 128 := hd
    refine ⟨fun h => absurd hd' (by omega), fun h => ?_⟩
    obtain ⟨e, he, -, helt⟩ := encode_ascii (c := c) (show c.toNat < 128 by omega)
    rw [he, List.mem_singleton] at hmem
    exact absurd helt (hmem ▸ hlt)

theorem ReadsChars.or {p p' : UInt8 → Bool} {q q' : Char → Bool} (h : ReadsChars p q)
    (h' : ReadsChars p' q') : ReadsChars (fun b => p b || p' b) fun c => q c || q' c := by
  intro c b hb
  show (p b || p' b) = (q c || q' c)
  rw [h c b hb, h' c b hb]

theorem isTagBoundary_readsChars : ReadsChars isTagBoundary boundaryChar :=
  ((readsChars_ascii (by decide)).or (readsChars_ascii (by decide))).or isBlank_readsChars

theorem bytes_head? {p : UInt8 → Bool} {q : Char → Bool} (h : ReadsChars p q) (s : Str) :
    (bytes s).head?.any p = s.head?.any q ∧ (bytes s).head?.all p = s.head?.all q := by
  cases s with
  | nil => exact ⟨rfl, rfl⟩
  | cons c s =>
    obtain ⟨b, xs, hb⟩ := List.exists_cons_of_ne_nil (String.utf8EncodeChar_ne_nil (c := c))
    have hread := h c b (by rw [hb]; rfl)
    rw [bytes_cons, hb]
    exact ⟨hread, hread⟩

theorem ReadsChars.at {p : UInt8 → Bool} {q : Char → Bool} (h : ReadsChars p q) {s t : Str}
    {i : Nat}
    {c : Char} (ht : Rest s i (c :: t)) (hlt : i < (bytes s).length) : p (bytes s)[i] = q c := by
  refine h c _ ?_
  have hget := ht.getElem?
  rw [List.getElem?_eq_getElem hlt, bytes_cons] at hget
  rw [hget, List.head?_append_of_ne_nil _ String.utf8EncodeChar_ne_nil]

/-- `s` begins with the whole of `name`, as the start of a tag. -/
def named (name s : Str) : Bool :=
  startsFolded name s && (s.drop name.length).head?.any boundaryChar

theorem startsTag_ensures {name : String} (hname : ∀ c ∈ name.toList, IsAscii c) (s : Str) :
    (startsTag s name).Ensures fun b => b =
      (startsFolded name.toList s && (s.drop name.toList.length).head?.all boundaryChar) := by
  have hlen := length_bytes_ascii hname
  rw [startsTag, hlen]
  split
  · rename_i hshort
    refine Ensures.pure ?_
    rw [← eqBytes_take hname, List.take_of_length_le (by omega)]
    have hne : eqBytes (bytes s) (bytes name.toList) = false := by
      refine Bool.eq_false_iff.mpr fun h => ?_
      have heq : (bytes s).map toLowerByte = (bytes name.toList).map toLowerByte := by
        simpa [eqBytes] using h
      have := congrArg List.length heq
      rw [List.length_map, List.length_map] at this
      omega
    rw [hne, Bool.false_and]
  · rename_i hlong
    rw [sliceList_of_le _ (Nat.zero_le _) (Nat.not_lt.mp hlong), pure_bind, List.drop_zero,
      eqBytes_take hname]
    refine Ensures.pure ?_
    cases hstart : startsFolded name.toList s with
    | false => rw [Bool.false_and, Bool.false_and]
    | true =>
      rw [getElem?_after_name hname hstart, (bytes_head? isTagBoundary_readsChars _).2]

theorem matchesClose_ensures {name : String} (hname : ∀ c ∈ ("</" ++ name).toList, IsAscii c)
    (tail : Str) :
    (matchesClose tail name).Ensures fun b => b = named ("</" ++ name).toList tail := by
  have hlen := length_bytes_ascii hname
  rw [matchesClose, named, hlen]
  split
  · rename_i hshort
    refine Ensures.pure ?_
    cases hstart : startsFolded ("</" ++ name).toList tail with
    | false => rw [Bool.false_and]
    | true =>
      obtain ⟨v, u, rfl, hv, hmatch⟩ := startsFolded_split hstart
      have hbytes := length_bytes_ascii (startsFolded_ascii hname hv hmatch)
      rw [bytes_append, List.length_append] at hshort
      omega
  · rename_i hlong
    rw [sliceList_of_le _ (Nat.zero_le _) (Nat.not_lt.mp hlong), pure_bind, List.drop_zero,
      eqBytes_take hname]
    refine Ensures.pure ?_
    cases hstart : startsFolded ("</" ++ name).toList tail with
    | false => rw [Bool.false_and, Bool.false_and]
    | true =>
      rw [getElem?_after_name hname hstart, (bytes_head? isTagBoundary_readsChars _).1]

end JmapBridge.Content
