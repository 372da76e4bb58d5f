import JmapBridge.Model.Router
import JmapBridge.Rust.Trim
import JmapBridge.Property.FoldedCase
import JmapBridge.Property.Twins

/-! No text sent to the bot makes it slice or index out of range, but one: the command for
the signature with nothing after it but one quotation mark. -/

namespace Rust.Str

theorem trim_eq_singleton_iff {s : Str} {q : Char} (hq : isWhitespace q = false) :
    trim s = [q] ↔ ∃ b b', Blank b ∧ Blank b' ∧ s = b ++ q :: b' := by
  constructor
  · intro h
    obtain ⟨b, hs, hb⟩ := trimStart_append s
    obtain ⟨b', ht, hb'⟩ := trimEnd_append (trimStart s)
    have hend : trimEnd (trimStart s) = [q] := h
    refine ⟨b, b', hb, hb', ?_⟩
    rw [hend] at ht
    rw [hs, ht, List.singleton_append]
  · rintro ⟨b, b', hb, hb', rfl⟩
    have hstart : trimStart (b ++ q :: b') = [] ++ [q] ++ b' := by
      rw [trimStart_append_blank hb, trimStart_cons, hq]
      rfl
    rw [trim, hstart, trimEnd_append_blank _ hb', trimEnd_concat, hq]
    rfl

theorem trim_word {w : Str} (hw : ∀ c ∈ w, isWhitespace c = false) (hne : w ≠ []) (s : Str) :
    trim (w ++ s) = w ++ trimEnd s := by
  have hself : trim w = w := trim_eq_self hw
  have hstart : trimStart w = w := by
    rw [← hself, trim, ← trimStart_trimEnd, trimStart_trimStart]
  have hend : trimEnd w = w := by
    rw [← hself, trim, trimEnd_trimEnd]
  rw [trim, trimStart_append_of_ne (by rw [hstart]; exact hne), hstart]
  by_cases hs : trimEnd s = []
  · rw [trimEnd_append_blank w (trimEnd_eq_nil_iff.mp hs), hend, hs, List.append_nil]
  · exact trimEnd_append_of_ne hs

theorem trim_trimEnd (s : Str) : trim (trimEnd s) = trim s := by
  rw [trim, trim, trimStart_trimEnd, trimEnd_trimEnd]

theorem stripPrefix_append (t s : Str) : stripPrefix t (t ++ s) = some s := by
  rw [stripPrefix, if_pos (startsWith_iff.mpr ⟨s, rfl⟩), List.drop_left]

end Rust.Str

namespace JmapBridge.Router

open Rust Rust.Str Rust.Scan JmapBridge.Content

/-! ### The loop of `clean_subject` -/

theorem ascii_of_toLower {c : Char} (h : IsAscii c.toLower) : c.utf8Size = 1 := by
  have hlow : c.toLower.toNat < 128 := h
  rw [toNat_toLower, lowerNat] at hlow
  have hc : c.toNat < 128 := by
    split at hlow <;> omega
  exact Char.utf8Size_eq_one_iff.mpr (UInt32.le_iff_toNat_le.mpr (Nat.le_of_lt_succ hc))

theorem byteLen_of_lower {w p : Str} (hp : ∀ c ∈ p, IsAscii c) (h : Str.toAsciiLowercase w = p) :
    byteLen w = byteLen p := by
  induction w generalizing p with
  | nil =>
    subst h
    rfl
  | cons c w ih =>
    subst h
    have hc : IsAscii c.toLower := hp _ List.mem_cons_self
    have hrest : byteLen w = byteLen (Str.toAsciiLowercase w) :=
      ih (fun d hd => hp d (List.mem_cons_of_mem _ hd)) rfl
    have hlow : c.toLower.utf8Size = 1 :=
      Char.utf8Size_eq_one_iff.mpr (UInt32.le_iff_toNat_le.mpr (Nat.le_of_lt_succ hc))
    show byteLen (c :: w) = byteLen (c.toLower :: Str.toAsciiLowercase w)
    rw [byteLen_cons, byteLen_cons, hrest, hlow, ascii_of_toLower hc]

theorem marks_ascii : ∀ p ∈ subjectPrefixes, 0 < p.length ∧ ∀ c ∈ p.toList, IsAscii c := by
  have hmarks : subjectPrefixes.all fun p =>
      decide (0 < p.length) && p.toList.all fun c => decide (IsAscii c) := by decide
  intro p hp
  obtain ⟨hpos, hascii⟩ := Bool.and_eq_true_iff.mp (List.all_eq_true.mp hmarks p hp)
  exact ⟨of_decide_eq_true hpos, fun c hc => of_decide_eq_true (List.all_eq_true.mp hascii c hc)⟩

theorem rest_of_mark {p : String} {s : Str} (hp : p ∈ subjectPrefixes)
    (h : Str.startsWith p.toList (Str.toAsciiLowercase s) = true) :
    Rest s (byteLen p.toList) (s.drop p.length) := by
  obtain ⟨-, hascii⟩ := marks_ascii p hp
  obtain ⟨u, hu⟩ := startsWith_iff.mp h
  have hlower : Str.toAsciiLowercase (s.take p.length) = p.toList := by
    rw [Str.toAsciiLowercase, List.map_take, ← Str.toAsciiLowercase, hu, ← String.length_toList,
      List.take_left]
  exact ⟨s.take p.length, (List.take_append_drop _ _).symm, byteLen_of_lower hascii hlower⟩

theorem length_of_mark {p : String} {s : Str} (hp : p ∈ subjectPrefixes)
    (h : Str.startsWith p.toList (Str.toAsciiLowercase s) = true) :
    (Str.trimStart (s.drop p.length)).length < s.length := by
  obtain ⟨hpos, -⟩ := marks_ascii p hp
  obtain ⟨u, hu⟩ := startsWith_iff.mp h
  have hlen : s.length = p.length + u.length := by
    rw [← List.length_map (f := Char.toLower), ← Str.toAsciiLowercase, hu, List.length_append,
      String.length_toList]
  have htrim : (Str.trimStart (s.drop p.length)).length ≤ (s.drop p.length).length :=
    (List.dropWhile_sublist _).length_le
  rw [List.length_drop] at htrim
  omega

theorem cleanSubject_spec (subject : Str) : (cleanSubject subject).Ensures fun name =>
    String.ofList name = JmapBridge.cleanSubject (String.ofList subject) := by
  have hloop : (Scan.loop subjectRound (Str.trim subject)).Ensures fun s =>
      stripSubjectPrefixes (Str.trim subject).length (Str.trim subject) = s := by
    refine Ensures.loop (fun s => ∃ n, s.length ≤ n ∧
      stripSubjectPrefixes (Str.trim subject).length (Str.trim subject) = stripSubjectPrefixes n s)
      List.length ⟨_, Nat.le_refl _, rfl⟩ ?_
    rintro s ⟨n, hn, hs⟩
    rw [subjectRound]
    cases hfind : subjectPrefixes.find? fun p =>
        Str.startsWith p.toList (Str.toAsciiLowercase s) with
    | none =>
      refine Ensures.pure ?_
      cases n with
      | zero => exact hs
      | succ n =>
        have hsame : stripSubjectPrefixes (n + 1) s = s := by
          rw [stripSubjectPrefixes]
          simp only [Str.startsWith] at hfind
          rw [hfind]
        exact hs.trans hsame
    | some p =>
      have hmem := List.mem_of_find?_eq_some hfind
      have hstarts : Str.startsWith p.toList (Str.toAsciiLowercase s) = true :=
        List.find?_some
          (p := fun q : String => Str.startsWith q.toList (Str.toAsciiLowercase s)) hfind
      have hlt := length_of_mark hmem hstarts
      show (Scan.sliceFrom s (byteLen p.toList) >>= fun rest =>
        pure (Turn.again (Str.trimStart rest))).Ensures _
      rw [sliceFrom_rest (rest_of_mark hmem hstarts)]
      refine Ensures.pure ⟨?_, hlt⟩
      obtain ⟨n, rfl⟩ : ∃ m, n = m + 1 := ⟨n - 1, by omega⟩
      refine ⟨n, by omega, hs.trans ?_⟩
      rw [stripSubjectPrefixes]
      simp only [Str.startsWith] at hfind
      rw [hfind]
  refine Ensures.bind hloop ?_
  rintro s rfl
  refine Ensures.pure ?_
  rw [JmapBridge.cleanSubject]
  simp

/-! ### The commands besides the signature -/

theorem oneShotLogin_returns (body : Str) : (oneShotLogin body).Returns := by
  rw [oneShotLogin]
  by_cases h : (Str.splitWhitespace body).length < 4
  · rw [if_pos h]
    exact Ensures.pure trivial
  · rw [if_neg h]
    have hget : ∀ i, i < 4 → ∃ part, Scan.index (Str.splitWhitespace body) i = pure part := by
      intro i hi
      exact ⟨_, index_of_getElem? (List.getElem?_eq_getElem (by omega))⟩
    obtain ⟨username, husername⟩ := hget 1 (by omega)
    obtain ⟨password, hpassword⟩ := hget 2 (by omega)
    obtain ⟨url, hurl⟩ := hget 3 (by omega)
    rw [husername, hpassword, hurl]
    exact Ensures.pure trivial

theorem parseLogin_returns (body : Str) : (parseLogin body).Returns := by
  rw [parseLogin]
  split
  · exact Ensures.pure trivial
  · split
    · exact oneShotLogin_returns body
    · exact Ensures.pure trivial

theorem parseEmail_returns (body : Str) : (parseEmail body).Returns := by
  rw [parseEmail]
  by_cases h : (splitn (· == ' ') 4 body).length < 4
  · rw [if_pos h]
    exact Ensures.pure trivial
  · rw [if_neg h]
    have hget : ∀ i, i < 4 → ∃ part, Scan.index (splitn (· == ' ') 4 body) i = pure part := by
      intro i hi
      exact ⟨_, index_of_getElem? (List.getElem?_eq_getElem (by omega))⟩
    obtain ⟨recipient, hrecipient⟩ := hget 1 (by omega)
    obtain ⟨subject, hsubject⟩ := hget 2 (by omega)
    obtain ⟨text, htext⟩ := hget 3 (by omega)
    rw [hrecipient, hsubject, htext]
    exact Ensures.pure trivial

theorem executeCompose_returns (body : Str) : (executeCompose body).Returns := by
  rw [executeCompose]
  cases parseCompose body with
  | none => exact Ensures.pure trivial
  | some parsed =>
    obtain ⟨address, subject⟩ := parsed
    by_cases h : looksLikeEmail address = true
    · simp only [h, if_true]
      exact Ensures.bind (cleanSubject_spec _) fun _ _ => Ensures.pure trivial
    · simp only [h]
      exact Ensures.pure trivial

theorem parse_returns (body : Str) {c : ChatCommand} (hc : c ≠ .signature) :
    (parse body c).Returns := by
  cases c with
  | login => exact parseLogin_returns body
  | compose => exact executeCompose_returns body
  | email => exact parseEmail_returns body
  | signature => exact absurd rfl hc
  | _ => exact Ensures.pure trivial

/-! ### The signature -/

/-- The words that the command for the signature answers to. -/
def signatureWords : List String := ["signature", "!signature"]

/-- The command for the signature with nothing but one quotation mark. -/
def LoneQuote (body : Str) : Prop :=
  ∃ w ∈ signatureWords, ∃ q ∈ ['"', '\''], ∃ b b', Blank b ∧ Blank b' ∧
    body = w.toList ++ (b ++ q :: b')

theorem signature_matches_iff {body : String} {relation : Option Relation} :
    ChatCommand.signature.matches body relation = true ↔
      ∃ w ∈ signatureWords, ∃ rest, body.toList = w.toList ++ rest := by
  simp only [ChatCommand.matches, JmapBridge.startsWith, Bool.or_eq_true,
    List.isPrefixOf_iff_prefix,
    signatureWords, List.mem_cons, List.not_mem_nil, or_false, exists_eq_or_imp, exists_eq_left]
  constructor
  · rintro (⟨rest, h⟩ | ⟨rest, h⟩)
    · exact Or.inr ⟨rest, h.symm⟩
    · exact Or.inl ⟨rest, h.symm⟩
  · rintro (⟨rest, h⟩ | ⟨rest, h⟩)
    · exact Or.inr ⟨rest, h.symm⟩
    · exact Or.inl ⟨rest, h.symm⟩

theorem signatureArgs_word {w : String} (hw : w ∈ signatureWords) (rest : Str) :
    signatureArgs (w.toList ++ rest) = Str.trim rest := by
  have hword : ∀ c ∈ w.toList, isWhitespace c = false := by
    rcases List.mem_pair.mp hw with rfl | rfl
    · exact forall_mem_of_all (by decide)
    · exact forall_mem_of_all (by decide)
  have hne : w.toList ≠ [] := by
    rcases List.mem_pair.mp hw with rfl | rfl
    · exact List.cons_ne_nil _ _
    · exact List.cons_ne_nil _ _
  have htrim := trim_word hword hne rest
  rw [signatureArgs, htrim]
  rcases List.mem_pair.mp hw with rfl | rfl
  · have hnot :
        Str.startsWith "!signature".toList ("signature".toList ++ trimEnd rest) = false := rfl
    rw [hnot, stripPrefix_append]
    exact trim_trimEnd rest
  · rw [startsWith_iff.mpr ⟨trimEnd rest, rfl⟩, stripPrefix_append]
    exact trim_trimEnd rest

theorem router_signature {body : String} {relation : Option Relation}
    (h : ChatCommand.signature.matches body relation = true) :
    ChatCommand.router.find? (ChatCommand.matches body relation) = some .signature := by
  have hbegins := ChatCommand.matches_begins (by decide) h
  have hother : ∀ c : ChatCommand, c ≠ .signature → c ≠ .reply →
      c.matches body relation = false := by
    intro c hc hreply
    cases hm : c.matches body relation with
    | false => rfl
    | true =>
      refine absurd hbegins (not_begins_both ?_ (ChatCommand.matches_begins hreply hm))
      cases c <;> first | decide | contradiction
  simp [ChatCommand.router, hother, h]

theorem slice_quoted {args : Str} {q : Char} (hq : q.utf8Size = 1)
    (hstart : Str.startsWith [q] args = true) (hend : Str.endsWith [q] args = true)
    (hne : args ≠ [q]) :
    ∃ text, Scan.slice args 1 (usizeSub (byteLen args) 1) = pure text := by
  obtain ⟨rest, rfl⟩ := startsWith_iff.mp hstart
  obtain ⟨front, hfront⟩ := List.isSuffixOf_iff_suffix.mp hend
  cases front with
  | nil => exact absurd hfront.symm hne
  | cons c front =>
    obtain ⟨hc, hrest⟩ := List.cons.inj hfront
    subst hc hrest
    refine ⟨front, ?_⟩
    have hlen : byteLen ([c] ++ (front ++ [c])) = 2 + byteLen front := by
      simp only [byteLen_append, byteLen_cons, byteLen_nil, hq]
      omega
    have hrest : Rest ([c] ++ (front ++ [c])) 1 (front ++ [c]) := ⟨[c], rfl, by simp [hq]⟩
    refine slice_rest hrest ?_
    show usizeSub (byteLen ([c] ++ (front ++ [c]))) 1 = 1 + byteLen front
    rw [hlen, usizeSub_of_le (by omega)]
    omega

theorem not_returns_raise {p : Panic} {f : Str → Scan Request} :
    ¬(Scan.raise p >>= f).Returns := by
  rintro ⟨a, ⟨n, hn⟩, -⟩
  have hpanic : (Scan.raise p >>= f) n = some (.error p) := rfl
  cases hpanic.symm.trans (hn n (Nat.le_refl n))

theorem parseSignature_returns_iff {w : String} (hw : w ∈ signatureWords) (rest : Str) :
    (parseSignature (w.toList ++ rest)).Returns ↔ ¬∃ q ∈ ['"', '\''], Str.trim rest = [q] := by
  simp only [parseSignature, signatureArgs_word hw]
  constructor
  · rintro h ⟨q, hq, hlone⟩
    rw [hlone] at h
    rcases List.mem_pair.mp hq with rfl | rfl
    · exact not_returns_raise h
    · exact not_returns_raise h
  · intro hlone
    split
    · exact Ensures.pure trivial
    · split
      · exact Ensures.pure trivial
      · split
        case isTrue hquoted =>
          have hslice : ∃ text, Scan.slice (Str.trim rest) 1
              (usizeSub (byteLen (Str.trim rest)) 1) = pure text := by
            rcases Bool.or_eq_true_iff.mp hquoted with h | h
            · obtain ⟨hstart, hend⟩ := Bool.and_eq_true_iff.mp h
              exact slice_quoted rfl hstart hend fun heq => hlone ⟨'"', by decide, heq⟩
            · obtain ⟨hstart, hend⟩ := Bool.and_eq_true_iff.mp h
              exact slice_quoted rfl hstart hend fun heq => hlone ⟨'\'', by decide, heq⟩
          obtain ⟨text, htext⟩ := hslice
          rw [htext]
          exact Ensures.pure trivial
        case isFalse => exact Ensures.pure trivial

theorem loneQuote_word {w : String} (hw : w ∈ signatureWords) (rest : Str) :
    LoneQuote (w.toList ++ rest) ↔ ∃ q ∈ ['"', '\''], Str.trim rest = [q] := by
  have hblank : ∀ q ∈ ['"', '\''], isWhitespace q = false := forall_mem_of_all (by decide)
  constructor
  · rintro ⟨v, hv, q, hq, b, b', hb, hb', h⟩
    refine ⟨q, hq, ?_⟩
    have hargs : Str.trim rest = Str.trim (b ++ q :: b') := by
      rw [← signatureArgs_word hw, h, signatureArgs_word hv]
    rw [hargs]
    exact (trim_eq_singleton_iff (hblank q hq)).mpr ⟨b, b', hb, hb', rfl⟩
  · rintro ⟨q, hq, h⟩
    obtain ⟨b, b', hb, hb', rfl⟩ := (trim_eq_singleton_iff (hblank q hq)).mp h
    exact ⟨w, hw, q, hq, b, b', hb, hb', rfl⟩

theorem dispatch_returns_iff (level : Level) (body : String) (relation : Option Relation) :
    ((handlers body).dispatch body relation level).Returns ↔ ¬LoneQuote body.toList := by
  by_cases hsig : ChatCommand.signature.matches body relation = true
  · obtain ⟨w, hw, rest, hbody⟩ := signature_matches_iff.mp hsig
    have hparse : (handlers body).dispatch body relation level =
        parseSignature (w.toList ++ rest) := by
      rw [TextHandlers.dispatch, router_signature hsig, ← hbody]
      rfl
    rw [hparse, hbody, loneQuote_word hw, parseSignature_returns_iff hw]
  · have hlone : ¬LoneQuote body.toList := by
      rintro ⟨w, hw, q, hq, b, b', hb, hb', hbody⟩
      exact hsig (signature_matches_iff.mpr ⟨w, hw, _, hbody⟩)
    refine iff_of_true ?_ hlone
    have hsome : ((handlers body).handleLoginNone body relation (some level)).Returns := by
      refine TextHandlers.handleLoginNone_of Returns (Ensures.pure trivial)
        (fun _ => Ensures.pure trivial) fun c _ hmatch => ?_
      have hc : c ≠ .signature := by
        rintro rfl
        exact hsig hmatch
      exact parse_returns body.toList hc
    exact hsome

/-- Whoever sends the text and however far the login dialog has come, the bot reads it without
leaving the range of any string or list, but for the lone quote of a permitted sender. -/
theorem receive_returns_iff (level : Option Level) (state : LoginState) (body : String)
    (relation : Option Relation) :
    (receive level state body relation).Returns ↔
      ¬(level.isSome ∧ state = .none ∧ LoneQuote body.toList) := by
  cases state with
  | none =>
    cases level with
    | none =>
      refine iff_of_true ?_ fun h => absurd h.1 (by decide)
      have hnone : ((handlers body).handleLoginNone body relation none).Returns :=
        TextHandlers.handleLoginNone_of Returns (Ensures.pure trivial)
          (fun _ => Ensures.pure trivial) fun _ h => absurd h (by decide)
      exact hnone
    | some level =>
      have hreceive : (receive (some level) .none body relation).Returns ↔ ¬LoneQuote body.toList :=
        dispatch_returns_iff level body relation
      rw [hreceive]
      simp
  | waitingForEmail => exact iff_of_true (Ensures.pure trivial) fun h => by cases h.2.1
  | waitingForPassword email => exact iff_of_true (Ensures.pure trivial) fun h => by cases h.2.1
  | waitingForUrl email password =>
    exact iff_of_true (Ensures.pure trivial) fun h => by cases h.2.1

/-- A quotation mark that opens a signature and is sent too early ends the bridge. -/
theorem lone_quote_panics :
    ¬∀ (level : Option Level) (state : LoginState) (body : String) (relation : Option Relation),
      (receive level state body relation).Returns := by
  intro h
  obtain ⟨a, ⟨n, hn⟩, -⟩ := h (some .user) .none "signature \"" none
  have hpanic :
      receive (some .user) .none "signature \"" none n = some (.error .startAfterEnd) := rfl
  cases hpanic.symm.trans (hn n (Nat.le_refl n))

end JmapBridge.Router
