import JmapBridge.Property.ReplyHeaders

/-! The email that a reply quotes beside the one its headers answer. The headers take the last
email of the thread that has a Message-ID, the quote takes the last one of a later fetch. -/

namespace JmapBridge.Reply

open Effect

/-- The emails of the threads that task `t` was given, the newest answer first. -/
def fetched (t : Nat) : List MailRecord → List (List StoredEmail)
  | [] => []
  | r :: l =>
    if r.task = t then
      match r.cmd, r.answer with
      | .getThread _, .thread emails => emails :: fetched t l
      | _, _ => fetched t l
    else fetched t l

/-- A reply that was submitted with a quote and an In-Reply-To. -/
def MailRecord.threaded (r : MailRecord) : Option (String × GetEmail) :=
  match r.cmd with
  | .submit b (some quoted) => b.inReplyTo.map fun mid => (mid, quoted)
  | _ => none

/-- The email quoted is the one whose Message-ID is in In-Reply-To. -/
def AllMatched : List MailRecord → Prop
  | [] => True
  | r :: l => (∀ x ∈ r.threaded, x.2.firstMessageId = some x.1) ∧ AllMatched l

/-- The newest Message-ID of a thread. -/
def newestMessageId (emails : List StoredEmail) : Option String :=
  (emails.filterMap fun s => s.object.firstMessageId).getLast?

/-- Between the two fetches nothing arrived and the newest email has a Message-ID, or the
last email that arrived repeats the newest Message-ID. -/
def SteadyPair (first second : List StoredEmail) : Prop :=
  match (second.drop first.length).getLast? with
  | none => ∃ s ∈ first.getLast?, s.object.firstMessageId ≠ none
  | some s => s.object.firstMessageId = newestMessageId first

instance (first second : List StoredEmail) : Decidable (SteadyPair first second) := by
  unfold SteadyPair
  split <;> infer_instance

/-- The two fetches of every reply that was submitted. -/
def AllSteady : List MailRecord → Prop
  | [] => True
  | r :: l => (∀ _x ∈ r.threaded, ∃ second ∈ (fetched r.task l).head?,
      ∃ first ∈ (fetched r.task l).tail.head?, SteadyPair first second) ∧ AllSteady l

instance decidableAllMatched : ∀ l : List MailRecord, Decidable (AllMatched l)
  | [] => .isTrue trivial
  | r :: l =>
    have := decidableAllMatched l
    inferInstanceAs (Decidable ((∀ x ∈ r.threaded, x.2.firstMessageId = some x.1) ∧ AllMatched l))

instance decidableAllSteady : ∀ l : List MailRecord, Decidable (AllSteady l)
  | [] => .isTrue trivial
  | r :: l =>
    have := decidableAllSteady l
    inferInstanceAs (Decidable ((∀ _x ∈ r.threaded, ∃ second ∈ (fetched r.task l).head?,
      ∃ first ∈ (fetched r.task l).tail.head?, SteadyPair first second) ∧ AllSteady l))

/-- What a reply is made of: the first fetch gave In-Reply-To, and the second, with whatever
had arrived, the email that is quoted. -/
def MadeOf (x : String × GetEmail) (fetches : List (List StoredEmail)) : Prop :=
  ∃ first second rest s, fetches = second :: first :: rest ∧ first <+: second ∧
    newestMessageId first = some x.1 ∧ second.getLast? = some s ∧ x.2 = s.answer

def Sound : List MailRecord → Prop
  | [] => True
  | r :: l => (∀ x ∈ r.threaded, MadeOf x (fetched r.task l)) ∧ Sound l

/-! ### The two choices compared -/

theorem newestMessageId_last {emails : List StoredEmail} {s : StoredEmail} {mid : String}
    (hlast : emails.getLast? = some s) (hmid : s.object.firstMessageId = some mid) :
    newestMessageId emails = some mid := by
  obtain ⟨before, rfl⟩ := List.getLast?_eq_some_iff.mp hlast
  have hone : [s].filterMap (fun s => s.object.firstMessageId) = [mid] := by simp [hmid]
  rw [newestMessageId, List.filterMap_append, hone, List.getLast?_concat]

theorem steadyPair_iff {first second : List StoredEmail} {s : StoredEmail} {mid : String}
    (hgrow : first <+: second) (hfirst : newestMessageId first = some mid)
    (hsecond : second.getLast? = some s) :
    SteadyPair first second ↔ s.object.firstMessageId = some mid := by
  obtain ⟨arrived, rfl⟩ := hgrow
  rw [SteadyPair, List.drop_left]
  cases harrived : arrived.getLast? with
  | none =>
    rw [List.getLast?_eq_none_iff.mp harrived, List.append_nil] at hsecond
    constructor
    · rintro ⟨s', hs', hne⟩
      obtain rfl := Option.some.inj (hs'.symm.trans hsecond)
      obtain ⟨m, hm⟩ := Option.ne_none_iff_exists'.mp hne
      rw [hm, ← hfirst, newestMessageId_last hsecond hm]
    · intro hmid
      exact ⟨s, hsecond, by rw [hmid]; exact Option.some_ne_none mid⟩
  | some s' =>
    rw [List.getLast?_append, harrived, Option.some_or] at hsecond
    obtain rfl := Option.some.inj hsecond
    rw [hfirst]

theorem allMatched_iff {l : List MailRecord} (h : Sound l) : AllMatched l ↔ AllSteady l := by
  induction l with
  | nil => exact Iff.rfl
  | cons r l ih =>
    refine and_congr (forall₂_congr fun x hx => ?_) (ih h.2)
    obtain ⟨first, second, rest, s, hfetch, hgrow, hfirst, hsecond, hquoted⟩ := h.1 x hx
    have hsame : x.2.firstMessageId = s.object.firstMessageId := by rw [hquoted]; rfl
    rw [hsame, ← steadyPair_iff hgrow hfirst hsecond, hfetch]
    simp

/-! ### A reply among the others -/

variable {formatUtc : Int → String} {calls : Nat → ReplyCall} {t : Nat}

def replyContract : Contract MailWorld where
  inv w := Sound w.trace ∧ (w.mail.map (·.id)).Nodup
  rely t w w' := fetched t w'.trace = fetched t w.trace ∧ w.mail <+: w'.mail
  refl _ w := ⟨rfl, List.prefix_rfl⟩
  trans h h' := ⟨h'.1.trans h.1, h.2.trans h'.2⟩

abbrev ReplyTriple (formatUtc : Int → String) (calls : Nat → ReplyCall) (t : Nat)
    (P : MailWorld → Prop) (p : ReplyTask α) (Q : α → MailWorld → Prop) : Prop :=
  Triple (replySystem formatUtc calls) honest replyContract t P p Q

theorem fetched_other {r : MailRecord} {l : List MailRecord} {i : Nat} (h : i ≠ r.task) :
    fetched i (r :: l) = fetched i l := by
  simp [fetched, Ne.symm h]

theorem threadOf_starts {mail mail' : List StoredEmail} (h : mail <+: mail') (thread : ThreadId) :
    threadOf thread mail <+: threadOf thread mail' := h.filter _

/-- The last fetch of task `t` gave emails of the thread, as a beginning of it. -/
def FetchedFirst (t : Nat) (thread : ThreadId) (base : List (List StoredEmail))
    (old : List StoredEmail) (w : MailWorld) : Prop :=
  fetched t w.trace = base ∧ old <+: threadOf thread w.mail

theorem FetchedFirst.stable (thread : ThreadId) (base : List (List StoredEmail))
    (old : List StoredEmail) : Stable replyContract t (FetchedFirst t thread base old) :=
  fun _ _ h hr _ => ⟨hr.1.trans h.1, h.2.trans (threadOf_starts hr.2 thread)⟩

theorem request_step {c : MailCmd} {P : MailWorld → Prop} {R : c.Ans → MailWorld → Prop}
    (hc : ∀ b quoted, c ≠ .submit b quoted)
    (hR : ∀ (w : MailWorld) a b, (w.mail.map (·.id)).Nodup → P w → c.run a = some b →
      honest.step t (.mk c) a w → R b { w with trace := ⟨t, c, a⟩ :: w.trace }) :
    Step (replySystem formatUtc calls) honest replyContract t P (.mk c) R := by
  intro w a b w' hi hw hstep hexec
  have hexec : mailExec t (.mk c) a w = some (b, w') := hexec
  obtain ⟨hrun, rfl⟩ := mailExec_mk hexec
  refine ⟨⟨⟨fun x hx => ?_, hi.1⟩, hi.2⟩, fun i hit => ⟨fetched_other hit, List.prefix_rfl⟩,
    hR w a b hi.2 hw hrun hstep⟩
  cases c with
  | submit email quoted => exact absurd rfl (hc email quoted)
  | _ => exact nomatch hx

theorem threadEmailIds_triple (thread : ThreadId) (base : List (List StoredEmail))
    (old : List StoredEmail) :
    ReplyTriple formatUtc calls t (FetchedFirst t thread base old) (threadEmailIds thread)
      fun ids w => ids = [] ∨ ∃ emails, FetchedFirst t thread (emails :: base) emails w ∧
        old <+: emails ∧ ids = emails.map (·.id) := by
  have hstable : ∀ ids : List EmailId, Stable replyContract t fun w => ids = [] ∨
      ∃ emails, FetchedFirst t thread (emails :: base) emails w ∧ old <+: emails ∧
        ids = emails.map (·.id) := fun ids =>
    Stable.or (Stable.const _) (Stable.exists fun emails =>
      (FetchedFirst.stable thread _ emails).and (Stable.const _))
  have hcall : ReplyTriple formatUtc calls t (FetchedFirst t thread base old)
      (onMail (.getThread thread)) fun found w => found.getD [] = [] ∨
        ∃ emails, FetchedFirst t thread (emails :: base) emails w ∧ old <+: emails ∧
          found.getD [] = emails.map (·.id) := by
    refine .call (FetchedFirst.stable thread base old) (request_step (by simp) ?_)
      fun found => hstable _
    intro w a found _ hw hrun hstep
    cases a with
    | thread emails =>
      have hemails : emails = threadOf thread w.mail := hstep
      have hfound : some (emails.map (·.id)) = found := Option.some.inj hrun
      refine Or.inr ⟨emails, ⟨?_, ?_⟩, ?_, ?_⟩
      · simp [fetched, hw.1]
      · exact hemails ▸ List.prefix_rfl
      · exact hemails ▸ hw.2
      · rw [← hfound, Option.getD_some]
    | failed =>
      have hfound : none = found := Option.some.inj hrun
      exact Or.inl (by rw [← hfound]; rfl)
    | emails list => exact nomatch hrun
    | done => exact nomatch hrun
  exact .bind hcall fun found => .pure (hstable _) fun w _ h => h

theorem find?_answer {mail : List StoredEmail} (hd : (mail.map (·.id)).Nodup)
    {ids : List EmailId} {list : List GetEmail}
    (hlist : list.Perm ((mail.filter fun s => ids.contains s.id).map StoredEmail.answer))
    {s : StoredEmail} (hs : s ∈ mail) (hid : s.id ∈ ids) :
    (list.find? fun e => e.id == some s.id) = some s.answer := by
  have hids : ∀ l :
      List StoredEmail, (l.map StoredEmail.answer).filterMap (·.id) = l.map (·.id) := by
    intro l
    induction l with
    | nil => rfl
    | cons x l ih => rw [List.map_cons, List.map_cons, ← ih]; rfl
  have hdistinct : (list.filterMap (·.id)).Nodup := by
    refine (hlist.filterMap _).nodup_iff.mpr ?_
    rw [hids]
    exact hd.sublist (List.filter_sublist.map _)
  refine find?_of_distinct hdistinct (hlist.mem_iff.mpr ?_) rfl
  exact List.mem_map.mpr ⟨s, List.mem_filter.mpr ⟨hs, by simpa using hid⟩, rfl⟩

theorem messageIds_answer {mail emails : List StoredEmail} (hd : (mail.map (·.id)).Nodup)
    (hsub : ∀ s ∈ emails, s ∈ mail) {list : List GetEmail}
    (hlist : list.Perm ((mail.filter fun s => (emails.map (·.id)).contains s.id).map
      StoredEmail.answer)) :
    messageIds (emails.map (·.id)) list = emails.filterMap fun s => s.object.firstMessageId := by
  rw [messageIds, List.filterMap_map]
  refine List.filterMap_congr fun s hs => ?_
  have hfind := find?_answer hd hlist (hsub s hs) (List.mem_map.mpr ⟨s, hs, rfl⟩)
  rw [Function.comp_apply, hfind]
  rfl

/-- In-Reply-To was found among the emails of the task's last fetch. -/
def Headed (t : Nat) (thread : ThreadId) (mid : String) (w : MailWorld) : Prop :=
  ∃ first rest, FetchedFirst t thread (first :: rest) first w ∧ newestMessageId first = some mid

theorem Headed.stable (thread : ThreadId) (mid : String) :
    Stable replyContract t (Headed t thread mid) :=
  Stable.exists fun first => Stable.exists fun rest =>
    (FetchedFirst.stable thread (first :: rest) first).and (Stable.const _)

theorem mem_threadOf {thread : ThreadId} {mail : List StoredEmail} {emails : List StoredEmail}
    (h : emails <+: threadOf thread mail) {s : StoredEmail} (hs : s ∈ emails) : s ∈ mail :=
  (List.mem_filter.mp (h.subset hs)).1

theorem replyHeaders_triple (thread : ThreadId) :
    ReplyTriple formatUtc calls t (fun _ => True) (replyHeaders thread)
      fun r w => ∀ mid, r.1 = some mid → Headed t thread mid w := by
  intro w hi _
  refine Triple.bind (threadEmailIds_triple thread (fetched t w.trace) []) (fun ids => ?_) w hi
    ⟨rfl, List.nil_prefix⟩
  have hnone : ReplyTriple formatUtc calls t (fun _ => True)
      (Prog.pure ((none, []) : Option String × List String))
      fun r w => ∀ mid, r.1 = some mid → Headed t thread mid w :=
    .pure (Stable.const True) fun _ _ _ mid h => nomatch h
  by_cases hnil : ids.isEmpty = true
  · rw [if_pos hnil]
    exact fun w' hi' _ => hnone w' hi' trivial
  · rw [if_neg hnil]
    rintro w' hi' (hempty | ⟨emails, hfetched, -, rfl⟩)
    · exact absurd (List.isEmpty_iff.mpr hempty) hnil
    · have hcall : ReplyTriple formatUtc calls t
          (FetchedFirst t thread (emails :: fetched t w.trace) emails)
          (onMail (.getMessageIds (emails.map (·.id)))) fun found w => ∀ mid list,
            found = some list → (messageIds (emails.map (·.id)) list).getLast? = some mid →
              Headed t thread mid w := by
        refine .call (FetchedFirst.stable thread _ emails) (request_step (by simp) ?_) fun found =>
          Stable.forall fun mid => Stable.forall fun list => fun w w' h hr hi h₁ h₂ =>
            Headed.stable thread mid w w' (h h₁ h₂) hr hi
        intro w a found hd hw hrun hstep mid list hfound hlast
        cases a with
        | emails l =>
          have hl : some l = found := Option.some.inj hrun
          rw [hfound] at hl
          obtain rfl := Option.some.inj hl
          rw [messageIds_answer hd (fun s hs => mem_threadOf hw.2 hs) hstep] at hlast
          exact ⟨emails, _, ⟨by simpa [fetched] using hw.1, hw.2⟩, hlast⟩
        | failed =>
          have hl : none = found := Option.some.inj hrun
          rw [hfound] at hl
          exact nomatch hl
        | thread l => exact nomatch hrun
        | done => exact nomatch hrun
      refine Triple.bind hcall (fun found => ?_) w' hi' hfetched
      cases found with
      | none => exact fun w hi _ => hnone w hi trivial
      | some list =>
        refine .pure (Stable.forall fun mid => Stable.forall fun list => fun w w' h hr hi h₁ h₂ =>
          Headed.stable thread mid w w' (h h₁ h₂) hr hi) fun w _ h mid hmid => h mid list rfl ?_
        rw [foldl_chainStep] at hmid
        exact hmid

/-- What is known of the quote, once the headers have their Message-ID. -/
def Quoted (t : Nat) (mid : String) (quote : Option Quote) (w : MailWorld) : Prop :=
  ∀ q, quote = some q → MadeOf (mid, q.parent) (fetched t w.trace)

theorem Quoted.stable (mid : String) (quote : Option Quote) :
    Stable replyContract t (Quoted t mid quote) := fun w w' h hr _ q hq => by
  have hsame : fetched t w'.trace = fetched t w.trace := hr.1
  exact hsame ▸ h q hq

theorem quote_parent {email : GetEmail} {q : Quote} (h : email.quote formatUtc = some q) :
    q.parent = email := by
  obtain ⟨date, -, h⟩ := Option.bind_eq_some_iff.mp h
  obtain ⟨body, -, h⟩ := Option.bind_eq_some_iff.mp h
  rw [← Option.some.inj h]

theorem replyQuote_triple (thread : ThreadId) (mid : String) :
    ReplyTriple formatUtc calls t (Headed t thread mid) (replyQuote formatUtc thread)
      (Quoted t mid) := by
  rintro w hi ⟨first, rest, hfetched, hmid⟩
  refine Triple.bind (threadEmailIds_triple thread (first :: rest) first) (fun ids => ?_) w hi
    hfetched
  have hnone : ReplyTriple formatUtc calls t (fun _ => True) (Prog.pure none) (Quoted t mid) :=
    .pure (Stable.const True) fun _ _ _ q h => nomatch h
  cases hlast : ids.getLast? with
  | none => exact fun w' hi' _ => hnone w' hi' trivial
  | some newest =>
    rintro w' hi' (rfl | ⟨second, hsecond, hgrow, rfl⟩)
    · exact nomatch hlast
    · rw [List.getLast?_map] at hlast
      obtain ⟨s, hs, rfl⟩ := Option.map_eq_some_iff.mp hlast
      have hcall : ReplyTriple formatUtc calls t
          (FetchedFirst t thread (second :: first :: rest) second) (onMail (.getQuoted s.id))
          fun found w => fetched t w.trace = second :: first :: rest ∧
            ∀ e, found.bind List.head? = some e → e = s.answer := by
        refine .call (FetchedFirst.stable thread _ second) (request_step (by simp) ?_) fun found =>
          fun w w' h hr _ => ⟨hr.1.trans h.1, h.2⟩
        intro w a found hd hw hrun hstep
        refine ⟨by simpa [fetched] using hw.1, fun e he => ?_⟩
        cases a with
        | emails l =>
          have hl : some l = found := Option.some.inj hrun
          have hlist : l = (w.mail.filter fun s' => s'.id == s.id).map StoredEmail.answer := hstep
          rw [← hl, Option.bind_some] at he
          have hmem : e ∈ l := List.mem_of_head? he
          rw [hlist] at hmem
          obtain ⟨s', hs', rfl⟩ := List.mem_map.mp hmem
          obtain ⟨hmail, hid⟩ := List.mem_filter.mp hs'
          have hsmail := mem_threadOf hw.2 (List.mem_of_getLast? hs)
          rw [List.inj_on_of_nodup_map hd hmail hsmail (beq_iff_eq.mp hid)]
        | failed =>
          have hl : none = found := Option.some.inj hrun
          rw [← hl] at he
          exact nomatch he
        | thread l => exact nomatch hrun
        | done => exact nomatch hrun
      refine Triple.bind hcall (fun found => ?_) w' hi' hsecond
      refine .pure (fun w w' h hr _ => ⟨hr.1.trans h.1, h.2⟩) fun w _ h q hq => ?_
      obtain ⟨e, he, hquote⟩ := Option.bind_eq_some_iff.mp hq
      refine ⟨first, second, rest, s, h.1, hgrow, hmid, hs, ?_⟩
      show q.parent = s.answer
      rw [quote_parent hquote, h.2 e he]

theorem replyQuote_free (thread : ThreadId) :
    ReplyTriple formatUtc calls t (fun _ => True) (replyQuote formatUtc thread)
      fun _ _ => True := by
  have hkeeps : ∀ c : MailCmd, (∀ b quoted, c ≠ .submit b quoted) →
      Step (replySystem formatUtc calls) honest replyContract t (fun _ => True) (.mk c)
        fun _ _ => True := fun c hc => request_step hc fun _ _ _ _ _ _ _ => trivial
  have hcall : ∀ c : MailCmd, (∀ b quoted, c ≠ .submit b quoted) →
      ReplyTriple formatUtc calls t (fun _ => True) (onMail c) fun _ _ => True := fun c hc =>
    .call (Stable.const True) (hkeeps c hc) fun _ => Stable.const True
  have hpure : ∀ {β : Type} (b : β), ReplyTriple formatUtc calls t (fun _ => True) (Prog.pure b)
      fun _ _ => True := fun b => .pure (Stable.const True) fun _ _ _ => trivial
  refine .bind (.bind (hcall _ (by simp)) fun _ => hpure _) fun ids => ?_
  cases ids.getLast? with
  | none => exact hpure _
  | some newest => exact .bind (hcall _ (by simp)) fun _ => hpure _

theorem quoteFor_triple (call : ReplyCall) (mid : String) :
    ReplyTriple formatUtc calls t (Headed t call.thread mid) (quoteFor formatUtc call)
      (Quoted t mid) := by
  rw [quoteFor]
  split
  · exact replyQuote_triple call.thread mid
  · exact .pure (Headed.stable call.thread mid) fun _ _ _ q h => nomatch h

theorem submit_step {P : MailWorld → Prop} (b : EmailBuilder) (quoted : Option GetEmail)
    (hP : ∀ w mid q, P w → b.inReplyTo = some mid → quoted = some q →
      MadeOf (mid, q) (fetched t w.trace)) :
    Step (replySystem formatUtc calls) honest replyContract t P (.mk (.submit b quoted))
      fun _ _ => True := by
  intro w a u w' hi hw _ hexec
  have hexec : mailExec t (.mk (.submit b quoted)) a w = some (u, w') := hexec
  obtain ⟨-, rfl⟩ := mailExec_mk hexec
  refine ⟨⟨⟨?_, hi.1⟩, hi.2⟩, fun i hit => ⟨fetched_other hit, List.prefix_rfl⟩, trivial⟩
  rintro ⟨mid, q⟩ hx
  cases quoted with
  | none => exact nomatch hx
  | some q' =>
    obtain ⟨mid', hmid, heq⟩ := Option.map_eq_some_iff.mp hx
    obtain ⟨rfl, rfl⟩ := Prod.mk.inj heq
    exact hP w mid' q' hw hmid rfl

theorem replyToEmail_triple (call : ReplyCall) :
    ReplyTriple formatUtc calls t (fun _ => True) (replyToEmail formatUtc call)
      fun _ _ => True := by
  refine .bind (replyHeaders_triple call.thread) fun headers => ?_
  have hquote : ReplyTriple formatUtc calls t
      (fun w => ∀ mid, headers.1 = some mid → Headed t call.thread mid w) (quoteFor formatUtc call)
      fun quote w => ∀ mid, headers.1 = some mid → Quoted t mid quote w := by
    cases hmid : headers.1 with
    | none =>
      have hfree : ReplyTriple formatUtc calls t (fun _ => True) (quoteFor formatUtc call)
          fun _ _ => True := by
        rw [quoteFor]
        split
        · exact replyQuote_free call.thread
        · exact .pure (Stable.const True) fun _ _ _ => trivial
      exact (hfree.pre fun _ _ _ => trivial).post fun _ _ _ _ mid h => nomatch h
    | some mid =>
      refine ((quoteFor_triple call mid).pre fun w _ h => h mid rfl).post
        fun quote w _ h mid' heq => ?_
      rw [← Option.some.inj heq]
      exact h
  refine .bind hquote fun quote => .call ?_ (submit_step _ _ ?_) fun _ => Stable.const True
  · exact Stable.forall fun mid => fun w w' h hr hi heq =>
      Quoted.stable mid quote w w' (h heq) hr hi
  · intro w mid q hw hmid hq
    obtain ⟨q', rfl, rfl⟩ := Option.map_eq_some_iff.mp hq
    exact hw mid hmid q' rfl

theorem reply_upholds (formatUtc : Int → String) (calls : Nat → ReplyCall) :
    Upholds (replySystem formatUtc calls) honest replyContract where
  start t w hi _ _ := replyToEmail_triple (calls t) w hi trivial
  env s w w' hi hfresh hexec := by
    have hworld : { w with mail := w.mail ++ [s] } = w' := Option.some.inj hexec
    have hfresh : s.id ∉ w.mail.map (·.id) := hfresh
    subst hworld
    refine ⟨⟨hi.1, ?_⟩, fun i => ⟨rfl, List.prefix_append _ _⟩⟩
    show ((w.mail ++ [s]).map (·.id)).Nodup
    rw [List.map_append]
    exact List.nodup_append.mpr ⟨hi.2, List.nodup_singleton _, fun a ha b hb heq => hfresh <| by
      have hid : b = s.id := List.mem_singleton.mp hb
      rw [← hid, ← heq]
      exact ha⟩
  cancel t w hi _ := ⟨hi, fun i _ => ⟨rfl, List.prefix_rfl⟩, trivial⟩

/-- In every run the quoted email is always the one in In-Reply-To exactly if, for each reply,
nothing arrived between its two fetches and the newest email of the thread has a Message-ID,
or the last email that arrived repeats the newest Message-ID. -/
theorem allMatched_iff_allSteady {mail : List StoredEmail} (hd : (mail.map (·.id)).Nodup)
    {es : List (Event MailAnswer StoredEmail)} {q : Pool MailOp MailWorld}
    (hrun : (replySystem formatUtc calls).run es (Pool.boot { mail := mail }) = some q)
    (hes : (replySystem formatUtc calls).Admits honest.meets es (Pool.boot { mail := mail })) :
    AllMatched q.world.trace ↔ AllSteady q.world.trace := by
  have hboot : replyContract.inv { mail := mail } := ⟨trivial, hd⟩
  have hinv := (reply_upholds formatUtc calls).inv_of_run hboot (fun _ => trivial) hrun hes
  exact allMatched_iff hinv.1

/-! ### Two runs -/

instance decidableHonest (t : Nat) : ∀ {β : Type} (o : MailOp β) (a : MailAnswer) (w : MailWorld),
    Decidable (honest.step t o a w)
  | _, .mk (.getThread thread), .thread emails, w =>
    inferInstanceAs (Decidable (emails = threadOf thread w.mail))
  | _, .mk (.getMessageIds ids), .emails list, w => inferInstanceAs (Decidable
      (list.Perm ((w.mail.filter fun s => ids.contains s.id).map StoredEmail.answer)))
  | _, .mk (.getQuoted id), .emails list, w => inferInstanceAs (Decidable
      (list = (w.mail.filter fun s => s.id == id).map StoredEmail.answer))
  | _, .mk (.getThread _), .failed, _ => isTrue trivial
  | _, .mk (.getThread _), .emails _, _ => isTrue trivial
  | _, .mk (.getThread _), .done, _ => isTrue trivial
  | _, .mk (.getMessageIds _), .failed, _ => isTrue trivial
  | _, .mk (.getMessageIds _), .thread _, _ => isTrue trivial
  | _, .mk (.getMessageIds _), .done, _ => isTrue trivial
  | _, .mk (.getQuoted _), .failed, _ => isTrue trivial
  | _, .mk (.getQuoted _), .thread _, _ => isTrue trivial
  | _, .mk (.getQuoted _), .done, _ => isTrue trivial
  | _, .mk (.submit _ _), _, _ => isTrue trivial

instance decidableHonestMeets (e : Event MailAnswer StoredEmail) (q : Pool MailOp MailWorld) :
    Decidable (honest.meets e q) :=
  have : ∀ t w, Decidable (honest.start t w) := fun _ _ => isTrue trivial
  have : ∀ t β (o : MailOp β) c w, Decidable (honest.step t o c w) := fun t _ => decidableHonest t
  have : ∀ t w, Decidable (honest.cancel t w) := fun _ _ => isTrue trivial
  have : ∀ e w, Decidable (honest.env e w) := fun e w =>
    inferInstanceAs (Decidable (e.id ∉ w.mail.map (·.id)))
  Discipline.decidableMeets e q

def letter (id mid : String) : StoredEmail where
  thread := "t1"
  id := id
  object := {
    messageId := some [mid]
    sentAt := some 0
    textBody := some [some "1"]
    bodyValues := [("1", "hello")] }

def quotingReply (_ : Nat) : ReplyCall where
  quoteReplies := true
  thread := "t1"
  email := {
    source := ⟨0, "@u:x", "!r:x", "$e", "hi", none, none, none, 0⟩
    toEmail := "ann@x"
    subject := "Re: hello"
    body := "hi" }

def noDate (_ : Int) : String := ""

/-- Nothing arrives. -/
def quietRun : List (Event MailAnswer StoredEmail) :=
  [.start 0, .step 0 (.thread [letter "e1" "<a@x>"]),
    .step 0 (.emails [(letter "e1" "<a@x>").answer]),
    .step 0 (.thread [letter "e1" "<a@x>"]), .step 0 (.emails [(letter "e1" "<a@x>").answer]),
    .step 0 .done]

theorem allMatched_quiet : ∃ q, (replySystem noDate quotingReply).run quietRun
    (Pool.boot { mail := [letter "e1" "<a@x>"] }) = some q ∧ q.world.trace.length = 5 ∧
      AllMatched q.world.trace := by
  have hends : ((replySystem noDate quotingReply).run quietRun
      (Pool.boot { mail := [letter "e1" "<a@x>"] })).map (fun q =>
      (q.world.trace.length, decide (AllSteady q.world.trace))) = some (5, true) := by
    decide +kernel
  have hes : (replySystem noDate quotingReply).Admits honest.meets quietRun
      (Pool.boot { mail := [letter "e1" "<a@x>"] }) := by decide +kernel
  obtain ⟨q, hq, hstate⟩ := Option.map_eq_some_iff.mp hends
  obtain ⟨hlength, hsteady⟩ := Prod.mk.inj hstate
  exact ⟨q, hq, hlength,
    (allMatched_iff_allSteady (by decide) hq hes).mpr (of_decide_eq_true hsteady)⟩

/-- A second email arrives between the two fetches. -/
def overtakenRun : List (Event MailAnswer StoredEmail) :=
  [.start 0, .step 0 (.thread [letter "e1" "<a@x>"]),
    .step 0 (.emails [(letter "e1" "<a@x>").answer]),
    .env (letter "e2" "<b@x>"), .step 0 (.thread [letter "e1" "<a@x>", letter "e2" "<b@x>"]),
    .step 0 (.emails [(letter "e2" "<b@x>").answer]), .step 0 .done]

theorem overtaken_quotes_another : ∃ q, (replySystem noDate quotingReply).run overtakenRun
    (Pool.boot { mail := [letter "e1" "<a@x>"] }) = some q ∧
      (replySystem noDate quotingReply).Admits honest.meets overtakenRun
        (Pool.boot { mail := [letter "e1" "<a@x>"] }) ∧ ¬AllMatched q.world.trace := by
  have hends : ((replySystem noDate quotingReply).run overtakenRun
      (Pool.boot { mail := [letter "e1" "<a@x>"] })).map (fun q =>
      decide (AllMatched q.world.trace)) = some false := by decide +kernel
  have hes : (replySystem noDate quotingReply).Admits honest.meets overtakenRun
      (Pool.boot { mail := [letter "e1" "<a@x>"] }) := by decide +kernel
  obtain ⟨q, hq, hstate⟩ := Option.map_eq_some_iff.mp hends
  exact ⟨q, hq, hes, of_decide_eq_false hstate⟩

end JmapBridge.Reply
