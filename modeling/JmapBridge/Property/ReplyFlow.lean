import JmapBridge.Effect.Mirrors
import JmapBridge.Model.Calls
import JmapBridge.Model.Reply

/-! Replies are modelled twice: as tasks of the bridge, which are given the quote of a mail, and
down to the objects of the server, from which the quote is made. The mail that the second composes
is one that the first may compose. -/

namespace JmapBridge

open Effect

namespace Reply

/-- The mail and the object it quotes. -/
def composeReply (formatUtc : Int → String) (call : ReplyCall) :
    ReplyTask (EmailBuilder × Option GetEmail) := do
  let headers ← replyHeaders call.thread
  let quote ← quoteFor formatUtc call
  pure ({ call.email with
    body := withQuote call.email.body quote
    inReplyTo := headers.1
    references := headers.2 }, quote.map Quote.parent)

theorem replyToEmail_eq (formatUtc : Int → String) (call : ReplyCall) :
    replyToEmail formatUtc call =
      (composeReply formatUtc call).bind fun m => onMail (.submit m.1 m.2) := by
  unfold replyToEmail composeReply
  simp only [Prog.monad_bind_eq, Prog.bind_assoc]
  rfl

end Reply

def composeReply (cfg : Config) (account : Account) (thread : ThreadId) (b : EmailBuilder) :
    Task EmailBuilder := do
  let headers ← replyHeaders account thread
  let body ← quotedBody cfg account thread b.body
  pure { b with body := body, inReplyTo := headers.1, references := headers.2 }

theorem replyToEmail_eq (cfg : Config) (account : Account) (thread : ThreadId) (b : EmailBuilder) :
    replyToEmail cfg account thread b =
      Act.andThen (Act.lift (composeReply cfg account thread b)) (submit account) := by
  have hlift : ∀ {α : Type} (p : Task α) (f : α → Bridge EmailId),
      (Act.lift p).andThen f = Prog.bind p f := fun p f => Prog.bind_assoc ..
  refine ((hlift _ _).trans ?_).trans (hlift _ _).symm
  refine Eq.trans (congrArg (Prog.bind _) (funext fun headers => ?_)) (Prog.bind_assoc ..).symm
  exact (hlift _ _).trans
    (Prog.bind_assoc (quotedBody cfg account thread b.body) (fun body => (.pure { b with
      body := body, inReplyTo := headers.1, references := headers.2 } : Task EmailBuilder))
      (submit account)).symm

namespace Reply

/-- An answer of the server, or the error that stands for one that is missing. -/
def seen {α β : Type} (f : α → β) : Option α → Except Err β
  | some a => .ok (f a)
  | none => .error .jmap

def idPairs (emails : List GetEmail) : List (EmailId × Option String) :=
  emails.filterMap fun e => e.id.map fun id => (id, e.firstMessageId)

def firstQuote (formatUtc : Int → String) (emails : List GetEmail) : Option String :=
  (emails.head?.bind (GetEmail.quote formatUtc)).map Quote.text

/-- The requests of the two, with what the bridge's tasks are given of the objects. -/
inductive Asks (formatUtc : Int → String) (account : Account) :
    ∀ {β γ : Type}, MailOp β → Op γ → (β → γ) → Prop where
  | thread (thread : ThreadId) : Asks formatUtc account (.mk (.getThread thread))
    (.mk (.jmap account (.getThread thread))) (seen some)
  | messageIds (ids : List EmailId) : Asks formatUtc account (.mk (.getMessageIds ids))
    (.mk (.jmap account (.getMessageIds ids))) (seen idPairs)
  | quoted (id : EmailId) : Asks formatUtc account (.mk (.getQuoted id))
    (.mk (.jmap account (.getQuote id))) (seen (firstQuote formatUtc))

theorem find?_idPairs (emails : List GetEmail) (eid : EmailId) :
    ((idPairs emails).find? (·.1 == eid)).bind (·.2) =
      (emails.find? fun e => e.id == some eid).bind GetEmail.firstMessageId := by
  induction emails with
  | nil => rfl
  | cons e emails ih =>
    unfold idPairs at ih ⊢
    cases hid : e.id with
    | none => simpa [hid, List.find?_cons] using ih
    | some id =>
      by_cases heq : id = eid
      · simp [hid, heq]
      · simpa [hid, heq] using ih

theorem messageIdChain_eq (ids : List EmailId) (emails : List GetEmail) :
    messageIdChain ids (idPairs emails) = ids.foldl (chainStep emails) (none, []) := by
  refine congrArg (fun step => ids.foldl step (none, [])) (funext fun chain => funext fun eid => ?_)
  rw [chainStep, ← find?_idPairs]
  cases ((idPairs emails).find? (·.1 == eid)).bind (·.2) with
  | none => rfl
  | some mid =>
    by_cases hmem : mid ∈ chain.2
    · simp [hmem]
    · simp [hmem]

variable {formatUtc : Int → String} {account : Account} {cfg : Config}

abbrev Composes (formatUtc : Int → String) (account : Account) {α β : Type} (Q : α → β → Prop)
    (p : ReplyTask α) (q : Task β) : Prop :=
  Mirrors (fun o o' f => Asks formatUtc account o o' f) Q p q

theorem threadEmailIds_mirrors (thread : ThreadId) :
    Composes formatUtc account (fun ids ids' => ids' = ids) (threadEmailIds thread)
      (JmapBridge.threadEmailIds account thread) := by
  refine .op (.thread thread) fun found => ?_
  cases found with
  | none => exact .pure rfl
  | some ids => exact .pure rfl

theorem replyHeaders_mirrors (thread : ThreadId) :
    Composes formatUtc account (fun headers headers' => headers' = headers) (replyHeaders thread)
      (JmapBridge.replyHeaders account thread) := by
  refine (threadEmailIds_mirrors thread).bind fun ids ids' h => ?_
  obtain rfl := h
  by_cases hempty : ids'.isEmpty = true
  · rw [if_pos hempty, if_pos hempty]
    exact .pure rfl
  · rw [if_neg hempty, if_neg hempty]
    refine .op (.messageIds ids') fun found => ?_
    cases found with
    | none => exact .pure rfl
    | some emails => exact .pure (messageIdChain_eq ids' emails)

theorem replyQuote_mirrors (thread : ThreadId) :
    Composes formatUtc account (fun quote text => text = quote.map Quote.text)
      (replyQuote formatUtc thread) (JmapBridge.replyQuote account thread) := by
  refine (threadEmailIds_mirrors thread).bind fun ids ids' h => ?_
  obtain rfl := h
  cases ids'.getLast? with
  | none => exact .pure rfl
  | some newest =>
    refine .op (.quoted newest) fun found => ?_
    cases found with
    | none => exact .pure rfl
    | some emails => exact .pure rfl

theorem quotedBody_mirrors {call : ReplyCall} (hcfg : cfg.quoteReplies = call.quoteReplies)
    (body : String) :
    Composes formatUtc account (fun quote body' => body' = withQuote body quote)
      (quoteFor formatUtc call) (quotedBody cfg account call.thread body) := by
  unfold quoteFor quotedBody
  rw [hcfg]
  by_cases hquote : call.quoteReplies = true
  · rw [if_pos hquote, if_pos hquote]
    refine (replyQuote_mirrors call.thread).map_right fun quote text h => ?_
    rw [h, withQuote, Option.map_map]
    rfl
  · rw [if_neg hquote, if_neg hquote]
    exact .pure rfl

theorem composeReply_mirrors {call : ReplyCall} (hcfg : cfg.quoteReplies = call.quoteReplies) :
    Composes formatUtc account (fun m b => b = m.1) (composeReply formatUtc call)
      (JmapBridge.composeReply cfg account call.thread call.email) := by
  refine (replyHeaders_mirrors call.thread).bind fun headers headers' h => ?_
  obtain rfl := h
  refine (quotedBody_mirrors hcfg call.email.body).bind fun quote body h => ?_
  obtain rfl := h
  exact .pure rfl

/-- The account holds the threads of the server. -/
def SameThreads (account : Account) (w : MailWorld) (v : World) : Prop :=
  ∀ thread, v.mail.threads account thread = (threadOf thread w.mail).map (·.id)

theorem exec_answered {t : Nat} {v : World} {c : JmapCmd} {r : JmapReply} {a : c.Ans}
    (h : c.value v.mail account r = some a) :
    ∃ v₁, JmapBridge.exec t (.mk (.jmap account c)) (.reply r) v = some (.ok a, v₁) ∧
      v₁.mail = c.effect account r v.mail := by
  simp only [JmapBridge.exec, Cmd.perform, JmapCmd.perform, h, Option.map_some]
  exact ⟨_, rfl, rfl⟩

theorem asks_answered {t : Nat} {β γ : Type}
    {o : MailOp β} {o' : Op γ} {f : β → γ} (h : Asks formatUtc account o o' f) {w w₁ : MailWorld}
    {v : World} {c : MailAnswer} {b : β} (hsame : SameThreads account w v)
    (hc : honest.step t o c w) (he : mailExec t o c w = some (b, w₁)) :
    ∃ c' v₁, JmapBridge.exec t o' c' v = some (f b, v₁) ∧ SameThreads account w₁ v₁ := by
  cases h with
  | thread thread =>
    obtain ⟨hb, rfl⟩ := mailExec_mk he
    cases c with
    | failed =>
      cases hb
      exact ⟨.failed, _, rfl, hsame⟩
    | thread emails =>
      cases hb
      obtain rfl : emails = threadOf thread w.mail := hc
      have hanswer : (JmapCmd.getThread thread).value v.mail account
          (.thread (some ((threadOf thread w.mail).map (·.id)))) =
            some (some ((threadOf thread w.mail).map (·.id))) := if_pos (hsame thread).symm
      obtain ⟨v₁, hexec, hmail⟩ := exec_answered hanswer
      exact ⟨_, v₁, hexec, fun other => hmail ▸ hsame other⟩
    | emails list => cases hb
    | done => cases hb
  | messageIds ids =>
    obtain ⟨hb, rfl⟩ := mailExec_mk he
    cases c with
    | failed =>
      cases hb
      exact ⟨.failed, _, rfl, hsame⟩
    | emails list =>
      cases hb
      exact ⟨.reply (.messageIds (idPairs list)), _, rfl, hsame⟩
    | thread emails => cases hb
    | done => cases hb
  | quoted id =>
    obtain ⟨hb, rfl⟩ := mailExec_mk he
    cases c with
    | failed =>
      cases hb
      exact ⟨.failed, _, rfl, hsame⟩
    | emails list =>
      cases hb
      exact ⟨.reply (.quote (firstQuote formatUtc list)), _, rfl, hsame⟩
    | thread emails => cases hb
    | done => cases hb

/-- Every reply composed from the objects of the server is composed so by the bridge's tasks, on
the answers that these objects amount to. -/
theorem composeReply_eval {calls : Nat → Call} {replies : Nat → ReplyCall} {t : Nat}
    {call : ReplyCall} (hcfg : cfg.quoteReplies = call.quoteReplies) {w w' : MailWorld} {v : World}
    (hsame : SameThreads account w v) {m : EmailBuilder × Option GetEmail}
    (he : Eval (replySystem formatUtc replies) honest t (composeReply formatUtc call) w m w') :
    ∃ v', Eval (bridge cfg calls) {} t
      (JmapBridge.composeReply cfg account call.thread call.email) v m.1 v' := by
  have hmatch : ∃ b v', b = m.1 ∧ Eval (bridge cfg calls) {} t
      (JmapBridge.composeReply cfg account call.thread call.email) v b v' ∧
        SameThreads account w' v' := by
    refine (composeReply_mirrors hcfg).eval (fun h _ _ _ _ _ hi hc he => ?_) he hsame
    obtain ⟨c', v₁, he', hi'⟩ := asks_answered h hi hc he
    exact ⟨c', v₁, trivial, he', hi'⟩
  obtain ⟨b, v', rfl, hb, -⟩ := hmatch
  exact ⟨v', hb⟩

/-- A reply down to the objects ends with a mail that the bridge's tasks may submit for it. -/
theorem replyToEmail_eval {calls : Nat → Call} {replies : Nat → ReplyCall} {t : Nat}
    {call : ReplyCall} (hcfg : cfg.quoteReplies = call.quoteReplies) {w w' : MailWorld} {v : World}
    (hsame : SameThreads account w v)
    (he : Eval (replySystem formatUtc replies) honest t (replyToEmail formatUtc call) w () w') :
    ∃ b quoted v₁, w'.trace.head? = some ⟨t, .submit b quoted, .done⟩ ∧
      ∀ r v', Eval (bridge cfg calls) {} t (submit account b) v₁ r v' →
        Eval (bridge cfg calls) {} t
          (JmapBridge.replyToEmail cfg account call.thread call.email) v r v' := by
  rw [replyToEmail_eq] at he
  obtain ⟨m, w₁, hm, hlast⟩ := Eval.bind_iff.mp he
  obtain ⟨a, -, hexec⟩ := Eval.call_iff.mp hlast
  obtain ⟨hrun, rfl⟩ := mailExec_mk (c := .submit m.1 m.2) hexec
  obtain ⟨v₁, hb⟩ : ∃ v₁, Eval (bridge cfg calls) {} t
    (JmapBridge.composeReply cfg account call.thread call.email) v m.1 v₁ :=
      composeReply_eval hcfg hsame hm
  obtain rfl : a = .done := by
    cases a with
    | done => rfl
    | _ => cases hrun
  refine ⟨m.1, m.2, v₁, rfl, fun r v' hr => ?_⟩
  rw [JmapBridge.replyToEmail_eq]
  exact Eval.andThen_iff.mpr (.inl ⟨m.1, v₁, Eval.lift_iff.mpr ⟨m.1, hb, rfl⟩, hr⟩)

end Reply

end JmapBridge
