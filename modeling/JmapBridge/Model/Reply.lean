import JmapBridge.Model.Sender
import JmapBridge.Model.Scanners
import JmapBridge.Effect.Triple

/-! A threaded reply, made from the objects that the server returns: its headers, the quote
of the message it answers, and what is submitted. New mail arrives between the requests. -/

namespace JmapBridge

open Effect Rust

namespace Content

open Rust.Str

def quoteLine (l : Str) : Str := if l.isEmpty then ['>'] else "> ".toList ++ l

/-- `sender` is the `from` of the source. -/
def formatReplyQuote (sender date body : Str) : Str :=
  "On ".toList ++ date ++ ", ".toList ++ sender ++ " wrote:\n".toList ++
    ['\n'].intercalate ((lines body).map quoteLine)

end Content

namespace Reply

/-- An object of an `Email/get` answer, with the properties that replies ask for. -/
structure GetEmail where
  id : Option EmailId := none
  messageId : Option (List String) := none
  fromAddrs : Option (List EmailAddress) := none
  sentAt : Option Int := none
  receivedAt : Option Int := none
  textBody : Option (List (Option String)) := none
  bodyValues : List (String × String) := []
deriving DecidableEq, Repr

namespace GetEmail

def firstMessageId (email : GetEmail) : Option String := email.messageId.bind List.head?

/-- `"Name <addr>"`, or the bare address. -/
def sender (email : GetEmail) : String :=
  match email.fromAddrs.bind List.head? with
  | none => ""
  | some addr =>
    match addr.name with
    | none => addr.email
    | some name => s!"{name} <{addr.email}>"

def body (email : GetEmail) : Option String := do
  let part ← email.textBody.bind List.head?
  let partId ← part
  email.bodyValues.lookup partId

end GetEmail

/-- A quote, with the email it quotes. -/
structure Quote where
  text : String
  parent : GetEmail

/-- `formatUtc` is the date formatter of the time library. -/
def GetEmail.quote (formatUtc : Int → String) (email : GetEmail) : Option Quote := do
  let date ← email.sentAt.or email.receivedAt
  let body ← email.body
  let text := Content.formatReplyQuote email.sender.toList (formatUtc date).toList body.toList
  some ⟨String.ofList text, email⟩

/-- One round of the loop over the thread, on `(in_reply_to, references)`. -/
def chainStep (emails : List GetEmail) (chain : Option String × List String) (eid : EmailId) :
    Option String × List String :=
  match (emails.find? fun e => e.id == some eid).bind GetEmail.firstMessageId with
  | some mid => (some mid, if chain.2.any (· == mid) then chain.2 else chain.2 ++ [mid])
  | none => chain

inductive MailCmd where
  | getThread (thread : ThreadId)
  | getMessageIds (ids : List EmailId)
  | getQuoted (id : EmailId)
  | submit (b : EmailBuilder) (quoted : Option GetEmail)

/-- `none` is a request that failed, or an answer of another kind. -/
@[reducible] def MailCmd.Ans : MailCmd → Type
  | getThread _ => Option (List EmailId)
  | getMessageIds _ => Option (List GetEmail)
  | getQuoted _ => Option (List GetEmail)
  | submit _ _ => Unit

inductive MailOp : Type → Type where
  | mk (c : MailCmd) : MailOp c.Ans

abbrev ReplyTask := Prog MailOp

def onMail (c : MailCmd) : ReplyTask c.Ans := Prog.call (.mk c)

def threadEmailIds (thread : ThreadId) : ReplyTask (List EmailId) := do
  let found ← onMail (.getThread thread)
  pure (found.getD [])

def replyHeaders (thread : ThreadId) : ReplyTask (Option String × List String) := do
  let emailIds ← threadEmailIds thread
  if emailIds.isEmpty then pure (none, [])
  else do
    match ← onMail (.getMessageIds emailIds) with
    | some emails => pure (emailIds.foldl (chainStep emails) (none, []))
    | none => pure (none, [])

def replyQuote (formatUtc : Int → String) (thread : ThreadId) : ReplyTask (Option Quote) := do
  let emailIds ← threadEmailIds thread
  match emailIds.getLast? with
  | none => pure none
  | some newest => do
    let found ← onMail (.getQuoted newest)
    pure ((found.bind List.head?).bind (GetEmail.quote formatUtc))

structure ReplyCall where
  quoteReplies : Bool
  thread : ThreadId
  email : EmailBuilder

def quoteFor (formatUtc : Int → String) (call : ReplyCall) : ReplyTask (Option Quote) :=
  if call.quoteReplies then replyQuote formatUtc call.thread else pure none

/-- The text of the mail, with the quote below it. -/
def withQuote (body : String) (quote : Option Quote) : String :=
  (quote.map fun q => s!"{body}\n\n{q.text}").getD body

def replyToEmail (formatUtc : Int → String) (call : ReplyCall) : ReplyTask Unit := do
  let headers ← replyHeaders call.thread
  let quote ← quoteFor formatUtc call
  onMail (.submit { call.email with
    body := withQuote call.email.body quote
    inReplyTo := headers.1
    references := headers.2 } (quote.map Quote.parent))

/-! ### The server -/

structure StoredEmail where
  thread : ThreadId
  id : EmailId
  object : GetEmail
deriving DecidableEq, Repr

/-- The object of an answer bears the id that was asked for. -/
def StoredEmail.answer (s : StoredEmail) : GetEmail := { s.object with id := some s.id }

inductive MailAnswer where
  | failed
  | thread (emails : List StoredEmail)
  | emails (list : List GetEmail)
  | done
deriving DecidableEq, Repr

structure MailRecord where
  task : Nat
  cmd : MailCmd
  answer : MailAnswer

/-- The oldest mail is the first of `mail`, the newest record the first of `trace`. -/
structure MailWorld where
  mail : List StoredEmail := []
  trace : List MailRecord := []

/-- The emails of a thread, oldest first. -/
def threadOf (thread : ThreadId) (mail : List StoredEmail) : List StoredEmail :=
  mail.filter fun s => s.thread == thread

def MailCmd.run : (c : MailCmd) → MailAnswer → Option c.Ans
  | getThread _, .thread emails => some (some (emails.map (·.id)))
  | getThread _, .failed => some none
  | getMessageIds _, .emails list => some (some list)
  | getMessageIds _, .failed => some none
  | getQuoted _, .emails list => some (some list)
  | getQuoted _, .failed => some none
  | submit _ _, .done => some ()
  | _, _ => none

def mailExec (t : Nat) {β : Type} : MailOp β → MailAnswer → MailWorld → Option (β × MailWorld)
  | .mk c, a, w => (c.run a).map fun b => (b, { w with trace := ⟨t, c, a⟩ :: w.trace })

/-- Any number of replies, each at its own pace, and mail that arrives. -/
def replySystem (formatUtc : Int → String) (calls : Nat → ReplyCall) :
    System MailOp MailWorld MailAnswer StoredEmail where
  exec := mailExec
  env s w := some { w with mail := w.mail ++ [s] }
  drop _ w := w
  entry t := replyToEmail formatUtc (calls t)

/-- The server answers from its mail, in any order, or fails; new mail has an id of its own. -/
def honest : Discipline MailOp MailWorld MailAnswer StoredEmail where
  step _ _ o a w :=
    match o, a with
    | .mk (.getThread thread), .thread emails => emails = threadOf thread w.mail
    | .mk (.getMessageIds ids), .emails list =>
      list.Perm ((w.mail.filter fun s => ids.contains s.id).map StoredEmail.answer)
    | .mk (.getQuoted id), .emails list =>
      list = (w.mail.filter fun s => s.id == id).map StoredEmail.answer
    | _, _ => True
  env s w := s.id ∉ w.mail.map (·.id)

theorem mailExec_mk {t : Nat} {c : MailCmd} {a : MailAnswer} {b : c.Ans} {w w' : MailWorld}
    (h : mailExec t (.mk c) a w = some (b, w')) :
    c.run a = some b ∧ w' = { w with trace := ⟨t, c, a⟩ :: w.trace } := by
  obtain ⟨b₁, hb, he⟩ := Option.map_eq_some_iff.mp h
  obtain ⟨rfl, rfl⟩ := Prod.mk.inj he
  exact ⟨hb, rfl⟩

end Reply

end JmapBridge
