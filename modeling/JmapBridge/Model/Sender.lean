import JmapBridge.Model.World
import JmapBridge.Model.Content

/-! Sending mail: the mailbox and identity of an account, the headers and quote of
a reply, and the batch that files the copy and submits it. -/

namespace JmapBridge

open Effect Rust

/-- The data of one `Email/set` + `EmailSubmission/set` batch; `source` is the queued
message it is built from. -/
structure EmailBuilder where
  source : OutboundMessage
  toEmail : String
  subject : String
  body : String
  inReplyTo : Option String := none
  references : List String := []
  attachments : List AttachmentInfo := []

def mailboxIdForRole (account : Account) (role : MailboxRole) : Bridge (Option MailboxId) := do
  let response ← onJmap account (.queryMailboxRole role)
  pure response.ids.head?

/-- The copy is filed in Sent, or in Drafts where there is no Sent. -/
def outgoingMailbox (account : Account) : Bridge MailboxId := do
  match ← mailboxIdForRole account .sent with
  | some id => pure id
  | none => do
    let drafts ← mailboxIdForRole account .drafts
    Act.ofOption (.context "Account has neither a Sent nor a Drafts mailbox") drafts

def primaryIdentity (account : Account) :
    Task (Option (Option String × Option String × String)) := do
  match ← result (onJmap account .getIdentity) with
  | .ok l => pure (l.findSome? fun i => i.email.map fun email => (i.id, i.name, email))
  | .error _ => pure none

def EmailBuilder.draft (b : EmailBuilder) (mailboxId : MailboxId)
    (identity : Option String × Option String × String) : Draft where
  source := b.source
  mailboxId := mailboxId
  fromName := identity.2.1
  fromEmail := identity.2.2
  toEmail := b.toEmail
  subject := b.subject
  body := b.body
  inReplyTo := b.inReplyTo
  references := b.references
  attachments := b.attachments
  identityId := identity.1

/-- Build and submit the batch. The submission is checked after the copy, so a
rejected submission is an error although the copy exists. -/
def submit (account : Account) (b : EmailBuilder) : Bridge EmailId := do
  let mailboxId ← outgoingMailbox account
  let identity ← Act.lift (primaryIdentity account)
  let draft := b.draft mailboxId (identity.getD (none, none, account))
  let reply ← onJmap account (.submitBatch draft)
  let emailId ← Act.ofOption
    (.context "JMAP response did not include an ID for the created email") reply.created
  if reply.submitted then pure emailId
  else Act.fail (.context
    "email saved to Sent but the JMAP submission was rejected (not delivered)")

/-- Failure to read the thread is an empty list. -/
def threadEmailIds (account : Account) (thread : ThreadId) : Task (List EmailId) := do
  match ← result (onJmap account (.getThread thread)) with
  | .ok emails => pure (emails.getD [])
  | .error _ => pure []

/-- In-Reply-To and References, from the Message-IDs in thread order. -/
def messageIdChain (ids : List EmailId) (emails : List (EmailId × Option String)) :
    Option String × List String :=
  ids.foldl (fun chain id =>
    match (emails.find? (·.1 == id)).bind (·.2) with
    | some mid => (some mid, if mid ∈ chain.2 then chain.2 else chain.2 ++ [mid])
    | none => chain) (none, [])

def replyHeaders (account : Account) (thread : ThreadId) : Task (Option String × List String) := do
  let emailIds ← threadEmailIds account thread
  if emailIds.isEmpty then pure (none, [])
  else do
    match ← result (onJmap account (.getMessageIds emailIds)) with
    | .ok emails => pure (messageIdChain emailIds emails)
    | .error _ => pure (none, [])

/-- A quote of the newest message of the thread, `none` on any failure. -/
def replyQuote (account : Account) (thread : ThreadId) : Task (Option String) := do
  let emailIds ← threadEmailIds account thread
  match emailIds.getLast? with
  | none => pure none
  | some newest => do
    match ← result (onJmap account (.getQuote newest)) with
    | .ok quote => pure quote
    | .error _ => pure none

def quotedBody (cfg : Config) (account : Account) (thread : ThreadId) (body : String) :
    Task String := do
  if cfg.quoteReplies then do
    let quote ← replyQuote account thread
    pure ((quote.map fun q => s!"{body}\n\n{q}").getD body)
  else pure body

def replyToEmail (cfg : Config) (account : Account) (thread : ThreadId) (b : EmailBuilder) :
    Bridge EmailId := do
  let headers ← Act.lift (replyHeaders account thread)
  let body ← Act.lift (quotedBody cfg account thread b.body)
  submit account { b with body := body, inReplyTo := headers.1, references := headers.2 }

/-- `false` when the account has no mailbox for `role`. The response of `Email/set`
is not looked into. -/
def moveThreadToRole (account : Account) (thread : ThreadId) (role : MailboxRole) :
    Bridge Bool := do
  match ← mailboxIdForRole account role with
  | none => pure false
  | some target => do
    let emailIds ← Act.lift (threadEmailIds account thread)
    if emailIds.isEmpty then pure true
    else do
      onJmap account (.setMailboxIds emailIds target)
      pure true

end JmapBridge
