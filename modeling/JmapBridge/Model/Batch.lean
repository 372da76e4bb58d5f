import JmapBridge.Model.Sender

/-! `submit` down to the method responses of the server: the list a request comes back
with, what is taken out of it, and where taking something out can panic. -/

namespace JmapBridge.Batch

open Rust

/-- A value, an error that is returned, or a panic. -/
abbrev Outcome := ExceptT Err (Except Panic)

/-- What `jmap-client` reads off one method response. Each of these fails on a response of
another method and on a method-level error, and none of them panics. -/
structure ReplyReader (Reply : Type) where
  /-- `unwrap_query_mailbox()?.take_ids()` -/
  queryMailbox : Reply → Except Err (List MailboxId)
  /-- `unwrap_get_identity()?.list()` -/
  getIdentity : Reply → Except Err (List Identity)
  /-- `unwrap_set_email()?.created("draft")?.id()` -/
  createdDraft : Reply → Except Err (Option EmailId)
  /-- `unwrap_set_email_submission()?.created("sub").is_ok()` -/
  createdSub : Reply → Except Err Bool

/-- What each request of `submit` comes back with: an error of the transport, or a list of
method responses as long as the server likes. -/
structure Answers (Reply : Type) where
  queryRole : MailboxRole → Except Err (List Reply)
  identity : Except Err (List Reply)
  batch : Draft → Except Err (List Reply)

variable {Reply : Type}

def returned {α : Type} (x : Except Err α) : Outcome α := ExceptT.mk (pure x)

def panicked {α : Type} (p : Panic) : Outcome α := ExceptT.mk (.error p)

/-- `pop_method_response`. -/
def popMethodResponse (responses : List Reply) : Option Reply := responses.getLast?

/-- `method_response_by_pos`, which removes the response and panics where there is none. -/
def methodResponseByPos (responses : List Reply) (i : Nat) : Outcome (Reply × List Reply) :=
  match responses[i]? with
  | some r => pure (r, responses.eraseIdx i)
  | none => panicked .indexOutOfBounds

def mailboxIdForRole (reader : ReplyReader Reply) (answers : Answers Reply) (role : MailboxRole) :
    Outcome (Option MailboxId) := do
  let responses ← returned (answers.queryRole role)
  match popMethodResponse responses with
  | none => returned (.error (.context "Empty response for Mailbox/query"))
  | some r =>
    let ids ← returned (reader.queryMailbox r)
    return ids.head?

def outgoingMailbox (reader : ReplyReader Reply) (answers : Answers Reply) : Outcome MailboxId := do
  match ← mailboxIdForRole reader answers .sent with
  | some id => return id
  | none =>
    match ← mailboxIdForRole reader answers .drafts with
    | some id => return id
    | none => returned (.error (.context "Account has neither a Sent nor a Drafts mailbox"))

/-- Every failure is the absence of an identity. -/
def primaryIdentity (reader : ReplyReader Reply) (answers : Answers Reply) :
    Option (Option String × Option String × String) := do
  let responses ← answers.identity.toOption
  let r ← popMethodResponse responses
  let identities ← (reader.getIdentity r).toOption
  identities.findSome? fun i => i.email.map fun email => (i.id, i.name, email)

/-- What is taken out of the answer to the batch. After the first response is removed, the
next one is the first. -/
def unpack (reader : ReplyReader Reply) (responses : List Reply) : Outcome EmailId := do
  let (first, responses) ← methodResponseByPos responses 0
  match ← returned (reader.createdDraft first) with
  | none =>
    returned (.error (.context "JMAP response did not include an ID for the created email"))
  | some emailId =>
    let (next, _) ← methodResponseByPos responses 0
    if ← returned (reader.createdSub next) then
      return emailId
    else
      returned (.error (.context
        "email saved to Sent but the JMAP submission was rejected (not delivered)"))

def submit (reader : ReplyReader Reply) (username : String) (b : EmailBuilder)
    (answers : Answers Reply) : Outcome EmailId := do
  let mailboxId ← outgoingMailbox reader answers
  let identity := (primaryIdentity reader answers).getD (none, none, username)
  let responses ← returned (answers.batch (b.draft mailboxId identity))
  unpack reader responses

end JmapBridge.Batch
