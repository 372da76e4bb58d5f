import JmapBridge.Effect.Rely
import JmapBridge.Model.Store

/-! The outside of the bridge: the commands it gives to the store, the Matrix
server, the JMAP server and the runtime, and what each does under an answer
chosen by the environment. Every command performed is kept in a trace. -/

namespace JmapBridge

open Effect Sql

/-- The JMAP account a client is connected to. -/
abbrev Account := String

inductive Content where
  | message (body : EmailBody)
  | file (mxcUrl fileName mimeType : String)
  | reaction (target : EventId) (key : String)
  | edit (target : EventId) (plain html : String)
deriving DecidableEq, Repr

inductive MatrixCmd where
  | ensureUserExists (localpart : String)
  | setDisplayName (user : UserId) (displayName : String)
  | createRoomForContact (contactName contactEmail : String) (user : UserId)
  | createRoomForMailbox (mailboxName : String)
  | createSpace (name topic : String) (user : UserId)
  | setRoomName (room : RoomId) (name : String)
  | setRoomTopic (room : RoomId) (topic : String)
  | setRoomAvatar (room : RoomId) (mxcUrl : String)
  | putState (room : RoomId) (eventType stateKey : String)
  | roomName (room : RoomId)
  | inviteToRoom (room : RoomId) (user : UserId)
  | joinRoomAs (room : RoomId) (user : UserId)
  | joinRoomViaToken (token : String) (room : RoomId)
  | leaveRoom (room : RoomId) (user : UserId)
  | sendAsGhost (room : RoomId) (sender : UserId) (content : Content) (timestamp : Option Nat)
  | redactEvent (room : RoomId) (event : EventId) (reason : String)
  | sendReadReceipt (room : RoomId) (event : EventId) (token : String)
  | setMarkedUnread (user : UserId) (room : RoomId) (unread : Bool) (token : String)
  | downloadBlob (blob name username token : String)
  | uploadMediaStream (sender : UserId) (mimeType fileName : String)
  | fetchAndUpload (sender : UserId) (url : String)
deriving DecidableEq, Repr

@[reducible] def MatrixCmd.Ans : MatrixCmd → Type
  | ensureUserExists _ => Bool
  | createRoomForContact _ _ _ => RoomId
  | createRoomForMailbox _ => RoomId
  | createSpace _ _ _ => RoomId
  | roomName _ => Option String
  | sendAsGhost _ _ _ _ => EventId
  | uploadMediaStream _ _ _ => String
  | fetchAndUpload _ _ => String
  | _ => Unit

structure ChangesReply where
  newState : String
  created : List String := []
  updated : List String := []
  destroyed : List String := []
  hasMoreChanges : Bool := false
deriving DecidableEq, Repr

structure QueryReply where
  queryState : String := ""
  ids : List String := []
deriving DecidableEq, Repr

structure Identity where
  id : Option String := none
  name : Option String := none
  email : Option String := none
deriving DecidableEq, Repr

/-- The copy and the submission of one `Email/set` + `EmailSubmission/set` batch.
`source` is the queued message it is built from and no part of the request. -/
structure Draft where
  source : OutboundMessage
  mailboxId : MailboxId
  fromName : Option String
  fromEmail : String
  toEmail : String
  subject : String
  body : String
  inReplyTo : Option String
  references : List String
  attachments : List AttachmentInfo
  identityId : Option String
deriving DecidableEq, Repr

/-- What the server made of a batch: the created email, its id in the response,
and whether it accepted the submission. -/
structure BatchReply where
  created : Option EmailId
  submitted : Bool
deriving DecidableEq, Repr

inductive JmapReply where
  | changes (r : ChangesReply)
  | queried (r : QueryReply)
  | state (s : String)
  | emails (l : List Email)
  | mailboxes (l : List (Option MailboxId × Option String))
  | thread (emails : Option (List EmailId))
  | messageIds (l : List (EmailId × Option String))
  | quote (text : Option String)
  | identities (l : List Identity)
  | emailThread (thread : Option ThreadId)
  | updated (emails : List EmailId)
  | batch (r : BatchReply)
  | uploaded (info : AttachmentInfo)
  | bodies (l : List (Option String × String))
  | marked
deriving DecidableEq, Repr

inductive JmapCmd where
  | changesEmail (sinceState : String)
  | queryEmail (after : Option Int) (position : Option Nat) (limit : Nat)
  | getEmailState
  | getEmail (ids : List EmailId)
  | changesMailbox (sinceState : String)
  | queryMailbox
  | getMailboxState
  | getMailbox (ids : List MailboxId)
  | queryMailboxRole (role : MailboxRole)
  | getThread (thread : ThreadId)
  | getMessageIds (emails : List EmailId)
  | getQuote (email : EmailId)
  | getIdentity
  | getEmailThread (email : EmailId)
  | setMailboxIds (emails : List EmailId) (target : MailboxId)
  | submitBatch (draft : Draft)
  | uploadMatrixMedia (mxcUri : String)
  | getBodies (email : EmailId)
  | setSeen (email : EmailId) (seen : Bool)
deriving DecidableEq, Repr

@[reducible] def JmapCmd.Ans : JmapCmd → Type
  | changesEmail _ => ChangesReply
  | queryEmail _ _ _ => QueryReply
  | getEmailState => String
  | getEmail _ => List Email
  | changesMailbox _ => ChangesReply
  | queryMailbox => QueryReply
  | getMailboxState => String
  | getMailbox _ => List (Option MailboxId × Option String)
  | queryMailboxRole _ => QueryReply
  | getThread _ => Option (List EmailId)
  | getMessageIds _ => List (EmailId × Option String)
  | getQuote _ => Option String
  | getIdentity => List Identity
  | getEmailThread _ => Option ThreadId
  | setMailboxIds _ _ => Unit
  | submitBatch _ => BatchReply
  | uploadMatrixMedia _ => AttachmentInfo
  | getBodies _ => List (Option String × String)
  | setSeen _ _ => Unit

inductive LogLine where
  | skipping (email : EmailId) (sender : Option String)
  | failedToProcess (email : Option EmailId)
  | sending (source : OutboundMessage)
  | notInGhostRoom (event : EventId)
deriving DecidableEq, Repr

/-- A task that an event handler spawns and does not wait for. -/
inductive Detached where
  | loadImages (sender : UserId) (room : RoomId) (target : EventId)
  | threadAction (sender : UserId) (room : RoomId) (role : MailboxRole)
deriving DecidableEq, Repr

inductive TaskCmd where
  | now
  | sleep (millis : Nat)
  | dropGuard (key : LockKey)
  | enter (email : Option EmailId)
  | leave (email : Option EmailId)
  | log (line : LogLine)
  | getClient (user : UserId)
  | removeClient (user : UserId)
  | dropMessage (msg : OutboundMessage)
  | spawn (task : Detached)
  | respond (txn : TransactionId) (ok : Bool)
deriving DecidableEq, Repr

@[reducible] def TaskCmd.Ans : TaskCmd → Type
  | now => Nat
  | getClient _ => Option Account
  | _ => Unit

inductive Cmd where
  | store (c : StoreCmd)
  | matrix (c : MatrixCmd)
  | jmap (account : Account) (c : JmapCmd)
  | task (c : TaskCmd)
deriving DecidableEq

@[reducible] def Cmd.Ans : Cmd → Type
  | store c => Except Err c.Ans
  | matrix c => Except Err c.Ans
  | jmap _ c => Except Err c.Ans
  | task c => c.Ans

inductive Op : Type → Type where
  | mk (c : Cmd) : Op c.Ans

/-- The environment's part in one command. After `lost` and `lostReply` the
command has had its effect and the bridge still sees an error. -/
inductive Answer where
  | done
  | failed
  | notJoined
  | lost (id : String)
  | id (s : String)
  | flag (b : Bool)
  | name (n : Option String)
  | rows (order : List Nat)
  | reply (r : JmapReply)
  | lostReply (r : JmapReply)
  | cannotCalculateChanges
deriving DecidableEq, Repr

structure Record where
  task : Nat
  cmd : Cmd
  answer : Answer
deriving DecidableEq

/-- The mail of the accounts, as far as the bridge can move it or mark it, and what
`Email/query` finds received since a time, oldest first. -/
structure MailServer where
  threads : Account → ThreadId → List EmailId := fun _ _ => []
  mailboxOf : Account → EmailId → Option MailboxId := fun _ _ => none
  seen : Account → EmailId → Bool := fun _ _ => false
  results : Account → Option Int → List EmailId := fun _ _ => []

/-- `guards` are the scope guards alive in the tasks, `releases` the lock releases
spawned when guards were dropped, `spans` the `process_email` spans entered and not
left, `snapshot` the queued messages that tasks have fetched and neither submitted nor
dropped, `deliveries` the transactions that tasks have claimed and not answered, `skipped`
those that a delivery has found claimed, `enqueued` the events of all rows ever put into
the queue, `issued` the ids the homeserver has given out. The newest record of `trace` is
its first. -/
structure World where
  store : Store := {}
  now : Nat := 0
  mail : MailServer := {}
  clients : Table UserId Account := ∅
  guards : List (Nat × LockKey) := []
  releases : List LockKey := []
  spans : List (Nat × Option EmailId) := []
  snapshot : List (Nat × OutboundMessage) := []
  deliveries : List (Nat × TransactionId) := []
  skipped : List TransactionId := []
  enqueued : List EventId := []
  issued : List String := []
  trace : List Record := []

def World.issue (w : World) (s : String) : World := { w with issued := s :: w.issued }

/-- What a successful command returns, `none` where the answer is of another kind. -/
def MatrixCmd.value : (c : MatrixCmd) → Answer → Option c.Ans
  | ensureUserExists _, .flag b => some b
  | createRoomForContact _ _ _, .id s => some s
  | createRoomForMailbox _, .id s => some s
  | createSpace _ _ _, .id s => some s
  | roomName _, .name n => some n
  | sendAsGhost _ _ _ _, .id s => some s
  | uploadMediaStream _ _ _, .id s => some s
  | fetchAndUpload _ _, .id s => some s
  | setDisplayName _ _, .done => some ()
  | setRoomName _ _, .done => some ()
  | setRoomTopic _ _, .done => some ()
  | setRoomAvatar _ _, .done => some ()
  | putState _ _ _, .done => some ()
  | inviteToRoom _ _, .done => some ()
  | joinRoomAs _ _, .done => some ()
  | joinRoomViaToken _ _, .done => some ()
  | leaveRoom _ _, .done => some ()
  | redactEvent _ _ _, .done => some ()
  | sendReadReceipt _ _ _, .done => some ()
  | setMarkedUnread _ _ _ _, .done => some ()
  | downloadBlob _ _ _ _, .done => some ()
  | _, _ => none

def MatrixCmd.perform (c : MatrixCmd) (a : Answer) (w : World) :
    Option (Except Err c.Ans × World) :=
  match a with
  | .failed => some (.error .matrix, w)
  | .notJoined => some (.error .notJoined, w)
  | .lost s => if s ∈ w.issued then none else some (.error .matrix, w.issue s)
  | .id s => if s ∈ w.issued then none else (c.value (.id s)).map fun v => (.ok v, w.issue s)
  | a => (c.value a).map fun v => (.ok v, w)

/-- A reply the server may give, as the value the client library hands on. -/
def JmapCmd.value (m : MailServer) (account : Account) : (c : JmapCmd) → JmapReply → Option c.Ans
  | changesEmail _, .changes r => some r
  | queryEmail _ _ _, .queried r => some r
  | getEmailState, .state s => some s
  | getEmail _, .emails l => some l
  | changesMailbox _, .changes r => some r
  | queryMailbox, .queried r => some r
  | getMailboxState, .state s => some s
  | getMailbox _, .mailboxes l => some l
  | queryMailboxRole _, .queried r => some r
  | getThread t, .thread l => if l.getD [] = m.threads account t then some l else none
  | getMessageIds _, .messageIds l => some l
  | getQuote _, .quote q => some q
  | getIdentity, .identities l => some l
  | getEmailThread _, .emailThread t => some t
  | setMailboxIds ids _, .updated l => if l ⊆ ids then some () else none
  | submitBatch _, .batch r => some r
  | uploadMatrixMedia _, .uploaded i => some i
  | getBodies _, .bodies l => some l
  | setSeen _ _, .marked => some ()
  | setSeen _ _, .updated [] => some ()
  | _, _ => none

/-- `Email/set` moves the emails it reports as updated, or marks the email, unless it reports
none. -/
def JmapCmd.effect (account : Account) : JmapCmd → JmapReply → MailServer → MailServer
  | setMailboxIds _ target, .updated l, m =>
    { m with
      mailboxOf := fun a e => if a = account ∧ e ∈ l then some target else m.mailboxOf a e }
  | setSeen email seen, .marked, m =>
    { m with seen := fun a e => if a = account ∧ e = email then seen else m.seen a e }
  | _, _, m => m

def JmapCmd.perform (account : Account) (c : JmapCmd) (a : Answer) (w : World) :
    Option (Except Err c.Ans × World) :=
  match a with
  | .failed => some (.error .jmap, w)
  | .cannotCalculateChanges => some (.error .cannotCalculateChanges, w)
  | .reply r =>
    (c.value w.mail account r).map fun v => (.ok v, { w with mail := c.effect account r w.mail })
  | .lostReply r =>
    (c.value w.mail account r).map fun _ =>
      (.error .jmap, { w with mail := c.effect account r w.mail })
  | _ => none

/-- A message that is submitted is no longer waiting for it. -/
def JmapCmd.settled (t : Nat) :
    JmapCmd → List (Nat × OutboundMessage) → List (Nat × OutboundMessage)
  | submitBatch draft, l => l.erase (t, draft.source)
  | _, l => l

/-- A lock taken is guarded at once: there is no await between the two. -/
def StoreCmd.guards (t : Nat) : (c : StoreCmd) → Except Err c.Ans → List (Nat × LockKey)
  | tryAcquireRoomCreationLock key, .ok true => [(t, key)]
  | _, _ => []

/-- The rows of a query are in the task's hands at once. -/
def StoreCmd.fetched (t : Nat) : (c : StoreCmd) → Except Err c.Ans → List (Nat × OutboundMessage)
  | getPendingOutbound, .ok messages => messages.map (t, ·)
  | _, _ => []

def StoreCmd.claimed (t : Nat) : (c : StoreCmd) → Except Err c.Ans → List (Nat × TransactionId)
  | claimTransaction txn, .ok true => [(t, txn)]
  | _, _ => []

def StoreCmd.unclaimed (t : Nat) :
    StoreCmd → List (Nat × TransactionId) → List (Nat × TransactionId)
  | unclaimTransaction txn, l => l.erase (t, txn)
  | _, l => l

def StoreCmd.skipped : (c : StoreCmd) → Except Err c.Ans → List TransactionId
  | claimTransaction txn, .ok false => [txn]
  | _, _ => []

/-- The event of a row that is put into the queue. -/
def StoreCmd.inserted : (c : StoreCmd) → Except Err c.Ans → List EventId
  | addToOutboundQueue _ _ event _ _ _ _ _, .ok _ => [event]
  | _, _ => []

def StoreCmd.commit (t : Nat) (order : List Nat) (c : StoreCmd) (w : World) :
    Except Err c.Ans × World :=
  let r := c.run w.now order w.store
  (r.1, { w with
    store := r.2
    guards := c.guards t r.1 ++ w.guards
    snapshot := c.fetched t r.1 ++ w.snapshot
    deliveries := c.claimed t r.1 ++ c.unclaimed t w.deliveries
    skipped := c.skipped r.1 ++ w.skipped
    enqueued := c.inserted r.1 ++ w.enqueued })

def StoreCmd.perform (t : Nat) (c : StoreCmd) (a : Answer) (w : World) :
    Option (Except Err c.Ans × World) :=
  match a with
  | .done => some (c.commit t [] w)
  | .rows order => some (c.commit t order w)
  | .failed => some (.error .sqlx, w)
  | .lost _ =>
    let r := c.run w.now [] w.store
    some (.error .sqlx, { w with
      store := r.2
      deliveries := c.unclaimed t w.deliveries
      enqueued := c.inserted r.1 ++ w.enqueued })
  | _ => none

def TaskCmd.run (t : Nat) : (c : TaskCmd) → World → c.Ans × World
  | now, w => (w.now, w)
  | sleep _, w => ((), w)
  | dropGuard key, w =>
    ((), { w with guards := w.guards.erase (t, key), releases := key :: w.releases })
  | enter email, w => ((), { w with spans := (t, email) :: w.spans })
  | leave email, w => ((), { w with spans := w.spans.erase (t, email) })
  | log _, w => ((), w)
  | getClient user, w => (w.clients.lookup user, w)
  | removeClient user, w => ((), { w with clients := w.clients.erase user })
  | dropMessage msg, w => ((), { w with snapshot := w.snapshot.erase (t, msg) })
  | spawn _, w => ((), w)
  | respond txn _, w => ((), { w with deliveries := w.deliveries.erase (t, txn) })

def Cmd.perform (t : Nat) : (c : Cmd) → Answer → World → Option (c.Ans × World)
  | store c, a, w => c.perform t a w
  | matrix c, a, w => c.perform a w
  | jmap account c, a, w =>
    (c.perform account a w).map fun r => (r.1, { r.2 with snapshot := c.settled t r.2.snapshot })
  | task c, .done, w => some (c.run t w)
  | task _, _, _ => none

def exec (t : Nat) {β : Type} : Op β → Answer → World → Option (β × World)
  | .mk c, a, w =>
    (c.perform t a w).map fun r => (r.1, { r.2 with trace := ⟨t, c, a⟩ :: r.2.trace })

/-- A cancelled task drops what it holds: its scope guards, which spawn their releases,
its spans, its messages and its transactions. -/
def drop (t : Nat) (w : World) : World :=
  { w with
    guards := w.guards.filter fun g => g.1 != t
    releases := (w.guards.filter fun g => g.1 == t).map (·.2) ++ w.releases
    spans := w.spans.filter fun s => s.1 != t
    snapshot := w.snapshot.filter fun m => m.1 != t
    deliveries := w.deliveries.filter fun d => d.1 != t }

inductive Env where
  | release (key : LockKey) (stored : Bool)
  | advance (secs : Nat)
  | mail (m : MailServer)
  | login (user : UserId) (row : RegisteredUser) (account : Account)

/-- What happens besides the steps of the tasks. A spawned release runs once and
ignores its result. -/
def Env.perform : Env → World → Option World
  | release key stored, w =>
    if key ∈ w.releases then
      some { w with
        releases := w.releases.erase key
        store := { w.store with
          roomCreationLocks :=
            if stored then w.store.roomCreationLocks.erase key else w.store.roomCreationLocks } }
    else none
  | advance secs, w => some { w with now := w.now + secs }
  | mail m, w => some { w with mail := m }
  | login user row account, w =>
    some { w with
      store := { w.store with users := w.store.users.insert user row }
      clients := w.clients.insert user account }

def system (entry : Nat → Prog Op Unit) : System Op World Answer Env where
  exec := exec
  env := Env.perform
  drop := drop
  entry := entry

/-- A function of the bridge that returns a result. -/
abbrev Bridge (α : Type) := Act Op Err α

/-- A function of the bridge that cannot fail. -/
abbrev Task (α : Type) := Prog Op α

def onStore (c : StoreCmd) : Bridge c.Ans := Act.call (.mk (.store c))

def onMatrix (c : MatrixCmd) : Bridge c.Ans := Act.call (.mk (.matrix c))

def onJmap (account : Account) (c : JmapCmd) : Bridge c.Ans := Act.call (.mk (.jmap account c))

def onTask (c : TaskCmd) : Task c.Ans := Prog.call (.mk (.task c))

/-- The result of `x` as data. -/
def result {α : Type} (x : Bridge α) : Task (Except Err α) := x

/-- `let Ok(Some(a)) = x else { return }`. -/
def letSome {α : Type} (x : Bridge (Option α)) (k : α → Task Unit) : Task Unit :=
  Prog.bind x fun
    | .ok (some a) => k a
    | _ => .pure ()

/-- Run `x` and ignore an error, as after a warning. -/
def bestEffort {α : Type} (x : Bridge α) : Bridge Unit := Prog.bind x fun _ => .pure (.ok ())

/-- A scope guard: the lock is released however `body` ends. -/
def guarded {α : Type} (key : LockKey) (body : Bridge α) : Bridge α :=
  Prog.bind body fun r => Prog.bind (onTask (.dropGuard key)) fun _ => .pure r

def instrument {α : Type} (email : Option EmailId) (body : Bridge α) : Bridge α :=
  Prog.bind (onTask (.enter email)) fun _ =>
    Prog.bind body fun r => Prog.bind (onTask (.leave email)) fun _ => .pure r

end JmapBridge
