import JmapBridge.Model.Rooms
import JmapBridge.Model.Sender

/-! Outbound mail: the send-state reactions, the submission worker, and the ways
a queued message is cancelled, rewritten or dropped. -/

namespace JmapBridge

open Effect Rust

def heldReaction : String := "⏳"
def submittedReaction : String := "✅"
def failedReaction : String := "❌"

/-- A message of the queue, by user, room and Matrix event. -/
structure QueuedEvent where
  user : UserId
  room : RoomId
  event : EventId

def OutboundMessage.queued (m : OutboundMessage) : QueuedEvent :=
  ⟨m.matrixUserId, m.roomId, m.eventId⟩

def markHeld (cfg : Config) (e : QueuedEvent) : Task Unit := do
  match ← result (sendReaction cfg e.room e.event heldReaction) with
  | .ok reaction => do
    let _ ← result (onStore (.saveJmapState e.user (.sendState e.event) reaction))
  | .error _ => pure ()

/-- Redact the held reaction; `true` if there was one. -/
def takeHeld (e : QueuedEvent) : Task Bool := do
  match ← result (onStore (.getJmapState e.user (.sendState e.event))) with
  | .ok (some prior) => do
    let _ ← result (onMatrix (.redactEvent e.room prior "send resolved"))
    let _ ← result (onStore (.deleteJmapState e.user (.sendState e.event)))
    pure true
  | _ => pure false

def markSubmitted (cfg : Config) (e : QueuedEvent) : Task Unit := do
  if ← takeHeld e then do
    let _ ← result (sendReaction cfg e.room e.event submittedReaction)
  else pure ()

def markFailed (cfg : Config) (e : QueuedEvent) : Task Unit := do
  let _ ← takeHeld e
  let _ ← result (sendReaction cfg e.room e.event failedReaction)

def threadQueueSeparator : Char := '|'

def parseThreadRoot (threadRootId : Option String) : Option (ThreadId × EmailId × EventId) :=
  match threadRootId.map fun raw => Str.split threadQueueSeparator raw.toList with
  | some [thread, parent, root] =>
    some (String.ofList thread, String.ofList parent, String.ofList root)
  | _ => none

def replySubject (subject : String) : String :=
  if "Re:".toList.isPrefixOf subject.toList then subject else s!"Re: {subject}"

def freshEmailSubject (roomName : Option String) : String :=
  ((roomName.map trim).filter (· != "")).getD "Matrix Conversation"

def submitReply (cfg : Config) (account : Account) (email : String) (msg : OutboundMessage)
    (thread : ThreadId) (root : EventId) : Bridge Unit := do
  let stored ← Act.attempt (onStore (.getThreadSubject root))
  let subject := (stored.toOption.bind id).getD "Matrix Conversation"
  Act.lift (onTask (.log (.sending msg)))
  let _ ← replyToEmail cfg account thread
    { source := msg, toEmail := email, subject := replySubject subject, body := msg.bodyText
      attachments := msg.attachments.getD [] }

/-- The thread of a composed email is mapped to its room, where the server tells it. -/
def mapComposedThread (account : Account) (msg : OutboundMessage) (subject : String)
    (emailId : EmailId) : Bridge Unit := do
  match ← Act.attempt (onJmap account (.getEmailThread emailId)) with
  | .ok (some thread) =>
    bestEffort (onStore (.saveThreadMappingAtomic thread msg.eventId msg.roomId subject))
  | _ => pure ()

def submitFresh (account : Account) (email : String) (msg : OutboundMessage) : Bridge Unit := do
  let roomName ← Act.attempt (onMatrix (.roomName msg.roomId))
  let subject := freshEmailSubject (roomName.toOption.bind id)
  Act.lift (onTask (.log (.sending msg)))
  let emailId ← submit account
    { source := msg, toEmail := email, subject := subject, body := msg.bodyText
      attachments := msg.attachments.getD [] }
  mapComposedThread account msg subject emailId

def sendQueued (cfg : Config) (account : Account) (email : String) (msg : OutboundMessage) :
    Bridge Unit :=
  match parseThreadRoot msg.threadRootId with
  | some (thread, _, root) => submitReply cfg account email msg thread root
  | none => submitFresh account email msg

/-- Send the message to `email` and take it off the queue; `false` keeps it for a retry. -/
def deliver (cfg : Config) (account : Account) (email : String) (msg : OutboundMessage) :
    Task Bool := do
  match ← result (sendQueued cfg account email msg) with
  | .ok _ => do
    let _ ← result (onStore (.removeFromOutboundQueue msg.id))
    markSubmitted cfg msg.queued
    pure true
  | .error _ => pure false

/-- `true` when the message is delivered, or purged because its room is gone. -/
def submitOne (cfg : Config) (msg : OutboundMessage) : Task Bool := do
  match ← onTask (.getClient msg.matrixUserId) with
  | none => pure false
  | some account => do
    match ← result (onStore (.getGhostEmailByRoom msg.roomId)) with
    | .ok (some email) => deliver cfg account email msg
    | .ok none => do
      let _ ← result (onStore (.removeFromOutboundQueue msg.id))
      pure true
    | .error _ => pure false

def deliveryFailure : String :=
  "❌ Permanent delivery failure: the bridge could not deliver your message to the recipient after 10 attempts."

/-- The notice, the removal and the reaction each go ahead whether or not the one
before succeeded. -/
def giveUp (cfg : Config) (msg : OutboundMessage) : Task Unit := do
  let _ ← result (sendMessage cfg msg.roomId deliveryFailure (.queued msg.id))
  let _ ← result (onStore (.removeFromOutboundQueue msg.id))
  markFailed cfg msg.queued

def handleUnresolved (cfg : Config) (msg : OutboundMessage) : Task Unit := do
  if 9 ≤ msg.retryCount then giveUp cfg msg
  else do
    let _ ← result (onStore (.updateRetryCount msg.id))

def workOff (cfg : Config) (msg : OutboundMessage) : Task Unit := do
  let resolved ← submitOne cfg msg
  (if resolved then pure () else handleUnresolved cfg msg)
  onTask (.dropMessage msg)

def retryRound (cfg : Config) : Task Unit := do
  onTask (.sleep 2000)
  match ← result (onStore .getPendingOutbound) with
  | .ok messages => Prog.forEach (workOff cfg) messages
  | .error _ => pure ()

def runRetryLoop (cfg : Config) : Task Unit :=
  Prog.loop (fun _ : Unit => Prog.bind (retryRound cfg) fun _ => .pure (.inl ()))
    () (fun _ : Unit => .pure ())

/-- `ClientManager::logout`; the poller is aborted by the environment. -/
def logout (user : UserId) : Bridge Unit := do
  Act.lift (onTask (.removeClient user))
  onStore (.clearUserCredentials user)
  onStore (.clearOutboundQueue user)

def unbridgeRoom (room : RoomId) : Bridge Unit := do
  onStore (.deleteRoomGhostMapping room)
  onStore (.deleteThreadMappings room)

def MailboxRole.label : MailboxRole → String
  | sent => "Sent"
  | drafts => "Drafts"
  | trash => "Trash"
  | junk => "Junk"

def leaveAll (cfg : Config) (room : RoomId) (ghostEmail : Option String) : Bridge Unit := do
  bestEffort (onMatrix (.leaveRoom room cfg.botUserId))
  match ghostEmail with
  | some email => bestEffort (onMatrix (.leaveRoom room (cfg.ghostUserId email)))
  | none => pure ()

/-- Drop the mappings, have the bot and the ghost leave, and tell the user. -/
def teardown (cfg : Config) (room : RoomId) (role : MailboxRole) (ghostEmail : Option String)
    (hadMailbox : Bool) : Bridge Unit := do
  unbridgeRoom room
  leaveAll cfg room ghostEmail
  Act.lift (notify cfg room
    (if hadMailbox then s!"Moved this conversation to {role.label} and unbridged the room."
    else s!"No {role.label} mailbox on your account, so I unbridged this room locally but couldn't move the mail server-side."))

def nothingMoved (role : MailboxRole) : String :=
  s!"Couldn't move this conversation to {role.label} (server error) — nothing changed. Try again."

/-- Move the thread of the room to `role`; `none` when that failed. -/
def moveRoomThread (account : Account) (room : RoomId) (role : MailboxRole) :
    Bridge (Option Bool) := do
  match ← onStore (.getLatestThreadInRoom room) with
  | none => pure (some true)
  | some (thread, _, _) => do
    let moved ← Act.attempt (moveThreadToRole account thread role)
    pure moved.toOption

def handleThreadAction (cfg : Config) (sender : UserId) (room : RoomId) (role : MailboxRole) :
    Bridge Unit := do
  if (cfg.level sender).isNone then pure ()
  else do
    match ← Act.lift (onTask (.getClient sender)) with
    | none => Act.lift (notify cfg room "You are not logged in.")
    | some account => do
      let ghostEmail ← onStore (.getGhostEmailByRoom room)
      match ← moveRoomThread account room role with
      | some hadMailbox => teardown cfg room role ghostEmail hadMailbox
      | none => Act.lift (notify cfg room (nothingMoved role))

end JmapBridge
