import JmapBridge.Model.Rooms

/-! Bridging one inbound email: the skip rule, the choice between a reply and a
new thread, and the mirroring of read state. -/

namespace JmapBridge

open Effect

/-- The session of one user: the JMAP → Matrix poller. -/
structure Poller where
  user : UserId
  account : Account
deriving DecidableEq, Repr

def maxAttachmentSize : Nat := 50 * 1024 * 1024

def bridgeAttachment (p : Poller) (part : EmailBodyPart) (room : RoomId) (sender : UserId)
    (timestamp : Option Nat) : Bridge EventId := do
  let blobId ← Act.ofOption (.context "No blobId") part.blobId
  let mimeType := part.contentType.getD "application/octet-stream"
  let fileName := part.name.getD "📎 attachment"
  if maxAttachmentSize < part.size then
    Act.fail (.context "Attachment too large. Skipping to protect memory.")
  else do
    let user ← onStore (.getUser p.user)
    let user ← Act.ofOption (.context "User session credentials missing from store") user
    onMatrix (.downloadBlob blobId fileName user.jmapUsername user.jmapToken)
    let mxcUrl ← onMatrix (.uploadMediaStream sender mimeType fileName)
    sendFileAs room mxcUrl fileName mimeType sender timestamp

/-- Each attachment is bridged on its own; one that fails is left out. -/
def handleAttachments (p : Poller) (email : Email) (room : RoomId) (sender : UserId)
    (timestamp : Option Nat) : Bridge Unit :=
  Act.forEach (fun part => do
    match ← Act.attempt (bridgeAttachment p part room sender timestamp), email.threadId with
    | .ok event, some threadId => bestEffort (onStore (.updateThreadLatestEvent threadId event))
    | _, _ => pure ()) (email.attachments.getD [])

/-- Unseen → seen in the mail client: a read receipt at the email's event. -/
def mirrorSeen (p : Poller) (emailId : EmailId) (room : RoomId) (token : String) : Task Unit :=
  letSome (onStore (.getEventIdByEmail emailId)) fun event => do
    match ← result (onMatrix (.sendReadReceipt room event token)) with
    | .error _ => pure ()
    | .ok _ => do
      let _ ← result (onMatrix (.setMarkedUnread p.user room false token))
      let _ ← result (onStore (.saveJmapState p.user (.readSynced emailId) "1"))

/-- Seen → unseen in the mail client: the room is flagged unread. -/
def mirrorUnseen (p : Poller) (emailId : EmailId) (room : RoomId) (token : String) : Task Unit := do
  match ← result (onMatrix (.setMarkedUnread p.user room true token)) with
  | .error _ => pure ()
  | .ok _ => do
    let _ ← result (onStore (.deleteJmapState p.user (.readSynced emailId)))

/-- `matches!(r, Ok(Some(_)))`. -/
def isOkSome {α : Type} : Except Err (Option α) → Bool
  | .ok (some _) => true
  | _ => false

def syncReadState (p : Poller) (email : Email) : Task Unit := do
  match email.id with
  | none => pure ()
  | some emailId => do
    let seen := email.keywords.contains "$seen"
    let synced ← result (onStore (.getJmapState p.user (.readSynced emailId)))
    if seen = isOkSome synced then pure ()
    else
      letSome (onStore (.getJmapState p.user .matrixPuppetToken)) fun token =>
        match email.threadId with
        | none => pure ()
        | some threadId =>
          letSome (onStore (.getThreadInfo threadId)) fun row =>
            if seen then mirrorSeen p emailId row.roomId token
            else mirrorUnseen p emailId row.roomId token

def processReply (p : Poller) (email : Email) (ghost : GhostUser) (body : EmailBody)
    (room : RoomId) : Bridge Unit := do
  let event ← sendMessageAs room body ghost.userId email.timestamp
  match email.threadId, email.id with
  | some threadId, some emailId => do
    onStore (.saveMessageMapping emailId event)
    bestEffort (onStore (.updateThreadLatestEvent threadId event))
    handleAttachments p email room ghost.userId email.timestamp
  | _, _ => pure ()

/-- The lock loop: `some room` when another email of the thread made the room first,
`none` once the creation lock is held. -/
def awaitThreadLock (threadId : ThreadId) : Bridge (Option RoomId) :=
  Act.loop (fun _ : Unit => do
    match ← onStore (.getThreadInfo threadId) with
    | some row => pure (.inr (some row.roomId))
    | none => do
      if ← onStore (.tryAcquireRoomCreationLock (.thread threadId)) then pure (.inr none)
      else do
        Act.lift (onTask (.sleep 100))
        pure (.inl ())) ()

/-- A fresh room for the thread, and the email as its first message. -/
def createThreadRoom (cfg : Config) (p : Poller) (email : Email) (ghost : GhostUser)
    (body : EmailBody) (threadId : ThreadId) (emailId : EmailId) : Bridge Unit := do
  let subject := email.subject.getD noSubject
  let senderName := ((email.fromAddrs.getD []).head?).bind (·.name)
  let room ← createContactRoom cfg p.user ghost.email (ghostDisplayName senderName ghost.email)
  bestEffort (onMatrix (.setRoomName room (cleanSubject subject)))
  let ownEmail ← onStore (.getJmapState p.user .userEmail)
  bestEffort (onMatrix (.setRoomTopic room (threadTopic email ghost.email ownEmail)))
  let event ← sendMessageAs room body ghost.userId email.timestamp
  onStore (.saveThreadMappingAtomic threadId event room subject)
  onStore (.saveMessageMapping emailId event)
  handleAttachments p email room ghost.userId email.timestamp

def processNewThread (cfg : Config) (p : Poller) (email : Email) (ghost : GhostUser)
    (body : EmailBody) : Bridge Unit := do
  match email.threadId, email.id with
  | some threadId, some emailId => do
    match ← awaitThreadLock threadId with
    | some room => processReply p email ghost body room
    | none => guarded (.thread threadId) do
      match ← onStore (.getThreadInfo threadId) with
      | some row => processReply p email ghost body row.roomId
      | none => createThreadRoom cfg p email ghost body threadId emailId
  | _, _ => pure ()

def resolveGhost (cfg : Config) (email : Email) : Bridge GhostUser := do
  let sender := (email.fromAddrs.getD []).head?
  let emailAddr := (sender.map (·.email)).getD unknownSender
  registerGhost cfg emailAddr (ghostDisplayName (sender.bind (·.name)) emailAddr)
  pure ⟨emailAddr, cfg.ghostUserId emailAddr⟩

def senderEmail (email : Email) : Option String :=
  (email.fromAddrs.bind List.head?).map (·.email)

/-- A thread with a room gets a reply there, any other thread a room of its own. -/
def bridgeToRoom (cfg : Config) (p : Poller) (email : Email) (threadId : ThreadId)
    (ghost : GhostUser) (body : EmailBody) : Bridge Unit := do
  match ← onStore (.getThreadInfo threadId) with
  | some row => processReply p email ghost body row.roomId
  | none => processNewThread cfg p email ghost body

/-- The part of `process_email` for an email with an id that is not mapped yet. -/
def bridgeEmail (cfg : Config) (p : Poller) (email : Email) (emailId : EmailId) : Bridge Unit := do
  let ownEmail ← onStore (.getJmapState p.user .userEmail)
  if shouldSkipInbound (senderEmail email) ownEmail then
    Act.lift (onTask (.log (.skipping emailId (senderEmail email))))
  else do
    let threadId ← Act.ofOption (.context "Email missing threadId") email.threadId
    let ghost ← resolveGhost cfg email
    bridgeToRoom cfg p email threadId ghost (EmailBody.fromEmail cfg email)
    Act.lift (syncReadState p email)

def processEmail (cfg : Config) (p : Poller) (email : Email) : Bridge Unit :=
  instrument email.id do
    let emailId ← Act.ofOption (.context "Email missing id") email.id
    if ← onStore (.hasMessageMapped emailId) then Act.lift (syncReadState p email)
    else bridgeEmail cfg p email emailId

end JmapBridge
