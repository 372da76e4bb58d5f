import JmapBridge.Model.Outbound
import JmapBridge.Model.Images
import JmapBridge.Model.Footprint

/-! Transactions of the Matrix server: read receipts, redactions and edits of queued
messages, reactions, and messages into conversation rooms, which are queued as outbound
mail. A transaction is claimed before its events are handled. -/

namespace JmapBridge

open Effect Rust

inductive Relation where
  | replacement (target : EventId) (newBody : String)
  | reply (target : EventId)
  | thread (target : EventId)
deriving DecidableEq, Repr

inductive Membership where
  | invite
  | join
  | other
deriving DecidableEq, Repr

/-- The timeline events the bridge looks at. `media` is the content URI of an image
or a file. -/
inductive MatrixEvent where
  | redaction (sender : UserId) (room : RoomId) (redacts : Option EventId)
  | message (sender : UserId) (room : RoomId) (event : EventId) (body : String)
      (media : Option String) (relation : Option Relation)
  | reaction (sender : UserId) (room : RoomId) (target : EventId) (key : String)
  | member (sender : UserId) (room : RoomId) (target : UserId) (membership : Membership)
deriving DecidableEq, Repr

def MatrixEvent.sender : MatrixEvent → UserId
  | redaction s _ _ => s
  | message s _ _ _ _ _ => s
  | reaction s _ _ _ => s
  | member s _ _ _ => s

/-- The users with an `m.read` receipt on an event. -/
structure ReadReceipt where
  event : EventId
  readers : List UserId
deriving DecidableEq, Repr

structure MatrixTransaction where
  events : List MatrixEvent
  ephemeral : List (List ReadReceipt) := []
deriving DecidableEq, Repr

inductive GhostCommand where
  | showImages
  | deleteRoom
  | spam
deriving DecidableEq, Repr

def parseGhostCommand (cfg : Config) (body : String) : Option GhostCommand :=
  let bare := trim (cfg.removeReplyFallback body)
  if bare = "show-images" ∨ bare = "!show-images" then some .showImages
  else if bare = "delete-room" ∨ bare = "!delete-room" then some .deleteRoom
  else if bare = "spam" ∨ bare = "!spam" then some .spam
  else none

def replyTargetEvent : Option Relation → Option EventId
  | some (.reply target) => some target
  | some (.thread target) => some target
  | _ => none

structure ThreadContext where
  thread : ThreadId
  parent : EmailId
  root : EventId
deriving DecidableEq, Repr

def ThreadContext.encode (c : ThreadContext) : String := s!"{c.thread}|{c.parent}|{c.root}"

/-- The thread of the room's newest mapping; the parent email is best effort. -/
def roomThreadContext (room : RoomId) : Bridge (Option ThreadContext) := do
  match ← Act.attempt (onStore (.getLatestThreadInRoom room)) with
  | .ok (some (thread, root, _)) => do
    let parent ← Act.attempt (onStore (.getLastEmailIdByRoom room))
    let _ ← onStore (.getThreadInfo thread)
    pure (some ⟨thread, (parent.toOption.bind id).getD "", root⟩)
  | _ => pure none

/-- The thread of a bridged event: from the store, or else from the server. -/
def eventThreadContext (account : Account) (room : RoomId) (event : EventId) (parent : EmailId) :
    Bridge (Option ThreadContext) := do
  match ← Act.attempt (onStore (.getJmapThreadIdByRootEvent event)) with
  | .ok (some thread) => do
    let _ ← onStore (.getThreadSubject event)
    let _ ← onStore (.getThreadInfo thread)
    pure (some ⟨thread, parent, event⟩)
  | _ => do
    match ← Act.attempt (onJmap account (.getEmailThread parent)) with
    | .ok (some thread) => do
      let info ← onStore (.getThreadInfo thread)
      let root := (info.map (·.rootEventId)).getD event
      let _ ← onStore (.getThreadSubject root)
      pure (some ⟨thread, parent, root⟩)
    | _ => roomThreadContext room

def resolveThreadContext (account : Account) (room : RoomId) (relation : Option Relation) :
    Bridge (Option ThreadContext) := do
  match replyTargetEvent relation with
  | none => roomThreadContext room
  | some event => do
    match ← Act.attempt (onStore (.getEmailIdFromEventId event)) with
    | .ok (some parent) => eventThreadContext account room event parent
    | _ => roomThreadContext room

def maxSendDelaySecs : Int := 300

/-- The user's own send delay or the default, clamped. -/
def sendDelayFor (cfg : Config) (user : UserId) : Task Nat := do
  let stored ← result (onStore (.getJmapState user .sendDelaySeconds))
  let own := (stored.toOption.bind id).bind fun s => Str.parseI64 s.toList
  pure (min (max (own.getD cfg.sendDelayDefault) 0) maxSendDelaySecs).toNat

def holdHint (delay : Nat) : String :=
  s!"Your messages are held {delay}s before sending: ⏳ = waiting (redact to undo, edit to change), ✅ = sent, ❌ = failed. Change the window with `send-delay`."

def maybeSendHoldHint (cfg : Config) (user : UserId) (room : RoomId) (delay : Nat) : Task Unit := do
  if isOkSome (← result (onStore (.getJmapState user (.sendHint room)))) then pure ()
  else do
    notify cfg room (holdHint delay)
    let _ ← result (onStore (.saveJmapState user (.sendHint room) "1"))

def showHeld (cfg : Config) (e : QueuedEvent) (delay : Nat) : Task Unit :=
  if 0 < delay then do
    markHeld cfg e
    maybeSendHoldHint cfg e.user e.room delay
  else pure ()

/-- Queue a message for the worker, held for the user's send delay. -/
def enqueueHeldSend (cfg : Config) (e : QueuedEvent) (body : String) (threadRoot : Option String)
    (attachments : Option (List AttachmentInfo)) : Bridge Unit := do
  let delay ← Act.lift (sendDelayFor cfg e.user)
  onStore (.addToOutboundQueue e.user e.room e.event body none threadRoot attachments delay)
  Act.lift (showHeld cfg e delay)

def notLoggedIn : String :=
  "You are not logged in. Please type `login` in your private bridge room to connect your account."

def appendUserSignature (user : UserId) (body : String) : Task String := do
  match ← result (onStore (.getUserSignature user)) with
  | .ok (some sig) => pure (if sig = "" then body else s!"{body}\n\n-- \n{sig}")
  | _ => pure body

/-- Tell the author of a message what became of it. -/
def answerMessage (cfg : Config) (e : QueuedEvent) (msg : String) : Task Unit :=
  Prog.bind (sendMessage cfg e.room msg (.answer e.event)) fun _ => .pure ()

/-- A message that is mail: signed, given its thread, and queued. -/
def queueText (cfg : Config) (e : QueuedEvent) (body : String) (relation : Option Relation) :
    Bridge Unit := do
  let signed ← Act.lift (appendUserSignature e.user body)
  match ← Act.lift (onTask (.getClient e.user)) with
  | none => Act.lift (answerMessage cfg e notLoggedIn)
  | some account => do
    let context ← resolveThreadContext account e.room relation
    enqueueHeldSend cfg e signed (context.map (·.encode)) none

def showImagesUsage : String :=
  "Reply to the email message with `show-images` (or react 🖼️) to load its images."

def handleShowImages (cfg : Config) (sender : UserId) (room : RoomId)
    (relation : Option Relation) : Bridge Unit :=
  if (cfg.level sender).isNone then pure ()
  else
    match replyTargetEvent relation with
    | none => Act.lift (notify cfg room showImagesUsage)
    | some target => handleLoadImages cfg sender room target

def handleGhostOutbound (cfg : Config) (e : QueuedEvent) (body : String)
    (relation : Option Relation) : Bridge Unit :=
  match parseGhostCommand cfg body with
  | some .showImages => handleShowImages cfg e.user e.room relation
  | some .deleteRoom => handleThreadAction cfg e.user e.room .trash
  | some .spam => handleThreadAction cfg e.user e.room .junk
  | none => queueText cfg e body relation

/-- The whole number nearest to `n / d`, the even one of two. -/
def roundHalfEven (n d : Nat) : Nat :=
  if d < 2 * (n % d) ∨ (d = 2 * (n % d) ∧ n / d % 2 = 1) then n / d + 1 else n / d

/-- The `f64` of a count: a multiple of its unit in the last of 53 binary places. -/
def asFloat (n : Nat) : Nat := roundHalfEven n (2 ^ (n.log2 - 52)) * 2 ^ (n.log2 - 52)

/-- The unit to show `size` in, and the count of bytes it stands for. -/
def scaleBytes (size : Nat) : Nat × String → List String → Nat × String
  | scale, [] => scale
  | scale, unit :: units =>
    if size < 1024 * scale.1 then scale else scaleBytes size (1024 * scale.1, unit) units

/-- A division of a float by 1024 is exact, so that the size is the quotient of two counts. -/
def humanBytes (bytes : Nat) : String :=
  let size := asFloat bytes
  let scale := scaleBytes size (1, "B") ["KB", "MB", "GB", "TB"]
  if 20 * (size % scale.1) < scale.1 then s!"{size / scale.1} {scale.2}"
  else
    let tenths := roundHalfEven (10 * size) scale.1
    s!"{tenths / 10}.{tenths % 10} {scale.2}"

example : humanBytes 5242880 = "5 MB" := by decide

example : humanBytes 1536 = "1.5 KB" := by decide

def uploadFailed (maxSize : Nat) : String :=
  "⚠️ Media attachment upload failed or size exceeded JMAP server upload limit (" ++
    humanBytes maxSize ++ ")."

/-- A file or an image: uploaded at once, and queued as an attachment. -/
def handleGhostMediaOutbound (cfg : Config) (e : QueuedEvent) (media : String)
    (relation : Option Relation) : Bridge Unit := do
  match ← Act.lift (onTask (.getClient e.user)) with
  | none => Act.lift (answerMessage cfg e notLoggedIn)
  | some account => do
    match ← Act.attempt (onJmap account (.uploadMatrixMedia media)) with
    | .error err => do
      Act.lift (answerMessage cfg e (uploadFailed (cfg.maxUploadSize account)))
      Act.fail err
    | .ok info => do
      let context ← resolveThreadContext account e.room relation
      enqueueHeldSend cfg e "Sent an attachment from Matrix." (context.map (·.encode))
        (some [info])

/-- Only a store error makes the homeserver deliver the transaction again. -/
def redeliverable : Err → Bool
  | .sqlx => true
  | .foreignKey => true
  | _ => false

def routeGhostMessage (cfg : Config) (e : QueuedEvent) (body : String) (media : Option String)
    (relation : Option Relation) : Bridge Unit := do
  let handled ← Act.attempt (match media with
    | none => handleGhostOutbound cfg e body relation
    | some uri => handleGhostMediaOutbound cfg e uri relation)
  match handled with
  | .error err => if redeliverable err then Act.fail err else pure ()
  | .ok _ => pure ()

def unsentNotice : String := "🗙 Unsent — that message was still within the send-delay window."

def updatedNotice : String := "✎ Updated the queued message before it sends."

/-- The redaction cancels whatever is queued under the event; who sent it is not checked. -/
def handleRedaction (cfg : Config) (room : RoomId) (redacted : EventId) : Task Unit := do
  match ← result (onStore (.cancelOutboundByEvent redacted)) with
  | .ok true => notify cfg room unsentNotice
  | _ => pure ()

def handleEdit (cfg : Config) (room : RoomId) (target : EventId) (newBody : String) :
    Task Unit := do
  match ← result (onStore (.updateOutboundBodyByEvent target newBody)) with
  | .ok true => notify cfg room updatedNotice
  | _ => pure ()

/-- A message that is no edit: outbound mail in a conversation room, a command elsewhere. -/
def handleMessage (cfg : Config) (e : QueuedEvent) (body : String) (media : Option String)
    (relation : Option Relation) : Bridge Unit := do
  match ← onStore (.getGhostEmailByRoom e.room) with
  | some _ => routeGhostMessage cfg e body media relation
  | none => Act.lift (onTask (.log (.notInGhostRoom e.event)))

def loadImagesCodepoint : Char := Char.ofNat 0x1F5BC
def trashCodepoint : Char := Char.ofNat 0x1F5D1
def junkCodepoint : Char := Char.ofNat 0x1F6AB

/-- A gesture may carry variation selectors and the like besides its codepoint. -/
def isReaction (codepoint : Char) (key : String) : Bool := key.toList.any (· == codepoint)

/-- The task that a reaction stands for. -/
def reactionTask (sender : UserId) (room : RoomId) (target : EventId) (key : String) :
    Option Detached :=
  if isReaction loadImagesCodepoint key then some (.loadImages sender room target)
  else if isReaction trashCodepoint key then some (.threadAction sender room .trash)
  else if isReaction junkCodepoint key then some (.threadAction sender room .junk)
  else none

def handleReaction (sender : UserId) (room : RoomId) (target : EventId) (key : String) :
    Task Unit :=
  match reactionTask sender room target key with
  | some task => onTask (.spawn task)
  | none => pure ()

/-- The bot, and every ghost. -/
def isBridgeUser (user : UserId) : Bool := "@_jmap_".toList.isPrefixOf user.toList

def handleMessageLike (cfg : Config) (ev : MatrixEvent) : Bridge Unit :=
  if isBridgeUser ev.sender then pure ()
  else
    match ev with
    | .reaction sender room target key => Act.lift (handleReaction sender room target key)
    | .redaction _ _ none => pure ()
    | .redaction _ room (some redacted) => Act.lift (handleRedaction cfg room redacted)
    | .message _ room _ _ _ (some (.replacement target newBody)) =>
      Act.lift (handleEdit cfg room target newBody)
    | .message sender room event body media relation =>
      handleMessage cfg ⟨sender, room, event⟩ body media relation
    | .member _ _ _ _ => pure ()

def welcome : String :=
  "Welcome! Please type `login` to connect your JMAP account to this bridge."

def acceptInvite (cfg : Config) (room : RoomId) (target : UserId) : Bridge Unit := do
  match ← Act.attempt (onMatrix (.joinRoomAs room target)) with
  | .ok _ => if target = cfg.botUserId then Act.lift (notify cfg room welcome) else pure ()
  | .error _ => pure ()

/-- A user without a session who joins a conversation room is told to log in. -/
def greet (cfg : Config) (sender : UserId) (room : RoomId) : Bridge Unit := do
  match ← onStore (.getGhostEmailByRoom room) with
  | none => pure ()
  | some _ => do
    match ← Act.lift (onTask (.getClient sender)) with
    | none => Act.lift (notify cfg room welcome)
    | some _ => pure ()

def handleRoomMember (cfg : Config) (sender : UserId) (room : RoomId) (target : UserId)
    (membership : Membership) : Bridge Unit :=
  match membership with
  | .invite =>
    if target = cfg.botUserId ∨ isBridgeUser target then acceptInvite cfg room target else pure ()
  | .join => if isBridgeUser sender then pure () else greet cfg sender room
  | .other => pure ()

def handleEvent (cfg : Config) (ev : MatrixEvent) : Bridge Unit :=
  match ev with
  | .member sender room target membership =>
    bestEffort (handleRoomMember cfg sender room target membership)
  | ev => handleMessageLike cfg ev

/-- A user of the bridge has read an event; their own account is told. -/
def syncReceipt (email : EmailId) (user : UserId) : Bridge Unit := do
  if (← onStore (.getUser user)).isNone then pure ()
  else do
    match ← Act.lift (onTask (.getClient user)) with
    | none => pure ()
    | some account => bestEffort (onJmap account (.setSeen email true))

def syncReceipts (r : ReadReceipt) : Bridge Unit := do
  match ← onStore (.getEmailIdFromEventId r.event) with
  | none => pure ()
  | some email => Act.forEach (syncReceipt email) r.readers

def handleReceipt (receipts : List ReadReceipt) : Bridge Unit := Act.forEach syncReceipts receipts

def processTransaction (cfg : Config) (txn : MatrixTransaction) : Bridge Unit := do
  Act.forEach (fun receipts => bestEffort (handleReceipt receipts)) txn.ephemeral
  Act.forEach (handleEvent cfg) txn.events

/-- After a store error the claim is released, so that the homeserver's next delivery is
processed; any other error is acknowledged. -/
def concludeTransaction (txnId : TransactionId) (processed : Except Err Unit) : Task Unit :=
  match processed with
  | .ok _ => onTask (.respond txnId true)
  | .error err =>
    if redeliverable err then do
      let _ ← result (onStore (.unclaimTransaction txnId))
      onTask (.respond txnId false)
    else onTask (.respond txnId true)

/-- One delivery of a transaction. One that is claimed already is acknowledged at once. -/
def handleTransactions (cfg : Config) (txnId : TransactionId) (txn : MatrixTransaction) :
    Task Unit := do
  match ← result (onStore (.claimTransaction txnId)) with
  | .ok false => onTask (.respond txnId true)
  | .error _ => onTask (.respond txnId false)
  | .ok true => do
    let processed ← result (processTransaction cfg txn)
    concludeTransaction txnId processed

def pruneRound : Task Unit := do
  let _ ← result (onStore .pruneTransactions)
  onTask (.sleep 86400000)

/-- The daily pruning of processed transactions. -/
def runPruning : Task Unit :=
  Prog.loop (fun _ : Unit => Prog.bind pruneRound fun _ => .pure (.inl ()))
    () (fun _ : Unit => .pure ())

end JmapBridge
