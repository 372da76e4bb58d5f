import JmapBridge.Model.Transactions

/-! Room messages by their type, as the Matrix server delivers them: which of them go to the
outbound side, and where the content of a media message comes from. -/

namespace JmapBridge

open Effect

inductive MediaSource where
  | plain (uri : String)
  | encrypted
deriving DecidableEq, Repr

/-- The content of a media message, with the size its sender declares. -/
structure MediaContent where
  body : String
  source : MediaSource
  size : Option Nat := none
deriving DecidableEq, Repr

inductive MessageType where
  | audio (media : MediaContent)
  | emote (body : String)
  | file (media : MediaContent)
  | image (media : MediaContent)
  | location (body : String)
  | notice (body : String)
  | serverNotice (body : String)
  | text (body : String)
  | video (media : MediaContent)
  | verificationRequest (body : String)
  | custom (body : String)
deriving DecidableEq, Repr

namespace MessageType

def body : MessageType → String
  | audio media => media.body
  | emote body => body
  | file media => media.body
  | image media => media.body
  | location body => body
  | notice body => body
  | serverNotice body => body
  | text body => body
  | video media => media.body
  | verificationRequest body => body
  | custom body => body

def media : MessageType → Option MediaContent
  | audio media => some media
  | file media => some media
  | image media => some media
  | video media => some media
  | _ => none

end MessageType

/-- A message of a room. -/
structure RoomMessage where
  sender : UserId
  room : RoomId
  event : EventId
  msgtype : MessageType
  relation : Option Relation := none
deriving DecidableEq, Repr

def RoomMessage.queued (m : RoomMessage) : QueuedEvent := ⟨m.sender, m.room, m.event⟩

def noPlainMedia : String := "No plain media URL found (or encrypted media is unsupported)"

def mediaTooLarge (maxSize : Nat) : String :=
  "Media attachment exceeds the maximum size allowed by the JMAP mail server (limit: " ++
    humanBytes maxSize ++ "). Upload aborted."

def MediaSource.plainUrl : MediaSource → Option String
  | plain uri => some uri
  | encrypted => none

/-- A limit of 0 is none. -/
def exceedsLimit (maxSize : Nat) (size : Option Nat) : Bool :=
  size.any fun bytes => 0 < maxSize && maxSize < bytes

/-- The media of the message as an attachment, unless it is encrypted or declared too large;
`maxSize` is the limit in the session of the account. -/
def uploadMatrixMedia (maxSize : Account → Nat) (account : Account) (msgtype : MessageType) :
    Bridge AttachmentInfo := do
  let uri ← Act.ofOption (.context noPlainMedia) (msgtype.media.bind (·.source.plainUrl))
  if exceedsLimit (maxSize account) (msgtype.media.bind (·.size)) then
    Act.fail (.context (mediaTooLarge (maxSize account)))
  else onJmap account (.uploadMatrixMedia uri)

/-- A media message of any type that has media. -/
def handleGhostMedia (cfg : Config) (maxSize : Account → Nat) (e : QueuedEvent)
    (msgtype : MessageType) (relation : Option Relation) : Bridge Unit := do
  match ← Act.lift (onTask (.getClient e.user)) with
  | none => Act.lift (answerMessage cfg e notLoggedIn)
  | some account => do
    match ← Act.attempt (uploadMatrixMedia maxSize account msgtype) with
    | .error err => do
      Act.lift (answerMessage cfg e (uploadFailed (maxSize account)))
      Act.fail err
    | .ok info => do
      let context ← resolveThreadContext account e.room relation
      enqueueHeldSend cfg e "Sent an attachment from Matrix." (context.map (·.encode))
        (some [info])

/-- The inner dispatch: of the types the outer one lets through, and two more. -/
def handleGhostMessageType (cfg : Config) (maxSize : Account → Nat) (m : RoomMessage) :
    Bridge Unit :=
  match m.msgtype with
  | .text body => handleGhostOutbound cfg m.queued body m.relation
  | .image _ => handleGhostMedia cfg maxSize m.queued m.msgtype m.relation
  | .file _ => handleGhostMedia cfg maxSize m.queued m.msgtype m.relation
  | .audio _ => handleGhostMedia cfg maxSize m.queued m.msgtype m.relation
  | .video _ => handleGhostMedia cfg maxSize m.queued m.msgtype m.relation
  | _ => pure ()

/-- Outbound mail in a conversation room, a command elsewhere. -/
def routeMessage (cfg : Config) (maxSize : Account → Nat) (m : RoomMessage) : Bridge Unit := do
  match ← onStore (.getGhostEmailByRoom m.room) with
  | none => Act.lift (onTask (.log (.notInGhostRoom m.event)))
  | some _ => do
    let handled ← Act.attempt (handleGhostMessageType cfg maxSize m)
    match handled with
    | .error err => if redeliverable err then Act.fail err else pure ()
    | .ok _ => pure ()

/-- The outer dispatch: edits first, and then three types of message. -/
def handleRoomMessage (cfg : Config) (maxSize : Account → Nat) (m : RoomMessage) : Bridge Unit :=
  if isBridgeUser m.sender then pure ()
  else
    match m.relation with
    | some (.replacement target newBody) => Act.lift (handleEdit cfg m.room target newBody)
    | _ =>
      match m.msgtype with
      | .text _ => routeMessage cfg maxSize m
      | .file _ => routeMessage cfg maxSize m
      | .image _ => routeMessage cfg maxSize m
      | _ => pure ()

/-! Texts and plain uploads are the messages that a transaction's events stand for. -/

variable {cfg : Config} {maxSize : Account → Nat} {m : RoomMessage}

theorem uploadMatrixMedia_plain {account : Account} {msgtype : MessageType} {media : MediaContent}
    {uri : String} (hmedia : msgtype.media = some media) (huri : media.source = .plain uri)
    (hsize : exceedsLimit (maxSize account) media.size = false) :
    uploadMatrixMedia maxSize account msgtype = onJmap account (.uploadMatrixMedia uri) := by
  unfold uploadMatrixMedia
  simp only [hmedia, Option.bind_some, huri, MediaSource.plainUrl, hsize]
  rfl

theorem uploadMatrixMedia_cases (maxSize : Account → Nat) (account : Account)
    (msgtype : MessageType) :
    (∃ err, uploadMatrixMedia maxSize account msgtype = Act.fail err) ∨
      ∃ uri, uploadMatrixMedia maxSize account msgtype = onJmap account
        (.uploadMatrixMedia uri) := by
  unfold uploadMatrixMedia
  cases msgtype.media.bind (·.source.plainUrl) with
  | none => exact .inl ⟨_, rfl⟩
  | some uri =>
    cases exceedsLimit (maxSize account) (msgtype.media.bind (·.size)) with
    | true => exact .inl ⟨_, rfl⟩
    | false => exact .inr ⟨uri, rfl⟩

theorem handleGhostMedia_plain {e : QueuedEvent} {msgtype : MessageType}
    {relation : Option Relation}
    {media : MediaContent} {uri : String} (hmedia : msgtype.media = some media)
    (huri : media.source = .plain uri)
    (hsize : ∀ account, exceedsLimit (cfg.maxUploadSize account) media.size = false) :
    handleGhostMedia cfg cfg.maxUploadSize e msgtype relation =
      handleGhostMediaOutbound cfg e uri relation := by
  refine congrArg (Act.andThen _) (funext fun client => ?_)
  cases client with
  | none => rfl
  | some account =>
    change Act.andThen (Act.attempt (uploadMatrixMedia cfg.maxUploadSize account msgtype)) _ = _
    rw [uploadMatrixMedia_plain hmedia huri (hsize account)]
    refine congrArg (Act.andThen _) (funext fun r => ?_)
    cases r with
    | error err => rfl
    | ok info => rfl

theorem routeMessage_congr {body : String} {media : Option String}
    (hhandle : handleGhostMessageType cfg maxSize m = (match media with
      | none => handleGhostOutbound cfg m.queued body m.relation
      | some uri => handleGhostMediaOutbound cfg m.queued uri m.relation)) :
    routeMessage cfg maxSize m = handleMessage cfg m.queued body media m.relation := by
  refine congrArg (Act.andThen _) (funext fun ghost => ?_)
  cases ghost with
  | none => rfl
  | some _ =>
    change Act.andThen (Act.attempt (handleGhostMessageType cfg maxSize m)) _ = _
    rw [hhandle]
    refine congrArg (Act.andThen _) (funext fun handled => ?_)
    cases handled with
    | error err => rfl
    | ok _ => rfl

/-- The types that the outer dispatch lets through. -/
def MessageType.routed : MessageType → Bool
  | text _ => true
  | file _ => true
  | image _ => true
  | _ => false

theorem handleRoomMessage_routed {body : String} {media : Option String}
    (hrouted : m.msgtype.routed)
    (hroute : routeMessage cfg maxSize m = handleMessage cfg m.queued body media m.relation) :
    handleRoomMessage cfg maxSize m =
      handleEvent cfg (.message m.sender m.room m.event body media m.relation) := by
  have houter : handleRoomMessage cfg maxSize m =
      if isBridgeUser m.sender then Act.ok ()
      else match m.relation with
        | some (.replacement target newBody) => Act.lift (handleEdit cfg m.room target newBody)
        | _ => routeMessage cfg maxSize m := by
    unfold handleRoomMessage
    match hmsgtype : m.msgtype, hrouted with
    | .text _, _ => rfl
    | .file _, _ => rfl
    | .image _, _ => rfl
  rw [houter, hroute]
  obtain ⟨sender, room, event, msgtype, relation⟩ := m
  match relation with
  | none => rfl
  | some (.reply _) => rfl
  | some (.thread _) => rfl
  | some (.replacement _ _) => rfl

theorem handleRoomMessage_text {body : String} (hmsgtype : m.msgtype = .text body) :
    handleRoomMessage cfg maxSize m =
      handleEvent cfg (.message m.sender m.room m.event body none m.relation) := by
  refine handleRoomMessage_routed (by rw [hmsgtype]; rfl) (routeMessage_congr ?_)
  unfold handleGhostMessageType
  rw [hmsgtype]

theorem handleRoomMessage_media {media : MediaContent} {uri : String} (hrouted : m.msgtype.routed)
    (hmedia : m.msgtype.media = some media) (huri : media.source = .plain uri)
    (hsize : ∀ account, exceedsLimit (cfg.maxUploadSize account) media.size = false) :
    handleRoomMessage cfg cfg.maxUploadSize m =
      handleEvent cfg (.message m.sender m.room m.event media.body (some uri) m.relation) := by
  refine handleRoomMessage_routed hrouted (routeMessage_congr ?_)
  change handleGhostMessageType cfg cfg.maxUploadSize m =
    handleGhostMediaOutbound cfg m.queued uri m.relation
  rw [← handleGhostMedia_plain hmedia huri hsize]
  unfold handleGhostMessageType
  match hmsgtype : m.msgtype, hrouted, hmedia with
  | .file _, _, _ => rfl
  | .image _, _, _ => rfl

end JmapBridge
