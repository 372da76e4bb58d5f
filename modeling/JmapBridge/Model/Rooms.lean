import JmapBridge.Model.World
import JmapBridge.Model.Content

/-! Matrix rooms: sending into them, creating the room of a conversation, and
the email space that collects a user's rooms. -/

namespace JmapBridge

open Effect

/-- A ghost that is not in the room is invited and joined, and the event is sent once more. -/
def sendAsGhostJoining (room : RoomId) (sender : UserId) (content : Content)
    (timestamp : Option Nat) : Bridge EventId := do
  match ← Act.attempt (onMatrix (.sendAsGhost room sender content timestamp)) with
  | .ok event => pure event
  | .error .notJoined => do
    bestEffort (onMatrix (.inviteToRoom room sender))
    onMatrix (.joinRoomAs room sender)
    onMatrix (.sendAsGhost room sender content timestamp)
  | .error e => Act.fail e

def sendMessageAs (room : RoomId) (body : EmailBody) (sender : UserId) (timestamp : Option Nat) :
    Bridge EventId :=
  sendAsGhostJoining room sender (.message body) timestamp

/-- A message of the bot. -/
def sendMessage (cfg : Config) (room : RoomId) (text : String) (origin : Origin) : Bridge EventId :=
  sendMessageAs room ⟨text, none, origin⟩ cfg.botUserId none

def sendReaction (cfg : Config) (room : RoomId) (target : EventId) (key : String) :
    Bridge EventId :=
  sendAsGhostJoining room cfg.botUserId (.reaction target key) none

def sendFileAs (room : RoomId) (mxcUrl fileName mimeType : String) (sender : UserId)
    (timestamp : Option Nat) : Bridge EventId :=
  sendAsGhostJoining room sender (.file mxcUrl fileName mimeType) timestamp

/-- Post a notice of the bot, with a warning where that fails. -/
def notify (cfg : Config) (room : RoomId) (msg : String) : Task Unit :=
  Prog.bind (sendMessage cfg room msg .notice) fun _ => .pure ()

def addRoomToSpace (space child : RoomId) : Bridge Unit := do
  onMatrix (.putState space "m.space.child" child)
  onMatrix (.putState child "m.space.parent" space)

/-- The avatar is the second word of `bot_avatar`; a space without one is usable. -/
def setSpaceAvatar (space : RoomId) : Task Unit :=
  letSome (onStore (.getBridgeState "bot_avatar")) fun state =>
    match (Rust.Str.splitWhitespace state.toList)[1]? with
    | some mxc => Prog.bind (onMatrix (.setRoomAvatar space (String.ofList mxc))) fun _ => .pure ()
    | none => .pure ()

def createEmailSpace (user : UserId) : Bridge RoomId := do
  let label := (← onStore (.getJmapState user .userEmail)).getD (userLabel user)
  let topic := s!"Bridged email for {label}. Every room in this space is one email conversation, "
    ++ "mirrored to and from your mailbox by the JMAP bridge. Reply in a room to answer by "
    ++ "email, or use !compose <address> to start a new one."
  let space ← onMatrix (.createSpace label topic user)
  Act.lift (setSpaceAvatar space)
  pure space

/-- The space under its creation lock, looked up again before it is created. -/
def createEmailSpaceLocked (user : UserId) : Bridge RoomId :=
  guarded (.emailSpace user) do
    match ← onStore (.getJmapState user .emailSpaceRoom) with
    | some space => pure space
    | none => do
      let space ← createEmailSpace user
      onStore (.saveJmapState user .emailSpaceRoom space)
      pure space

def ensureEmailSpace (user : UserId) : Bridge RoomId :=
  Act.loop (fun _ : Unit => do
    match ← onStore (.getJmapState user .emailSpaceRoom) with
    | some space => pure (.inr space)
    | none => do
      if ← onStore (.tryAcquireRoomCreationLock (.emailSpace user)) then do
        let space ← createEmailSpaceLocked user
        pure (.inr space)
      else do
        Act.lift (onTask (.sleep 100))
        pure (.inl ())) ()

def ensureRoomInEmailSpace (user : UserId) (room : RoomId) : Bridge Unit := do
  let space ← ensureEmailSpace user
  addRoomToSpace space room

def repairEmailSpace (user : UserId) : Bridge Unit := do
  let rooms ← onStore (.getUserRoomIds user)
  if rooms.isEmpty then pure ()
  else do
    let space ← ensureEmailSpace user
    Act.forEach (fun room => bestEffort (addRoomToSpace space room)) rooms

/-- The ghost of `email`, whose display name is set only when it is first registered. -/
def registerGhost (cfg : Config) (email displayName : String) : Bridge Unit := do
  if ← onMatrix (.ensureUserExists (emailToLocalpart cfg email)) then
    bestEffort (onMatrix (.setDisplayName (cfg.ghostUserId email) displayName))
  else pure ()

/-- The user is joined through the double-puppet token, when there is one. -/
def joinRealUser (user : UserId) (room : RoomId) : Task Unit :=
  letSome (onStore (.getJmapState user .matrixPuppetToken)) fun token =>
    Prog.bind (onMatrix (.joinRoomViaToken token room)) fun _ => .pure ()

def createContactRoom (cfg : Config) (user : UserId) (email displayName : String) :
    Bridge RoomId := do
  registerGhost cfg email displayName
  let room ← onMatrix (.createRoomForContact displayName email user)
  onStore (.saveRoomGhostMapping room email user)
  bestEffort (onMatrix (.joinRoomAs room (cfg.ghostUserId email)))
  Act.lift (joinRealUser user room)
  bestEffort (ensureRoomInEmailSpace user room)
  pure room

end JmapBridge
