import JmapBridge.Model.Footprint

/-! The double puppet's `/sync` loop, as far as it reflects the `m.marked_unread` flags of
a user's rooms onto the mail. -/

namespace JmapBridge

open Effect

/-- An event of a room's account data. -/
structure AccountDataEvent where
  type : String
  unread : Option Bool := none
deriving DecidableEq, Repr

/-- The joined rooms of a `/sync` response, with the account data of those that have any. -/
abbrev JoinedRooms := List (RoomId × Option (List AccountDataEvent))

/-- Both names of the type count, and an event without the field reads as `false`. -/
def parseMarkedUnread (events : List AccountDataEvent) : Option Bool :=
  events.findSome? fun ev =>
    if ev.type = "m.marked_unread" ∨ ev.type = "com.famedly.marked_unread" then
      some (ev.unread.getD false)
    else none

inductive UnreadAction where
  | markUnseen
  | clearGate
  | noOp
deriving DecidableEq, Repr

def unreadAction (gated unread : Bool) : UnreadAction :=
  match gated, unread with
  | false, true => .markUnseen
  | true, false => .clearGate
  | false, false => .noOp
  | true, true => .noOp

/-- The flag clears `$seen` on the latest email of the room, once per room. -/
def syncMarkedUnread (user : UserId) (room : RoomId) (unread : Bool) : Bridge Unit := do
  let gated ← Act.attempt (onStore (.getJmapState user (.markedUnread room)))
  match unreadAction (isOkSome gated) unread with
  | .noOp => pure ()
  | .clearGate => onStore (.deleteJmapState user (.markedUnread room))
  | .markUnseen => do
    match ← onStore (.getLatestEmailIdByRoom room) with
    | none => pure ()
    | some emailId => do
      match ← Act.lift (onTask (.getClient user)) with
      | none => pure ()
      | some account => do
        onJmap account (.setSeen emailId false)
        onStore (.saveJmapState user (.markedUnread room) "1")

def handleRoomData (user : UserId) (room : RoomId × Option (List AccountDataEvent)) : Task Unit :=
  match room.2.bind parseMarkedUnread with
  | none => .pure ()
  | some unread => Prog.bind (syncMarkedUnread user room.1 unread) fun _ => .pure ()

/-- A room that fails is left, with a warning. -/
def handleMarkedUnread (user : UserId) (joined : JoinedRooms) : Task Unit :=
  Prog.forEach (handleRoomData user) joined

end JmapBridge
