import Mathlib.Algebra.Order.Ring.Nat
import Mathlib.Logic.Basic

/-! The data of the bridge: identifiers, mail as the JMAP server returns it, the
keys of the key/value tables and the errors its functions pass on. -/

namespace JmapBridge

abbrev UserId := String
abbrev RoomId := String
abbrev EventId := String
abbrev EmailId := String
abbrev ThreadId := String
abbrev MailboxId := String
abbrev TransactionId := String

structure EmailAddress where
  name : Option String := none
  email : String
deriving DecidableEq, Repr

structure EmailBodyPart where
  blobId : Option String := none
  contentType : Option String := none
  name : Option String := none
  size : Nat := 0
deriving DecidableEq, Repr

/-- The properties `fetch_emails` asks for. `text` stands for the body parts and
values that only the renderer reads. -/
structure Email where
  id : Option EmailId := none
  threadId : Option ThreadId := none
  subject : Option String := none
  fromAddrs : Option (List EmailAddress) := none
  toAddrs : Option (List EmailAddress) := none
  ccAddrs : Option (List EmailAddress) := none
  receivedAt : Option Int := none
  keywords : List String := []
  text : String := ""
  attachments : Option (List EmailBodyPart) := none
deriving DecidableEq, Repr

/-- What a message event was made from. It is not part of the event. -/
inductive Origin where
  | email (id : EmailId)
  | notice
  | queued (row : Nat)
  | answer (event : EventId)
deriving DecidableEq, Repr

structure EmailBody where
  plain : String
  html : Option String
  origin : Origin
deriving DecidableEq, Repr

structure GhostUser where
  email : String
  userId : UserId
deriving DecidableEq, Repr

/-- Keys of `jmap_state`. -/
inductive StateKey where
  | changes
  | query
  | mailbox
  | backfillPosition
  | backfillCutoff
  | userEmail
  | emailSpaceRoom
  | matrixPuppetToken
  | lastSyncAt
  | sendDelaySeconds
  | readSynced (email : EmailId)
  | sendState (event : EventId)
  | sendHint (room : RoomId)
  | markedUnread (room : RoomId)
deriving DecidableEq, Repr

def StateKey.text : StateKey → String
  | changes => "changes"
  | query => "query"
  | mailbox => "mailbox"
  | backfillPosition => "backfill_position"
  | backfillCutoff => "backfill_cutoff"
  | userEmail => "user_email"
  | emailSpaceRoom => "email_space_room"
  | matrixPuppetToken => "matrix_puppet_token"
  | lastSyncAt => "last_sync_at"
  | sendDelaySeconds => "send_delay_seconds"
  | readSynced email => s!"read_synced:{email}"
  | sendState event => s!"send_state:{event}"
  | sendHint room => s!"send_hint:{room}"
  | markedUnread room => s!"marked_unread:{room}"

/-- Keys of `room_creation_locks`. -/
inductive LockKey where
  | thread (id : ThreadId)
  | emailSpace (user : UserId)
deriving DecidableEq, Repr

def LockKey.text : LockKey → String
  | thread id => s!"thread:{id}"
  | emailSpace user => s!"email_space:{user}"

inductive MailboxRole where
  | sent
  | drafts
  | trash
  | junk
deriving DecidableEq, Repr

inductive Err where
  | sqlx
  | foreignKey
  | matrix
  | notJoined
  | http
  | jmap
  | cannotCalculateChanges
  | context (text : String)
deriving DecidableEq, Repr

end JmapBridge
