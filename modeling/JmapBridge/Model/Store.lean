import JmapBridge.Model.Types
import JmapBridge.Sql.Table

/-! The SQLite store. A `StoreCmd` is one statement or one transaction, named
after the method that issues it, and `run` is what it does when it succeeds. -/

namespace JmapBridge

open Sql

structure RegisteredUser where
  jmapUsername : String
  jmapToken : String
  jmapUrl : String
deriving DecidableEq, Repr

structure ThreadRow where
  rootEventId : EventId
  roomId : RoomId
  latestEventId : Option EventId
deriving DecidableEq, Repr

structure GhostRow where
  ghostEmail : String
  lastEmailId : Option EmailId := none
  matrixUserId : UserId
deriving DecidableEq, Repr

structure AttachmentInfo where
  blobId : String
  name : String
  mimeType : String
deriving DecidableEq, Repr

structure OutboundRow where
  matrixUserId : UserId
  roomId : RoomId
  eventId : EventId
  bodyText : String
  formattedBody : Option String := none
  threadRootId : Option String := none
  attachments : Option (List AttachmentInfo) := none
  retryCount : Nat := 0
  lastRetryAt : Nat
  releaseAt : Nat
deriving DecidableEq, Repr

/-- A row as `get_pending_outbound` hands it to the worker. -/
structure OutboundMessage where
  id : Nat
  matrixUserId : UserId
  roomId : RoomId
  eventId : EventId
  bodyText : String
  formattedBody : Option String
  threadRootId : Option String
  attachments : Option (List AttachmentInfo)
  retryCount : Nat
deriving DecidableEq, Repr

def OutboundRow.message (id : Nat) (r : OutboundRow) : OutboundMessage where
  id := id
  matrixUserId := r.matrixUserId
  roomId := r.roomId
  eventId := r.eventId
  bodyText := r.bodyText
  formattedBody := r.formattedBody
  threadRootId := r.threadRootId
  attachments := r.attachments
  retryCount := r.retryCount

def backoffMinutes : Nat → Nat
  | 1 => 1
  | 2 => 2
  | 3 => 4
  | 4 => 8
  | 5 => 16
  | 6 => 32
  | 7 => 64
  | 8 => 128
  | _ => 256

/-- The `WHERE` clause of `get_pending_outbound`. -/
def OutboundRow.pending (now : Nat) (r : OutboundRow) : Bool :=
  r.retryCount < 10 && r.releaseAt ≤ now &&
    (r.retryCount == 0 || r.lastRetryAt + 60 * backoffMinutes r.retryCount < now)

/-- How long `prune_old_data` keeps a processed transaction. -/
def transactionDays : Nat := 7

structure Store where
  users : Table UserId RegisteredUser := ∅
  jmapState : Table (UserId × StateKey) String := ∅
  userSignatures : Table UserId String := ∅
  mailboxMapping : Table MailboxId RoomId := ∅
  threadMapping : Table ThreadId ThreadRow := ∅
  messageMapping : Table EmailId EventId := ∅
  roomGhostMapping : Table RoomId GhostRow := ∅
  matrixThreadSubjects : Table EventId String := ∅
  destroyedEmails : Table EmailId Unit := ∅
  outboundQueue : Table Nat OutboundRow := ∅
  nextOutboundId : Nat := 1
  roomCreationLocks : Table LockKey Unit := ∅
  processedTransactions : Table TransactionId Nat := ∅
  bridgeState : Table String String := ∅

inductive StoreCmd where
  | getUser (user : UserId)
  | clearUserCredentials (user : UserId)
  | getUserRoomIds (user : UserId)
  | getUserSignature (user : UserId)
  | getJmapState (user : UserId) (key : StateKey)
  | saveJmapState (user : UserId) (key : StateKey) (state : String)
  | deleteJmapState (user : UserId) (key : StateKey)
  | getBridgeState (key : String)
  | getRoomId (mailbox : MailboxId)
  | saveRoomMapping (mailbox : MailboxId) (room : RoomId)
  | getThreadSubject (root : EventId)
  | getThreadInfo (thread : ThreadId)
  | getJmapThreadIdByRootEvent (root : EventId)
  | getLatestThreadInRoom (room : RoomId)
  | saveThreadMappingAtomic (thread : ThreadId) (root : EventId) (room : RoomId) (subject : String)
  | updateThreadLatestEvent (thread : ThreadId) (latest : EventId)
  | saveRoomGhostMapping (room : RoomId) (ghostEmail : String) (user : UserId)
  | getGhostEmailByRoom (room : RoomId)
  | deleteRoomGhostMapping (room : RoomId)
  | deleteThreadMappings (room : RoomId)
  | getLastEmailIdByRoom (room : RoomId)
  | saveMessageMapping (email : EmailId) (event : EventId)
  | hasMessageMapped (email : EmailId)
  | markEmailDestroyed (email : EmailId)
  | getEventIdByEmail (email : EmailId)
  | getEmailIdFromEventId (event : EventId)
  | getLatestEmailIdByRoom (room : RoomId)
  | tryAcquireRoomCreationLock (key : LockKey)
  | claimTransaction (txn : TransactionId)
  | unclaimTransaction (txn : TransactionId)
  | pruneTransactions
  | addToOutboundQueue (user : UserId) (room : RoomId) (event : EventId) (body : String)
      (html threadRoot : Option String) (attachments : Option (List AttachmentInfo))
      (delaySecs : Nat)
  | getPendingOutbound
  | cancelOutboundByEvent (event : EventId)
  | updateOutboundBodyByEvent (event : EventId) (newBody : String)
  | updateRetryCount (id : Nat)
  | removeFromOutboundQueue (id : Nat)
  | clearOutboundQueue (user : UserId)
deriving DecidableEq

@[reducible] def StoreCmd.Ans : StoreCmd → Type
  | getUser _ => Option RegisteredUser
  | getUserRoomIds _ => List RoomId
  | getUserSignature _ => Option String
  | getJmapState _ _ => Option String
  | getBridgeState _ => Option String
  | getRoomId _ => Option RoomId
  | getThreadSubject _ => Option String
  | getThreadInfo _ => Option ThreadRow
  | getJmapThreadIdByRootEvent _ => Option ThreadId
  | getLatestThreadInRoom _ => Option (ThreadId × EventId × Option String)
  | getGhostEmailByRoom _ => Option String
  | getLastEmailIdByRoom _ => Option EmailId
  | hasMessageMapped _ => Bool
  | getEventIdByEmail _ => Option EventId
  | getEmailIdFromEventId _ => Option EmailId
  | getLatestEmailIdByRoom _ => Option EmailId
  | tryAcquireRoomCreationLock _ => Bool
  | claimTransaction _ => Bool
  | getPendingOutbound => List OutboundMessage
  | cancelOutboundByEvent _ => Bool
  | updateOutboundBodyByEvent _ _ => Bool
  | _ => Unit

namespace Store

def hasUser (s : Store) (user : UserId) : Bool := (s.users.lookup user).isSome

/-- A write to a table whose rows refer to `users`. -/
def referring {α : Type} (s : Store) (user : UserId) (a : α) (s' : Store) : Except Err α × Store :=
  if s.hasUser user then (.ok a, s') else (.error .foreignKey, s)

def pendingRows (s : Store) (now : Nat) : List OutboundMessage :=
  (s.outboundQueue.entries.filter (·.2.pending now)).map fun r => r.2.message r.1

/-- `LIMIT 10` over the pending rows. SQLite may visit them in any order, so `order`
names the ids it came to first. -/
def pendingChoice (s : Store) (now : Nat) (order : List Nat) : List OutboundMessage :=
  let rows := order.filterMap fun id => (s.pendingRows now).find? (·.id == id)
  if order.Nodup ∧ rows.length = order.length ∧ rows.length = min 10 (s.pendingRows now).length
  then rows else (s.pendingRows now).take 10

/-- The emails of a room's threads whose events are the latest of their threads. -/
def latestEmailIds (s : Store) (room : RoomId) : List EmailId :=
  (s.threadMapping.entries.filter (·.2.roomId == room)).flatMap fun t =>
    (s.messageMapping.entries.filter fun m => t.2.latestEventId == some m.2).map (·.1)

end Store

namespace StoreCmd

open Store

def run (now : Nat) (order : List Nat) : (c : StoreCmd) → Store → Except Err c.Ans × Store
  | getUser user, s => (.ok ((s.users.lookup user).filter (·.jmapToken != "")), s)
  | clearUserCredentials user, s =>
    (.ok (), { s with users := s.users.modify user fun r => { r with jmapToken := "" } })
  | getUserRoomIds user, s =>
    (.ok ((s.roomGhostMapping.entries.filter (·.2.matrixUserId == user)).map (·.1)), s)
  | getUserSignature user, s => (.ok (s.userSignatures.lookup user), s)
  | getJmapState user key, s => (.ok (s.jmapState.lookup (user, key)), s)
  | saveJmapState user key state, s =>
    s.referring user () { s with jmapState := s.jmapState.insert (user, key) state }
  | deleteJmapState user key, s => (.ok (), { s with jmapState := s.jmapState.erase (user, key) })
  | getBridgeState key, s => (.ok (s.bridgeState.lookup key), s)
  | getRoomId mailbox, s => (.ok (s.mailboxMapping.lookup mailbox), s)
  | saveRoomMapping mailbox room, s =>
    (.ok (), { s with mailboxMapping := s.mailboxMapping.insert mailbox room })
  | getThreadSubject root, s => (.ok (s.matrixThreadSubjects.lookup root), s)
  | getThreadInfo thread, s => (.ok (s.threadMapping.lookup thread), s)
  | getJmapThreadIdByRootEvent root, s =>
    (.ok ((s.threadMapping.findWhere fun _ r => r.rootEventId == root).map (·.1)), s)
  | getLatestThreadInRoom room, s =>
    (.ok ((s.threadMapping.findWhere fun _ r => r.roomId == room).map fun r =>
      (r.1, r.2.rootEventId, s.matrixThreadSubjects.lookup r.2.rootEventId)), s)
  | saveThreadMappingAtomic thread root room subject, s =>
    (.ok (), { s with
      threadMapping := s.threadMapping.insert thread ⟨root, room, some root⟩
      matrixThreadSubjects := s.matrixThreadSubjects.insert root subject })
  | updateThreadLatestEvent thread latest, s =>
    (.ok (), { s with
      threadMapping := s.threadMapping.modify thread fun r =>
        { r with latestEventId := some latest } })
  | saveRoomGhostMapping room ghostEmail user, s =>
    s.referring user () { s with
      roomGhostMapping := s.roomGhostMapping.insert room
        { ghostEmail := ghostEmail, matrixUserId := user } }
  | getGhostEmailByRoom room, s => (.ok ((s.roomGhostMapping.lookup room).map (·.ghostEmail)), s)
  | deleteRoomGhostMapping room, s =>
    (.ok (), { s with roomGhostMapping := s.roomGhostMapping.erase room })
  | deleteThreadMappings room, s =>
    (.ok (), { s with threadMapping := s.threadMapping.deleteWhere fun _ r => r.roomId == room })
  | getLastEmailIdByRoom room, s =>
    (.ok ((s.roomGhostMapping.lookup room).bind (·.lastEmailId)), s)
  | saveMessageMapping email event, s =>
    (.ok (), { s with messageMapping := s.messageMapping.insert email event })
  | hasMessageMapped email, s =>
    (.ok ((s.messageMapping.lookup email).isSome || (s.destroyedEmails.lookup email).isSome), s)
  | markEmailDestroyed email, s =>
    (.ok (), { s with
      destroyedEmails :=
        if (s.destroyedEmails.lookup email).isSome then s.destroyedEmails
        else s.destroyedEmails.insert email () })
  | getEventIdByEmail email, s => (.ok (s.messageMapping.lookup email), s)
  | getEmailIdFromEventId event, s =>
    (.ok ((s.messageMapping.findWhere fun _ e => e == event).map (·.1)), s)
  | getLatestEmailIdByRoom room, s =>
    (.ok ((s.latestEmailIds room)[order.headD 0]?.or (s.latestEmailIds room).head?), s)
  | tryAcquireRoomCreationLock key, s =>
    if (s.roomCreationLocks.lookup key).isSome then (.ok false, s)
    else (.ok true, { s with roomCreationLocks := s.roomCreationLocks.insert key () })
  | claimTransaction txn, s =>
    (.ok (s.processedTransactions.lookup txn).isNone, { s with
      processedTransactions :=
        if (s.processedTransactions.lookup txn).isSome then s.processedTransactions
        else s.processedTransactions.insert txn now })
  | unclaimTransaction txn, s =>
    (.ok (), { s with processedTransactions := s.processedTransactions.erase txn })
  | pruneTransactions, s =>
    (.ok (), { s with
      processedTransactions := s.processedTransactions.deleteWhere fun _ processedAt =>
        processedAt + transactionDays * 86400 < now })
  | addToOutboundQueue user room event body html threadRoot attachments delaySecs, s =>
    s.referring user () { s with
      outboundQueue := s.outboundQueue.insert s.nextOutboundId
        { matrixUserId := user, roomId := room, eventId := event, bodyText := body
          formattedBody := html, threadRootId := threadRoot, attachments := attachments
          lastRetryAt := now, releaseAt := now + delaySecs }
      nextOutboundId := s.nextOutboundId + 1 }
  | getPendingOutbound, s => (.ok (s.pendingChoice now order), s)
  | cancelOutboundByEvent event, s =>
    (.ok (s.outboundQueue.findWhere fun _ r => r.eventId == event).isSome, { s with
      outboundQueue := s.outboundQueue.deleteWhere fun _ r => r.eventId == event })
  | updateOutboundBodyByEvent event newBody, s =>
    (.ok (s.outboundQueue.findWhere fun _ r => r.eventId == event).isSome, { s with
      outboundQueue := s.outboundQueue.modifyWhere (fun _ r => r.eventId == event) fun r =>
        { r with bodyText := newBody } })
  | updateRetryCount id, s =>
    (.ok (), { s with
      outboundQueue := s.outboundQueue.modify id fun r =>
        { r with retryCount := r.retryCount + 1, lastRetryAt := now } })
  | removeFromOutboundQueue id, s =>
    (.ok (), { s with outboundQueue := s.outboundQueue.erase id })
  | clearOutboundQueue user, s =>
    (.ok (), { s with
      outboundQueue := s.outboundQueue.deleteWhere fun _ r => r.matrixUserId == user })

end StoreCmd

end JmapBridge
