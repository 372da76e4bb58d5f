import JmapBridge.Model.Exec
import JmapBridge.Model.Inbound

/-! The outbound queue: which programs give commands that concern it, and what each
statement does to its rows. -/

namespace JmapBridge

open Effect Sql

def StoreCmd.offQueue : StoreCmd → Bool
  | addToOutboundQueue .. => false
  | getPendingOutbound => false
  | cancelOutboundByEvent _ => false
  | updateOutboundBodyByEvent _ _ => false
  | updateRetryCount _ => false
  | removeFromOutboundQueue _ => false
  | clearOutboundQueue _ => false
  | claimTransaction _ => false
  | unclaimTransaction _ => false
  | pruneTransactions => false
  | _ => true

/-- The commands that claim, release and answer transactions. -/
def Cmd.ledger : Cmd → Bool
  | store (.claimTransaction _) => true
  | store (.unclaimTransaction _) => true
  | store .pruneTransactions => true
  | task (.respond _ _) => true
  | _ => false

/-- The commands that neither touch the queue nor submit a message of it, and are not of
the ledger of transactions either. -/
def Cmd.offQueue : Cmd → Bool
  | store c => c.offQueue
  | jmap _ (.submitBatch _) => false
  | task (.log (.sending _)) => false
  | task (.dropMessage _) => false
  | task (.respond _ _) => false
  | _ => true

/-- The keys in which the state of sent messages is kept. -/
def StateKey.ofSending : StateKey → Bool
  | sendState _ => true
  | sendHint _ => true
  | _ => false

def StoreCmd.service : StoreCmd → Bool
  | getJmapState _ key => !key.ofWalk
  | saveJmapState _ key _ => key.ofSending
  | deleteJmapState _ key => key.ofSending
  | saveRoomMapping _ _ => false
  | updateThreadLatestEvent _ _ => false
  | saveRoomGhostMapping _ _ _ => false
  | saveMessageMapping _ _ => false
  | markEmailDestroyed _ => false
  | tryAcquireRoomCreationLock _ => false
  | _ => true

def JmapCmd.service : JmapCmd → Bool
  | changesEmail _ => false
  | queryEmail _ _ _ => false
  | getEmailState => false
  | getEmail _ => false
  | changesMailbox _ => false
  | queryMailbox => false
  | getMailboxState => false
  | getMailbox _ => false
  | _ => true

/-- Not one of the commands with which only the inbound side bridges mail. -/
def Cmd.service : Cmd → Bool
  | store c => c.service
  | jmap _ c => c.service
  | matrix (.createRoomForContact _ _ _) => false
  | matrix (.createRoomForMailbox _) => false
  | matrix (.createSpace _ _ _) => false
  | matrix (.putState _ _ _) => false
  | matrix (.setMarkedUnread _ _ _ _) => false
  | task (.dropGuard _) => false
  | task (.enter _) => false
  | task (.leave _) => false
  | _ => true

/-- Commands off the queue that are not part of an attempt on a message either, and none of
the inbound side. -/
def Cmd.aside : Cmd → Bool
  | task (.getClient _) => false
  | matrix (.sendAsGhost _ _ (.message body) _) =>
    match body.origin with
    | .queued _ => false
    | _ => true
  | c => c.offQueue && c.service

/-- The commands that post an email, or edit a post. -/
def Cmd.showing : Cmd → Bool
  | matrix (.sendAsGhost _ _ (.message body) _) =>
    match body.origin with
    | .email _ => true
    | _ => false
  | matrix (.sendAsGhost _ _ (.edit _ _ _) _) => true
  | _ => false

def Cmd.leaving : Cmd → Bool
  | matrix (.leaveRoom _ _) => true
  | _ => false

def Cmd.offBindings : Cmd → Bool
  | store (.saveThreadMappingAtomic _ _ _ _) => false
  | store (.deleteThreadMappings _) => false
  | store (.saveRoomGhostMapping _ _ _) => false
  | store (.deleteRoomGhostMapping _) => false
  | _ => true

/-- Commands aside that show no email, bind no thread and make nobody leave a room. -/
def Cmd.talk (c : Cmd) : Bool := c.aside && !c.showing && !c.leaving && c.offBindings

theorem Cmd.talk.aside {c : Cmd} (h : c.talk) : c.aside := by
  simp only [Cmd.talk, Bool.and_eq_true] at h
  exact h.1.1.1

theorem Cmd.talk.not_showing {c : Cmd} (h : c.talk) : c.showing = false := by
  simp only [Cmd.talk, Bool.and_eq_true, Bool.not_eq_true'] at h
  exact h.1.1.2

theorem Cmd.talk.not_leaving {c : Cmd} (h : c.talk) : c.leaving = false := by
  simp only [Cmd.talk, Bool.and_eq_true, Bool.not_eq_true'] at h
  exact h.1.2

theorem Cmd.talk.offBindings {c : Cmd} (h : c.talk) : c.offBindings := (Bool.and_eq_true_iff.mp h).2

/-- The commands that take a row off after an attempt, and those on the marker of a held
message. -/
def Cmd.marking : Cmd → Bool
  | store (.removeFromOutboundQueue _) => true
  | store (.saveJmapState _ (.sendState _) _) => true
  | store (.deleteJmapState _ (.sendState _)) => true
  | matrix (.sendAsGhost _ _ (.reaction _ key) _) => key == heldReaction
  | _ => false

/-- Talk that marks no message as held. -/
def Cmd.remark (c : Cmd) : Bool := c.talk && !c.marking

theorem Cmd.remark.talk {c : Cmd} (h : c.remark) : c.talk := (Bool.and_eq_true_iff.mp h).1

/-- The commands that leave the rows of the queue alone. -/
def Cmd.offRows (c : Cmd) : Bool := c.offQueue || c.ledger

theorem Cmd.offQueue.offRows {c : Cmd} (h : c.offQueue) : c.offRows := by simp [Cmd.offRows, h]

theorem Cmd.aside.offQueue {c : Cmd} (h : c.aside) : c.offQueue := by
  unfold Cmd.aside at h
  split at h
  · cases h
  · rfl
  · exact (Bool.and_eq_true_iff.mp h).1

theorem Cmd.aside.service {c : Cmd} (h : c.aside) : c.service := by
  unfold Cmd.aside at h
  split at h
  · cases h
  · rfl
  · exact (Bool.and_eq_true_iff.mp h).2

variable {α : Type} {cfg : Config} {φ : Cmd → Prop}

abbrev OffQueue (x : Prog Op α) : Prop := Does (fun c => c.offQueue) x

abbrev OffRows (x : Prog Op α) : Prop := Does (fun c => c.offRows) x

abbrev Aside (x : Prog Op α) : Prop := Does (fun c => c.aside) x

abbrev Talk (x : Prog Op α) : Prop := Does (fun c => c.talk) x

abbrev Remark (x : Prog Op α) : Prop := Does (fun c => c.remark) x

theorem Aside.offQueue {x : Prog Op α} (h : Aside x) : OffQueue x :=
  h.mono fun _ => Cmd.aside.offQueue

theorem Talk.aside {x : Prog Op α} (h : Talk x) : Aside x := h.mono fun _ => Cmd.talk.aside

theorem Talk.offQueue {x : Prog Op α} (h : Talk x) : OffQueue x := h.aside.offQueue

theorem Remark.talk {x : Prog Op α} (h : Remark x) : Talk x := h.mono fun _ => Cmd.remark.talk

theorem Remark.aside {x : Prog Op α} (h : Remark x) : Aside x := h.talk.aside

theorem Remark.offQueue {x : Prog Op α} (h : Remark x) : OffQueue x := h.talk.offQueue

/-! The inbound side. -/

theorem WalkCmd.offQueue {p : Poller} {ids : EmailId → Prop} {c : Cmd} (h : WalkCmd p ids c) :
    c.offQueue := by
  cases h with
  | inbound c h => cases h <;> rfl
  | mailbox c h =>
    cases h with
    | contact c h => cases h <;> rfl
    | _ => rfl
  | _ => rfl

theorem inbound_offQueue {p : Poller} {x : Prog Op α} (h : DoesInbound p (fun _ => True) x) :
    OffQueue x := h.mono fun _ hc => hc.walk.offQueue

theorem walk_closed {p : Poller} :
    Prog.Closed (fun _ o => PaceCmd p o.cmd) fun _ (x : Task _) => OffQueue x :=
  Prog.only_closed.mono fun _ _ h => WalkCmd.offQueue (PaceCmd.walk h : WalkCmd p (fun _ => True) _)

theorem processEmail_offQueue {p : Poller} {email : Email} :
    OffQueue (processEmail cfg p email) := by
  have hwalk : DoesWalk p (fun _ => True) (processEmail cfg p email) :=
    processEmail_walk fun _ _ => trivial
  exact hwalk.mono fun _ => WalkCmd.offQueue

theorem poll_offQueue {p : Poller} : OffQueue (poll cfg p) := by
  have hmailboxes : DoesWalk p (fun _ => True) (pollMailboxes cfg p) :=
    pollMailboxes_does.mono .mailbox
  exact poll_closed walk_closed (hmailboxes.mono fun _ => WalkCmd.offQueue) fun _ =>
    processEmail_offQueue

theorem runBackfillLoop_offQueue {p : Poller} : OffQueue (runBackfillLoop cfg p) :=
  runBackfillLoop_closed walk_closed fun _ => processEmail_offQueue

/-! Notices, reactions and the headers of a reply. -/

theorem notify_remark {room : RoomId} {msg : String} : Remark (notify cfg room msg) :=
  .bind (sendAsGhostJoining_does rfl rfl rfl) fun _ => .pure

theorem answerMessage_remark {e : QueuedEvent} {msg : String} : Remark (answerMessage cfg e msg) :=
  .bind (sendAsGhostJoining_does rfl rfl rfl) fun _ => .pure

theorem sendReaction_talk {room : RoomId} {target : EventId} {key : String} :
    Talk (sendReaction cfg room target key) := sendAsGhostJoining_does rfl rfl rfl

theorem markHeld_talk {e : QueuedEvent} : Talk (markHeld cfg e) := by
  refine .bind sendReaction_talk fun r => ?_
  split
  · exact .bind (.result (.store rfl)) fun _ => .pure
  · exact .pure

theorem takeHeld_talk {e : QueuedEvent} : Talk (takeHeld e) := by
  refine .bind (.result (.store rfl)) fun r => ?_
  split
  · exact .bind (.result (.matrix rfl)) fun _ => .bind (.result (.store rfl)) fun _ => .pure
  · exact .pure

theorem markSubmitted_talk {e : QueuedEvent} : Talk (markSubmitted cfg e) := by
  refine .bind takeHeld_talk fun held => ?_
  split
  · exact .bind sendReaction_talk fun _ => .pure
  · exact .pure

theorem markFailed_talk {e : QueuedEvent} : Talk (markFailed cfg e) :=
  .bind takeHeld_talk fun _ => .bind sendReaction_talk fun _ => .pure

theorem mailboxIdForRole_remark {account : Account} {role : MailboxRole} :
    Remark (mailboxIdForRole account role) := .andThen (.jmap rfl) fun _ => .ok

theorem outgoingMailbox_remark {account : Account} : Remark (outgoingMailbox account) := by
  refine .andThen mailboxIdForRole_remark fun sent => ?_
  split
  · exact .ok
  · exact .andThen mailboxIdForRole_remark fun _ => .ofOption

theorem primaryIdentity_remark {account : Account} : Remark (primaryIdentity account) := by
  refine .bind (.result (.jmap rfl)) fun r => ?_
  split
  · exact .pure
  · exact .pure

theorem threadEmailIds_remark {account : Account} {thread : ThreadId} :
    Remark (threadEmailIds account thread) := by
  refine .bind (.result (.jmap rfl)) fun r => ?_
  split
  · exact .pure
  · exact .pure

theorem replyHeaders_remark {account : Account} {thread : ThreadId} :
    Remark (replyHeaders account thread) := by
  refine .bind threadEmailIds_remark fun ids => ?_
  split
  · exact .pure
  · refine .bind (.result (.jmap rfl)) fun r => ?_
    split
    · exact .pure
    · exact .pure

theorem replyQuote_remark {account : Account} {thread : ThreadId} :
    Remark (replyQuote account thread) := by
  refine .bind threadEmailIds_remark fun ids => ?_
  split
  · exact .pure
  · refine .bind (.result (.jmap rfl)) fun r => ?_
    split
    · exact .pure
    · exact .pure

theorem quotedBody_remark {account : Account} {thread : ThreadId} {body : String} :
    Remark (quotedBody cfg account thread body) := by
  rw [quotedBody]
  split
  · exact .bind replyQuote_remark fun _ => .pure
  · exact .pure

theorem mapComposedThread_aside {account : Account} {msg : OutboundMessage} {subject : String}
    {emailId : EmailId} : Aside (mapComposedThread account msg subject emailId) := by
  refine .andThen (.attempt (.jmap rfl)) fun r => ?_
  split
  · exact .bestEffort (.store rfl)
  · exact .ok

/-! Thread actions and the way of a message into the queue. -/

theorem moveThreadToRole_remark {account : Account} {thread : ThreadId} {role : MailboxRole} :
    Remark (moveThreadToRole account thread role) := by
  refine .andThen mailboxIdForRole_remark fun target => ?_
  split
  · exact .ok
  · refine .andThen (.lift threadEmailIds_remark) fun ids => ?_
    split
    · exact .ok
    · exact .andThen (.jmap rfl) fun _ => .ok

theorem leaveAll_aside {room : RoomId} {ghostEmail : Option String} :
    Aside (leaveAll cfg room ghostEmail) := by
  refine .andThen (.bestEffort (.matrix rfl)) fun _ => ?_
  split
  · exact .bestEffort (.matrix rfl)
  · exact .ok

theorem teardown_aside {room : RoomId} {role : MailboxRole} {ghostEmail : Option String}
    {had : Bool} : Aside (teardown cfg room role ghostEmail had) :=
  .andThen (.andThen (.store rfl) fun _ => .store rfl) fun _ =>
    .andThen leaveAll_aside fun _ => .lift notify_remark.aside

theorem moveRoomThread_remark {account : Account} {room : RoomId} {role : MailboxRole} :
    Remark (moveRoomThread account room role) := by
  refine .andThen (.store rfl) fun latest => ?_
  split
  · exact .ok
  · exact .andThen (.attempt moveThreadToRole_remark) fun _ => .ok

theorem handleThreadAction_offQueue {sender : UserId} {room : RoomId} {role : MailboxRole} :
    OffQueue (handleThreadAction cfg sender room role) := by
  rw [handleThreadAction]
  split
  · exact .ok
  · refine .andThen (.lift (.task rfl)) fun client => ?_
    split
    · exact .lift notify_remark.offQueue
    · refine .andThen (.store rfl) fun ghostEmail => ?_
      refine .andThen moveRoomThread_remark.offQueue fun moved => ?_
      split
      · exact teardown_aside.offQueue
      · exact .lift notify_remark.offQueue

theorem roomThreadContext_remark {room : RoomId} : Remark (roomThreadContext room) := by
  refine .andThen (.attempt (.store rfl)) fun r => ?_
  split
  · exact .andThen (.attempt (.store rfl)) fun _ => .andThen (.store rfl) fun _ => .ok
  · exact .ok

theorem eventThreadContext_remark {account : Account} {room : RoomId} {event : EventId}
    {parent : EmailId} : Remark (eventThreadContext account room event parent) := by
  refine .andThen (.attempt (.store rfl)) fun r => ?_
  split
  · exact .andThen (.store rfl) fun _ => .andThen (.store rfl) fun _ => .ok
  · refine .andThen (.attempt (.jmap rfl)) fun r => ?_
    split
    · exact .andThen (.store rfl) fun _ => .andThen (.store rfl) fun _ => .ok
    · exact roomThreadContext_remark

theorem resolveThreadContext_remark {account : Account} {room : RoomId}
    {relation : Option Relation} : Remark (resolveThreadContext account room relation) := by
  rw [resolveThreadContext]
  split
  · exact roomThreadContext_remark
  · refine .andThen (.attempt (.store rfl)) fun r => ?_
    split
    · exact eventThreadContext_remark
    · exact roomThreadContext_remark

theorem sendDelayFor_remark {user : UserId} : Remark (sendDelayFor cfg user) :=
  .bind (.result (.store rfl)) fun _ => .pure

theorem maybeSendHoldHint_remark {user : UserId} {room : RoomId} {delay : Nat} :
    Remark (maybeSendHoldHint cfg user room delay) := by
  refine .bind (.result (.store rfl)) fun r => ?_
  split
  · exact .pure
  · exact .bind notify_remark fun _ => .bind (.result (.store rfl)) fun _ => .pure

theorem showHeld_talk {e : QueuedEvent} {delay : Nat} : Talk (showHeld cfg e delay) := by
  rw [showHeld]
  split
  · exact .bind markHeld_talk fun _ => maybeSendHoldHint_remark.talk
  · exact .pure

theorem appendUserSignature_remark {user : UserId} {body : String} :
    Remark (appendUserSignature user body) := by
  refine .bind (.result (.store rfl)) fun r => ?_
  split
  · exact .pure
  · exact .pure

/-! Images, reactions, receipts and members. -/

theorem fetchImages_remark {ghost : UserId} {urls : List String} :
    Remark (fetchImages ghost urls) := by
  induction urls with
  | nil => exact .pure
  | cons url urls ih => exact .bind (.result (.matrix rfl)) fun _ => .bind ih fun _ => .pure

theorem inlineEmailImages_aside {room : RoomId} {target : EventId} {ghost : UserId}
    {html plain : String} : Aside (inlineEmailImages cfg room target ghost html plain) := by
  refine .andThen (.lift fetchImages_remark.aside) fun loaded => ?_
  split
  · exact .ok
  · exact .andThen (sendAsGhostJoining_does rfl rfl rfl) fun _ => .ok

theorem loadImagesOf_aside {account : Account} {email : EmailId} {room : RoomId} {target : EventId}
    {ghostEmail : String} : Aside (loadImagesOf cfg account email room target ghostEmail) := by
  refine .andThen (.jmap rfl) fun bodies => ?_
  split
  · exact inlineEmailImages_aside
  · exact .ok

theorem handleLoadImages_offQueue {sender : UserId} {room : RoomId} {target : EventId} :
    OffQueue (handleLoadImages cfg sender room target) := by
  rw [handleLoadImages]
  split
  · exact .ok
  · refine .andThen (.store rfl) fun email => ?_
    split
    · exact .ok
    · refine .andThen (.store rfl) fun ghostEmail => ?_
      split
      · exact .ok
      · refine .andThen (.lift (.task rfl)) fun client => ?_
        split
        · exact .ok
        · exact loadImagesOf_aside.offQueue

theorem handleShowImages_offQueue {sender : UserId} {room : RoomId} {relation : Option Relation} :
    OffQueue (handleShowImages cfg sender room relation) := by
  rw [handleShowImages]
  split
  · exact .ok
  · split
    · exact .lift notify_remark.offQueue
    · exact handleLoadImages_offQueue

theorem handleReaction_remark {sender : UserId} {room : RoomId} {target : EventId} {key : String} :
    Remark (handleReaction sender room target key) := by
  rw [handleReaction]
  split
  · exact .task rfl
  · exact .pure

theorem acceptInvite_remark {room : RoomId} {target : UserId} :
    Remark (acceptInvite cfg room target) := by
  refine .andThen (.attempt (.matrix rfl)) fun joined => ?_
  split
  · split
    · exact .lift notify_remark
    · exact .ok
  · exact .ok

theorem greet_offQueue {sender : UserId} {room : RoomId} : OffQueue (greet cfg sender room) := by
  refine .andThen (.store rfl) fun ghostEmail => ?_
  split
  · exact .ok
  · refine .andThen (.lift (.task rfl)) fun client => ?_
    split
    · exact .lift notify_remark.offQueue
    · exact .ok

theorem handleRoomMember_offQueue {sender : UserId} {room : RoomId} {target : UserId}
    {membership : Membership} : OffQueue (handleRoomMember cfg sender room target membership) := by
  unfold handleRoomMember
  split
  · split
    · exact acceptInvite_remark.offQueue
    · exact .ok
  · split
    · exact .ok
    · exact greet_offQueue
  · exact .ok

theorem syncReceipt_offQueue {email : EmailId} {user : UserId} :
    OffQueue (syncReceipt email user) := by
  refine .andThen (.store rfl) fun row => ?_
  split
  · exact .ok
  · refine .andThen (.lift (.task rfl)) fun client => ?_
    split
    · exact .ok
    · exact .bestEffort (.jmap rfl)

theorem handleReceipt_offQueue {receipts : List ReadReceipt} :
    OffQueue (handleReceipt receipts) := by
  refine .forEach receipts fun r => .andThen (.store rfl) fun email => ?_
  split
  · exact .ok
  · exact .forEach _ fun _ => syncReceipt_offQueue

/-- The commands with which a message is put into the queue, and those off the queue. -/
def Cmd.enqueues (e : QueuedEvent) : Cmd → Bool
  | store (.addToOutboundQueue user room event _ _ _ _ _) =>
    user == e.user && room == e.room && event == e.event
  | c => c.offQueue

theorem Cmd.offQueue.enqueues {c : Cmd} (h : c.offQueue) (e : QueuedEvent) : c.enqueues e := by
  unfold Cmd.enqueues
  split
  · cases h
  · exact h

abbrev Enqueues (e : QueuedEvent) (x : Prog Op α) : Prop := Does (fun c => c.enqueues e) x

theorem OffQueue.enqueues {x : Prog Op α} (h : OffQueue x) (e : QueuedEvent) : Enqueues e x :=
  h.mono fun _ hc => Cmd.offQueue.enqueues hc e

variable {e : QueuedEvent}

theorem enqueueHeldSend_enqueues {body : String} {threadRoot : Option String}
    {files : Option (List AttachmentInfo)} :
    Enqueues e (enqueueHeldSend cfg e body threadRoot files) := by
  have hadd : ∀ delay, (Cmd.store (.addToOutboundQueue e.user e.room e.event body none threadRoot
      files delay)).enqueues e := by
    intro delay
    simp [Cmd.enqueues]
  exact .andThen (.lift (sendDelayFor_remark.offQueue.enqueues e)) fun delay =>
    .andThen (.store (hadd delay)) fun _ => .lift (showHeld_talk.offQueue.enqueues e)

theorem queueText_enqueues {body : String} {relation : Option Relation} :
    Enqueues e (queueText cfg e body relation) := by
  refine .andThen (.lift (appendUserSignature_remark.offQueue.enqueues e)) fun signed => ?_
  refine .andThen (.lift (.task rfl)) fun client => ?_
  split
  · exact .lift (answerMessage_remark.offQueue.enqueues e)
  · exact .andThen (resolveThreadContext_remark.offQueue.enqueues e) fun _ =>
      enqueueHeldSend_enqueues

theorem handleGhostOutbound_enqueues {body : String} {relation : Option Relation} :
    Enqueues e (handleGhostOutbound cfg e body relation) := by
  rw [handleGhostOutbound]
  split
  · exact handleShowImages_offQueue.enqueues e
  · exact handleThreadAction_offQueue.enqueues e
  · exact handleThreadAction_offQueue.enqueues e
  · exact queueText_enqueues

theorem handleGhostMediaOutbound_enqueues {media : String} {relation : Option Relation} :
    Enqueues e (handleGhostMediaOutbound cfg e media relation) := by
  refine .andThen (.lift (.task rfl)) fun client => ?_
  split
  · exact .lift (answerMessage_remark.offQueue.enqueues e)
  · refine .andThen (.attempt (.jmap rfl)) fun uploaded => ?_
    split
    · exact .andThen (.lift (answerMessage_remark.offQueue.enqueues e)) fun _ => .fail
    · exact .andThen (resolveThreadContext_remark.offQueue.enqueues e) fun _ =>
        enqueueHeldSend_enqueues

theorem routeGhostMessage_enqueues {body : String} {media : Option String}
    {relation : Option Relation} : Enqueues e (routeGhostMessage cfg e body media relation) := by
  refine .andThen (.attempt ?_) fun handled => ?_
  · cases media with
    | none => exact handleGhostOutbound_enqueues
    | some uri => exact handleGhostMediaOutbound_enqueues
  · split
    · split
      · exact .fail
      · exact .ok
    · exact .ok

/-- Only the worker attempts, submits and removes a message. -/
def Cmd.workers : Cmd → Bool
  | store (.removeFromOutboundQueue _) => true
  | jmap _ (.submitBatch _) => true
  | task (.log (.sending _)) => true
  | _ => false

theorem not_workers_of_offRows {c : Cmd} (h : c.offRows) : c.workers = false := by
  cases hc : c.workers with
  | false => rfl
  | true =>
    unfold Cmd.workers at hc
    split at hc
    · cases h
    · cases h
    · cases h
    · cases hc

theorem not_workers_of_offQueue {c : Cmd} (h : c.offQueue) : c.workers = false :=
  not_workers_of_offRows (Cmd.offQueue.offRows h)

theorem not_workers_of_enqueues {c : Cmd} (h : c.enqueues e) : c.workers = false := by
  unfold Cmd.enqueues at h
  split at h
  · rfl
  · exact not_workers_of_offQueue h

abbrev NotWorking (x : Prog Op α) : Prop := Does (fun c => c.workers = false) x

theorem OffQueue.notWorking {x : Prog Op α} (h : OffQueue x) : NotWorking x :=
  h.mono fun _ => not_workers_of_offQueue

theorem handleMessage_enqueues {body : String} {media : Option String}
    {relation : Option Relation} : Enqueues e (handleMessage cfg e body media relation) := by
  refine .andThen (.store rfl) fun ghostEmail => ?_
  split
  · exact routeGhostMessage_enqueues
  · exact .lift (.task rfl)

theorem handleRedaction_notWorking {room : RoomId} {redacted : EventId} :
    NotWorking (handleRedaction cfg room redacted) := by
  refine .bind (.result (.store rfl)) fun r => ?_
  split
  · exact notify_remark.offQueue.notWorking
  · exact .pure

theorem handleEdit_notWorking {room : RoomId} {target : EventId} {newBody : String} :
    NotWorking (handleEdit cfg room target newBody) := by
  refine .bind (.result (.store rfl)) fun r => ?_
  split
  · exact notify_remark.offQueue.notWorking
  · exact .pure

theorem handleMessageLike_notWorking {ev : MatrixEvent} :
    NotWorking (handleMessageLike cfg ev) := by
  unfold handleMessageLike
  split
  · exact .ok
  · split
    · exact .lift handleReaction_remark.offQueue.notWorking
    · exact .ok
    · exact .lift handleRedaction_notWorking
    · exact .lift handleEdit_notWorking
    · exact handleMessage_enqueues.mono fun _ => not_workers_of_enqueues
    · exact .ok

theorem handleEvent_notWorking {ev : MatrixEvent} : NotWorking (handleEvent cfg ev) := by
  unfold handleEvent
  split
  · exact .bestEffort handleRoomMember_offQueue.notWorking
  · exact handleMessageLike_notWorking

theorem processTransaction_notWorking {txn : MatrixTransaction} :
    NotWorking (processTransaction cfg txn) :=
  .andThen (.forEach _ fun _ => .bestEffort handleReceipt_offQueue.notWorking) fun _ =>
    .forEach _ fun _ => handleEvent_notWorking

theorem OffRows.notWorking {x : Prog Op α} (h : OffRows x) : NotWorking x :=
  h.mono fun _ => not_workers_of_offRows

theorem concludeTransaction_offRows {txnId : TransactionId} {processed : Except Err Unit} :
    OffRows (concludeTransaction txnId processed) := by
  unfold concludeTransaction
  split
  · exact .task rfl
  · split
    · exact .bind (.result (.store rfl)) fun _ => .task rfl
    · exact .task rfl

theorem handleTransactions_notWorking {txnId : TransactionId} {txn : MatrixTransaction} :
    NotWorking (handleTransactions cfg txnId txn) := by
  refine .bind (.result (.store rfl)) fun claimed => ?_
  split
  · exact .task rfl
  · exact .task rfl
  · exact .bind (.result processTransaction_notWorking) fun _ =>
      concludeTransaction_offRows.notWorking

theorem detached_offQueue {task : Detached} : OffQueue (task.program cfg) := by
  cases task with
  | loadImages sender room target => exact handleLoadImages_offQueue
  | threadAction sender room role => exact handleThreadAction_offQueue

theorem pruneRound_offRows : OffRows pruneRound := .bind (.result (.store rfl)) fun _ => .task rfl

theorem runPruning_offRows : OffRows runPruning :=
  ⟨fun _ => Does.bind pruneRound_offRows fun _ => .pure, fun _ => trivial⟩

theorem program_notWorking {c : Call} (hc : c ≠ .worker) : NotWorking (c.program cfg) := by
  cases c with
  | poll p => exact .bind poll_offQueue.notWorking fun _ => .pure
  | backfill p => exact runBackfillLoop_offQueue.notWorking
  | newThread p email ghost body =>
    have hnew : OffQueue (processNewThread cfg p email ghost body) :=
      inbound_offQueue (processNewThread_inbound (fun _ _ => trivial) fun _ _ => trivial)
    exact .bind hnew.notWorking fun _ => .pure
  | fileRoom user room =>
    have hfile : OffQueue (ensureRoomInEmailSpace user room) :=
      inbound_offQueue (p := ⟨user, ""⟩) ensureRoomInEmailSpace_inbound
    exact .bind hfile.notWorking fun _ => .pure
  | repairSpace user =>
    have hrepair : OffQueue (repairEmailSpace user) :=
      inbound_offQueue (p := ⟨user, ""⟩) repairEmailSpace_inbound
    exact .bind hrepair.notWorking fun _ => .pure
  | worker => exact absurd rfl hc
  | transaction txnId txn => exact handleTransactions_notWorking
  | detached task => exact .bind detached_offQueue.notWorking fun _ => .pure
  | prune => exact runPruning_offRows.notWorking
  | logout user =>
    exact .bind (.andThen (.lift (.task rfl)) fun _ => .andThen (.store rfl) fun _ => .store rfl)
      fun _ => .pure

/-! The rows. A row keeps its id, user, room and event for as long as it is queued. -/

structure OutboundRow.SameMail (r r' : OutboundRow) : Prop where
  user : r'.matrixUserId = r.matrixUserId
  room : r'.roomId = r.roomId
  event : r'.eventId = r.eventId
  retries : r.retryCount ≤ r'.retryCount

theorem OutboundRow.SameMail.refl (r : OutboundRow) : r.SameMail r := ⟨rfl, rfl, rfl, Nat.le_refl _⟩

theorem OutboundRow.SameMail.trans {r₁ r₂ r₃ : OutboundRow} (h : r₁.SameMail r₂)
    (h' : r₂.SameMail r₃) : r₁.SameMail r₃ where
  user := h'.user.trans h.user
  room := h'.room.trans h.room
  event := h'.event.trans h.event
  retries := h.retries.trans h'.retries

/-- The statement deletes the row. -/
def StoreCmd.removes (id : Nat) (row : OutboundRow) : StoreCmd → Bool
  | removeFromOutboundQueue i => i == id
  | cancelOutboundByEvent e => row.eventId == e
  | clearOutboundQueue u => row.matrixUserId == u
  | _ => false

/-- What a statement may do to the queue. -/
structure QueueRun (c : StoreCmd) (s s' : Store) : Prop where
  next : s.nextOutboundId ≤ s'.nextOutboundId
  row : ∀ id row', s'.outboundQueue.lookup id = some row' →
    (∃ row, s.outboundQueue.lookup id = some row ∧ row.SameMail row' ∧
      (row'.bodyText = row.bodyText ∨ c = .updateOutboundBodyByEvent row.eventId row'.bodyText)) ∨
    id = s.nextOutboundId ∧ id < s'.nextOutboundId ∧ ∃ html thread files delay,
      c = .addToOutboundQueue row'.matrixUserId row'.roomId row'.eventId row'.bodyText html thread
        files delay
  kept : ∀ id row, s.outboundQueue.lookup id = some row →
    (s'.outboundQueue.lookup id).isSome ∨ c.removes id row

theorem queueRun_same {c : StoreCmd} {s s' : Store} (hq : s'.outboundQueue = s.outboundQueue)
    (hn : s'.nextOutboundId = s.nextOutboundId) : QueueRun c s s' where
  next := by omega
  row id row' h := .inl ⟨row', hq ▸ h, .refl _, .inl rfl⟩
  kept id row h := .inl (by rw [hq, h]; rfl)

theorem queueRun_modify {c : StoreCmd} {s : Store} {p : Nat → OutboundRow → Bool}
    {f : OutboundRow → OutboundRow} (hf : ∀ id r, p id r → r.SameMail (f r) ∧
      ((f r).bodyText = r.bodyText ∨ c = .updateOutboundBodyByEvent r.eventId (f r).bodyText)) :
    QueueRun c s { s with outboundQueue := s.outboundQueue.modifyWhere p f } where
  next := Nat.le_refl _
  row id row' h := by
    rw [Table.lookup_modifyWhere] at h
    obtain ⟨row, hrow, rfl⟩ := Option.map_eq_some_iff.mp h
    refine .inl ⟨row, hrow, ?_⟩
    by_cases hp : p id row
    · simpa [hp] using hf id row hp
    · simp [hp, OutboundRow.SameMail.refl]
  kept id row h := by
    left
    rw [Table.lookup_modifyWhere, h]
    rfl

theorem queueRun_delete {c : StoreCmd} {s : Store} {p : Nat → OutboundRow → Bool}
    (hp : ∀ id r, p id r → c.removes id r) :
    QueueRun c s { s with outboundQueue := s.outboundQueue.deleteWhere p } where
  next := Nat.le_refl _
  row id row' h := .inl ⟨row', (Table.lookup_of_lookup_deleteWhere h).1, .refl _, .inl rfl⟩
  kept id row h := by
    cases hc : p id row with
    | true => exact .inr (hp id row hc)
    | false =>
      left
      rw [Table.lookup_deleteWhere_of_not hc h]
      rfl

theorem queue_run (c : StoreCmd) (now : Nat) (order : List Nat) (s : Store) :
    QueueRun c s (c.run now order s).2 := by
  have same : ∀ {α : Type} {u : UserId} {a : α} {s' : Store},
      s'.outboundQueue = s.outboundQueue → s'.nextOutboundId = s.nextOutboundId →
        QueueRun c s (s.referring u a s').2 := by
    intro α u a s' hq hn
    unfold Store.referring
    split
    · exact queueRun_same hq hn
    · exact queueRun_same rfl rfl
  cases c with
  | saveJmapState => exact same rfl rfl
  | saveRoomGhostMapping => exact same rfl rfl
  | addToOutboundQueue user room event body html thread files delay =>
    simp only [StoreCmd.run, Store.referring]
    split
    case isFalse => exact queueRun_same rfl rfl
    refine ⟨Nat.le_succ _, fun id row' h => ?_, fun id row h => ?_⟩
    · by_cases hid : id = s.nextOutboundId
      · subst hid
        rw [AList.lookup_insert] at h
        obtain rfl := Option.some.inj h
        exact .inr ⟨rfl, Nat.lt_succ_self _, html, thread, files, delay, rfl⟩
      · rw [AList.lookup_insert_ne hid] at h
        exact .inl ⟨row', h, .refl _, .inl rfl⟩
    · left
      by_cases hid : id = s.nextOutboundId
      · subst hid
        rw [AList.lookup_insert]
        rfl
      · rw [AList.lookup_insert_ne hid, h]
        rfl
  | cancelOutboundByEvent e => exact queueRun_delete fun _ _ h => h
  | updateOutboundBodyByEvent e body =>
    refine queueRun_modify fun id r h => ⟨⟨rfl, rfl, rfl, Nat.le_refl _⟩, .inr ?_⟩
    rw [eq_of_beq h]
  | updateRetryCount i =>
    exact queueRun_modify fun id r _ => ⟨⟨rfl, rfl, rfl, Nat.le_succ _⟩, .inl rfl⟩
  | removeFromOutboundQueue i =>
    refine ⟨Nat.le_refl _, fun id row' h => ?_, fun id row h => ?_⟩
    · by_cases hid : id = i
      · subst hid
        simp [StoreCmd.run] at h
      · exact .inl ⟨row',
          by simpa [StoreCmd.run, AList.lookup_erase_ne hid] using h, .refl _, .inl rfl⟩
    · by_cases hid : id = i
      · right
        simp [StoreCmd.removes, hid]
      · left
        simp [StoreCmd.run, AList.lookup_erase_ne hid, h]
  | clearOutboundQueue u => exact queueRun_delete fun _ _ h => h
  | tryAcquireRoomCreationLock key =>
    simp only [StoreCmd.run]
    split
    · exact queueRun_same rfl rfl
    · exact queueRun_same rfl rfl
  | _ => exact queueRun_same rfl rfl

theorem exec_run {t : Nat} {c : Cmd} {x : Answer} {b : c.Ans} {w w' : World}
    (h : exec t (.mk c) x w = some (b, w')) :
    w'.store = w.store ∨ ∃ q order, c = .store q ∧ x ≠ .failed ∧
      w'.store = (q.run w.now order w.store).2 := by
  cases c with
  | store c =>
    rcases exec_store h with ⟨order, hx, -, rfl⟩ | ⟨-, -, rfl⟩ | ⟨⟨s, rfl⟩, -, rfl⟩
    · refine .inr ⟨c, order, rfl, ?_, rfl⟩
      rcases hx with ⟨rfl, -⟩ | rfl
      · simp
      · simp
    · exact .inl rfl
    · exact .inr ⟨c, [], rfl, by simp, rfl⟩
  | matrix c =>
    obtain ⟨⟨issued, rfl⟩, -⟩ := exec_matrix h
    exact .inl rfl
  | jmap account c =>
    obtain ⟨mail, rfl⟩ := exec_jmap h
    exact .inl rfl
  | task c =>
    obtain ⟨-, -, rfl⟩ := exec_task h
    left
    cases c <;> rfl

theorem ghost_run (c : StoreCmd) (now : Nat) (order : List Nat) (s : Store) (room : RoomId)
    (h : (s.roomGhostMapping.lookup room).isSome) :
    ((c.run now order s).2.roomGhostMapping.lookup room).isSome ∨
      c = .deleteRoomGhostMapping room := by
  have same : ∀ {α : Type} {u : UserId} {a : α} {s' : Store},
      (s'.roomGhostMapping.lookup room).isSome →
        ((s.referring u a s').2.roomGhostMapping.lookup room).isSome := by
    intro α u a s' hs
    unfold Store.referring
    split
    · exact hs
    · exact h
  cases c with
  | saveJmapState => exact .inl (same h)
  | addToOutboundQueue => exact .inl (same h)
  | saveRoomGhostMapping r g u =>
    left
    refine same ?_
    by_cases hr : room = r
    · subst hr
      simp
    · simpa [AList.lookup_insert_ne hr] using h
  | deleteRoomGhostMapping r =>
    by_cases hr : room = r
    · exact .inr (by rw [hr])
    · left
      simpa [StoreCmd.run, AList.lookup_erase_ne hr] using h
  | tryAcquireRoomCreationLock key =>
    simp only [StoreCmd.run]
    split
    · exact .inl h
    · exact .inl h
  | _ => exact .inl h

/-! The messages a fetch hands out are rows of the queue, each at most once. -/

theorem mem_pendingRows {s : Store} {now : Nat} {m : OutboundMessage} (h : m ∈ s.pendingRows now) :
    ∃ row, s.outboundQueue.lookup m.id = some row ∧ m = row.message m.id := by
  obtain ⟨⟨id, row⟩, hr, rfl⟩ := List.mem_map.mp h
  exact ⟨row, AList.mem_lookup_iff.mpr (List.mem_of_mem_filter hr), rfl⟩

theorem pendingRows_nodup (s : Store) (now : Nat) : ((s.pendingRows now).map (·.id)).Nodup := by
  have hids : (s.pendingRows now).map (·.id) =
      (s.outboundQueue.entries.filter (·.2.pending now)).keys := by
    simp [Store.pendingRows, List.keys, OutboundRow.message, Function.comp_def]
  rw [hids]
  exact (s.outboundQueue.nodupKeys.sublist List.filter_sublist : List.NodupKeys _)

theorem mem_pendingChoice {s : Store} {now : Nat} {order : List Nat} {m : OutboundMessage}
    (h : m ∈ s.pendingChoice now order) :
    ∃ row, s.outboundQueue.lookup m.id = some row ∧ m = row.message m.id := by
  simp only [Store.pendingChoice] at h
  split at h
  · obtain ⟨id, -, hm⟩ := List.mem_filterMap.mp h
    exact mem_pendingRows (List.mem_of_find?_eq_some hm)
  · exact mem_pendingRows (List.mem_of_mem_take h)

theorem find_ids_sublist (l : List OutboundMessage) (order : List Nat) :
    ((order.filterMap fun id => l.find? (·.id == id)).map (·.id)).Sublist order := by
  induction order with
  | nil => simp
  | cons id order ih =>
    cases hf : l.find? (·.id == id) with
    | none => simpa [hf] using ih.cons id
    | some m =>
      have hid : m.id = id := by simpa using List.find?_some hf
      simpa [hf, hid] using ih

theorem pendingChoice_nodup (s : Store) (now : Nat) (order : List Nat) :
    ((s.pendingChoice now order).map (·.id)).Nodup := by
  simp only [Store.pendingChoice]
  split
  case isTrue h => exact h.1.sublist (find_ids_sublist _ order)
  case isFalse => exact (pendingRows_nodup s now).sublist ((List.take_sublist _ _).map _)

end JmapBridge
