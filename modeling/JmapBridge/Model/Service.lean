import JmapBridge.Model.Queue

/-! The calls that do not bridge mail: the worker, the deliveries, the detached tasks, the
pruning and the logout. None of their commands is one of the inbound side. -/

namespace JmapBridge

open Effect

variable {α : Type} {cfg : Config}

abbrev Serves (x : Prog Op α) : Prop := Does (fun c => c.service) x

theorem Aside.serves {x : Prog Op α} (h : Aside x) : Serves x := h.mono fun _ => Cmd.aside.service

theorem Talk.serves {x : Prog Op α} (h : Talk x) : Serves x := h.aside.serves

theorem Remark.serves {x : Prog Op α} (h : Remark x) : Serves x := h.talk.serves

/-! The worker. A property of programs that its other commands have is one of it as soon as
it is one of `submit`. -/

/-- The commands of these calls that neither submit a message nor show an email. -/
def Cmd.errand : Cmd → Bool
  | jmap _ (.submitBatch _) => false
  | c => c.service && !c.showing

theorem Cmd.errand.service {c : Cmd} (h : c.errand) : c.service := by
  unfold Cmd.errand at h
  split at h
  · cases h
  · exact (Bool.and_eq_true_iff.mp h).1

theorem Cmd.talk.errand {c : Cmd} (h : c.talk) : c.errand := by
  have hshow : c.showing = false := Cmd.talk.not_showing h
  unfold Cmd.errand
  split
  · cases Cmd.talk.aside h
  · simp [hshow, Cmd.aside.service (Cmd.talk.aside h)]

/-- Those of them that mark no message as held either. -/
def Cmd.chore (c : Cmd) : Bool := c.errand && !c.marking

theorem Cmd.chore.errand {c : Cmd} (h : c.chore) : c.errand := (Bool.and_eq_true_iff.mp h).1

theorem Cmd.remark.chore {c : Cmd} (h : c.remark) : c.chore := by
  obtain ⟨htalk, hmarking⟩ := Bool.and_eq_true_iff.mp h
  exact Bool.and_eq_true_iff.mpr ⟨Cmd.talk.errand htalk, hmarking⟩

/-- Those of them that change nothing about rooms and their threads either. -/
def Cmd.upkeep (c : Cmd) : Bool := c.chore && c.offBindings

theorem Cmd.upkeep.chore {c : Cmd} (h : c.upkeep) : c.chore := (Bool.and_eq_true_iff.mp h).1

theorem Cmd.upkeep.offBindings {c : Cmd} (h : c.upkeep) : c.offBindings :=
  (Bool.and_eq_true_iff.mp h).2

theorem Cmd.remark.upkeep {c : Cmd} (h : c.remark) : c.upkeep :=
  Bool.and_eq_true_iff.mpr ⟨Cmd.remark.chore h, Cmd.talk.offBindings (Cmd.remark.talk h)⟩

section

variable {account : Account} {email : String} {msg : OutboundMessage}
  {C : ∀ α : Type, Prog Op α → Prop}

theorem talk_closed (hC : Prog.Closed (fun _ o => o.cmd.errand) C) {x : Prog Op α}
    (hx : Talk x) : C _ x := hC.of_only (hx.mono fun _ => Cmd.talk.errand)

theorem remark_closed (hC : Prog.Closed (fun _ o => o.cmd.upkeep) C) {x : Prog Op α}
    (hx : Remark x) : C _ x := hC.of_only (hx.mono fun _ => Cmd.remark.upkeep)

theorem upkeep_closed (hC : Prog.Closed (fun _ o => o.cmd.chore) C) :
    Prog.Closed (fun _ o => o.cmd.upkeep) C := hC.mono fun _ _ => Cmd.upkeep.chore

theorem submitReply_closed (hC : Prog.Closed (fun _ o => o.cmd.upkeep) C)
    (hs : ∀ b, C _ (submit account b)) {thread : ThreadId} {root : EventId} :
    C _ (submitReply cfg account email msg thread root) := by
  refine hC.andThen (hC.attempt (hC.call rfl)) fun stored => ?_
  refine hC.andThen (hC.lift (hC.call rfl)) fun _ => ?_
  refine hC.andThen ?_ fun _ => hC.pure _
  refine hC.andThen (hC.lift (remark_closed hC replyHeaders_remark)) fun headers => ?_
  exact hC.andThen (hC.lift (remark_closed hC quotedBody_remark)) fun body => hs _

theorem mapComposedThread_chore {subject : String} {emailId : EmailId} :
    Does (fun c => c.chore) (mapComposedThread account msg subject emailId) := by
  refine .andThen (.attempt (.jmap rfl)) fun r => ?_
  split
  · exact .bestEffort (.store rfl)
  · exact .ok

theorem submitFresh_closed (hC : Prog.Closed (fun _ o => o.cmd.chore) C)
    (hs : ∀ b, C _ (submit account b)) : C _ (submitFresh account email msg) := by
  refine hC.andThen (hC.attempt (hC.call rfl)) fun roomName => ?_
  refine hC.andThen (hC.lift (hC.call rfl)) fun _ => ?_
  exact hC.andThen (hs _) fun emailId => hC.of_only mapComposedThread_chore

theorem sendQueued_closed (hC : Prog.Closed (fun _ o => o.cmd.chore) C)
    (hs : ∀ b, C _ (submit account b)) : C _ (sendQueued cfg account email msg) := by
  rw [sendQueued]
  split
  · exact submitReply_closed (upkeep_closed hC) hs
  · exact submitFresh_closed hC hs

theorem chore_closed (hC : Prog.Closed (fun _ o => o.cmd.errand) C) :
    Prog.Closed (fun _ o => o.cmd.chore) C := hC.mono fun _ _ => Cmd.chore.errand

theorem deliver_closed (hC : Prog.Closed (fun _ o => o.cmd.errand) C)
    (hs : ∀ b, C _ (submit account b)) : C _ (deliver cfg account email msg) := by
  refine hC.bind (sendQueued_closed (chore_closed hC) hs) fun sent => ?_
  split
  · exact hC.bind (hC.call rfl) fun _ =>
      hC.bind (talk_closed hC markSubmitted_talk) fun _ => hC.pure _
  · exact hC.pure _

theorem submitOne_closed (hC : Prog.Closed (fun _ o => o.cmd.errand) C)
    (hs : ∀ account b, C _ (submit account b)) : C _ (submitOne cfg msg) := by
  refine hC.bind (hC.call rfl) fun client => ?_
  split
  · exact hC.pure _
  · refine hC.bind (hC.call rfl) fun ghost => ?_
    split
    · exact deliver_closed hC (hs _)
    · exact hC.bind (hC.call rfl) fun _ => hC.pure _
    · exact hC.pure _

theorem handleUnresolved_closed (hC : Prog.Closed (fun _ o => o.cmd.errand) C) :
    C _ (handleUnresolved cfg msg) := by
  rw [handleUnresolved]
  split
  · have hnotice : Does (fun c => c.errand)
        (sendMessage cfg msg.roomId deliveryFailure (.queued msg.id)) :=
      sendAsGhostJoining_does rfl rfl rfl
    refine hC.bind (hC.of_only hnotice) fun _ => ?_
    exact hC.bind (hC.call rfl) fun _ => talk_closed hC markFailed_talk
  · exact hC.bind (hC.call rfl) fun _ => hC.pure _

theorem runRetryLoop_closed (hC : Prog.Closed (fun _ o => o.cmd.errand) C)
    (hs : ∀ account b, C _ (submit account b)) : C _ (runRetryLoop cfg) := by
  refine hC.loop fun _ => hC.bind (hC.bind (hC.call rfl) fun _ => ?_) fun _ => hC.pure _
  refine hC.bind (hC.call rfl) fun fetched => ?_
  split
  · refine hC.forEach _ fun msg _ => hC.bind (submitOne_closed hC hs) fun resolved => ?_
    refine hC.bind ?_ fun _ => hC.call rfl
    split
    · exact hC.pure _
    · exact handleUnresolved_closed hC
  · exact hC.pure _

theorem submit_closed (hC : Prog.Closed (fun _ o => o.cmd.upkeep) C)
    (hb : ∀ draft, C _ (onJmap account (.submitBatch draft))) {b : EmailBuilder} :
    C _ (submit account b) := by
  refine hC.andThen (remark_closed hC outgoingMailbox_remark) fun mailbox => ?_
  refine hC.andThen (hC.lift (remark_closed hC primaryIdentity_remark)) fun identity => ?_
  refine hC.andThen (hb _) fun reply => hC.andThen hC.ofOption fun created => ?_
  split
  · exact hC.pure _
  · exact hC.pure _

theorem submit_serves {b : EmailBuilder} : Serves (submit account b) := by
  have hbatch : ∀ draft, Serves (onJmap account (.submitBatch draft)) := fun _ => .jmap rfl
  exact submit_closed (Prog.only_closed.mono fun _ _ h =>
    Cmd.errand.service (Cmd.chore.errand (Cmd.upkeep.chore h))) hbatch

end

/-! The deliveries and the tasks they spawn. A property that their other commands have is one
of theirs as soon as it is one of `showHeld`, of `handleLoadImages`, and of `handleThreadAction`
for the rooms that are to be unbridged. -/

/-- The text asks for the room that it is typed in to be unbridged. -/
def unbridgeCommand (cfg : Config) (body : String) : Bool :=
  match parseGhostCommand cfg body with
  | some .deleteRoom => true
  | some .spam => true
  | _ => false

def MatrixEvent.unbridges (cfg : Config) : MatrixEvent → Option RoomId
  | message _ room _ body none _ => if unbridgeCommand cfg body then some room else none
  | _ => none

/-- The rooms that the call is to unbridge. -/
def Call.unbridges (cfg : Config) : Call → List RoomId
  | transaction _ txn => txn.events.filterMap (MatrixEvent.unbridges cfg)
  | detached (.threadAction _ room _) => [room]
  | _ => []

section

variable {sender : UserId} {room : RoomId} {e : QueuedEvent} {body : String}
  {relation : Option Relation} {C : ∀ α : Type, Prog Op α → Prop}

theorem handleThreadAction_closed (hC : Prog.Closed (fun _ o => o.cmd.upkeep) C)
    (hghost : C _ (onStore (.deleteRoomGhostMapping room)))
    (hthreads : C _ (onStore (.deleteThreadMappings room))) {role : MailboxRole} :
    C _ (handleThreadAction cfg sender room role) := by
  rw [handleThreadAction]
  split
  · exact hC.pure _
  · refine hC.andThen (hC.lift (hC.call rfl)) fun client => ?_
    split
    · exact hC.lift (remark_closed hC notify_remark)
    · refine hC.andThen (hC.call rfl) fun ghostEmail => ?_
      refine hC.andThen (remark_closed hC moveRoomThread_remark) fun moved => ?_
      split
      · refine hC.andThen (hC.andThen hghost fun _ => hthreads) fun _ => ?_
        refine hC.andThen ?_ fun _ => hC.lift (remark_closed hC notify_remark)
        refine hC.andThen (hC.bind (hC.call rfl) fun _ => hC.pure _) fun _ => ?_
        split
        · exact hC.bind (hC.call rfl) fun _ => hC.pure _
        · exact hC.pure _
      · exact hC.lift (remark_closed hC notify_remark)

theorem threadAction_chore (hC : Prog.Closed (fun _ o => o.cmd.chore) C) {role : MailboxRole} :
    C _ (handleThreadAction cfg sender room role) :=
  handleThreadAction_closed (upkeep_closed hC) (hC.call rfl) (hC.call rfl)

theorem enqueueHeldSend_closed (hC : Prog.Closed (fun _ o => o.cmd.upkeep) C)
    (hheld : ∀ e delay, C _ (showHeld cfg e delay)) {threadRoot : Option String}
    {files : Option (List AttachmentInfo)} :
    C _ (enqueueHeldSend cfg e body threadRoot files) :=
  hC.andThen (hC.lift (remark_closed hC sendDelayFor_remark)) fun _ =>
    hC.andThen (hC.call rfl) fun _ => hC.lift (hheld _ _)

theorem queueText_closed (hC : Prog.Closed (fun _ o => o.cmd.upkeep) C)
    (hheld : ∀ e delay, C _ (showHeld cfg e delay)) : C _ (queueText cfg e body relation) := by
  refine hC.andThen (hC.lift (remark_closed hC appendUserSignature_remark)) fun signed => ?_
  refine hC.andThen (hC.lift (hC.call rfl)) fun client => ?_
  split
  · exact hC.lift (remark_closed hC answerMessage_remark)
  · exact hC.andThen (remark_closed hC resolveThreadContext_remark) fun _ =>
      enqueueHeldSend_closed hC hheld

theorem handleGhostOutbound_closed (hC : Prog.Closed (fun _ o => o.cmd.upkeep) C)
    (hheld : ∀ e delay, C _ (showHeld cfg e delay))
    (hload : ∀ sender room target, C _ (handleLoadImages cfg sender room target))
    (hact : unbridgeCommand cfg body → ∀ role, C _ (handleThreadAction cfg e.user e.room role)) :
    C _ (handleGhostOutbound cfg e body relation) := by
  rw [handleGhostOutbound]
  unfold unbridgeCommand at hact
  split
  · rw [handleShowImages]
    split
    · exact hC.pure _
    · split
      · exact hC.lift (remark_closed hC notify_remark)
      · exact hload _ _ _
  case h_2 hparse => exact hact (by rw [hparse]) _
  case h_3 hparse => exact hact (by rw [hparse]) _
  · exact queueText_closed hC hheld

theorem handleGhostMediaOutbound_closed (hC : Prog.Closed (fun _ o => o.cmd.upkeep) C)
    (hheld : ∀ e delay, C _ (showHeld cfg e delay)) {media : String} :
      C _ (handleGhostMediaOutbound cfg e media relation) := by
  refine hC.andThen (hC.lift (hC.call rfl)) fun client => ?_
  split
  · exact hC.lift (remark_closed hC answerMessage_remark)
  · refine hC.andThen (hC.attempt (hC.call rfl)) fun uploaded => ?_
    split
    · exact hC.andThen (hC.lift (remark_closed hC answerMessage_remark)) fun _ => hC.pure _
    · exact hC.andThen (remark_closed hC resolveThreadContext_remark) fun _ =>
        enqueueHeldSend_closed hC hheld

theorem handleMessage_closed (hC : Prog.Closed (fun _ o => o.cmd.upkeep) C)
    (hheld : ∀ e delay, C _ (showHeld cfg e delay))
    (hload : ∀ sender room target, C _ (handleLoadImages cfg sender room target))
    {media : Option String}
    (hact : media = none → unbridgeCommand cfg body →
      ∀ role, C _ (handleThreadAction cfg e.user e.room role)) :
    C _ (handleMessage cfg e body media relation) := by
  refine hC.andThen (hC.call rfl) fun ghostEmail => ?_
  split
  · refine hC.andThen (hC.attempt ?_) fun handled => ?_
    · cases media with
      | none => exact handleGhostOutbound_closed hC hheld hload (hact rfl)
      | some uri => exact handleGhostMediaOutbound_closed hC hheld
    · split
      · split
        · exact hC.pure _
        · exact hC.pure _
      · exact hC.pure _
  · exact hC.lift (hC.call rfl)

theorem handleRedaction_closed (hC : Prog.Closed (fun _ o => o.cmd.upkeep) C)
    {redacted : EventId} : C _ (handleRedaction cfg room redacted) := by
  refine hC.bind (hC.call rfl) fun r => ?_
  split
  · exact remark_closed hC notify_remark
  · exact hC.pure _

theorem handleEdit_closed (hC : Prog.Closed (fun _ o => o.cmd.upkeep) C) {target : EventId} :
    C _ (handleEdit cfg room target body) := by
  refine hC.bind (hC.call rfl) fun r => ?_
  split
  · exact remark_closed hC notify_remark
  · exact hC.pure _

theorem handleRoomMember_closed (hC : Prog.Closed (fun _ o => o.cmd.upkeep) C) {target : UserId}
    {membership : Membership} : C _ (handleRoomMember cfg sender room target membership) := by
  unfold handleRoomMember
  split
  · split
    · exact remark_closed hC acceptInvite_remark
    · exact hC.pure _
  · split
    · exact hC.pure _
    · refine hC.andThen (hC.call rfl) fun ghostEmail => ?_
      split
      · exact hC.pure _
      · refine hC.andThen (hC.lift (hC.call rfl)) fun client => ?_
        split
        · exact hC.lift (remark_closed hC notify_remark)
        · exact hC.pure _
  · exact hC.pure _

theorem handleEvent_closed (hC : Prog.Closed (fun _ o => o.cmd.upkeep) C)
    (hheld : ∀ e delay, C _ (showHeld cfg e delay))
    (hload : ∀ sender room target, C _ (handleLoadImages cfg sender room target))
    {ev : MatrixEvent} (hact : ∀ sender room role, ev.unbridges cfg = some room →
      C _ (handleThreadAction cfg sender room role)) : C _ (handleEvent cfg ev) := by
  unfold handleEvent
  split
  · exact hC.bind (handleRoomMember_closed hC) fun _ => hC.pure _
  · unfold handleMessageLike
    split
    · exact hC.pure _
    · split
      · exact hC.lift (remark_closed hC handleReaction_remark)
      · exact hC.pure _
      · exact hC.lift (handleRedaction_closed hC)
      · exact hC.lift (handleEdit_closed hC)
      · refine handleMessage_closed hC hheld hload fun hmedia hbody role => hact _ _ _ ?_
        subst hmedia
        simp [MatrixEvent.unbridges, hbody]
      · exact hC.pure _

theorem handleReceipt_closed (hC : Prog.Closed (fun _ o => o.cmd.upkeep) C)
    {receipts : List ReadReceipt} : C _ (handleReceipt receipts) := by
  refine hC.actForEach receipts fun r _ => hC.andThen (hC.call rfl) fun email => ?_
  split
  · exact hC.pure _
  · refine hC.actForEach _ fun user _ => hC.andThen (hC.call rfl) fun row => ?_
    split
    · exact hC.pure _
    · refine hC.andThen (hC.lift (hC.call rfl)) fun client => ?_
      split
      · exact hC.pure _
      · exact hC.bind (hC.call rfl) fun _ => hC.pure _

theorem handleTransactions_closed (hC : Prog.Closed (fun _ o => o.cmd.upkeep) C)
    (hheld : ∀ e delay, C _ (showHeld cfg e delay))
    (hload : ∀ sender room target, C _ (handleLoadImages cfg sender room target))
    {txnId : TransactionId} {txn : MatrixTransaction}
    (hact : ∀ sender room role, room ∈ (Call.transaction txnId txn).unbridges cfg →
      C _ (handleThreadAction cfg sender room role)) :
    C _ (handleTransactions cfg txnId txn) := by
  have hprocess : C _ (processTransaction cfg txn) :=
    hC.andThen (hC.actForEach _ fun _ _ => hC.bind (handleReceipt_closed hC) fun _ => hC.pure _)
      fun _ => hC.actForEach _ fun ev hev => handleEvent_closed hC hheld hload
        fun sender room role hroom =>
          hact sender room role (List.mem_filterMap.mpr ⟨ev, hev, hroom⟩)
  refine hC.bind (hC.call rfl) fun claimed => ?_
  split
  · exact hC.call rfl
  · exact hC.call rfl
  · refine hC.bind hprocess fun processed => ?_
    unfold concludeTransaction
    split
    · exact hC.call rfl
    · split
      · exact hC.bind (hC.call rfl) fun _ => hC.call rfl
      · exact hC.call rfl

theorem detached_closed
    (hload : ∀ sender room target, C _ (handleLoadImages cfg sender room target))
    {task : Detached} (hact : ∀ sender room role, room ∈ (Call.detached task).unbridges cfg →
      C _ (handleThreadAction cfg sender room role)) : C _ (task.program cfg) := by
  cases task with
  | loadImages sender room target => exact hload _ _ _
  | threadAction sender room role => exact hact _ _ _ List.mem_cons_self

theorem handleLoadImages_closed (hC : Prog.Closed (fun _ o => o.cmd.upkeep) C)
    (hedit : ∀ room ghost target plain html,
      C _ (onMatrix (.sendAsGhost room ghost (.edit target plain html) none))) {target : EventId} :
    C _ (handleLoadImages cfg sender room target) := by
  have hinline : ∀ ghost html plain, C _ (inlineEmailImages cfg room target ghost html plain) := by
    intro ghost html plain
    refine hC.andThen (hC.lift (remark_closed hC fetchImages_remark)) fun loaded => ?_
    split
    · exact hC.pure _
    · refine hC.andThen (hC.andThen (hC.attempt (hedit ..)) fun r => ?_) fun _ => hC.pure _
      split
      · exact hC.pure _
      · exact hC.andThen (hC.bind (hC.call rfl) fun _ => hC.pure _) fun _ =>
          hC.andThen (hC.call rfl) fun _ => hedit ..
      · exact hC.pure _
  rw [handleLoadImages]
  split
  · exact hC.pure _
  · refine hC.andThen (hC.call rfl) fun email => ?_
    split
    · exact hC.pure _
    · refine hC.andThen (hC.call rfl) fun ghostEmail => ?_
      split
      · exact hC.pure _
      · refine hC.andThen (hC.lift (hC.call rfl)) fun client => ?_
        split
        · exact hC.pure _
        · refine hC.andThen (hC.call rfl) fun bodies => ?_
          split
          · exact hinline ..
          · exact hC.pure _

theorem handleLoadImages_serves {target : EventId} :
    Serves (handleLoadImages cfg sender room target) := by
  have hedit : ∀ room ghost target plain html,
      Serves (onMatrix (.sendAsGhost room ghost (.edit target plain html) none)) :=
    fun _ _ _ _ _ => .matrix rfl
  exact handleLoadImages_closed (Prog.only_closed.mono fun _ _ h =>
    Cmd.errand.service (Cmd.chore.errand (Cmd.upkeep.chore h))) hedit

end

/-- The calls that do not bridge mail. -/
def Call.Serves : Call → Prop
  | worker => True
  | transaction _ _ => True
  | detached _ => True
  | prune => True
  | logout _ => True
  | _ => False

theorem serves_closed {C : ∀ α : Type, Prog Op α → Prop}
    (hC : Prog.Closed (fun _ o => o.cmd.errand) C)
    (hs : ∀ account b, C _ (submit account b))
    (hload : ∀ sender room target, C _ (handleLoadImages cfg sender room target)) {c : Call}
    (hc : c.Serves) : C _ (c.program cfg) := by
  cases c with
  | worker => exact runRetryLoop_closed hC hs
  | transaction txnId txn =>
    exact handleTransactions_closed (upkeep_closed (chore_closed hC))
      (fun _ _ => talk_closed hC showHeld_talk) hload fun _ _ _ _ =>
        threadAction_chore (chore_closed hC)
  | detached task =>
    refine hC.bind (detached_closed hload fun _ _ _ _ => ?_) fun _ => hC.pure _
    exact threadAction_chore (chore_closed hC)
  | prune =>
    exact hC.loop fun _ => hC.bind (hC.bind (hC.call rfl) fun _ => hC.call rfl) fun _ => hC.pure _
  | logout user =>
    exact hC.bind (hC.andThen (hC.lift (hC.call rfl)) fun _ =>
      hC.andThen (hC.call rfl) fun _ => hC.call rfl) fun _ => hC.pure _
  | _ => exact hc.elim

theorem Call.Serves.program {c : Call} (hc : c.Serves) : JmapBridge.Serves (c.program cfg) :=
  serves_closed (Prog.only_closed.mono fun _ _ => Cmd.errand.service) (fun _ _ => submit_serves)
    (fun _ _ _ => handleLoadImages_serves) hc

end JmapBridge
