import JmapBridge.Model.Service

/-! How the calls provision rooms. All that has no part in taking a lock, making a room or
binding a thread to it is plain, and a property that plain commands other than edits have
is one of every call as soon as the email space and the new thread have it. -/

namespace JmapBridge

open Effect

def Cmd.offLocks : Cmd → Bool
  | store (.tryAcquireRoomCreationLock _) => false
  | task (.dropGuard _) => false
  | _ => true

/-- The commands that have no part in binding a thread to a room. -/
def Cmd.plain : Cmd → Bool
  | matrix (.createRoomForContact _ _ _) => false
  | c => c.offLocks && c.offBindings

theorem Cmd.plain.offLocks {c : Cmd} (hc : c.plain) : c.offLocks := by
  unfold Cmd.plain at hc
  split at hc
  · cases hc
  · exact (Bool.and_eq_true_iff.mp hc).1

theorem Cmd.plain.offBindings {c : Cmd} (hc : c.plain) : c.offBindings := by
  unfold Cmd.plain at hc
  split at hc
  · cases hc
  · exact (Bool.and_eq_true_iff.mp hc).2

theorem Cmd.service.offLocks {c : Cmd} (h : c.service) : c.offLocks := by
  unfold Cmd.offLocks
  split
  · cases h
  · cases h
  · rfl

def Cmd.editing : Cmd → Bool
  | matrix (.sendAsGhost _ _ (.edit _ _ _) _) => true
  | _ => false

/-- The plain commands that edit no event. -/
def Cmd.bland (c : Cmd) : Bool := c.plain && !c.editing

theorem Cmd.bland.plain {c : Cmd} (h : c.bland) : c.plain := (Bool.and_eq_true_iff.mp h).1

theorem Cmd.bland.offLocks {c : Cmd} (h : c.bland) : c.offLocks :=
  Cmd.plain.offLocks (Cmd.bland.plain h)

abbrev Bland {α : Type} (x : Prog Op α) : Prop := Does (fun c => c.bland) x

section

variable {cfg : Config} {p : Poller} {email : Email} {ghost : GhostUser} {body : EmailBody}
  {user : UserId} {room : RoomId}

theorem createEmailSpace_bland : Bland (createEmailSpace user) := by
  refine .andThen (.store rfl) fun _ => .andThen (.matrix rfl) fun _ =>
    .andThen (.lift (.letSome (.store rfl) fun state => ?_)) fun _ => .ok
  split
  · exact .bind (.matrix rfl) fun _ => .pure
  · exact .pure

theorem addRoomToSpace_bland {space child : RoomId} : Bland (addRoomToSpace space child) :=
  .andThen (.matrix rfl) fun _ => .matrix rfl

theorem registerGhost_bland {address name : String} : Bland (registerGhost cfg address name) := by
  refine .andThen (.matrix rfl) fun b => ?_
  split
  · exact .bestEffort (.matrix rfl)
  · exact .ok

theorem joinRealUser_bland : Bland (joinRealUser user room) :=
  .letSome (.store rfl) fun _ => .bind (.matrix rfl) fun _ => .pure

theorem AttachmentCmd.bland {c : Cmd} (h : AttachmentCmd p room c) : c.bland := by
  cases h <;> rfl

theorem ReadStateCmd.bland {email : Option EmailId} {c : Cmd} (h : ReadStateCmd user email c) :
    c.bland := by
  cases h <;> rfl

theorem PaceCmd.bland {c : Cmd} (h : PaceCmd p c) : c.bland := by
  cases h <;> rfl

theorem handleAttachments_bland {sender : UserId} {timestamp : Option Nat} :
    Bland (handleAttachments p email room sender timestamp) :=
  handleAttachments_does.mono fun _ => AttachmentCmd.bland

theorem sendMessageAs_bland {sender : UserId} {timestamp : Option Nat} :
    Bland (sendMessageAs room body sender timestamp) :=
  sendAsGhostJoining_does rfl rfl rfl

theorem processReply_bland : Bland (processReply p email ghost body room) := by
  refine .andThen sendMessageAs_bland fun event => ?_
  split
  · exact .andThen (.store rfl) fun _ => .andThen (.bestEffort (.store rfl)) fun _ =>
      handleAttachments_bland
  · exact .ok

theorem syncReadState_bland : Bland (syncReadState p email) :=
  syncReadState_does.mono fun _ => ReadStateCmd.bland

theorem mailboxPage_bland {current : Option String} {ids : List MailboxId} :
    Bland (mailboxPage p current ids) := by
  unfold mailboxPage
  split
  · refine .andThen (.attempt (.jmap rfl)) fun r => ?_
    split
    · exact .andThen (.store rfl) fun _ => .ok
    · exact .fail
    · split
      · exact .ok
      · exact .ok
  · exact .andThen (.jmap rfl) fun _ => .andThen (.jmap rfl) fun _ => .ok

theorem mailboxRoom_bland {mailbox : MailboxId} {name : String} :
    Bland (mailboxRoom mailbox name) := by
  refine .andThen (.store rfl) fun r => ?_
  split
  · exact .ok
  · exact .andThen (.matrix rfl) fun _ => .andThen (.store rfl) fun _ => .ok

end

section

variable {cfg : Config} {p : Poller} {C : ∀ α : Type, Prog Op α → Prop}
  (hC : Prog.Closed (fun _ o => o.cmd.bland) C)
include hC

theorem bestEffort_closed {α : Type} {x : Bridge α} (hx : C _ x) : C _ (bestEffort x) :=
  hC.bind hx fun _ => hC.pure _

theorem ensureRoomInEmailSpace_closed {user : UserId} {room : RoomId}
    (hspace : C _ (ensureEmailSpace user)) : C _ (ensureRoomInEmailSpace user room) :=
  hC.andThen hspace fun _ => hC.of_only addRoomToSpace_bland

theorem repairEmailSpace_closed {user : UserId} (hspace : C _ (ensureEmailSpace user)) :
    C _ (repairEmailSpace user) := by
  refine hC.andThen (hC.call rfl) fun rooms => ?_
  split
  · exact hC.pure _
  · exact hC.andThen hspace fun _ => hC.of_only
      (Does.forEach _ fun _ => .bestEffort addRoomToSpace_bland)

theorem pollMailboxes_closed (hspace : C _ (ensureEmailSpace p.user)) :
    C _ (pollMailboxes cfg p) := by
  rw [pollMailboxes]
  split
  case isFalse => exact hC.pure _
  refine hC.mapError (hC.andThen (hC.call rfl) fun last => ?_)
  refine hC.andThen (hC.of_only (Does.loop fun s => mailboxPage_bland)) fun final => ?_
  refine hC.andThen ?_ fun _ => hC.call rfl
  rw [fetchAndMapMailboxes]
  split
  · exact hC.pure _
  · refine hC.andThen (hC.call rfl) fun mailboxes => hC.actForEach _ fun mailbox _ => ?_
    unfold mapMailbox
    split
    · exact hC.andThen (hC.of_only mailboxRoom_bland) fun room =>
        bestEffort_closed hC (ensureRoomInEmailSpace_closed hC hspace)
    · exact hC.pure _

theorem processEmail_closed {email : Email}
    (hnew : ∀ ghost body, C _ (processNewThread cfg p email ghost body)) :
    C _ (processEmail cfg p email) := by
  refine hC.bind (hC.call rfl) fun _ => hC.bind ?_ fun _ => hC.bind (hC.call rfl) fun _ =>
    hC.pure _
  refine hC.andThen hC.ofOption fun emailId => hC.andThen (hC.call rfl) fun b => ?_
  split
  · exact hC.lift (hC.of_only syncReadState_bland)
  · refine hC.andThen (hC.call rfl) fun own => ?_
    split
    · exact hC.lift (hC.call rfl)
    · refine hC.andThen hC.ofOption fun threadId => ?_
      refine hC.andThen (hC.of_only (Does.andThen registerGhost_bland fun _ => .ok)) fun ghost => ?_
      refine hC.andThen ?_ fun _ => hC.lift (hC.of_only syncReadState_bland)
      refine hC.andThen (hC.call rfl) fun row => ?_
      cases row with
      | some row => exact hC.of_only processReply_bland
      | none => exact hnew _ _

/-- A call, once the two places that take locks and the call itself, where it bridges no mail, have
the property. -/
theorem program_closed (hspace : ∀ user, C _ (ensureEmailSpace user))
    (hnew : ∀ p email ghost body, C _ (processNewThread cfg p email ghost body))
    {c : Call} (hserves : c.Serves → C _ (c.program cfg)) : C _ (c.program cfg) := by
  have hignore : ∀ {α : Type} {x : Bridge α}, C _ x → C _ (ignore x) :=
    fun hx => hC.bind hx fun _ => hC.pure _
  have hpace : ∀ p : Poller, Prog.Closed (fun _ o => PaceCmd p o.cmd) C :=
    fun p => hC.mono fun _ _ h => h.bland
  match c with
  | .poll p => exact hignore (poll_closed (hpace p) (pollMailboxes_closed hC (hspace _)) fun _ =>
      processEmail_closed hC (hnew p _))
  | .backfill p => exact runBackfillLoop_closed (hpace p) fun _ => processEmail_closed hC (hnew p _)
  | .newThread .. => exact hignore (hnew _ _ _ _)
  | .fileRoom user _ => exact hignore (ensureRoomInEmailSpace_closed hC (hspace user))
  | .repairSpace user => exact hignore (repairEmailSpace_closed hC (hspace user))
  | .worker => exact hserves trivial
  | .transaction _ _ => exact hserves trivial
  | .detached _ => exact hserves trivial
  | .prune => exact hserves trivial
  | .logout _ => exact hserves trivial

end

end JmapBridge
