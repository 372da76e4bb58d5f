import JmapBridge.Model.Footprint

/-! The commands of one user's inbound side: bridging emails, and the walks that
poll and backfill make over the account. -/

namespace JmapBridge

open Effect

variable {α β γ σ : Type} {cfg : Config} {p : Poller} {ids ids' : EmailId → Prop}

/-- The keys in which the walks over emails and mailboxes keep their place. -/
def StateKey.ofWalk : StateKey → Bool
  | changes => true
  | query => true
  | mailbox => true
  | backfillPosition => true
  | lastSyncAt => true
  | _ => false

def StateKey.ofMailbox : StateKey → Bool
  | mailbox => true
  | _ => false

/-- The keys of the walks over emails. -/
def StateKey.ofPace : StateKey → Bool
  | changes => true
  | query => true
  | backfillPosition => true
  | backfillCutoff => true
  | lastSyncAt => true
  | _ => false

/-- The commands with which a session of `p` bridges emails with ids in `ids`. -/
inductive InboundCmd (p : Poller) (ids : EmailId → Prop) : Cmd → Prop where
  | getState (k : StateKey) (h : k.ofWalk = false) :
    InboundCmd p ids (.store (.getJmapState p.user k))
  | saveState (k : StateKey) (v : String) (h : k.ofWalk = false) :
    InboundCmd p ids (.store (.saveJmapState p.user k v))
  | deleteState (k : StateKey) (h : k.ofWalk = false) :
    InboundCmd p ids (.store (.deleteJmapState p.user k))
  | getUser : InboundCmd p ids (.store (.getUser p.user))
  | getUserRoomIds : InboundCmd p ids (.store (.getUserRoomIds p.user))
  | botAvatar (key : String) : InboundCmd p ids (.store (.getBridgeState key))
  | getThread (t : ThreadId) : InboundCmd p ids (.store (.getThreadInfo t))
  | saveThread (t : ThreadId) (e : EventId) (r : RoomId) (s : String) :
    InboundCmd p ids (.store (.saveThreadMappingAtomic t e r s))
  | latest (t : ThreadId) (e : EventId) : InboundCmd p ids (.store (.updateThreadLatestEvent t e))
  | saveGhost (r : RoomId) (g : String) :
    InboundCmd p ids (.store (.saveRoomGhostMapping r g p.user))
  | saveMessage (e : EmailId) (m : EventId) (h : ids e) :
    InboundCmd p ids (.store (.saveMessageMapping e m))
  | hasMessage (e : EmailId) (h : ids e) : InboundCmd p ids (.store (.hasMessageMapped e))
  | event (e : EmailId) : InboundCmd p ids (.store (.getEventIdByEmail e))
  | lockThread (t : ThreadId) : InboundCmd p ids (.store (.tryAcquireRoomCreationLock (.thread t)))
  | lockSpace : InboundCmd p ids (.store (.tryAcquireRoomCreationLock (.emailSpace p.user)))
  | register (l : String) : InboundCmd p ids (.matrix (.ensureUserExists l))
  | displayName (u : UserId) (n : String) : InboundCmd p ids (.matrix (.setDisplayName u n))
  | createRoom (n e : String) : InboundCmd p ids (.matrix (.createRoomForContact n e p.user))
  | createSpace (n t : String) : InboundCmd p ids (.matrix (.createSpace n t p.user))
  | roomName (r : RoomId) (n : String) : InboundCmd p ids (.matrix (.setRoomName r n))
  | roomTopic (r : RoomId) (n : String) : InboundCmd p ids (.matrix (.setRoomTopic r n))
  | roomAvatar (r : RoomId) (n : String) : InboundCmd p ids (.matrix (.setRoomAvatar r n))
  | state (r : RoomId) (t k : String) : InboundCmd p ids (.matrix (.putState r t k))
  | invite (r : RoomId) (u : UserId) : InboundCmd p ids (.matrix (.inviteToRoom r u))
  | join (r : RoomId) (u : UserId) : InboundCmd p ids (.matrix (.joinRoomAs r u))
  | joinUser (t : String) (r : RoomId) : InboundCmd p ids (.matrix (.joinRoomViaToken t r))
  | post (r : RoomId) (s : UserId) (b : EmailBody) (ts : Option Nat)
      (h : ∀ e, b.origin = .email e → ids e) :
    InboundCmd p ids (.matrix (.sendAsGhost r s (.message b) ts))
  | file (r : RoomId) (s : UserId) (x n m : String) (ts : Option Nat) :
    InboundCmd p ids (.matrix (.sendAsGhost r s (.file x n m) ts))
  | receipt (r : RoomId) (e : EventId) (t : String) :
    InboundCmd p ids (.matrix (.sendReadReceipt r e t))
  | unread (r : RoomId) (b : Bool) (t : String) :
    InboundCmd p ids (.matrix (.setMarkedUnread p.user r b t))
  | download (b n u t : String) : InboundCmd p ids (.matrix (.downloadBlob b n u t))
  | upload (s : UserId) (m n : String) : InboundCmd p ids (.matrix (.uploadMediaStream s m n))
  | sleep (n : Nat) : InboundCmd p ids (.task (.sleep n))
  | unlockThread (t : ThreadId) : InboundCmd p ids (.task (.dropGuard (.thread t)))
  | unlockSpace : InboundCmd p ids (.task (.dropGuard (.emailSpace p.user)))
  | leave (e : Option EmailId) (h : ∀ i ∈ e, ids i) : InboundCmd p ids (.task (.leave e))
  | skipping (e : EmailId) (s : Option String) (h : ids e) :
    InboundCmd p ids (.task (.log (.skipping e s)))
  | now : InboundCmd p ids (.task .now)

/-- The commands with which it bridges mailboxes. -/
inductive MailboxCmd (p : Poller) (ids : EmailId → Prop) : Cmd → Prop where
  | contact (c : Cmd) (h : RoomCmd p.user c) : MailboxCmd p ids c
  | getState : MailboxCmd p ids (.store (.getJmapState p.user .mailbox))
  | saveState (v : String) : MailboxCmd p ids (.store (.saveJmapState p.user .mailbox v))
  | deleteState : MailboxCmd p ids (.store (.deleteJmapState p.user .mailbox))
  | getRoomId (m : MailboxId) : MailboxCmd p ids (.store (.getRoomId m))
  | saveRoom (m : MailboxId) (r : RoomId) : MailboxCmd p ids (.store (.saveRoomMapping m r))
  | createMailboxRoom (n : String) : MailboxCmd p ids (.matrix (.createRoomForMailbox n))
  | changesMailbox (s : String) : MailboxCmd p ids (.jmap p.account (.changesMailbox s))
  | queryMailbox : MailboxCmd p ids (.jmap p.account .queryMailbox)
  | mailboxState : MailboxCmd p ids (.jmap p.account .getMailboxState)
  | getMailbox (l : List MailboxId) : MailboxCmd p ids (.jmap p.account (.getMailbox l))

/-- The commands with which the walks over the emails keep their place and fetch emails. -/
inductive PaceCmd (p : Poller) : Cmd → Prop where
  | getState (k : StateKey) (h : k.ofPace) : PaceCmd p (.store (.getJmapState p.user k))
  | saveState (k : StateKey) (v : String) (h : k.ofPace) :
    PaceCmd p (.store (.saveJmapState p.user k v))
  | deleteState (k : StateKey) (h : k.ofPace) :
    PaceCmd p (.store (.deleteJmapState p.user k))
  | destroyed (e : EmailId) : PaceCmd p (.store (.markEmailDestroyed e))
  | changes (s : String) : PaceCmd p (.jmap p.account (.changesEmail s))
  | query (a : Option Int) (n : Option Nat) (l : Nat) :
    PaceCmd p (.jmap p.account (.queryEmail a n l))
  | emailState : PaceCmd p (.jmap p.account .getEmailState)
  | getEmail (l : List EmailId) : PaceCmd p (.jmap p.account (.getEmail l))
  | failed (e : Option EmailId) : PaceCmd p (.task (.log (.failedToProcess e)))
  | now : PaceCmd p (.task .now)
  | sleep (n : Nat) : PaceCmd p (.task (.sleep n))

/-- Those of them that are no requests. -/
inductive RoundCmd (p : Poller) : Cmd → Prop where
  | getState (k : StateKey) (h : k.ofPace) : RoundCmd p (.store (.getJmapState p.user k))
  | saveState (k : StateKey) (v : String) (h : k.ofPace) :
    RoundCmd p (.store (.saveJmapState p.user k v))
  | deleteState (k : StateKey) (h : k.ofPace) :
    RoundCmd p (.store (.deleteJmapState p.user k))
  | destroyed (e : EmailId) : RoundCmd p (.store (.markEmailDestroyed e))
  | failed (e : Option EmailId) : RoundCmd p (.task (.log (.failedToProcess e)))
  | now : RoundCmd p (.task .now)
  | sleep (n : Nat) : RoundCmd p (.task (.sleep n))

/-- Those of the live sync on one page of changes, and of fetching emails. -/
inductive ChangesCmd (p : Poller) : Cmd → Prop where
  | changes (s : String) : ChangesCmd p (.jmap p.account (.changesEmail s))
  | reset : ChangesCmd p (.store (.deleteJmapState p.user .changes))
  | destroyed (e : EmailId) : ChangesCmd p (.store (.markEmailDestroyed e))
  | getEmail (l : List EmailId) : ChangesCmd p (.jmap p.account (.getEmail l))
  | failed (e : Option EmailId) : ChangesCmd p (.task (.log (.failedToProcess e)))

/-- Those of the live sync on one page of changes, up to its emails. -/
inductive LeadCmd (p : Poller) : Cmd → Prop where
  | changes (s : String) : LeadCmd p (.jmap p.account (.changesEmail s))
  | reset : LeadCmd p (.store (.deleteJmapState p.user .changes))
  | destroyed (e : EmailId) : LeadCmd p (.store (.markEmailDestroyed e))

/-- Those of the walks besides fetching emails. -/
inductive PageCmd (p : Poller) : Cmd → Prop where
  | round (c : Cmd) (h : RoundCmd p c) : PageCmd p c
  | changes (s : String) : PageCmd p (.jmap p.account (.changesEmail s))
  | query (a : Option Int) (n : Option Nat) (l : Nat) :
    PageCmd p (.jmap p.account (.queryEmail a n l))
  | emailState : PageCmd p (.jmap p.account .getEmailState)

/-- These and the commands of the walks themselves. -/
inductive WalkCmd (p : Poller) (ids : EmailId → Prop) : Cmd → Prop where
  | inbound (c : Cmd) (h : InboundCmd p ids c) : WalkCmd p ids c
  | mailbox (c : Cmd) (h : MailboxCmd p ids c) : WalkCmd p ids c
  | getState (k : StateKey) : WalkCmd p ids (.store (.getJmapState p.user k))
  | saveState (k : StateKey) (v : String) : WalkCmd p ids (.store (.saveJmapState p.user k v))
  | deleteState (k : StateKey) : WalkCmd p ids (.store (.deleteJmapState p.user k))
  | destroyed (e : EmailId) : WalkCmd p ids (.store (.markEmailDestroyed e))
  | changes (s : String) : WalkCmd p ids (.jmap p.account (.changesEmail s))
  | query (a : Option Int) (n : Option Nat) (l : Nat) :
    WalkCmd p ids (.jmap p.account (.queryEmail a n l))
  | emailState : WalkCmd p ids (.jmap p.account .getEmailState)
  | getEmail (l : List EmailId) : WalkCmd p ids (.jmap p.account (.getEmail l))
  | enter (e : Option EmailId) (h : ∀ i ∈ e, ids i) : WalkCmd p ids (.task (.enter e))
  | failed (e : Option EmailId) : WalkCmd p ids (.task (.log (.failedToProcess e)))

theorem InboundCmd.walk {c : Cmd} (h : InboundCmd p ids c) : WalkCmd p ids c := .inbound _ h

theorem PaceCmd.walk {c : Cmd} (h : PaceCmd p c) : WalkCmd p ids c := by
  cases h with
  | now => exact InboundCmd.now.walk
  | sleep n => exact (InboundCmd.sleep n).walk
  | getState k _ => exact .getState k
  | saveState k v _ => exact .saveState k v
  | deleteState k _ => exact .deleteState k
  | destroyed e => exact .destroyed e
  | changes s => exact .changes s
  | query a n l => exact .query a n l
  | emailState => exact .emailState
  | getEmail l => exact .getEmail l
  | failed e => exact .failed e

theorem RoundCmd.pace {c : Cmd} (h : RoundCmd p c) : PaceCmd p c := by
  cases h with
  | getState k h => exact .getState k h
  | saveState k v h => exact .saveState k v h
  | deleteState k h => exact .deleteState k h
  | destroyed e => exact .destroyed e
  | failed e => exact .failed e
  | now => exact .now
  | sleep n => exact .sleep n

theorem ChangesCmd.pace {c : Cmd} (h : ChangesCmd p c) : PaceCmd p c := by
  cases h with
  | changes s => exact .changes s
  | reset => exact .deleteState _ rfl
  | destroyed e => exact .destroyed e
  | getEmail l => exact .getEmail l
  | failed e => exact .failed e

theorem LeadCmd.page {c : Cmd} (h : LeadCmd p c) : PageCmd p c := by
  cases h with
  | changes s => exact .changes s
  | reset => exact .round _ (.deleteState _ rfl)
  | destroyed e => exact .round _ (.destroyed e)

theorem PageCmd.pace {c : Cmd} (h : PageCmd p c) : PaceCmd p c := by
  cases h with
  | round c h => exact h.pace
  | changes s => exact .changes s
  | query a n l => exact .query a n l
  | emailState => exact .emailState

theorem InboundCmd.mono {c : Cmd} (h : InboundCmd p ids c) (hi : ∀ e, ids e → ids' e) :
    InboundCmd p ids' c := by
  cases h with
  | saveMessage e m h => exact .saveMessage e m (hi e h)
  | hasMessage e h => exact .hasMessage e (hi e h)
  | post r s b ts h => exact .post r s b ts fun e he => hi e (h e he)
  | leave e h => exact .leave e fun i he => hi i (h i he)
  | skipping e s h => exact .skipping e s (hi e h)
  | getState k h => exact .getState k h
  | saveState k v h => exact .saveState k v h
  | deleteState k h => exact .deleteState k h
  | _ => constructor

abbrev DoesInbound (p : Poller) (ids : EmailId → Prop) (x : Prog Op α) : Prop :=
  Does (InboundCmd p ids) x

abbrev DoesWalk (p : Poller) (ids : EmailId → Prop) (x : Prog Op α) : Prop :=
  Does (WalkCmd p ids) x

theorem DoesInbound.walk {x : Prog Op α} (h : DoesInbound p ids x) : DoesWalk p ids x :=
  h.mono fun _ => InboundCmd.walk

theorem AttachmentCmd.inbound {room : RoomId} {c : Cmd} (h : AttachmentCmd p room c) :
    InboundCmd p ids c := by
  cases h with
  | getUser => exact .getUser
  | _ => constructor

theorem ReadStateCmd.inbound {email : Option EmailId} {c : Cmd}
    (h : ReadStateCmd p.user email c) : InboundCmd p ids c := by
  cases h with
  | synced e _ => exact .getState _ rfl
  | token => exact .getState _ rfl
  | save e v _ => exact .saveState _ _ rfl
  | delete e _ => exact .deleteState _ rfl
  | _ => constructor

theorem RoomCmd.inbound {c : Cmd} (h : RoomCmd p.user c) : InboundCmd p ids c := by
  cases h with
  | ownEmail => exact .getState _ rfl
  | space => exact .getState _ rfl
  | token => exact .getState _ rfl
  | saveSpace v => exact .saveState _ _ rfl
  | avatar r n => exact .roomAvatar r n
  | lock => exact .lockSpace
  | unlock => exact .unlockSpace
  | _ => constructor

/-! The email space and the room of a contact. -/

theorem ensureRoomInEmailSpace_inbound {room : RoomId} :
    DoesInbound p ids (ensureRoomInEmailSpace p.user room) :=
  ensureRoomInEmailSpace_space.mono fun _ h => h.rooms.inbound

theorem repairEmailSpace_inbound : DoesInbound p ids (repairEmailSpace p.user) := by
  refine .andThen (.store .getUserRoomIds) fun rooms => ?_
  split
  · exact .ok
  · refine .andThen (ensureEmailSpace_space.mono fun _ h => h.rooms.inbound) fun _ => ?_
    exact .forEach _ fun _ => .bestEffort (addRoomToSpace_space.mono fun _ h => h.rooms.inbound)

theorem createContactRoom_inbound {email name : String} :
    DoesInbound p ids (createContactRoom cfg p.user email name) :=
  createContactRoom_rooms.mono fun _ => RoomCmd.inbound

/-! One email. -/

/-- The commands with which an email that is not mapped yet is bridged, up to its read
state. -/
inductive BridgeCmd (p : Poller) (ids : EmailId → Prop) : Cmd → Prop where
  | attachment (r : RoomId) (c : Cmd) (h : AttachmentCmd p r c) : BridgeCmd p ids c
  | contact (c : Cmd) (h : RoomCmd p.user c) : BridgeCmd p ids c
  | getThread (t : ThreadId) : BridgeCmd p ids (.store (.getThreadInfo t))
  | saveThread (t : ThreadId) (e : EventId) (r : RoomId) (s : String) :
    BridgeCmd p ids (.store (.saveThreadMappingAtomic t e r s))
  | latest (t : ThreadId) (e : EventId) : BridgeCmd p ids (.store (.updateThreadLatestEvent t e))
  | saveMessage (e : EmailId) (m : EventId) (h : ids e) :
    BridgeCmd p ids (.store (.saveMessageMapping e m))
  | lock (t : ThreadId) : BridgeCmd p ids (.store (.tryAcquireRoomCreationLock (.thread t)))
  | unlock (t : ThreadId) : BridgeCmd p ids (.task (.dropGuard (.thread t)))
  | roomName (r : RoomId) (n : String) : BridgeCmd p ids (.matrix (.setRoomName r n))
  | roomTopic (r : RoomId) (n : String) : BridgeCmd p ids (.matrix (.setRoomTopic r n))
  | invite (r : RoomId) (u : UserId) : BridgeCmd p ids (.matrix (.inviteToRoom r u))
  | post (r : RoomId) (s : UserId) (b : EmailBody) (ts : Option Nat)
      (h : ∀ e, b.origin = .email e → ids e) :
    BridgeCmd p ids (.matrix (.sendAsGhost r s (.message b) ts))
  | skipping (e : EmailId) (s : Option String) (h : ids e) :
    BridgeCmd p ids (.task (.log (.skipping e s)))

theorem BridgeCmd.inbound {c : Cmd} (h : BridgeCmd p ids c) : InboundCmd p ids c := by
  cases h with
  | attachment r c h => exact h.inbound
  | contact c h => exact h.inbound
  | saveMessage e m h => exact .saveMessage e m h
  | post r s b ts h => exact .post r s b ts h
  | skipping e s h => exact .skipping e s h
  | _ => constructor

section

variable {email : Email} {emailId : EmailId} {ghost : GhostUser} {body : EmailBody}

theorem sendMessageAs_does {room : RoomId} {sender : UserId} {timestamp : Option Nat}
    (ho : ∀ e, body.origin = .email e → ids e) :
    Does (BridgeCmd p ids) (sendMessageAs room body sender timestamp) :=
  sendAsGhostJoining_does (.post _ _ _ _ ho) (.invite ..) (.contact _ (.join ..))

theorem attachments_does {room : RoomId} {sender : UserId} {timestamp : Option Nat} :
    Does (BridgeCmd p ids) (handleAttachments p email room sender timestamp) :=
  handleAttachments_does.mono fun _ => .attachment room _

theorem handleAttachments_inbound {room : RoomId} {sender : UserId} {timestamp : Option Nat} :
    DoesInbound p ids (handleAttachments p email room sender timestamp) :=
  handleAttachments_does.mono fun _ => AttachmentCmd.inbound

theorem syncReadState_inbound : DoesInbound p ids (syncReadState p email) :=
  syncReadState_does.mono fun _ => ReadStateCmd.inbound

theorem processReply_does {room : RoomId} (ho : ∀ e, body.origin = .email e → ids e)
    (hid : ∀ i ∈ email.id, ids i) :
    Does (BridgeCmd p ids) (processReply p email ghost body room) := by
  refine .andThen (sendMessageAs_does ho) fun event => ?_
  split
  case h_1 id _ heq =>
    exact .andThen (.store (.saveMessage _ _ (hid id heq))) fun _ =>
      .andThen (.bestEffort (.store (.latest ..))) fun _ => attachments_does
  case h_2 => exact .ok

theorem awaitThreadLock_does {threadId : ThreadId} :
    Does (BridgeCmd p ids) (awaitThreadLock threadId) := by
  refine .loop fun _ => .andThen (.store (.getThread _)) fun row => ?_
  split
  · exact .ok
  · refine .andThen (.store (.lock _)) fun b => ?_
    split
    · exact .ok
    · exact .andThen (.lift (.task (.contact _ (.sleep _)))) fun _ => .ok

theorem awaitThreadLock_inbound {threadId : ThreadId} :
    DoesInbound p ids (awaitThreadLock threadId) :=
  awaitThreadLock_does.mono fun _ => BridgeCmd.inbound

theorem createThreadRoom_does {threadId : ThreadId}
    (ho : ∀ e, body.origin = .email e → ids e) (h : ids emailId) :
    Does (BridgeCmd p ids) (createThreadRoom cfg p email ghost body threadId emailId) :=
  .andThen (createContactRoom_rooms.mono fun _ => .contact _) fun _ =>
    .andThen (.bestEffort (.matrix (.roomName ..))) fun _ =>
      .andThen (.store (.contact _ .ownEmail)) fun _ =>
        .andThen (.bestEffort (.matrix (.roomTopic ..))) fun _ =>
          .andThen (sendMessageAs_does ho) fun _ =>
            .andThen (.store (.saveThread ..)) fun _ =>
              .andThen (.store (.saveMessage _ _ h)) fun _ => attachments_does

theorem processNewThread_does (ho : ∀ e, body.origin = .email e → ids e)
    (hid : ∀ i ∈ email.id, ids i) :
    Does (BridgeCmd p ids) (processNewThread cfg p email ghost body) := by
  rw [processNewThread]
  split
  case h_2 => exact .ok
  case h_1 threadId id _ heq =>
  refine .andThen awaitThreadLock_does fun room => ?_
  split
  · exact processReply_does ho hid
  · refine .guarded (.unlock _) (.andThen (.store (.getThread _)) fun row => ?_)
    split
    · exact processReply_does ho hid
    · exact createThreadRoom_does ho (hid id heq)

theorem processNewThread_inbound (ho : ∀ e, body.origin = .email e → ids e)
    (hid : ∀ i ∈ email.id, ids i) :
    DoesInbound p ids (processNewThread cfg p email ghost body) :=
  (processNewThread_does ho hid).mono fun _ => BridgeCmd.inbound

theorem bridgeToRoom_does {threadId : ThreadId} (ho : ∀ e, body.origin = .email e → ids e)
    (hid : ∀ i ∈ email.id, ids i) :
    Does (BridgeCmd p ids) (bridgeToRoom cfg p email threadId ghost body) := by
  refine .andThen (.store (.getThread _)) fun row => ?_
  split
  · exact processReply_does ho hid
  · exact processNewThread_does ho hid

theorem resolveGhost_does : Does (BridgeCmd p ids) (resolveGhost cfg email) :=
  .andThen (registerGhost_rooms.mono fun _ => .contact _) fun _ => .ok

theorem resolveGhost_inbound : DoesInbound p ids (resolveGhost cfg email) :=
  resolveGhost_does.mono fun _ => BridgeCmd.inbound

theorem fromEmail_origin (hid : email.id = some emailId) :
    (EmailBody.fromEmail cfg email).origin = .email emailId := by simp [EmailBody.fromEmail, hid]

theorem bridgeEmail_does {φ : Cmd → Prop} (hid : email.id = some emailId) (h : ids emailId)
    (hbridge : ∀ c, BridgeCmd p ids c → φ c) (hread : ∀ c, ReadStateCmd p.user email.id c → φ c) :
    Does φ (bridgeEmail cfg p email emailId) := by
  have ho : ∀ e, (EmailBody.fromEmail cfg email).origin = .email e → ids e := by
    intro e he
    obtain rfl : emailId = e := by simpa [fromEmail_origin hid] using he
    exact h
  have hids : ∀ i ∈ email.id, ids i := by
    intro i hi
    obtain rfl : emailId = i := by simpa [hid] using hi
    exact h
  refine .andThen (.store (hbridge _ (.contact _ .ownEmail))) fun own => ?_
  split
  · exact .lift (.task (hbridge _ (.skipping _ _ h)))
  · exact .andThen .ofOption fun _ => .andThen (resolveGhost_does.mono hbridge) fun _ =>
      .andThen ((bridgeToRoom_does ho hids).mono hbridge) fun _ =>
        .lift (syncReadState_does.mono hread)

theorem bridgeEmail_inbound (hid : email.id = some emailId) (h : ids emailId) :
    DoesInbound p ids (bridgeEmail cfg p email emailId) :=
  bridgeEmail_does hid h (fun _ => BridgeCmd.inbound) fun _ => ReadStateCmd.inbound

theorem processEmail_instrument {φ : Cmd → Prop} (h : ∀ i ∈ email.id, ids i)
    (hmapped : ∀ i ∈ email.id, φ (.store (.hasMessageMapped i)))
    (hbridge : ∀ c, BridgeCmd p ids c → φ c) (hread : ∀ c, ReadStateCmd p.user email.id c → φ c) :
    ∃ body : Bridge Unit, processEmail cfg p email = instrument email.id body ∧ Does φ body := by
  refine ⟨_, rfl, ?_⟩
  cases hid : email.id with
  | none => exact .fail
  | some emailId =>
    refine Does.andThen (x := onStore (.hasMessageMapped emailId)) (.store (hmapped _ hid))
      fun b => ?_
    split
    · exact .lift (syncReadState_does.mono hread)
    · exact bridgeEmail_does hid (h emailId hid) hbridge hread

theorem processEmail_enters (h : ∀ i ∈ email.id, ids i) : ∃ rest : Bridge Unit,
    processEmail cfg p email = Prog.bind (onTask (.enter email.id)) (fun _ => rest) ∧
      DoesInbound p ids rest := by
  refine ⟨_, rfl, .bind ?_ fun _ => .bind (.task (.leave _ h)) fun _ => .pure⟩
  cases hid : email.id with
  | none => exact .fail
  | some emailId =>
    have hids : ids emailId := h emailId hid
    change Does _ (Act.andThen (onStore (.hasMessageMapped emailId)) _)
    refine .andThen (.store (.hasMessage _ hids)) fun b => ?_
    split
    · exact .lift syncReadState_inbound
    · exact bridgeEmail_inbound hid hids

theorem processEmail_walk (h : ∀ i ∈ email.id, ids i) :
    DoesWalk p ids (processEmail cfg p email) := by
  obtain ⟨rest, heq, hrest⟩ : ∃ rest : Bridge Unit,
      processEmail cfg p email = Prog.bind (onTask (.enter email.id)) (fun _ => rest) ∧
        DoesInbound p ids rest := processEmail_enters h
  rw [heq]
  exact .bind (.task (.enter _ h)) fun _ => hrest.walk

end

theorem mapMailbox_does {mailbox : Option MailboxId × Option String} :
    Does (MailboxCmd p ids) (mapMailbox p mailbox) := by
  unfold mapMailbox
  split
  · refine .andThen (.andThen (.store (.getRoomId _)) fun r => ?_) fun _ =>
      .bestEffort (ensureRoomInEmailSpace_space.mono fun _ h => .contact _ h.rooms)
    split
    · exact .ok
    · exact .andThen (.matrix (.createMailboxRoom _)) fun _ =>
        .andThen (.store (.saveRoom ..)) fun _ => .ok
  · exact .ok

theorem mailboxPage_does {current : Option String} {l : List MailboxId} :
    Does (MailboxCmd p ids) (mailboxPage p current l) := by
  unfold mailboxPage
  split
  · refine .andThen (.attempt (.jmap (.changesMailbox _))) fun r => ?_
    split
    · exact .andThen (.store .deleteState) fun _ => .ok
    · exact .fail
    · split
      · exact .ok
      · exact .ok
  · exact .andThen (.jmap .queryMailbox) fun _ => .andThen (.jmap .mailboxState) fun _ => .ok

theorem fetchAndMapMailboxes_does {l : List MailboxId} :
    Does (MailboxCmd p ids) (fetchAndMapMailboxes p l) := by
  rw [fetchAndMapMailboxes]
  split
  · exact .ok
  · exact .andThen (.jmap (.getMailbox _)) fun _ => .forEach _ fun _ => mapMailbox_does

theorem pollMailboxes_does : Does (MailboxCmd p ids) (pollMailboxes cfg p) := by
  rw [pollMailboxes]
  split
  · exact .mapError (.andThen (.store .getState) fun _ =>
      .andThen (.loop fun _ => mailboxPage_does) fun _ =>
        .andThen fetchAndMapMailboxes_does fun _ => .store (.saveState _))
  · exact .ok

/-! The walks. A property of programs that their own commands have is one of `poll` and of
the backfill as soon as it is one of fetching emails and processing them, which it is as soon
as it is one of `process_email`. -/

section

variable {C : ∀ α : Type, Task α → Prop}

theorem resolveBackfillCutoff_does {φ : Cmd → Prop}
    (hget : φ (.store (.getJmapState p.user .backfillCutoff)))
    (hsave : ∀ v, φ (.store (.saveJmapState p.user .backfillCutoff v))) (hnow : φ (.task .now)) :
    Does φ (resolveBackfillCutoff cfg p) := by
  rw [resolveBackfillCutoff]
  split
  · exact .pure
  · refine .bind (.result (.store hget)) fun saved => ?_
    extract_lets parsed
    cases parsed with
    | some cutoff => exact .pure
    | none =>
      refine .bind (.task hnow) fun now => ?_
      split
      · exact .pure
      · exact .bind (.result (.store (hsave _))) fun _ => .pure

theorem resolveBackfillCutoff_inbound : DoesInbound p ids (resolveBackfillCutoff cfg p) :=
  resolveBackfillCutoff_does (.getState _ rfl) (fun _ => .saveState _ _ rfl) .now

theorem resolveBackfillCutoff_round : Does (RoundCmd p) (resolveBackfillCutoff cfg p) :=
  resolveBackfillCutoff_does (.getState _ rfl) (fun _ => .saveState _ _ rfl) .now

theorem registerBackfill_round {l : List EmailId} :
    Does (RoundCmd p) (registerBackfill cfg p l) := by
  rw [registerBackfill]
  split
  · exact .bestEffort (.store (.saveState _ _ rfl))
  · exact .ok

theorem finishPage_closed {φ : Cmd → Prop} (hC : Prog.Closed (fun _ o => φ o.cmd) C)
    (hf : ∀ l, C _ (Act.andThen (fetchEmails p l) (processAll cfg p))) (l : List EmailId)
    (newState : String) (hasMore : Bool) : C _ (finishPage cfg p l newState hasMore) := by
  refine hC.andThen ?_ fun _ => ?_
  · rw [processPage]
    split
    · exact hC.pure _
    · exact hf l
  · split
    · exact hC.pure _
    · exact hC.pure _

theorem changesPage_closed (hC : Prog.Closed (fun _ o => LeadCmd p o.cmd) C)
    (hf : ∀ l, C _ (Act.andThen (fetchEmails p l) (processAll cfg p))) (state : String) :
    C _ (changesPage cfg p state) := by
  refine hC.andThen (hC.attempt (hC.call (.changes _))) fun r => ?_
  split
  · exact hC.andThen (hC.call .reset) fun _ => hC.pure _
  · exact hC.pure _
  · exact hC.andThen (hC.actForEach _ fun _ _ => hC.bind (hC.call (.destroyed _)) fun _ =>
      hC.pure _) fun _ => finishPage_closed hC hf _ _ _

theorem bootstrapPage_closed (hC : Prog.Closed (fun _ o => PageCmd p o.cmd) C)
    (hf : ∀ l, C _ (Act.andThen (fetchEmails p l) (processAll cfg p))) :
    C _ (bootstrapPage cfg p) := by
  have hround : Prog.Closed (fun _ o => RoundCmd p o.cmd) C := hC.mono fun _ _ => .round _
  refine hC.andThen (hC.lift (hround.of_only resolveBackfillCutoff_round)) fun cutoff => ?_
  refine hC.andThen (hC.call (.query ..)) fun response => ?_
  refine hC.andThen (hround.of_only registerBackfill_round) fun _ => ?_
  refine hC.andThen (hC.bind (hround.call (.saveState _ _ rfl)) fun _ => hC.pure _) fun _ => ?_
  exact hC.andThen (hC.call .emailState) fun state => finishPage_closed hC hf _ _ _

theorem syncEmails_closed (hC : Prog.Closed (fun _ o => PageCmd p o.cmd) C)
    (hf : ∀ l, C _ (Act.andThen (fetchEmails p l) (processAll cfg p))) :
    C _ (syncEmails cfg p) := by
  have hround : Prog.Closed (fun _ o => RoundCmd p o.cmd) C := hC.mono fun _ _ => .round _
  refine hC.andThen (hround.call (.getState _ rfl)) fun lastState => ?_
  refine hC.andThen (hC.actLoop fun current => ?_) fun _ => hround.call (.saveState _ _ rfl)
  cases current with
  | some state => exact changesPage_closed (hC.mono fun _ _ => LeadCmd.page) hf state
  | none => exact bootstrapPage_closed hC hf

theorem poll_syncs (hC : Prog.Closed (fun _ o => RoundCmd p o.cmd) C)
    (hm : C _ (pollMailboxes cfg p)) (hs : C _ (syncEmails cfg p)) : C _ (poll cfg p) :=
  hC.andThen hm fun _ =>
    hC.andThen (hC.mapError hs) fun _ =>
      hC.andThen (hC.lift (hC.call .now)) fun _ =>
        hC.bind (hC.call (.saveState _ _ rfl)) fun _ => hC.pure _

theorem poll_fetches (hC : Prog.Closed (fun _ o => PaceCmd p o.cmd) C)
    (hm : C _ (pollMailboxes cfg p))
    (hf : ∀ l, C _ (Act.andThen (fetchEmails p l) (processAll cfg p))) : C _ (poll cfg p) :=
  poll_syncs (hC.mono fun _ _ => RoundCmd.pace) hm
    (syncEmails_closed (hC.mono fun _ _ => PageCmd.pace) hf)

theorem backfillBatch_closed (hC : Prog.Closed (fun _ o => PageCmd p o.cmd) C)
    (hf : ∀ l, C _ (Act.andThen (fetchEmails p l) (processAll cfg p))) (pos : Nat) :
    C _ (backfillBatch cfg p pos) := by
  have hround : Prog.Closed (fun _ o => RoundCmd p o.cmd) C := hC.mono fun _ _ => .round _
  refine hC.andThen (hC.lift (hround.of_only resolveBackfillCutoff_round)) fun cutoff => ?_
  split
  · exact hC.pure _
  · refine hC.andThen (hC.call (.query ..)) fun response => ?_
    split
    · exact hC.pure _
    · have hrest : C _ (if response.ids.length < cfg.syncLimit then pure false else do
          onStore (.saveJmapState p.user .backfillPosition (toString (pos + response.ids.length)))
          pure true : Bridge Bool) := by
        split
        · exact hC.pure _
        · exact hC.andThen (hround.call (.saveState _ _ rfl)) fun _ => hC.pure _
      have hpage : C _ (Act.andThen (Act.andThen (fetchEmails p response.ids) (processAll cfg p))
        fun _ => _) := hC.andThen (hf response.ids) fun _ => hrest
      rw [Act.andThen_assoc] at hpage
      exact hpage

theorem backfillRound_closed (hC : Prog.Closed (fun _ o => RoundCmd p o.cmd) C)
    (hb : ∀ pos, C _ (backfillBatch cfg p pos)) : C _ (backfillRound cfg p) := by
  refine hC.bind (hC.call (.getState _ rfl)) fun changes => ?_
  extract_lets hasInitialSync
  refine hC.bind (hC.call (.getState _ rfl)) fun position => ?_
  split
  · split
    · exact hC.bind (hC.call (.deleteState _ rfl)) fun _ => hC.pure _
    · refine hC.bind (hb _) fun r => ?_
      split
      · exact hC.bind (hC.call (.sleep _)) fun _ => hC.pure _
      · exact hC.bind (hC.call (.deleteState _ rfl)) fun _ =>
          hC.bind (hC.call (.deleteState _ rfl)) fun _ => hC.pure _
      · exact hC.bind (hC.call (.sleep _)) fun _ => hC.pure _
  · split
    · exact hC.pure _
    · exact hC.bind (hC.call (.sleep _)) fun _ => hC.pure _

theorem runBackfillLoop_batches (hC : Prog.Closed (fun _ o => RoundCmd p o.cmd) C)
    (hb : ∀ pos, C _ (backfillBatch cfg p pos)) : C _ (runBackfillLoop cfg p) :=
  hC.bind (hC.call (.sleep _)) fun _ =>
    hC.loop fun _ => hC.bind (backfillRound_closed hC hb) fun _ => hC.pure _

theorem runBackfillLoop_fetches (hC : Prog.Closed (fun _ o => PaceCmd p o.cmd) C)
    (hf : ∀ l, C _ (Act.andThen (fetchEmails p l) (processAll cfg p))) :
    C _ (runBackfillLoop cfg p) :=
  runBackfillLoop_batches (hC.mono fun _ _ => RoundCmd.pace)
    (backfillBatch_closed (hC.mono fun _ _ => PageCmd.pace) hf)

theorem fetched_closed (hC : Prog.Closed (fun _ o => ChangesCmd p o.cmd) C)
    (he : ∀ email, C _ (processEmail cfg p email)) (l : List EmailId) :
    C _ (Act.andThen (fetchEmails p l) (processAll cfg p)) := by
  refine hC.andThen (hC.call (.getEmail l)) fun emails => ?_
  refine hC.lift (hC.forEach emails fun email _ => hC.bind (he email) fun r => ?_)
  cases r with
  | ok _ => exact hC.pure ()
  | error _ => exact hC.call (.failed _)

theorem poll_closed (hC : Prog.Closed (fun _ o => PaceCmd p o.cmd) C)
    (hm : C _ (pollMailboxes cfg p)) (he : ∀ email, C _ (processEmail cfg p email)) :
    C _ (poll cfg p) := poll_fetches hC hm (fetched_closed (hC.mono fun _ _ => ChangesCmd.pace) he)

theorem runBackfillLoop_closed (hC : Prog.Closed (fun _ o => PaceCmd p o.cmd) C)
    (he : ∀ email, C _ (processEmail cfg p email)) : C _ (runBackfillLoop cfg p) :=
  runBackfillLoop_fetches hC (fetched_closed (hC.mono fun _ _ => ChangesCmd.pace) he)

end

end JmapBridge
