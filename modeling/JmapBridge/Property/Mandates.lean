import JmapBridge.Property.Deeds

/-! Who asked for it. What the bridge does to an account, and every image that it fetches, goes
back to a user who is permitted to have it done, and to what the store and that user's own
account told the task that does it. -/

namespace JmapBridge

open Effect Rust

variable {cfg : Config} {duties : Nat → Duty} {start : World} {t : Nat} {α : Type}

/-! The commands that need no mandate. -/

def Cmd.guarded (cfg : Config) : Cmd → Bool
  | jmap _ c => c.writes
  | matrix c => c.loads || c.shows cfg
  | store (.saveRoomGhostMapping _ _ _) => true
  | store (.saveMessageMapping _ _) => true
  | store (.saveThreadMappingAtomic _ _ _ _) => true
  | task (.spawn _) => true
  | _ => false

theorem Cmd.unguarded {c : Cmd} (hc : c.guarded cfg = false) :
    Unguarded (deedBook cfg duties start) t c.Ans (.mk c) := by
  intro log a b w
  show BridgeDeed.Mandated cfg duties log ⟨t, c, b⟩
  cases c with
  | store c =>
    cases c with
    | saveRoomGhostMapping => cases hc
    | saveMessageMapping => cases hc
    | saveThreadMappingAtomic => cases hc
    | _ => trivial
  | matrix c =>
    obtain ⟨hloads, hshows⟩ :=
      Bool.or_eq_false_iff.mp (show (c.loads || c.shows cfg) = false from hc)
    refine ⟨fun h => ?_, fun h => ?_⟩
    · rw [hloads] at h
      cases h
    · rw [hshows] at h
      cases h
  | jmap account c =>
    intro hw
    rw [show c.writes = false from hc] at hw
    cases hw
  | task c =>
    cases c with
    | spawn d => cases hc
    | _ => trivial

abbrev Tame (cfg : Config) (x : Prog Op α) : Prop := Does (fun c => c.guarded cfg = false) x

theorem Tame.unguarded {x : Prog Op α} (hx : Tame cfg x) :
    Prog.Only (Unguarded (deedBook cfg duties start) t) x := by
  refine Prog.Only.mono (fun β o h => ?_) hx
  obtain ⟨c⟩ := o
  exact Cmd.unguarded h

theorem ReadStateCmd.tame {user : UserId} {email : Option EmailId} {c : Cmd}
    (h : ReadStateCmd user email c) : c.guarded cfg = false := by
  cases h <;> rfl

theorem SpaceCmd.tame {user : UserId} {c : Cmd} (h : SpaceCmd user c) : c.guarded cfg = false := by
  cases h <;> rfl

theorem PaceCmd.tame {p : Poller} {c : Cmd} (h : PaceCmd p c) : c.guarded cfg = false := by
  cases h <;> rfl

theorem MailboxCmd.tame {p : Poller} {ids : EmailId → Prop} {c : Cmd} (h : MailboxCmd p ids c)
    (hoff : c.offBindings) : c.guarded cfg = false := by
  cases h with
  | contact c h =>
    cases h with
    | saveGhost => cases hoff
    | _ => rfl
  | _ => rfl

section

variable {account : Account} {room : RoomId} {e : QueuedEvent}

theorem botMessage_tame {body : EmailBody} {timestamp : Option Nat} :
    Tame cfg (sendMessageAs room body cfg.botUserId timestamp) := by
  have hshows : (cfg.botUserId != cfg.botUserId) = false := bne_self_eq_false _
  exact sendAsGhostJoining_does hshows rfl rfl

theorem notify_tame {msg : String} : Tame cfg (notify cfg room msg) :=
  .bind botMessage_tame fun _ => .pure

theorem answerMessage_tame {msg : String} : Tame cfg (answerMessage cfg e msg) :=
  .bind botMessage_tame fun _ => .pure

theorem sendReaction_tame {target : EventId} {key : String} :
    Tame cfg (sendReaction cfg room target key) := sendAsGhostJoining_does rfl rfl rfl

theorem takeHeld_tame : Tame cfg (takeHeld e) := by
  refine .bind (.result (.store rfl)) fun r => ?_
  split
  · exact .bind (.result (.matrix rfl)) fun _ => .bind (.result (.store rfl)) fun _ => .pure
  · exact .pure

theorem markSubmitted_tame : Tame cfg (markSubmitted cfg e) := by
  refine .bind takeHeld_tame fun held => ?_
  split
  · exact .bind sendReaction_tame fun _ => .pure
  · exact .pure

theorem handleUnresolved_tame {msg : OutboundMessage} : Tame cfg (handleUnresolved cfg msg) := by
  rw [handleUnresolved]
  split
  · refine .bind (.result botMessage_tame) fun _ => .bind (.result (.store rfl)) fun _ => ?_
    exact .bind takeHeld_tame fun _ => .bind sendReaction_tame fun _ => .pure
  · exact .bind (.result (.store rfl)) fun _ => .pure

theorem threadEmailIds_tame {thread : ThreadId} : Tame cfg (threadEmailIds account thread) := by
  refine .bind (.result (.jmap rfl)) fun r => ?_
  split
  · exact .pure
  · exact .pure

theorem mailboxIdForRole_tame {role : MailboxRole} : Tame cfg (mailboxIdForRole account role) :=
  .andThen (.jmap rfl) fun _ => .ok

theorem outgoingMailbox_tame : Tame cfg (outgoingMailbox account) := by
  refine .andThen mailboxIdForRole_tame fun sent => ?_
  split
  · exact .ok
  · exact .andThen mailboxIdForRole_tame fun _ => .ofOption

theorem primaryIdentity_tame : Tame cfg (primaryIdentity account) := by
  refine .bind (.result (.jmap rfl)) fun r => ?_
  split
  · exact .pure
  · exact .pure

theorem replyHeaders_tame {thread : ThreadId} : Tame cfg (replyHeaders account thread) := by
  refine .bind threadEmailIds_tame fun ids => ?_
  split
  · exact .pure
  · refine .bind (.result (.jmap rfl)) fun r => ?_
    split
    · exact .pure
    · exact .pure

theorem replyQuote_tame {thread : ThreadId} : Tame cfg (replyQuote account thread) := by
  refine .bind threadEmailIds_tame fun ids => ?_
  split
  · exact .pure
  · refine .bind (.result (.jmap rfl)) fun r => ?_
    split
    · exact .pure
    · exact .pure

theorem teardown_tame {role : MailboxRole} {ghostEmail : Option String} {had : Bool} :
    Tame cfg (teardown cfg room role ghostEmail had) := by
  refine .andThen (.andThen (.store rfl) fun _ => .store rfl) fun _ => ?_
  refine .andThen (.andThen (.bestEffort (.matrix rfl)) fun _ => ?_) fun _ => .lift notify_tame
  split
  · exact .bestEffort (.matrix rfl)
  · exact .ok

theorem roomThreadContext_tame : Tame cfg (roomThreadContext room) := by
  refine .andThen (.attempt (.store rfl)) fun r => ?_
  split
  · exact .andThen (.attempt (.store rfl)) fun _ => .andThen (.store rfl) fun _ => .ok
  · exact .ok

theorem eventThreadContext_tame {event : EventId} {parent : EmailId} :
    Tame cfg (eventThreadContext account room event parent) := by
  refine .andThen (.attempt (.store rfl)) fun r => ?_
  split
  · exact .andThen (.store rfl) fun _ => .andThen (.store rfl) fun _ => .ok
  · refine .andThen (.attempt (.jmap rfl)) fun r => ?_
    split
    · exact .andThen (.store rfl) fun _ => .andThen (.store rfl) fun _ => .ok
    · exact roomThreadContext_tame

theorem resolveThreadContext_tame {relation : Option Relation} :
    Tame cfg (resolveThreadContext account room relation) := by
  rw [resolveThreadContext]
  split
  · exact roomThreadContext_tame
  · refine .andThen (.attempt (.store rfl)) fun r => ?_
    split
    · exact eventThreadContext_tame
    · exact roomThreadContext_tame

theorem enqueueHeldSend_tame {body : String} {threadRoot : Option String}
    {files : Option (List AttachmentInfo)} :
    Tame cfg (enqueueHeldSend cfg e body threadRoot files) := by
  have hheld : Tame cfg (markHeld cfg e) := by
    refine .bind sendReaction_tame fun r => ?_
    split
    · exact .bind (.result (.store rfl)) fun _ => .pure
    · exact .pure
  refine .andThen (.lift (.bind (.result (.store rfl)) fun _ => .pure)) fun delay => ?_
  refine .andThen (.store rfl) fun _ => .lift ?_
  unfold showHeld
  split
  · refine .bind hheld fun _ => .bind (.result (.store rfl)) fun r => ?_
    split
    · exact .pure
    · exact .bind notify_tame fun _ => .bind (.result (.store rfl)) fun _ => .pure
  · exact .pure

theorem appendUserSignature_tame {user : UserId} {body : String} :
    Tame cfg (appendUserSignature user body) := by
  refine .bind (.result (.store rfl)) fun r => ?_
  split
  · exact .pure
  · exact .pure

theorem queueText_tame {body : String} {relation : Option Relation} :
    Tame cfg (queueText cfg e body relation) := by
  refine .andThen (.lift appendUserSignature_tame) fun signed => ?_
  refine .andThen (.lift (.task rfl)) fun client => ?_
  split
  · exact .lift answerMessage_tame
  · exact .andThen resolveThreadContext_tame fun _ => enqueueHeldSend_tame

theorem handleRedaction_tame {redacted : EventId} :
    Tame cfg (handleRedaction cfg room redacted) := by
  refine .bind (.result (.store rfl)) fun r => ?_
  split
  · exact notify_tame
  · exact .pure

theorem handleEdit_tame {target : EventId} {body : String} :
    Tame cfg (handleEdit cfg room target body) := by
  refine .bind (.result (.store rfl)) fun r => ?_
  split
  · exact notify_tame
  · exact .pure

theorem handleRoomMember_tame {sender target : UserId} {membership : Membership} :
    Tame cfg (handleRoomMember cfg sender room target membership) := by
  unfold handleRoomMember
  split
  · split
    · refine .andThen (.attempt (.matrix rfl)) fun joined => ?_
      split
      · split
        · exact .lift notify_tame
        · exact .ok
      · exact .ok
    · exact .ok
  · split
    · exact .ok
    · refine .andThen (.store rfl) fun ghostEmail => ?_
      split
      · exact .ok
      · refine .andThen (.lift (.task rfl)) fun client => ?_
        split
        · exact .lift notify_tame
        · exact .ok
  · exact .ok

theorem registerGhost_tame {address name : String} : Tame cfg (registerGhost cfg address name) := by
  refine .andThen (.matrix rfl) fun b => ?_
  split
  · exact .bestEffort (.matrix rfl)
  · exact .ok

theorem joinRealUser_tame {user : UserId} : Tame cfg (joinRealUser user room) :=
  .letSome (.store rfl) fun _ => .bind (.matrix rfl) fun _ => .pure

theorem ensureRoomInEmailSpace_tame {user : UserId} : Tame cfg (ensureRoomInEmailSpace user room) :=
  ensureRoomInEmailSpace_space.mono fun _ => SpaceCmd.tame

theorem repairEmailSpace_tame {user : UserId} : Tame cfg (repairEmailSpace user) := by
  refine .andThen (.store rfl) fun rooms => ?_
  split
  · exact .ok
  · refine .andThen (ensureEmailSpace_space.mono fun _ => SpaceCmd.tame) fun space => ?_
    exact .forEach _ fun room => .bestEffort (.andThen (.matrix rfl) fun _ => .matrix rfl)

theorem syncReadState_tame {p : Poller} {email : Email} : Tame cfg (syncReadState p email) :=
  syncReadState_does.mono fun _ => ReadStateCmd.tame

theorem pollMailboxes_tame {p : Poller} : Tame cfg (pollMailboxes cfg p) := by
  have hspace : Does (fun c => c.offBindings) (ensureEmailSpace p.user) :=
    ensureEmailSpace_space.mono fun c hc => by cases hc <;> rfl
  have hoff : Does (fun c => c.offBindings) (pollMailboxes cfg p) :=
    pollMailboxes_closed
      (Prog.only_closed.mono fun _ _ h => Cmd.plain.offBindings (Cmd.bland.plain h))
      hspace
  have hmailbox : Does (MailboxCmd p fun _ => True) (pollMailboxes cfg p) := pollMailboxes_does
  exact Prog.Only.mono (fun _ _ h => MailboxCmd.tame h.1 h.2) (hmailbox.and hoff)

theorem logout_tame {user : UserId} : Tame cfg (logout user) :=
  .andThen (.lift (.task rfl)) fun _ => .andThen (.store rfl) fun _ => .store rfl

end

theorem Call.tame {c : Call}
    (hc : (∃ user room, c = .fileRoom user room) ∨ (∃ user, c = .repairSpace user) ∨ c = .prune ∨
      ∃ user, c = .logout user) : Tame cfg (c.program cfg) := by
  rcases hc with ⟨user, room, rfl⟩ | ⟨user, rfl⟩ | rfl | ⟨user, rfl⟩
  · exact .bind ensureRoomInEmailSpace_tame fun _ => .pure
  · exact .bind repairEmailSpace_tame fun _ => .pure
  · have hround : Tame cfg pruneRound := .bind (.result (.store rfl)) fun _ => .task rfl
    exact Prog.only_closed.loop fun _ => Does.bind hround fun _ => .pure
  · exact .bind logout_tame fun _ => .pure

/-! What a task learns, and what it may do with it. -/

abbrev Dutiful (cfg : Config) (duties : Nat → Duty) (start : World) (t : Nat) (P : Deeds → Prop)
    (x : Prog Op α)
    (Q : α → Deeds → Prop) : Prop :=
  Careful (deedBook cfg duties start) (spawnedFirst duties) t P x Q

section

variable {P : Deeds → Prop} {account : Account} {room : RoomId} {sender : UserId}

theorem ActsOn.lasting {d : Detached} : Lasting fun deeds => ActsOn cfg duties deeds t d := by
  intro n deeds h
  cases h with
  | text htxn hmem huser hroom htask =>
    exact .text htxn hmem huser (List.mem_cons_of_mem _ hroom) htask
  | reaction htask hspawn htxn hreacts =>
    exact .reaction htask (List.mem_cons_of_mem _ hspawn) htxn hreacts

theorem performs {c : Cmd} (hP : Lasting P)
    (hc : ∀ deeds b, P deeds → BridgeDeed.Mandated cfg duties deeds ⟨t, c, b⟩) :
    Dutiful cfg duties start t P (Prog.call (.mk c)) fun b deeds => P deeds ∧ ⟨t, c, b⟩ ∈ deeds :=
  .call hP (fun _ => hP.and (.mem _)) (fun log _ b _ h => hc log b h)
    fun _ _ _ _ h => ⟨hP _ _ h, List.mem_cons_self⟩

theorem performs_store {c : StoreCmd} (hP : Lasting P)
    (hc : ∀ deeds b, P deeds → BridgeDeed.Mandated cfg duties deeds ⟨t, .store c, b⟩) :
    Dutiful cfg duties start t P (onStore c) (onOk fun _ => P) := by
  refine .post (performs (c := .store c) hP hc) fun r deeds h => ?_
  cases r with
  | ok _ => exact h.1
  | error err => trivial

theorem learns {c : Cmd} (hc : c.guarded cfg = false) (hP : Lasting P) :
    Dutiful cfg duties start t P (Prog.call (.mk c)) fun b deeds => P deeds ∧ ⟨t, c, b⟩ ∈ deeds :=
  .call hP (fun _ => hP.and (.mem _)) (fun log a b w _ => Cmd.unguarded hc log a b w)
    fun _ _ _ _ h => ⟨hP _ _ h, List.mem_cons_self⟩

theorem learns_store {c : StoreCmd} (hc : (Cmd.store c).guarded cfg = false) (hP : Lasting P) :
    Dutiful cfg duties start t P (onStore c)
      (onOk fun v deeds => P deeds ∧ ⟨t, .store c, .ok v⟩ ∈ deeds) := by
  refine .post (learns (c := .store c) hc hP) fun r deeds h => ?_
  cases r with
  | ok v => exact h
  | error err => trivial

theorem learns_matrix {c : MatrixCmd} (hc : (Cmd.matrix c).guarded cfg = false) (hP : Lasting P) :
    Dutiful cfg duties start t P (onMatrix c)
      (onOk fun v deeds => P deeds ∧ ⟨t, .matrix c, .ok v⟩ ∈ deeds) := by
  refine .post (learns (c := .matrix c) hc hP) fun r deeds h => ?_
  cases r with
  | ok v => exact h
  | error err => trivial

theorem learns_jmap {c : JmapCmd} (hc : c.writes = false) (hP : Lasting P) :
    Dutiful cfg duties start t P (onJmap account c)
      (onOk fun v deeds => P deeds ∧ ⟨t, .jmap account c, .ok v⟩ ∈ deeds) := by
  refine .post (learns (c := .jmap account c) hc hP) fun r deeds h => ?_
  cases r with
  | ok v => exact h
  | error err => trivial

theorem changes {c : JmapCmd} (hP : Lasting P)
    (hc : ∀ deeds, P deeds → Mandate cfg duties deeds t account c) :
    Dutiful cfg duties start t P (onJmap account c) fun _ => P :=
  .post (performs (c := .jmap account c) hP fun deeds _ h _ => hc deeds h) fun _ _ h => h.1

theorem tame_does {x : Prog Op α} (hx : Tame cfg x) :
    Dutiful cfg duties start t P x fun _ _ => True :=
  .forget ((Careful.closed (.const True)).of_only hx.unguarded)

theorem tame_keeps {x : Bridge α} (hP : Lasting P) (hx : Tame cfg x) :
    Dutiful cfg duties start t P x (onOk fun _ => P) := .quiet hP hx.unguarded

theorem tame_ends {x : Bridge α} (hx : Tame cfg x) :
    Dutiful cfg duties start t P x (onOk fun _ _ => True) :=
  .forget (tame_keeps (.const True) hx)

theorem ends {x : Prog Op α} {Q : α → Deeds → Prop} (hx : Dutiful cfg duties start t P x Q) :
    Dutiful cfg duties start t P x fun _ _ => True := .post hx fun _ _ _ => trivial

theorem ends_ok {x : Bridge α} {Q : Except Err α → Deeds → Prop}
    (hx : Dutiful cfg duties start t P x Q) :
    Dutiful cfg duties start t P x (onOk fun _ _ => True) :=
  .post hx fun r _ _ => by cases r <;> trivial

theorem attempt_ends {x : Bridge α} {Q : Except Err α → Deeds → Prop}
    (hx : Dutiful cfg duties start t P x Q) :
    Dutiful cfg duties start t P (Act.attempt x) (onOk fun _ _ => True) :=
  .bind (ends hx) fun _ => .pure (.const True) fun _ _ => trivial

theorem bestEffort_ends {x : Bridge α} {Q : Except Err α → Deeds → Prop}
    (hx : Dutiful cfg duties start t P x Q) :
    Dutiful cfg duties start t P (bestEffort x) (onOk fun _ _ => True) :=
  .bind (ends hx) fun _ => .pure (.const True) fun _ _ => trivial

theorem keeps {x : Prog Op α} {Q : α → Deeds → Prop} (hP : Lasting P)
    (hx : Dutiful cfg duties start t P x Q) : Dutiful cfg duties start t P x fun _ => P :=
  .post (Careful.frame hP hx |>.pre fun _ h => ⟨h, h⟩) fun _ _ h => h.2

/-! Thread actions. -/

theorem threadEmailIds_learns {thread : ThreadId} (hP : Lasting P) :
    Dutiful cfg duties start t P (threadEmailIds account thread) fun ids deeds => P deeds ∧
      (ids.isEmpty = false → ⟨t, .jmap account (.getThread thread), .ok (some ids)⟩ ∈ deeds) := by
  refine .bind (learns (c := .jmap account (.getThread thread)) rfl hP) fun r => ?_
  have hlast : Lasting fun deeds : Deeds => P deeds ∧
      ⟨t, .jmap account (.getThread thread), r⟩ ∈ deeds := hP.and (.mem _)
  cases r with
  | error err => exact .pure hlast fun deeds h => ⟨h.1, fun hne => by cases hne⟩
  | ok emails =>
    cases emails with
    | none => exact .pure hlast fun deeds h => ⟨h.1, fun hne => by cases hne⟩
    | some ids => exact .pure hlast fun deeds h => ⟨h.1, fun _ => h.2⟩

theorem mailboxIdForRole_learns {role : MailboxRole} (hP : Lasting P) :
    Dutiful cfg duties start t P (mailboxIdForRole account role) (onOk fun target deeds => P deeds ∧
      ∃ mailboxes : QueryReply, mailboxes.ids.head? = target ∧
        ⟨t, .jmap account (.queryMailboxRole role), .ok mailboxes⟩ ∈ deeds) :=
  .andThen (learns_jmap rfl hP) fun mailboxes =>
    .ok (hP.and (.mem _)) fun _ h => ⟨h.1, mailboxes, rfl, h.2⟩

theorem moveThreadToRole_dutiful {thread : ThreadId} {role : MailboxRole} (hP : Lasting P)
    (hmove : ∀ deeds mailboxes target emails, P deeds → mailboxes.ids.head? = some target →
      ⟨t, .jmap account (.queryMailboxRole role), .ok mailboxes⟩ ∈ deeds →
      ⟨t, .jmap account (.getThread thread), .ok (some emails)⟩ ∈ deeds →
      Mandate cfg duties deeds t account (.setMailboxIds emails target)) :
    Dutiful cfg duties start t P (moveThreadToRole account thread role) (onOk fun _ _ => True) := by
  refine .andThen (mailboxIdForRole_learns hP) fun target => ?_
  cases target with
  | none => exact tame_ends .ok
  | some target =>
    have hmailbox : Lasting fun deeds => P deeds ∧ ∃ mailboxes : QueryReply,
        mailboxes.ids.head? = some target ∧
          ⟨t, .jmap account (.queryMailboxRole role), .ok mailboxes⟩ ∈ deeds :=
      hP.and (.exists fun mailboxes => .and (.const _) (.mem _))
    refine .andThen (.lift (threadEmailIds_learns hmailbox) fun ids =>
      hmailbox.and (.imp (.mem _))) fun ids => ?_
    split
    case isTrue => exact tame_ends .ok
    case isFalse hne =>
      have hsome : ids.isEmpty = false := by simpa using hne
      have hset :
          Dutiful cfg duties start t _ (onJmap account (.setMailboxIds ids target)) fun _ => _ :=
        changes (hmailbox.and
          (.mem (⟨t, .jmap account (.getThread thread), .ok (some ids)⟩ : BridgeDeed)))
          fun deeds h => by
            obtain ⟨⟨hp, mailboxes, htarget, hrole⟩, hids⟩ := h
            exact hmove deeds mailboxes target ids hp htarget hrole hids
      refine .pre ?_ fun deeds h => And.intro h.1 (h.2 hsome)
      refine .andThen (R := fun _ _ => True) (.post hset fun r deeds _ => ?_) fun _ => tame_ends .ok
      cases r <;> trivial

theorem moveRoomThread_dutiful {role : MailboxRole} (hP : Lasting P)
    (hasked : ∀ deeds, P deeds → ActsOn cfg duties deeds t (.threadAction sender room role))
    (hclient : ∀ deeds, P deeds → LoggedIn deeds t sender account)
    (hlevel : (cfg.level sender).isSome) :
    Dutiful cfg duties start t P (moveRoomThread account room role) (onOk fun _ _ => True) := by
  refine .andThen (learns_store rfl hP) fun newest => ?_
  cases newest with
  | none => exact tame_ends .ok
  | some found =>
    obtain ⟨thread, root, subject⟩ := found
    have hmoved : Dutiful cfg duties start t (fun deeds => P deeds ∧
        ⟨t, .store (.getLatestThreadInRoom room), .ok (some (thread, root, subject))⟩ ∈ deeds)
        (moveThreadToRole account thread role) (onOk fun _ _ => True) :=
      moveThreadToRole_dutiful (hP.and (.mem _))
        fun deeds mailboxes target emails h htarget hrole hemails =>
          .move (hasked deeds h.1) hlevel (hclient deeds h.1) h.2 hrole htarget hemails
    exact .andThen (attempt_ends hmoved) fun _ => tame_ends .ok

theorem handleThreadAction_dutiful {role : MailboxRole} :
    Dutiful cfg duties start t
      (fun deeds => ActsOn cfg duties deeds t (.threadAction sender room role))
      (handleThreadAction cfg sender room role) (onOk fun _ _ => True) := by
  rw [handleThreadAction]
  split
  case isTrue => exact tame_ends .ok
  case isFalse hlevel =>
    have hlevel : (cfg.level sender).isSome := by simpa [Option.isSome_iff_ne_none] using hlevel
    refine .andThen (.lift (learns (c := .task (.getClient sender)) rfl ActsOn.lasting)
      fun _ => ActsOn.lasting.and (.mem _)) fun client => ?_
    cases client with
    | none => exact tame_ends (.lift notify_tame)
    | some account =>
      have hlast : Lasting fun deeds => ActsOn cfg duties deeds t (.threadAction sender room role) ∧
          LoggedIn deeds t sender account := ActsOn.lasting.and (.mem _)
      refine .andThen (tame_keeps hlast (.store rfl)) fun ghostEmail => ?_
      refine .andThen (moveRoomThread_dutiful hlast (fun _ h => h.1) (fun _ h => h.2) hlevel)
        fun moved => ?_
      cases moved with
      | none => exact tame_ends (.lift notify_tame)
      | some had => exact tame_ends teardown_tame

/-! The worker. -/

/-- Task `t` has sent the mail, which the server keeps as `emailId`. -/
def SentMail (deeds : Deeds) (t : Nat) (account : Account) (source : OutboundMessage)
    (emailId : EmailId) :
    Prop :=
  ∃ draft, draft.source = source ∧ ⟨t, .jmap account (.submitBatch draft),
    .ok { created := some emailId, submitted := true }⟩ ∈ deeds

theorem SentMail.lasting {source : OutboundMessage} {emailId : EmailId} :
    Lasting fun deeds => SentMail deeds t account source emailId := by
  rintro n deeds ⟨draft, hsource, hmem⟩
  exact ⟨draft, hsource, List.mem_cons_of_mem _ hmem⟩

theorem submit_dutiful {b : EmailBuilder} (hP : Lasting P)
    (hsend : ∀ deeds mailbox identity, P deeds →
      Mandate cfg duties deeds t account (.submitBatch (b.draft mailbox identity))) :
    Dutiful cfg duties start t P (submit account b)
      (onOk fun emailId deeds => P deeds ∧ SentMail deeds t account b.source emailId) := by
  refine .andThen (tame_keeps hP outgoingMailbox_tame) fun mailbox => ?_
  refine .andThen (tame_keeps hP (.lift primaryIdentity_tame)) fun identity => ?_
  generalize hdraft : b.draft mailbox (identity.getD (none, none, account)) = draft
  have hsource : draft.source = b.source := by rw [← hdraft]; rfl
  have hbatch : Dutiful cfg duties start t P (onJmap account (.submitBatch draft))
      fun r deeds => P deeds ∧ ⟨t, .jmap account (.submitBatch draft), r⟩ ∈ deeds :=
    performs (c := .jmap account (.submitBatch draft)) hP fun deeds _ h _ =>
      hdraft ▸ hsend deeds mailbox _ h
  have hreply : Dutiful cfg duties start t P (onJmap account (.submitBatch draft))
      (onOk fun reply deeds => P deeds ∧ ⟨t, .jmap account (.submitBatch draft),
        .ok reply⟩ ∈ deeds) := by
    refine .post hbatch fun r deeds h => ?_
    cases r with
    | ok reply => exact h
    | error err => trivial
  refine .andThen hreply fun reply => ?_
  obtain ⟨created, submitted⟩ := reply
  cases created with
  | none => exact .fail
  | some emailId =>
    cases submitted with
    | false => exact .fail
    | true => exact .ok (hP.and (.mem _)) fun deeds h => ⟨h.1, draft, hsource, h.2⟩

/-- A thread is bound to the room that its first mail was typed in, where the server tells it. -/
theorem mapComposedThread_dutiful {msg : OutboundMessage} {subject : String} {emailId : EmailId}
    (hworker : duties t = .call .worker) :
    Dutiful cfg duties start t (fun deeds => SentMail deeds t account msg emailId)
      (mapComposedThread account msg subject emailId) (onOk fun _ _ => True) := by
  have hasked : Dutiful cfg duties start t (fun deeds => SentMail deeds t account msg emailId)
      (Act.attempt (onJmap account (.getEmailThread emailId))) (onOk fun r deeds =>
        SentMail deeds t account msg emailId ∧
        ⟨t, .jmap account (.getEmailThread emailId), r⟩ ∈ deeds) :=
    .bind (learns (c := .jmap account (.getEmailThread emailId)) rfl SentMail.lasting) fun r =>
      .pure (SentMail.lasting.and (.mem _)) fun _ h => h
  refine .andThen hasked fun r => ?_
  match r with
  | .error err => exact tame_ends .ok
  | .ok none => exact tame_ends .ok
  | .ok (some thread) =>
    have hknown : Lasting fun deeds => SentMail deeds t account msg emailId ∧
        ⟨t, .jmap account (.getEmailThread emailId), .ok (some thread)⟩ ∈ deeds :=
      SentMail.lasting.and (.mem _)
    refine bestEffort_ends (performs_store hknown fun deeds _ h => ?_)
    obtain ⟨⟨draft, rfl, hsent⟩, hthread⟩ := h
    exact .composed hworker hsent hthread

theorem quotedBody_dutiful {thread : ThreadId} {body : String} (hP : Lasting P) :
    Dutiful cfg duties start t P (quotedBody cfg account thread body) fun text deeds =>
      P deeds ∧ QuotedFrom body text := by
  rw [quotedBody]
  split
  · refine .bind (R := fun _ => P) ((Careful.closed hP).of_only replyQuote_tame.unguarded)
      fun quote => ?_
    refine .pure hP fun deeds h => ⟨h, ?_⟩
    cases quote with
    | none => exact .inl rfl
    | some q => exact .inr ⟨q, rfl⟩
  · exact .pure hP fun deeds h => ⟨h, .inl rfl⟩

/-- The worker has the row from the queue, and knows its author's account and its recipient. -/
structure RowInHand (deeds : Deeds) (t : Nat) (msg : OutboundMessage) (account : Account)
    (email : String) : Prop where
  rows : ∃ rows, ⟨t, .store .getPendingOutbound, .ok rows⟩ ∈ deeds ∧ msg ∈ rows
  client : LoggedIn deeds t msg.matrixUserId account
  ghost : ⟨t, .store (.getGhostEmailByRoom msg.roomId), .ok (some email)⟩ ∈ deeds

theorem RowInHand.lasting {msg : OutboundMessage} {email : String} :
    Lasting fun deeds => RowInHand deeds t msg account email := by
  intro n deeds h
  obtain ⟨rows, hrows, hmem⟩ := h.rows
  exact ⟨⟨rows, List.mem_cons_of_mem _ hrows, hmem⟩, List.mem_cons_of_mem _ h.client,
    List.mem_cons_of_mem _ h.ghost⟩

theorem sendQueued_dutiful {msg : OutboundMessage} {email : String}
    (hworker : duties t = .call .worker) :
    Dutiful cfg duties start t (fun deeds => RowInHand deeds t msg account email)
      (sendQueued cfg account email msg) (onOk fun _ _ => True) := by
  have hsubmit : ∀ b : EmailBuilder, b.source = msg → b.toEmail = email →
      b.attachments = msg.attachments.getD [] →
      Dutiful cfg duties start t
        (fun deeds => RowInHand deeds t msg account email ∧ QuotedFrom msg.bodyText b.body)
        (submit account b) (onOk fun emailId deeds => SentMail deeds t account msg emailId) := by
    intro b hsource hto hfiles
    subst hsource hto
    refine .weaken
      (submit_dutiful (RowInHand.lasting.and (.const _)) fun deeds mailbox identity h => ?_)
      fun _ _ h => h.2
    obtain ⟨⟨⟨rows, hrows, hmem⟩, hclient, hghost⟩, hbody⟩ := h
    exact .send hworker hrows hmem hclient hghost hbody hfiles
  unfold sendQueued
  split
  case h_1 thread parent root hroot =>
    refine .andThen (tame_keeps RowInHand.lasting (.attempt (.store rfl))) fun stored => ?_
    refine .andThen (tame_keeps RowInHand.lasting (.lift (.task rfl))) fun _ => ?_
    refine .andThen (R := fun _ _ => True) ?_ fun _ => tame_ends .ok
    refine .andThen (tame_keeps RowInHand.lasting (.lift replyHeaders_tame)) fun headers => ?_
    refine .andThen (.lift (quotedBody_dutiful RowInHand.lasting) fun _ =>
      RowInHand.lasting.and (.const _))
      fun body => ?_
    exact .weaken (hsubmit (.mk msg email _ body _ _ (msg.attachments.getD [])) rfl rfl rfl)
      fun _ _ _ => trivial
  case h_2 =>
    refine .andThen (tame_keeps RowInHand.lasting (.attempt (.matrix rfl))) fun roomName => ?_
    refine .andThen (tame_keeps RowInHand.lasting (.lift (.task rfl))) fun _ => ?_
    refine .andThen ?_ fun emailId => mapComposedThread_dutiful hworker
    exact .pre (hsubmit (.mk msg email _ msg.bodyText _ _ (msg.attachments.getD [])) rfl rfl rfl)
      fun deeds h => ⟨h, .inl rfl⟩

theorem submitOne_dutiful {msg : OutboundMessage} (hworker : duties t = .call .worker) :
    Dutiful cfg duties start t
      (fun deeds => ∃ rows, ⟨t, .store .getPendingOutbound, .ok rows⟩ ∈ deeds ∧ msg ∈ rows)
      (submitOne cfg msg) fun _ _ => True := by
  have hrow : Lasting fun deeds : Deeds =>
      ∃ rows, ⟨t, .store .getPendingOutbound, .ok rows⟩ ∈ deeds ∧ msg ∈ rows :=
    .exists fun rows => .and (.mem _) (.const _)
  refine .bind (learns (c := .task (.getClient msg.matrixUserId)) rfl hrow) fun client => ?_
  cases client with
  | none => exact tame_does .pure
  | some account =>
    refine .bind (learns (c := .store (.getGhostEmailByRoom msg.roomId)) rfl (hrow.and (.mem _)))
      fun r => ?_
    match r with
    | .error err => exact tame_does .pure
    | .ok none => exact tame_does (.bind (.result (.store rfl)) fun _ => .pure)
    | .ok (some email) =>
      refine .pre ?_ fun deeds h => (⟨h.1.1, h.1.2, h.2⟩ : RowInHand deeds t msg account email)
      refine .bind (ends (sendQueued_dutiful hworker)) fun sent => ?_
      cases sent with
      | error err => exact tame_does .pure
      | ok _ =>
        exact tame_does
          (.bind (.result (.store rfl)) fun _ => .bind markSubmitted_tame fun _ => .pure)

theorem runRetryLoop_dutiful (hworker : duties t = .call .worker) :
    Dutiful cfg duties start t (fun _ => True) (runRetryLoop cfg) fun _ _ => True := by
  have hround : Dutiful cfg duties start t (fun _ => True) (retryRound cfg) fun _ _ => True := by
    refine .bind (tame_does (.task rfl)) fun _ => ?_
    refine .bind (learns (c := .store .getPendingOutbound) rfl (.const True)) fun r => ?_
    cases r with
    | error err => exact tame_does .pure
    | ok rows =>
      have hrows : Lasting fun deeds : Deeds =>
          True ∧ ⟨t, .store .getPendingOutbound, .ok rows⟩ ∈ deeds := .and (.const True) (.mem _)
      refine ends ((Careful.closed (B := deedBook cfg duties start) (D := spawnedFirst duties)
        (t := t) hrows).forEach rows fun msg hmsg => keeps hrows (Q := fun _ _ => True) ?_)
      refine .bind (submitOne_dutiful hworker |>.pre fun deeds h => ⟨rows, h.2, hmsg⟩)
        fun resolved => ?_
      refine tame_does (.bind ?_ fun _ => .task rfl)
      split
      · exact .pure
      · exact handleUnresolved_tame
  refine (Careful.closed (B := deedBook cfg duties start) (D := spawnedFirst duties)
    (t := t) (.const True)).loop fun _ => ?_
  exact .bind hround fun _ => tame_does .pure

/-! Receipts and flags. -/

theorem syncReceipts_dutiful {txnId : TransactionId} {txn : MatrixTransaction}
    {receipts : List ReadReceipt} {receipt : ReadReceipt}
    (htxn : duties t = .call (.transaction txnId txn)) (hreceipts : receipts ∈ txn.ephemeral)
    (hreceipt : receipt ∈ receipts) :
    Dutiful cfg duties start t (fun _ => True) (syncReceipts receipt) (onOk fun _ _ => True) := by
  refine .andThen (learns_store rfl (.const True)) fun email => ?_
  cases email with
  | none => exact tame_ends .ok
  | some email =>
    have hemail : Lasting fun deeds : Deeds => True ∧
        ⟨t, .store (.getEmailIdFromEventId receipt.event), .ok (some email)⟩ ∈ deeds :=
      .and (.const True) (.mem _)
    refine .weaken (.actForEach hemail receipt.readers fun user huser => ?_) fun _ _ _ => trivial
    refine .andThen (learns_store rfl hemail) fun row => ?_
    cases row with
    | none => exact .ok (hemail.and (.mem _)) fun deeds h => h.1
    | some row =>
      have hrow := hemail.and (.mem (⟨t, .store (.getUser user), .ok (some row)⟩ : BridgeDeed))
      refine .andThen (.lift (learns (c := .task (.getClient user)) rfl hrow) fun _ =>
        hrow.and (.mem _)) fun client => ?_
      cases client with
      | none => exact .ok (hrow.and (.mem _)) fun deeds h => h.1.1
      | some account =>
        have hclient := hrow.and (.mem (⟨t, .task (.getClient user), some account⟩ : BridgeDeed))
        refine .bind (changes hclient fun deeds h => ?_) fun _ => .pure hclient fun deeds h => h.1.1
        exact .read htxn hreceipts hreceipt huser h.1.2 h.2 h.1.1.2

theorem syncMarkedUnread_dutiful {user : UserId} {joined : JoinedRooms}
    {events : List AccountDataEvent} {unread : Bool} (hduty : duties t = .markedUnread user joined)
    (hroom : (room, some events) ∈ joined) (hflag : parseMarkedUnread events = some unread) :
    Dutiful cfg duties start t (fun _ => True) (syncMarkedUnread user room unread)
      (onOk fun _ _ => True) := by
  refine .andThen (tame_keeps (.const True) (.attempt (.store rfl))) fun gated => ?_
  split
  · exact tame_ends .ok
  · exact tame_ends (.store rfl)
  case h_3 haction =>
    obtain rfl : unread = true := by
      cases hgated : isOkSome gated <;> cases unread <;> simp [hgated, unreadAction] at haction ⊢
    refine .andThen (learns_store rfl (.const True)) fun latest => ?_
    cases latest with
    | none => exact tame_ends .ok
    | some email =>
      have hemail : Lasting fun deeds : Deeds => True ∧
          ⟨t, .store (.getLatestEmailIdByRoom room), .ok (some email)⟩ ∈ deeds :=
        .and (.const True) (.mem _)
      refine .andThen (.lift (learns (c := .task (.getClient user)) rfl hemail) fun _ =>
        hemail.and (.mem _)) fun client => ?_
      cases client with
      | none => exact tame_ends .ok
      | some account =>
        have hclient := hemail.and (.mem (⟨t, .task (.getClient user), some account⟩ : BridgeDeed))
        refine .andThen (ends_ok (changes hclient fun deeds h => ?_)) fun _ =>
          tame_ends (.store rfl)
        exact .unread hduty hroom hflag h.2 h.1.2

theorem handleMarkedUnread_dutiful {user : UserId} {joined : JoinedRooms}
    (hduty : duties t = .markedUnread user joined) :
    Dutiful cfg duties start t (fun _ => True) (handleMarkedUnread user joined) fun _ _ =>
      True := by
  refine Careful.closed (.const True) |>.forEach joined fun data hdata => ?_
  obtain ⟨room, events⟩ := data
  unfold handleRoomData
  split
  · exact tame_does .pure
  case h_2 unread hparsed =>
    obtain ⟨found, hevents, hflag⟩ := Option.bind_eq_some_iff.mp hparsed
    obtain rfl : events = some found := hevents
    exact .bind (ends (syncMarkedUnread_dutiful hduty hdata hflag)) fun _ => tame_does .pure

/-! Images. -/

theorem fetchImages_dutiful {ghost : UserId} (hP : Lasting P) (urls : List String)
    (hfetch : ∀ url ∈ urls, ∀ deeds, P deeds →
      ImageMandate cfg duties deeds t (.fetchAndUpload ghost url)) :
    Dutiful cfg duties start t P (fetchImages ghost urls) fun loaded deeds => P deeds ∧
      ∀ p ∈ loaded, ⟨t, .matrix (.fetchAndUpload ghost p.1), .ok p.2⟩ ∈ deeds := by
  induction urls with
  | nil => exact .pure hP fun deeds h => ⟨h, fun p hp => by cases hp⟩
  | cons url urls ih =>
    have hfetched :
        Dutiful cfg duties start t P (onMatrix (.fetchAndUpload ghost url)) fun r deeds =>
        P deeds ∧ ⟨t, .matrix (.fetchAndUpload ghost url), r⟩ ∈ deeds :=
      performs (c := .matrix (.fetchAndUpload ghost url)) hP fun deeds _ h =>
        ⟨fun _ => hfetch url List.mem_cons_self deeds h, fun hshows => by cases hshows⟩
    refine .bind hfetched fun r => ?_
    have hrest := Careful.frame (.mem (⟨t, .matrix (.fetchAndUpload ghost url), r⟩ : BridgeDeed))
      (ih fun u hu => hfetch u (List.mem_cons_of_mem _ hu))
    refine .bind hrest fun rest => ?_
    refine .pure (.and (.and hP fun n deeds h p hp => List.mem_cons_of_mem _ (h p hp)) (.mem _))
      fun deeds h => ⟨h.1.1, fun p hp => ?_⟩
    rcases List.mem_append.mp hp with hp | hp
    · cases r with
      | error err => simp [Except.toOption] at hp
      | ok mxc =>
        obtain rfl : p = (url, mxc) := by simpa [Except.toOption] using hp
        exact h.2
    · exact h.1.2 p hp

theorem sendAsGhostJoining_learns {ghost : UserId} {content : Content} {timestamp : Option Nat}
    (hP : Lasting P) (hsend : ∀ deeds b, P deeds → BridgeDeed.Mandated cfg duties deeds
      ⟨t, .matrix (.sendAsGhost room ghost content timestamp), b⟩) :
    Dutiful cfg duties start t P (sendAsGhostJoining room ghost content timestamp)
      (onOk fun event deeds => P deeds ∧
        ⟨t, .matrix (.sendAsGhost room ghost content timestamp), .ok event⟩ ∈ deeds) := by
  have hpost : Dutiful cfg duties start t P (onMatrix (.sendAsGhost room ghost content timestamp))
      fun r deeds => P deeds ∧
      ⟨t, .matrix (.sendAsGhost room ghost content timestamp), r⟩ ∈ deeds :=
    performs (c := .matrix (.sendAsGhost room ghost content timestamp)) hP hsend
  have hfirst : Dutiful cfg duties start t P
      (Act.attempt (onMatrix (.sendAsGhost room ghost content timestamp))) (onOk fun r deeds =>
        P deeds ∧ ⟨t, .matrix (.sendAsGhost room ghost content timestamp), r⟩ ∈ deeds) :=
    .bind hpost fun r => .pure (hP.and (.mem _)) fun _ h => h
  refine .andThen hfirst fun r => ?_
  split
  · exact .ok (hP.and (.mem _)) fun _ h => h
  · refine .pre (A := P) ?_ fun _ h => h.1
    refine .andThen (tame_keeps hP (.bestEffort (.matrix rfl))) fun _ => ?_
    refine .andThen (tame_keeps hP (.matrix rfl)) fun _ => .post hpost fun r deeds h => ?_
    cases r with
    | ok event => exact h
    | error err => trivial
  · exact .fail

theorem inlineEmailImages_dutiful {target : EventId} {ghost : UserId} {html plain : String}
    (hP : Lasting P)
    (hload : ∀ deeds, P deeds → MayLoad cfg duties deeds t room target ghost html plain) :
    Dutiful cfg duties start t P (inlineEmailImages cfg room target ghost html plain)
      (onOk fun _ _ => True) := by
  have hloaded : ∀ loaded : List (String × String), Lasting fun deeds => P deeds ∧
      ∀ p ∈ loaded, ⟨t, .matrix (.fetchAndUpload ghost p.1), .ok p.2⟩ ∈ deeds := fun loaded =>
    hP.and fun n deeds h p hp => List.mem_cons_of_mem _ (h p hp)
  refine .andThen (.lift (fetchImages_dutiful hP _ fun url hurl deeds h =>
    .fetch (hload deeds h) hurl) hloaded) fun loaded => ?_
  split
  · exact tame_ends .ok
  · refine .andThen (sendAsGhostJoining_learns (hloaded loaded) fun deeds _ h => ?_) fun _ =>
      tame_ends .ok
    refine ⟨fun _ => ?_, fun hshows => by cases hshows⟩
    exact .edit (hload deeds h.1) fun url mxc hmem => h.2 (url, mxc) hmem

theorem loadImagesOf_dutiful {target : EventId} {email : EmailId} {ghostEmail : String}
    (hP : Lasting P) (hload : ∀ deeds html plain rest, P deeds →
      ⟨t, .jmap account (.getBodies email), .ok ((some html, plain) :: rest)⟩ ∈ deeds →
      MayLoad cfg duties deeds t room target (cfg.ghostUserId ghostEmail) html plain) :
    Dutiful cfg duties start t P (loadImagesOf cfg account email room target ghostEmail)
      (onOk fun _ _ => True) := by
  refine .andThen (learns_jmap rfl hP) fun bodies => ?_
  split
  case h_1 html plain hhead =>
    obtain ⟨rest, rfl⟩ := List.head?_eq_some_iff.mp hhead
    exact inlineEmailImages_dutiful (hP.and (.mem _)) fun deeds h =>
      hload deeds html plain rest h.1 h.2
  case h_2 => exact tame_ends .ok

theorem handleLoadImages_dutiful {target : EventId} :
    Dutiful cfg duties start t
      (fun deeds => ActsOn cfg duties deeds t (.loadImages sender room target))
      (handleLoadImages cfg sender room target) (onOk fun _ _ => True) := by
  rw [handleLoadImages]
  split
  case isTrue => exact tame_ends .ok
  case isFalse hlevel =>
    have hlevel : (cfg.level sender).isSome := by simpa [Option.isSome_iff_ne_none] using hlevel
    refine .andThen (learns_store rfl ActsOn.lasting) fun email => ?_
    cases email with
    | none => exact tame_ends .ok
    | some email =>
      have hemail :
          Lasting fun deeds => ActsOn cfg duties deeds t (.loadImages sender room target) ∧
          ⟨t, .store (.getEmailIdFromEventId target), .ok (some email)⟩ ∈ deeds :=
        ActsOn.lasting.and (.mem _)
      refine .andThen (learns_store rfl hemail) fun ghostEmail => ?_
      cases ghostEmail with
      | none => exact tame_ends .ok
      | some ghostEmail =>
        have hghost := hemail.and
          (.mem (⟨t, .store (.getGhostEmailByRoom room), .ok (some ghostEmail)⟩ : BridgeDeed))
        refine .andThen (.lift (learns (c := .task (.getClient sender)) rfl hghost) fun _ =>
          hghost.and (.mem _)) fun client => ?_
        cases client with
        | none => exact tame_ends .ok
        | some account =>
          exact loadImagesOf_dutiful (hghost.and (.mem _)) fun deeds html plain rest h hbody =>
            .intro h.1.1.1 hlevel h.1.1.2 h.1.2 h.2 hbody

/-! Transactions. -/

theorem handleGhostOutbound_dutiful {txnId : TransactionId} {txn : MatrixTransaction}
    {e : QueuedEvent} {body ghost : String} {relation : Option Relation}
    (htxn : duties t = .call (.transaction txnId txn))
    (hmem : .message e.user e.room e.event body none relation ∈ txn.events)
    (huser : isBridgeUser e.user = false) :
    Dutiful cfg duties start t (fun deeds => True ∧
        ⟨t, .store (.getGhostEmailByRoom e.room), .ok (some ghost)⟩ ∈ deeds)
      (handleGhostOutbound cfg e body relation) (onOk fun _ _ => True) := by
  unfold handleGhostOutbound
  split
  case h_1 hparsed =>
    rw [handleShowImages]
    split
    · exact tame_ends .ok
    · split
      · exact tame_ends (.lift notify_tame)
      case h_2 target htarget =>
        refine .pre handleLoadImages_dutiful fun deeds h => .text htxn hmem huser h.2 ?_
        simp [commandTask, hparsed, htarget]
  case h_2 hparsed =>
    refine .pre handleThreadAction_dutiful fun deeds h => .text htxn hmem huser h.2 ?_
    simp [commandTask, hparsed]
  case h_3 hparsed =>
    refine .pre handleThreadAction_dutiful fun deeds h => .text htxn hmem huser h.2 ?_
    simp [commandTask, hparsed]
  case h_4 => exact tame_ends queueText_tame

theorem handleGhostMediaOutbound_dutiful {txnId : TransactionId} {txn : MatrixTransaction}
    {e : QueuedEvent} {body media ghost : String} {relation : Option Relation}
    (htxn : duties t = .call (.transaction txnId txn))
    (hmem : .message e.user e.room e.event body (some media) relation ∈ txn.events)
    (huser : isBridgeUser e.user = false) :
    Dutiful cfg duties start t (fun deeds => True ∧
        ⟨t, .store (.getGhostEmailByRoom e.room), .ok (some ghost)⟩ ∈ deeds)
      (handleGhostMediaOutbound cfg e media relation) (onOk fun _ _ => True) := by
  have hroom : Lasting fun deeds : Deeds => True ∧
      ⟨t, .store (.getGhostEmailByRoom e.room), .ok (some ghost)⟩ ∈ deeds :=
        .and (.const True) (.mem _)
  refine .andThen (.lift (learns (c := .task (.getClient e.user)) rfl hroom) fun _ =>
    hroom.and (.mem _)) fun client => ?_
  cases client with
  | none => exact tame_ends (.lift answerMessage_tame)
  | some account =>
    have hclient := hroom.and (.mem (⟨t, .task (.getClient e.user), some account⟩ : BridgeDeed))
    have hupload :
        Dutiful cfg duties start t _ (onJmap account (.uploadMatrixMedia media)) fun _ => _ :=
      changes hclient fun deeds h => .upload htxn hmem huser h.1.2 h.2
    refine .andThen (R := fun _ _ => True) (.bind (ends hupload) fun r =>
      .pure (.const True) fun _ _ => trivial) fun r => ?_
    cases r with
    | error err => exact tame_ends (.andThen (.lift answerMessage_tame) fun _ => .fail)
    | ok info => exact tame_ends (.andThen resolveThreadContext_tame fun _ => enqueueHeldSend_tame)

theorem handleMessage_dutiful {txnId : TransactionId} {txn : MatrixTransaction} {e : QueuedEvent}
    {body : String} {media : Option String} {relation : Option Relation}
    (htxn : duties t = .call (.transaction txnId txn))
    (hmem : .message e.user e.room e.event body media relation ∈ txn.events)
    (huser : isBridgeUser e.user = false) :
    Dutiful cfg duties start t (fun _ => True) (handleMessage cfg e body media relation)
      (onOk fun _ _ => True) := by
  refine .andThen (learns_store rfl (.const True)) fun ghost => ?_
  cases ghost with
  | none => exact tame_ends (.lift (.task rfl))
  | some ghost =>
    refine .andThen (R := fun _ _ => True) ?_ fun handled => tame_ends ?_
    · cases media with
      | none =>
        apply attempt_ends
        apply handleGhostOutbound_dutiful htxn hmem huser
      | some uri =>
        apply attempt_ends
        apply handleGhostMediaOutbound_dutiful htxn hmem huser
    · split
      · split
        · exact .fail
        · exact .ok
      · exact .ok

theorem handleEvent_dutiful {txnId : TransactionId} {txn : MatrixTransaction} {ev : MatrixEvent}
    (htxn : duties t = .call (.transaction txnId txn)) (hmem : ev ∈ txn.events) :
    Dutiful cfg duties start t (fun _ => True) (handleEvent cfg ev) (onOk fun _ _ => True) := by
  unfold handleEvent
  split
  · exact tame_ends (.bestEffort handleRoomMember_tame)
  · unfold handleMessageLike
    split
    · exact tame_ends .ok
    case isFalse huser =>
      have huser : isBridgeUser ev.sender = false := by simpa using huser
      split
      case h_1 sender room target key _ _ =>
        refine .lift (R := fun _ _ => True) ?_ fun _ => .const True
        unfold handleReaction
        split
        case h_1 task htask =>
          exact .call (.const True) (fun _ => .const True)
            (fun deeds _ _ _ _ => ⟨txnId, txn, htxn, sender, room, target, key, hmem, huser, htask⟩)
            fun _ _ _ _ _ => trivial
        · exact tame_does .pure
      · exact tame_ends .ok
      · exact tame_ends (.lift handleRedaction_tame)
      · exact tame_ends (.lift handleEdit_tame)
      · exact handleMessage_dutiful htxn hmem huser
      · exact tame_ends .ok

theorem handleTransactions_dutiful {txnId : TransactionId} {txn : MatrixTransaction}
    (htxn : duties t = .call (.transaction txnId txn)) :
    Dutiful cfg duties start t (fun _ => True) (handleTransactions cfg txnId txn) fun _ _ =>
      True := by
  have hprocess : Dutiful cfg duties start t (fun _ => True) (processTransaction cfg txn)
      (onOk fun _ _ => True) := by
    refine .andThen (.actForEach (.const True) txn.ephemeral fun receipts hreceipts => ?_) fun _ =>
      .actForEach (.const True) txn.events fun ev hev => handleEvent_dutiful htxn hev
    refine .bind (ends (.actForEach (.const True) receipts fun receipt hreceipt =>
      syncReceipts_dutiful htxn hreceipts hreceipt)) fun _ => tame_ends .ok
  refine .bind (tame_does (.result (.store rfl))) fun r => ?_
  split
  · exact tame_does (.task rfl)
  · exact tame_does (.task rfl)
  · refine .bind (ends hprocess) fun processed => tame_does ?_
    unfold concludeTransaction
    split
    · exact .task rfl
    · split
      · exact .bind (.result (.store rfl)) fun _ => .task rfl
      · exact .task rfl

theorem detached_dutiful {d : Detached} :
    Dutiful cfg duties start t (fun deeds => ActsOn cfg duties deeds t d) (ignore (d.program cfg))
      fun _ _ => True := by
  refine .bind (R := fun _ _ => True) ?_ fun _ => tame_does .pure
  cases d with
  | loadImages sender room target => exact ends handleLoadImages_dutiful
  | threadAction sender room role => exact ends handleThreadAction_dutiful

end

end JmapBridge
