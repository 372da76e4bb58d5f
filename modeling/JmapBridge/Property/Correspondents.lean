import JmapBridge.Property.Mandates

/-! Mail that comes in, the commands of the bot, and what follows for every run: whatever tasks
interleave or are cut off, and whatever the servers answer, an account is changed, an image
fetched and a mail sent only with its mandate. -/

namespace JmapBridge

open Effect Rust

variable {cfg : Config} {duties : Nat → Duty} {start : World} {t : Nat} {P : Deeds → Prop}
  {account : Account}

/-! ### Mail that comes in -/

section

variable {p : Poller} {email : Email}

theorem ReadsMail.lasting {user : UserId} :
    Lasting fun deeds => ReadsMail duties deeds t user account := by
  intro n deeds h
  cases h with
  | poll hpoll => exact .poll hpoll
  | backfill hbackfill => exact .backfill hbackfill
  | asked hbot hsender hclient => exact .asked hbot hsender (List.mem_cons_of_mem _ hclient)

theorem MailInHand.lasting {user : UserId} {address : String} :
    Lasting fun deeds => MailInHand duties deeds t user email address := by
  intro n deeds h
  obtain ⟨⟨account, ids, emails, hreads, hemails, hmem⟩, ⟨emailId, hid, hunmapped⟩, hsender,
    own, hown,
    hskip⟩ := h
  exact ⟨⟨account, ids, emails, ReadsMail.lasting n deeds hreads,
    List.mem_cons_of_mem _ hemails, hmem⟩,
    ⟨emailId, hid, List.mem_cons_of_mem _ hunmapped⟩, hsender, own,
    List.mem_cons_of_mem _ hown, hskip⟩

theorem MailInHand.correspondent {user : UserId} {address : String} {deeds : Deeds}
    (h : MailInHand duties deeds t user email address) :
      Correspondent cfg duties deeds user address := by
  obtain ⟨account, ids, emails, hreads, hemails, hmem⟩ := h.read
  exact .wrote hreads hemails hmem h.sender

theorem MadeRoom.lasting {user : UserId} {address : String} {room : RoomId} :
    Lasting fun deeds => MadeRoom deeds t user address room := .exists fun _ => .mem _

theorem GivenRoom.lasting {user : UserId} {address : String} {thread : ThreadId} {room : RoomId} :
    Lasting fun deeds => GivenRoom deeds t user address thread room := by
  intro n deeds h
  cases h with
  | found h => exact .found (List.mem_cons_of_mem _ h)
  | made h => exact .made (MadeRoom.lasting n deeds h)

theorem createContactRoom_dutiful {user : UserId} {address name : String} (hP : Lasting P)
    (hknown : ∀ deeds, P deeds → Correspondent cfg duties deeds user address) :
    Dutiful cfg duties start t P (createContactRoom cfg user address name)
      (onOk fun room deeds => P deeds ∧ MadeRoom deeds t user address room) := by
  refine .andThen (tame_keeps hP registerGhost_tame) fun _ => ?_
  refine .andThen (learns_matrix rfl hP) fun room => ?_
  have hmade : Lasting fun deeds => P deeds ∧ MadeRoom deeds t user address room :=
    hP.and MadeRoom.lasting
  have hbound :
      Dutiful cfg duties start t (fun deeds => P deeds ∧ MadeRoom deeds t user address room)
      (onStore (.saveRoomGhostMapping room address user))
      (onOk fun _ deeds => P deeds ∧ MadeRoom deeds t user address room) :=
    performs_store hmade fun deeds _ h => And.intro h.2 (hknown deeds h.1)
  refine .pre (A := fun deeds => P deeds ∧ MadeRoom deeds t user address room) ?_ fun _ h =>
    ⟨h.1, name, h.2⟩
  refine .andThen hbound fun _ =>
    .andThen (tame_keeps hmade (.bestEffort (.matrix rfl))) fun _ => ?_
  refine .andThen (tame_keeps hmade (.lift joinRealUser_tame)) fun _ => ?_
  exact .andThen (tame_keeps hmade (.bestEffort ensureRoomInEmailSpace_tame)) fun _ =>
    .ok hmade fun _ h => h

/-! A mail is shown in the room that the task has been given for it. -/

section

variable {address : String} {thread : ThreadId} {room : RoomId} {emailId : EmailId}
    {event : EventId}

theorem PostedMail.lasting :
    Lasting fun deeds => PostedMail cfg deeds t room email address event := .mem _

theorem postMail_learns (hthread : email.threadId = some thread) (hP : Lasting P)
    (hmail : ∀ deeds, P deeds → MailInHand duties deeds t p.user email address)
    (hroom : ∀ deeds, P deeds → GivenRoom deeds t p.user address thread room) :
    Dutiful cfg duties start t P
      (sendMessageAs room (EmailBody.fromEmail cfg email) (cfg.ghostUserId address) email.timestamp)
      (onOk fun event deeds => P deeds ∧ PostedMail cfg deeds t room email address event) :=
  sendAsGhostJoining_learns hP fun deeds _ h =>
    And.intro (fun hloads => by cases hloads) fun _ =>
      MailMandate.message (hmail deeds h) hthread (hroom deeds h)

theorem saveMessage_dutiful (hid : email.id = some emailId) (hP : Lasting P)
    (hmail : ∀ deeds, P deeds → MailInHand duties deeds t p.user email address)
    (hposted : ∀ deeds, P deeds → PostedMail cfg deeds t room email address event) :
    Dutiful cfg duties start t P (onStore (.saveMessageMapping emailId event)) (onOk fun _ => P) :=
  performs_store hP fun deeds _ h =>
    ⟨p.user, email, address, room, hmail deeds h, hid, hposted deeds h⟩

theorem bridgeAttachment_dutiful {part : EmailBodyPart} (hpart : part ∈ email.attachments.getD [])
    (hthread : email.threadId = some thread) (hP : Lasting P)
    (hmail : ∀ deeds, P deeds → MailInHand duties deeds t p.user email address)
    (hroom : ∀ deeds, P deeds → GivenRoom deeds t p.user address thread room)
    (hposted : ∀ deeds, P deeds → PostedMail cfg deeds t room email address event) :
    Dutiful cfg duties start t P
      (bridgeAttachment p part room (cfg.ghostUserId address) email.timestamp)
        (onOk fun _ => P) := by
  refine .andThen (.ofOption hP) fun blob => ?_
  split
  case isTrue => exact .fail
  case isFalse hsize =>
    have hblob : Lasting fun deeds => P deeds ∧ part.blobId = some blob := hP.and (.const _)
    refine .andThen (learns_store rfl hblob) fun found => ?_
    refine .andThen (.ofOption (hblob.and (.mem _))) fun row => ?_
    have hrow : Lasting fun deeds : Deeds => ((P deeds ∧ part.blobId = some blob) ∧
        ⟨t, .store (.getUser p.user), .ok found⟩ ∈ deeds) ∧ found = some row :=
      (hblob.and (.mem _)).and (.const _)
    refine .andThen (learns_matrix rfl hrow) fun _ => ?_
    refine .andThen (learns_matrix rfl (hrow.and (.mem _))) fun mxc => ?_
    refine .weaken
      (sendAsGhostJoining_learns ((hrow.and (.mem _)).and (.mem _)) fun deeds _ h => ?_)
      fun _ deeds h => h.1.1.1.1.1.1
    obtain ⟨⟨⟨⟨⟨hp, hblob⟩, hfound⟩, rfl⟩, hdownload⟩, hupload⟩ := h
    exact And.intro
      (fun hloads => by cases hloads) fun _ => MailMandate.file (hmail deeds hp) hthread
      (hroom deeds hp) (hposted deeds hp) hpart hblob
        (Nat.le_of_not_lt hsize) hfound hdownload hupload

theorem handleAttachments_dutiful (hthread : email.threadId = some thread) (hP : Lasting P)
    (hmail : ∀ deeds, P deeds → MailInHand duties deeds t p.user email address)
    (hroom : ∀ deeds, P deeds → GivenRoom deeds t p.user address thread room)
    (hposted : ∀ deeds, P deeds → PostedMail cfg deeds t room email address event) :
    Dutiful cfg duties start t P
      (handleAttachments p email room (cfg.ghostUserId address) email.timestamp)
        (onOk fun _ => P) := by
  refine .actForEach hP _ fun part hpart => ?_
  refine .andThen (R := fun _ => P)
    (.bind (keeps hP (bridgeAttachment_dutiful hpart hthread hP hmail
    hroom hposted)) fun _ => .pure hP fun _ h => h) fun r => ?_
  split
  · exact tame_keeps hP (.bestEffort (.store rfl))
  · exact .ok hP fun _ h => h

theorem processReply_dutiful (hthread : email.threadId = some thread) (hP : Lasting P)
    (hmail : ∀ deeds, P deeds → MailInHand duties deeds t p.user email address)
    (hroom : ∀ deeds, P deeds → GivenRoom deeds t p.user address thread room) :
    Dutiful cfg duties start t P
      (processReply p email ⟨address, cfg.ghostUserId address⟩ (EmailBody.fromEmail cfg email) room)
      (onOk fun _ _ => True) := by
  refine .andThen (postMail_learns hthread hP hmail hroom) fun event => ?_
  have hlast : Lasting fun deeds => P deeds ∧ PostedMail cfg deeds t room email address event :=
    hP.and PostedMail.lasting
  split
  case h_2 => exact tame_ends .ok
  case h_1 threadId emailId _ hid =>
    refine .andThen
      (saveMessage_dutiful hid hlast (fun deeds h => hmail deeds h.1) fun deeds h => h.2)
      fun _ => ?_
    refine .andThen (tame_keeps hlast (.bestEffort (.store rfl))) fun _ => ?_
    exact ends_ok (handleAttachments_dutiful hthread hlast (fun deeds h => hmail deeds h.1)
      (fun deeds h => hroom deeds h.1) fun deeds h => h.2)

theorem createThreadRoom_dutiful (hthread : email.threadId = some thread)
    (hid : email.id = some emailId)
    (hP : Lasting P) (hmail : ∀ deeds, P deeds → MailInHand duties deeds t p.user email address) :
    Dutiful cfg duties start t P (createThreadRoom cfg p email ⟨address, cfg.ghostUserId address⟩
      (EmailBody.fromEmail cfg email) thread emailId) (onOk fun _ _ => True) := by
  refine .andThen (createContactRoom_dutiful hP fun deeds h => (hmail deeds h).correspondent)
    fun room => ?_
  have hmade : Lasting fun deeds => P deeds ∧ MadeRoom deeds t p.user address room :=
    hP.and MadeRoom.lasting
  refine .andThen (tame_keeps hmade (.bestEffort (.matrix rfl))) fun _ => ?_
  refine .andThen (tame_keeps hmade (.store rfl)) fun _ => ?_
  refine .andThen (tame_keeps hmade (.bestEffort (.matrix rfl))) fun _ => ?_
  refine .andThen (postMail_learns hthread hmade (fun deeds h => hmail deeds h.1) fun deeds h =>
    .made h.2)
    fun event => ?_
  have hlast : Lasting fun deeds => (P deeds ∧ MadeRoom deeds t p.user address room) ∧
      PostedMail cfg deeds t room email address event := hmade.and PostedMail.lasting
  refine .andThen
    (performs_store hlast fun deeds _ h => .inbound (hmail deeds h.1.1) hthread h.1.2 h.2)
    fun _ => ?_
  refine .andThen
    (saveMessage_dutiful hid hlast (fun deeds h => hmail deeds h.1.1) fun deeds h => h.2)
    fun _ => ?_
  exact ends_ok (handleAttachments_dutiful hthread hlast (fun deeds h => hmail deeds h.1.1)
    (fun deeds h => .made h.1.2) fun deeds h => h.2)

theorem awaitThreadLock_learns (address : String) (hP : Lasting P) :
    Dutiful cfg duties start t P (awaitThreadLock thread) (onOk fun found deeds => P deeds ∧
      ∀ room, found = some room → GivenRoom deeds t p.user address thread room) := by
  have hlast : ∀ found : Option RoomId, Lasting fun deeds => P deeds ∧
      ∀ room, found = some room → GivenRoom deeds t p.user address thread room :=
    fun found n deeds h =>
      ⟨hP n deeds h.1, fun room hroom => GivenRoom.lasting n deeds (h.2 room hroom)⟩
  refine .actLoop (J := fun _ => P) (fun _ => hP) hlast fun _ => ?_
  refine .andThen (learns_store rfl hP) fun row => ?_
  cases row with
  | some row =>
    refine .ok (hP.and (.mem _)) fun deeds h => ⟨h.1, fun room hroom => ?_⟩
    obtain rfl := Option.some.inj hroom
    exact .found h.2
  | none =>
    refine .pre (A := P) ?_ fun _ h => h.1
    refine .andThen (tame_keeps hP (.store rfl)) fun acquired => ?_
    split
    · exact .ok hP fun deeds h => ⟨h, fun room hroom => by cases hroom⟩
    · exact .andThen (tame_keeps hP (.lift (.task rfl))) fun _ => .ok hP fun _ h => h

theorem processNewThread_dutiful (hthread : email.threadId = some thread) (hP : Lasting P)
    (hmail : ∀ deeds, P deeds → MailInHand duties deeds t p.user email address) :
    Dutiful cfg duties start t P (processNewThread cfg p email ⟨address, cfg.ghostUserId address⟩
      (EmailBody.fromEmail cfg email)) (onOk fun _ _ => True) := by
  unfold processNewThread
  split
  case h_2 => exact tame_ends .ok
  case h_1 threadId emailId hsome hid =>
    obtain rfl : threadId = thread := Option.some.inj (hsome.symm.trans hthread)
    refine .andThen (awaitThreadLock_learns (p := p) address hP) fun found => ?_
    cases found with
    | some room =>
      refine .pre
        (processReply_dutiful hthread (hP.and GivenRoom.lasting) (fun deeds h => hmail deeds h.1)
        fun deeds h => h.2) fun deeds h => And.intro h.1 (h.2 room rfl)
    | none =>
      refine .pre (A := P) ?_ fun _ h => h.1
      refine .bind (R := fun _ _ => True) (ends (Careful.andThen (Q := fun _ _ => True)
        (learns_store rfl hP) fun row => ?_))
        fun r => ends_ok (tame_does (.bind (.task rfl) fun _ => .pure))
      cases row with
      | some row =>
        exact processReply_dutiful hthread (hP.and (.mem _)) (fun deeds h => hmail deeds h.1)
          fun deeds h => .found h.2
      | none => exact .pre (createThreadRoom_dutiful hthread hid hP hmail) fun _ h => h.1

end

theorem sender_of_bridged {own : Option String} (h : ¬shouldSkipInbound (senderEmail email) own) :
    ∃ address, senderEmail email = some address := by
  cases hsender : senderEmail email with
  | some address => exact ⟨address, rfl⟩
  | none =>
    rw [hsender] at h
    exact absurd rfl h

theorem resolveGhost_learns {address : String} (hP : Lasting P)
    (hsender : senderEmail email = some address) :
    Dutiful cfg duties start t P (resolveGhost cfg email)
      (onOk fun ghost deeds => P deeds ∧ ghost = ⟨address, cfg.ghostUserId address⟩) := by
  have haddress :
      (((email.fromAddrs.getD []).head?).map (·.email)).getD unknownSender = address := by
    unfold senderEmail at hsender
    cases hfrom : email.fromAddrs with
    | none =>
      rw [hfrom] at hsender
      cases hsender
    | some addrs =>
      rw [hfrom, Option.bind_some] at hsender
      rw [Option.getD_some, hsender, Option.getD_some]
  refine .andThen (tame_keeps hP registerGhost_tame) fun _ => .ok hP fun deeds h => ⟨h, ?_⟩
  rw [haddress]

theorem processEmail_dutiful (hP : Lasting P) (hread : ∀ deeds, P deeds → ∃ account ids emails,
      ReadsMail duties deeds t p.user account ∧
        ⟨t, .jmap account (.getEmail ids), .ok emails⟩ ∈ deeds ∧
        email ∈ emails) :
    Dutiful cfg duties start t P (processEmail cfg p email) fun _ _ => True := by
  have hbridge : ∀ emailId, email.id = some emailId → Dutiful cfg duties start t
      (fun deeds => P deeds ∧ ⟨t, .store (.hasMessageMapped emailId), .ok false⟩ ∈ deeds)
      (bridgeEmail cfg p email emailId) (onOk fun _ _ => True) := by
    intro emailId hid
    have hnew : Lasting fun deeds : Deeds => P deeds ∧
        ⟨t, .store (.hasMessageMapped emailId), .ok false⟩ ∈ deeds := hP.and (.mem _)
    refine .andThen (learns_store rfl hnew) fun own => ?_
    split
    case isTrue => exact tame_ends (.lift (.task rfl))
    case isFalse hskip =>
      obtain ⟨address, hsender⟩ := sender_of_bridged hskip
      have hinbound : shouldSkipInbound (some address) own = false := by simpa [hsender] using hskip
      have hmail : Lasting fun deeds => MailInHand duties deeds t p.user email address :=
        MailInHand.lasting
      refine .pre (A := fun deeds => MailInHand duties deeds t p.user email address) ?_
        fun deeds h =>
        ⟨hread deeds h.1.1, ⟨emailId, hid, h.1.2⟩, hsender, own, h.2, hinbound⟩
      refine .andThen (.ofOption hmail) fun thread => ?_
      have hthread : Lasting fun deeds => MailInHand duties deeds t p.user email address ∧
          email.threadId = some thread := hmail.and (.const _)
      refine .andThen (resolveGhost_learns hthread hsender) fun ghost => ?_
      refine .andThen (R := fun _ _ => True) ?_ fun _ => tame_ends (.lift syncReadState_tame)
      by_cases hfound : email.threadId = some thread ∧ ghost = ⟨address, cfg.ghostUserId address⟩
      · obtain ⟨hfound, rfl⟩ := hfound
        refine .pre (A := fun deeds => MailInHand duties deeds t p.user email address) ?_
          fun _ h => h.1.1
        refine .andThen (learns_store rfl hmail) fun row => ?_
        cases row with
        | some row =>
          exact processReply_dutiful hfound (hmail.and (.mem _)) (fun _ h => h.1) fun _ h =>
            .found h.2
        | none => exact .pre (processNewThread_dutiful hfound hmail fun _ h => h) fun _ h => h.1
      · exact .absurd fun deeds h => hfound ⟨h.1.2, h.2⟩
  refine .bind (R := fun _ => P) ((Careful.closed hP).of_only (Tame.unguarded (.task rfl)))
    fun _ => ?_
  refine .bind (R := fun _ _ => True)
    (ends (Careful.andThen (Q := fun _ _ => True) (.ofOption hP) fun emailId => ?_))
    fun r => tame_does (.bind (.task rfl) fun _ => .pure)
  by_cases hid : email.id = some emailId
  · refine .pre (A := P) ?_ fun _ h => h.1
    refine .andThen (learns_store rfl hP) fun mapped => ?_
    cases mapped with
    | true => exact tame_ends (.lift syncReadState_tame)
    | false => exact hbridge emailId hid
  · exact .absurd fun deeds h => hid h.2

theorem fetched_dutiful (hP : Lasting P)
    (hreads : ∀ deeds, P deeds → ReadsMail duties deeds t p.user p.account) (ids : List EmailId) :
    Dutiful cfg duties start t P (Act.andThen (fetchEmails p ids) (processAll cfg p))
      fun _ => P := by
  have hfetch : Dutiful cfg duties start t P (fetchEmails p ids) (onOk fun emails deeds => P deeds ∧
      ⟨t, .jmap p.account (.getEmail ids), .ok emails⟩ ∈ deeds) := learns_jmap rfl hP
  refine keeps hP (Careful.andThen (Q := fun _ _ => True) hfetch fun emails => ?_)
  have hlast : Lasting fun deeds => P deeds ∧
      ⟨t, .jmap p.account (.getEmail ids), .ok emails⟩ ∈ deeds := hP.and (.mem _)
  refine .lift (ends ((Careful.closed (B := deedBook cfg duties start) (D := spawnedFirst duties)
    (t := t) hlast).forEach emails fun email hmem => keeps hlast (Q := fun _ _ => True) ?_))
    fun _ => .const True
  have hemail : Dutiful cfg duties start t _ (processEmail cfg p email) fun _ _ => True :=
    processEmail_dutiful hlast fun deeds h => ⟨p.account, ids, emails, hreads deeds h.1, h.2, hmem⟩
  refine .bind hemail fun r => ?_
  split
  · exact tame_does .pure
  · exact tame_does (.task rfl)

theorem pace_closed (hP : Lasting P) : Prog.Closed (fun _ o => PaceCmd p o.cmd)
    fun _ (x : Prog Op _) => Dutiful cfg duties start t P x fun _ => P :=
  (Careful.closed hP).mono fun _ o h => by
    obtain ⟨c⟩ := o
    exact Cmd.unguarded (PaceCmd.tame h)

theorem poll_dutiful (hP : Lasting P)
    (hreads : ∀ deeds, P deeds → ReadsMail duties deeds t p.user p.account) :
    Dutiful cfg duties start t P (poll cfg p) fun _ => P :=
  poll_fetches (pace_closed hP) ((Careful.closed hP).of_only (Tame.unguarded pollMailboxes_tame))
    (fetched_dutiful hP hreads)

theorem runBackfillLoop_dutiful (hP : Lasting P)
    (hreads : ∀ deeds, P deeds → ReadsMail duties deeds t p.user p.account) :
    Dutiful cfg duties start t P (runBackfillLoop cfg p) fun _ => P :=
  runBackfillLoop_fetches (pace_closed hP) (fetched_dutiful hP hreads)

end

/-! ### The bot -/

section

variable {m : BotMessage} {chat : Chat}

theorem Signed.lasting {user : UserId} {text body : String} :
    Lasting fun deeds => Signed deeds t user text body := by
  intro n deeds h
  rcases h with h | ⟨signature, hmem, hbody⟩
  · exact .inl h
  · exact .inr ⟨signature, List.mem_cons_of_mem _ hmem, hbody⟩

theorem appendUserSignature_learns {user : UserId} {text : String} (hP : Lasting P) :
    Dutiful cfg duties start t P (appendUserSignature user text) fun body deeds =>
      P deeds ∧ Signed deeds t user text body := by
  refine .bind (learns (c := .store (.getUserSignature user)) rfl hP) fun r => ?_
  have hlast : Lasting fun deeds : Deeds =>
      P deeds ∧ ⟨t, .store (.getUserSignature user), r⟩ ∈ deeds :=
    hP.and (.mem _)
  split
  case h_1 signature =>
    refine .pure hlast fun deeds h => ⟨h.1, ?_⟩
    split
    · exact .inl rfl
    · exact .inr ⟨signature, h.2, rfl⟩
  case h_2 => exact .pure hlast fun deeds h => ⟨h.1, .inl rfl⟩

theorem replyToEmail_dutiful {thread : ThreadId} {b : EmailBuilder} (hP : Lasting P)
    (hsend : ∀ deeds mailbox identity (headers : Option String × List String) body,
      P deeds → QuotedFrom b.body body →
        Mandate cfg duties deeds t account (.submitBatch (EmailBuilder.draft
          { b with body := body, inReplyTo := headers.1, references := headers.2 }
          mailbox identity))) :
    Dutiful cfg duties start t P (replyToEmail cfg account thread b) (onOk fun _ _ => True) := by
  refine .andThen (tame_keeps hP (.lift replyHeaders_tame)) fun headers => ?_
  refine .andThen (.lift (quotedBody_dutiful hP) fun _ => hP.and (.const _)) fun body => ?_
  exact ends_ok (submit_dutiful (hP.and (.const _)) fun deeds mailbox identity h =>
    hsend deeds mailbox identity headers body h.1 h.2)

theorem answer_ends {text : String} :
    Dutiful cfg duties start t P (m.answer cfg text) (onOk fun _ _ => True) :=
  tame_ends (.lift notify_tame)

theorem executeEmail_dutiful (hbot : duties t = .bot m chat)
    (hlevel : (cfg.level m.event.user).isSome)
    (hcommand : ChatCommand.email.matches m.body m.relation) :
    Dutiful cfg duties start t (fun _ => True) (m.executeEmail cfg) (onOk fun _ _ => True) := by
  unfold BotMessage.executeEmail
  split
  case h_2 => exact answer_ends
  case h_1 command address subject text hbody =>
    refine .andThen
      (.lift (learns (c := .task (.getClient m.event.user)) rfl (.const True)) fun _ =>
      .and (.const True) (.mem _)) fun client => ?_
    cases client with
    | none => exact answer_ends
    | some account =>
      have hclient : Lasting fun deeds : Deeds => True ∧
          ⟨t, .task (.getClient m.event.user), some account⟩ ∈ deeds := .and (.const True) (.mem _)
      refine .andThen (.lift (appendUserSignature_learns hclient) fun _ =>
        hclient.and Signed.lasting) fun signed => ?_
      have hsplit : Str.splitn (· == ' ') 4 m.body.toList =
          [command, (String.ofList address).toList, (String.ofList subject).toList, text] := by
        rw [hbody, String.toList_ofList, String.toList_ofList]
      have hsubmit : Dutiful cfg duties start t _ (submit account
          (m.builder (String.ofList address) (String.ofList subject) signed []))
            (onOk fun _ _ => True) :=
        .weaken (submit_dutiful (hclient.and Signed.lasting) fun deeds mailbox identity h =>
          .typed hbot hlevel hcommand hsplit h.1.2 h.2 rfl) fun _ _ _ => trivial
      refine .andThen (attempt_ends hsubmit) fun sent => ?_
      cases sent with
      | ok _ => exact answer_ends
      | error _ => exact answer_ends

theorem attachFile_learns (hbot : duties t = .bot m chat) (hlevel : (cfg.level m.event.user).isSome)
    (hP : Lasting P) (hclient : ∀ deeds, P deeds → LoggedIn deeds t m.event.user account) :
    Dutiful cfg duties start t P (m.attachFile cfg account) (onOk fun files deeds => P deeds ∧
      ∀ info ∈ files, ∃ media, m.media = some media ∧
        ⟨t, .jmap account (.uploadMatrixMedia media), .ok info⟩ ∈ deeds) := by
  unfold BotMessage.attachFile
  cases hmedia : m.media with
  | none => exact .ok hP fun deeds h => ⟨h, List.forall_mem_nil _⟩
  | some media =>
    have hupload : Dutiful cfg duties start t P (onJmap account (.uploadMatrixMedia media))
        fun r deeds => P deeds ∧ ⟨t, .jmap account (.uploadMatrixMedia media), r⟩ ∈ deeds :=
      .call hP (fun _ => hP.and (.mem _))
        (fun deeds _ _ _ h _ => .attach hbot hlevel hmedia (hclient deeds h))
        fun _ _ _ _ h => ⟨hP _ _ h, List.mem_cons_self⟩
    have hattempt : Dutiful cfg duties start t P (Act.attempt
      (onJmap account (.uploadMatrixMedia media)))
        (onOk fun r deeds => P deeds ∧ ⟨t, .jmap account (.uploadMatrixMedia media), r⟩ ∈ deeds) :=
      .bind hupload fun _ => .pure (hP.and (.mem _)) fun _ h => h
    refine .andThen hattempt fun r => ?_
    cases r with
    | ok info =>
      refine .ok (hP.and (.mem _)) fun deeds h => ⟨h.1, fun i hi => ?_⟩
      obtain rfl := List.mem_singleton.mp hi
      exact ⟨media, rfl, h.2⟩
    | error err =>
      have hlast : Lasting fun deeds : Deeds => P deeds ∧
          ⟨t, .jmap account (.uploadMatrixMedia media), .error err⟩ ∈ deeds := hP.and (.mem _)
      exact .andThen (tame_keeps hlast (.lift notify_tame)) fun _ =>
        .ok hlast fun deeds h => ⟨h.1, List.forall_mem_nil _⟩

theorem executeReply_dutiful (hbot : duties t = .bot m chat)
    (hlevel : (cfg.level m.event.user).isSome) :
    Dutiful cfg duties start t (fun _ => True) (m.executeReply cfg) (onOk fun _ _ => True) := by
  unfold BotMessage.executeReply
  cases htarget : replyTargetEvent m.relation with
  | none => exact tame_ends .ok
  | some target =>
    refine .andThen (learns_store rfl (.const True)) fun found => ?_
    cases found with
    | none => exact tame_ends .ok
    | some email =>
      have hemail : Lasting fun deeds : Deeds => True ∧
          ⟨t, .store (.getEmailIdFromEventId target), .ok (some email)⟩ ∈ deeds :=
        .and (.const True) (.mem _)
      refine .andThen (.lift (learns (c := .task (.getClient m.event.user)) rfl hemail) fun _ =>
        hemail.and (.mem _)) fun client => ?_
      cases client with
      | none => exact tame_ends .ok
      | some account =>
        have hclient := hemail.and
          (.mem (⟨t, .task (.getClient m.event.user), some account⟩ : BridgeDeed))
        refine .andThen (learns_jmap rfl hclient) fun emails => ?_
        cases horiginal : emails.getLast? with
        | none => exact tame_ends .ok
        | some original =>
          have hread := hclient.and
            (.mem (⟨t, .jmap account (.getEmail [email]), .ok emails⟩ : BridgeDeed))
          refine .andThen (tame_keeps hread .ofOption) fun thread => ?_
          refine .andThen (attachFile_learns hbot hlevel hread fun deeds h => h.1.2) fun files => ?_
          have hfiles : Lasting fun deeds : Deeds => ∀ info ∈ files, ∃ media, m.media = some media ∧
              ⟨t, .jmap account (.uploadMatrixMedia media), .ok info⟩ ∈ deeds := by
            intro n deeds h info hinfo
            obtain ⟨media, hmedia, hmem⟩ := h info hinfo
            exact ⟨media, hmedia, List.mem_cons_of_mem _ hmem⟩
          refine .andThen (.lift (appendUserSignature_learns (hread.and hfiles)) fun _ =>
            (hread.and hfiles).and Signed.lasting) fun signed => ?_
          have hsent : Dutiful cfg duties start t _ (replyToEmail cfg account thread
              (m.builder ((senderEmail original).getD "") (replySubject (original.subject.getD ""))
                signed files)) (onOk fun _ _ => True) :=
            replyToEmail_dutiful ((hread.and hfiles).and Signed.lasting)
              fun deeds mailbox identity headers body h hquoted =>
                .answered hbot hlevel htarget h.1.1.1.1.2 h.1.1.1.2 h.1.1.2 horiginal rfl rfl h.2
                  hquoted h.1.2
          refine .andThen (attempt_ends hsent) fun sent => ?_
          cases sent with
          | ok _ => exact answer_ends
          | error _ => exact answer_ends

theorem executeCompose_dutiful (hbot : duties t = .bot m chat)
    (hlevel : (cfg.level m.event.user).isSome) :
    Dutiful cfg duties start t (fun _ => True) (m.executeCompose cfg) (onOk fun _ _ => True) := by
  unfold BotMessage.executeCompose
  split
  case h_1 => exact answer_ends
  case h_2 address subject hbody =>
    split
    case isFalse => exact answer_ends
    case isTrue haddress =>
      refine .andThen (tame_keeps (.const True) (.lift (.task rfl))) fun client => ?_
      cases client with
      | none => exact answer_ends
      | some account =>
        have hroom : Dutiful cfg duties start t (fun _ => True) (createContactRoom cfg m.event.user
            (String.ofList address) (String.ofList address)) (onOk fun _ _ => True) :=
          .weaken (createContactRoom_dutiful (.const True) fun _ _ =>
            .asked hbot rfl hlevel hbody haddress) fun _ _ _ => trivial
        refine .andThen (attempt_ends hroom) fun opened => ?_
        cases opened with
        | error err => exact answer_ends
        | ok room =>
          refine tame_ends (.andThen (.bestEffort (.matrix rfl)) fun _ =>
            .andThen (.lift notify_tame) fun _ => ?_)
          split
          · exact .ok
          · exact .lift notify_tame

theorem executeSync_dutiful (hbot : duties t = .bot m chat) :
    Dutiful cfg duties start t (fun _ => True) (m.executeSync cfg) (onOk fun _ _ => True) := by
  refine .andThen (tame_keeps (.const True) (.lift (.task rfl))) fun client => ?_
  cases client with
  | none => exact answer_ends
  | some _ =>
    have hpoll : Dutiful cfg duties start t (fun _ => True) (BotMessage.pollNow cfg m.event.user)
        (onOk fun _ _ => True) := by
      refine .andThen
        (.lift (learns (c := .task (.getClient m.event.user)) rfl (.const True)) fun _ =>
        .and (.const True) (.mem _)) fun client => ?_
      cases client with
      | none => exact tame_ends .fail
      | some account =>
        exact ends_ok (poll_dutiful (.and (.const True) (.mem _))
          fun deeds h => .asked hbot rfl h.2)
    refine .andThen (tame_keeps (.const True) (.lift notify_tame)) fun _ => ?_
    refine .andThen (bestEffort_ends hpoll) fun _ => tame_ends ?_
    exact .andThen (.bestEffort repairEmailSpace_tame) fun _ => .lift notify_tame

theorem executeLogout_tame : Tame cfg (m.executeLogout cfg) := by
  have hend : Tame cfg (m.endSession cfg) := by
    refine .andThen (.attempt logout_tame) fun r => ?_
    split
    · exact .lift notify_tame
    · exact .lift notify_tame
  refine .andThen (.lift (.task rfl)) fun client => ?_
  split
  · exact hend
  · refine .andThen (.store rfl) fun row => ?_
    split
    · exact hend
    · exact .lift notify_tame

theorem saveSendDelay_dutiful {secs : Int} :
    Dutiful cfg duties start t P (m.saveSendDelay cfg secs) (onOk fun _ _ => True) := by
  have hsave : Tame cfg (onStore (.saveJmapState m.event.user .sendDelaySeconds (toString secs))) :=
    .store rfl
  refine .andThen (tame_ends (.attempt hsave)) fun r => ?_
  cases r with
  | error _ => exact answer_ends
  | ok _ =>
    dsimp only
    split
    · exact answer_ends
    · exact answer_ends

theorem executeSendDelay_dutiful :
    Dutiful cfg duties start t P (m.executeSendDelay cfg) (onOk fun _ _ => True) := by
  unfold BotMessage.executeSendDelay
  generalize Router.parseSendDelay m.body.toList = request
  cases request with
  | showSendDelay =>
    have hdelay : Tame cfg (sendDelayFor cfg m.event.user) :=
      .bind (.result (.store rfl)) fun _ => .pure
    exact .andThen (tame_ends (.lift hdelay)) fun _ => answer_ends
  | setSendDelay secs => exact saveSendDelay_dutiful
  | answer text => exact answer_ends
  | _ => exact tame_ends .ok

theorem handle_dutiful (hbot : duties t = .bot m chat) :
    Dutiful cfg duties start t (fun _ => True) (m.handle cfg chat) (onOk fun _ _ => True) := by
  have hexecute : (cfg.level m.event.user).isSome → ∀ c : ChatCommand,
      c.matches m.body m.relation →
        Dutiful cfg duties start t (fun _ => True) (m.execute cfg c) (onOk fun _ _ => True) := by
    intro hlevel c hmatches
    unfold BotMessage.execute
    cases c with
    | help => exact answer_ends
    | logout => exact tame_ends executeLogout_tame
    | sync => exact executeSync_dutiful hbot
    | sendDelay => apply executeSendDelay_dutiful
    | compose => exact executeCompose_dutiful hbot hlevel
    | email => exact executeEmail_dutiful hbot hlevel hmatches
    | reply => exact executeReply_dutiful hbot hlevel
    | _ => exact tame_ends .ok
  unfold BotMessage.handle
  cases chat.loginState with
  | none =>
    exact TextHandlers.handleLoginNone_of (fun x => Dutiful cfg duties start t (fun _ => True) x
      (onOk fun _ _ => True)) (tame_ends .ok) (fun _ => answer_ends) fun c h => hexecute h c
  | waitingForEmail => exact tame_ends (.lift notify_tame)
  | waitingForPassword _ =>
    exact tame_ends (.andThen (.bestEffort (.matrix rfl)) fun _ => .lift notify_tame)
  | waitingForUrl _ _ => exact tame_ends (.andThen (.lift notify_tame) fun _ => .lift notify_tame)

end

theorem spawned_acts {d : Detached} (hcall : duties t = .call (.detached d)) {deeds : Deeds}
    (hgranted : (deedBook cfg duties start).Granted deeds)
    (hstart : ∃ w, (deedBook cfg duties start).agrees w deeds ∧ (spawnedFirst duties).start t w) :
    ActsOn cfg duties deeds t d := by
  obtain ⟨w, hw, hspawned⟩ := hstart
  have hspawned : (duties t).mayStart w.trace := hspawned
  rw [hcall] at hspawned
  obtain ⟨r, hr, hcmd⟩ := List.any_eq_true.mp hspawned
  obtain ⟨⟨i, c, result⟩, hmem, -, hc⟩ := hw.trace r hr
  obtain rfl : c = .task (.spawn d) := hc.trans (eq_of_beq hcmd)
  obtain ⟨newer, older, hsplit⟩ := List.append_of_mem hmem
  obtain ⟨txnId, txn, htxn, hreacts⟩ := hgranted newer _ older hsplit
  exact .reaction hcall hmem htxn hreacts

theorem duty_dutiful :
    Dutiful cfg duties start t
      (fun deeds => ∃ w, (deedBook cfg duties start).agrees w deeds ∧
        (spawnedFirst duties).start t w)
      ((duties t).program cfg) fun _ _ => True := by
  cases hduty : duties t with
  | markedUnread user joined =>
    exact .pre (handleMarkedUnread_dutiful hduty) fun _ _ => trivial
  | bot m chat =>
    exact .pre (.bind (ends (handle_dutiful hduty)) fun _ => tame_does .pure) fun _ _ => trivial
  | call c =>
    have htame : ((∃ user room, c = .fileRoom user room) ∨ (∃ user, c = .repairSpace user) ∨
        c = .prune ∨ ∃ user, c = .logout user) → Dutiful cfg duties start t
          (fun deeds => ∃ w, (deedBook cfg duties start).agrees w deeds ∧
            (spawnedFirst duties).start t w)
          (c.program cfg) fun _ _ => True := fun hc => tame_does (Call.tame hc)
    cases c with
    | poll p =>
      have hpoll : Dutiful cfg duties start t (fun _ => True) (poll cfg p) fun _ _ => True :=
        poll_dutiful (.const True) fun _ _ => .poll hduty
      exact .pre (.bind hpoll fun _ => tame_does .pure) fun _ _ => trivial
    | backfill p =>
      exact .pre (runBackfillLoop_dutiful (.const True) fun _ _ => .backfill hduty)
        fun _ _ => trivial
    | newThread p email ghost body =>
      refine .absurd fun deeds hstart => ?_
      obtain ⟨w, -, hmay⟩ := hstart
      have hmay : (duties t).mayStart w.trace := hmay
      rw [hduty] at hmay
      cases hmay
    | worker => exact .pre (runRetryLoop_dutiful hduty) fun _ _ => trivial
    | transaction txnId txn => exact .pre (handleTransactions_dutiful hduty) fun _ _ => trivial
    | detached d => exact .trust detached_dutiful fun _ => spawned_acts hduty
    | fileRoom user room => exact htame (.inl ⟨user, room, rfl⟩)
    | repairSpace user => exact htame (.inr (.inl ⟨user, rfl⟩))
    | prune => exact htame (.inr (.inr (.inl rfl)))
    | logout user => exact htame (.inr (.inr (.inr ⟨user, rfl⟩)))

/-! ### Runs -/

/-- What was done in a run, and what the bridge got for it. -/
def deedsOf (cfg : Config) (duties : Nat → Duty) (es : List (Event Answer Env)) (w : World) :
    Deeds :=
  (deedBook cfg duties w).log es w

theorem chronicle_of_run {es : List (Event Answer Env)} {w : World} {q : Pool Op World}
    (hw : w.trace = []) (hrun : (household cfg duties).run es (Pool.boot w) = some q)
    (hspawn : (household cfg duties).Admits (spawnedFirst duties).meets es (Pool.boot w)) :
    (deedBook cfg duties w).Granted (deedsOf cfg duties es w) ∧
      Chronicle w q.world (deedsOf cfg duties es w) :=
  Book.granted_of_run (fun _ => duty_dutiful) (Chronicle.boot hw) hrun hspawn

/-- Whatever tasks interleave or are cut off, and whatever the servers answer, an account is
changed only for the user who is logged in to it: mail moves as a thread, on that user's
permitted request, queued mail goes out from its author's account as it was queued, and a mark
follows the user's own reading. -/
theorem account_changes_are_mandated {es : List (Event Answer Env)} {w : World} {q : Pool Op World}
    (hw : w.trace = []) (hrun : (household cfg duties).run es (Pool.boot w) = some q)
    (hspawn : (household cfg duties).Admits (spawnedFirst duties).meets es (Pool.boot w))
    {newer older : Deeds} {d : BridgeDeed} (hd : deedsOf cfg duties es w = newer ++ d :: older)
    {account : Account} {c : JmapCmd} (hc : d.cmd = .jmap account c) (hwrites : c.writes) :
    Mandate cfg duties older d.task account c := by
  have hgrant : BridgeDeed.Mandated cfg duties older d :=
    (chronicle_of_run hw hrun hspawn).1 newer d older hd
  unfold BridgeDeed.Mandated at hgrant
  rw [hc] at hgrant
  exact hgrant hwrites

instance decidableSpawnedFirst (duties : Nat → Duty) (t : Nat) (w : World) :
    Decidable ((spawnedFirst duties).start t w) :=
  inferInstanceAs (Decidable ((duties t).mayStart w.trace = true))

instance decidableSpawned (duties : Nat → Duty) (ev : Event Answer Env) (q : Pool Op World) :
    Decidable ((spawnedFirst duties).meets ev q) :=
  @Discipline.decidableMeets Op World Answer Env (spawnedFirst duties) _
    (fun _ _ _ _ _ => instDecidableTrue) (fun _ _ => instDecidableTrue)
    (fun _ _ => instDecidableTrue) ev q

def onlyAlice : Config where
  level user := if user = "@alice:x" then some .user else none
  remoteImages _ := ["https://x/i.png"]

/-- Alice reacts with the trash bin and with the picture. -/
def twoReactions : Nat → Duty
  | 0 => .call (.transaction "1" { events := [.reaction "@alice:x" "!r" "$e" "🗑️",
      .reaction "@alice:x" "!r" "$e" "🖼️"] })
  | 1 => .call (.detached (.threadAction "@alice:x" "!r" .trash))
  | _ => .call (.detached (.loadImages "@alice:x" "!r" "$e"))

def aliceRoom : World where
  store := {
    threadMapping := (∅ : Sql.Table ThreadId ThreadRow).insert "T" ⟨"$e", "!r", some "$e"⟩
    messageMapping := (∅ : Sql.Table EmailId EventId).insert "e1" "$e"
    roomGhostMapping := (∅ : Sql.Table RoomId GhostRow).insert "!r"
      { ghostEmail := "bob@y", matrixUserId := "@alice:x" } }
  mail := { threads := fun _ thread => if thread = "T" then ["e1", "e2"] else [] }
  clients := (∅ : Sql.Table UserId Account).insert "@alice:x" "alice@z"

/-- Both reactions are delivered, the thread is moved, and the images are loaded. -/
def reactionsRun : List (Event Answer Env) :=
  (.start 0 :: List.replicate 4 (.step 0 .done) : List (Event Answer Env)) ++
    [.start 1, .step 1 .done, .start 2, .step 2 .done, .step 1 .done, .step 1 .done,
      .step 1 (.reply (.queried { ids := ["trash"] })),
      .step 1 (.reply (.thread (some ["e1", "e2"]))),
      .step 1 (.reply (.updated ["e1", "e2"])), .step 2 .done, .step 2 .done,
      .step 2 (.reply (.bodies [(some "<img src='https://x/i.png'>", "picture")])),
      .step 2 (.id "mxc://i"), .step 2 (.id "$edit")]

theorem account_changes_are_mandated_two : ∃ newer older d,
    deedsOf onlyAlice twoReactions reactionsRun aliceRoom = newer ++ d :: older ∧
      d.cmd = .jmap "alice@z" (.setMailboxIds ["e1", "e2"] "trash") ∧
      Mandate onlyAlice twoReactions older d.task "alice@z"
        (.setMailboxIds ["e1", "e2"] "trash") := by
  have hends :
      ((household onlyAlice twoReactions).run reactionsRun (Pool.boot aliceRoom)).isSome := by
    decide +kernel
  have hspawn : (household onlyAlice twoReactions).Admits (spawnedFirst twoReactions).meets
      reactionsRun (Pool.boot aliceRoom) := by decide +kernel
  have hmoved : (deedsOf onlyAlice twoReactions reactionsRun aliceRoom).any (fun d =>
      d.cmd == .jmap "alice@z" (.setMailboxIds ["e1", "e2"] "trash")) := by decide +kernel
  obtain ⟨q, hq⟩ := Option.isSome_iff_exists.mp hends
  obtain ⟨d, hd, hcmd⟩ := List.any_eq_true.mp hmoved
  obtain ⟨newer, older, hsplit⟩ := List.append_of_mem hd
  have hc : d.cmd = .jmap "alice@z" (.setMailboxIds ["e1", "e2"] "trash") := eq_of_beq hcmd
  exact ⟨newer, older, d, hsplit, hc, account_changes_are_mandated rfl hq hspawn hsplit hc rfl⟩

/-- In the same runs no image is fetched and no event edited unless a permitted user asked for the
images of that event, and it is only the first images of the event's email that are fetched, as
the user's own account has it, and only those fetched that the edit shows. -/
theorem images_load_on_request {es : List (Event Answer Env)} {w : World} {q : Pool Op World}
    (hw : w.trace = []) (hrun : (household cfg duties).run es (Pool.boot w) = some q)
    (hspawn : (household cfg duties).Admits (spawnedFirst duties).meets es (Pool.boot w))
    {newer older : Deeds} {d : BridgeDeed} (hd : deedsOf cfg duties es w = newer ++ d :: older)
    {c : MatrixCmd} (hc : d.cmd = .matrix c) (hloads : c.loads) :
    ImageMandate cfg duties older d.task c := by
  have hgrant : BridgeDeed.Mandated cfg duties older d :=
    (chronicle_of_run hw hrun hspawn).1 newer d older hd
  unfold BridgeDeed.Mandated at hgrant
  rw [hc] at hgrant
  exact hgrant.1 hloads

theorem images_load_on_request_two : ∃ newer older d,
    deedsOf onlyAlice twoReactions reactionsRun aliceRoom = newer ++ d :: older ∧
      d.cmd = .matrix (.fetchAndUpload (onlyAlice.ghostUserId "bob@y") "https://x/i.png") ∧
      ImageMandate onlyAlice twoReactions older d.task
        (.fetchAndUpload (onlyAlice.ghostUserId "bob@y") "https://x/i.png") := by
  have hends :
      ((household onlyAlice twoReactions).run reactionsRun (Pool.boot aliceRoom)).isSome := by
    decide +kernel
  have hspawn : (household onlyAlice twoReactions).Admits (spawnedFirst twoReactions).meets
      reactionsRun (Pool.boot aliceRoom) := by decide +kernel
  have hfetched : (deedsOf onlyAlice twoReactions reactionsRun aliceRoom).any (fun d =>
      d.cmd == .matrix (.fetchAndUpload (onlyAlice.ghostUserId "bob@y") "https://x/i.png")) := by
    decide +kernel
  obtain ⟨q, hq⟩ := Option.isSome_iff_exists.mp hends
  obtain ⟨d, hd, hcmd⟩ := List.any_eq_true.mp hfetched
  obtain ⟨newer, older, hsplit⟩ := List.append_of_mem hd
  have hc : d.cmd = .matrix (.fetchAndUpload (onlyAlice.ghostUserId "bob@y") "https://x/i.png") :=
    eq_of_beq hcmd
  exact ⟨newer, older, d, hsplit, hc, images_load_on_request rfl hq hspawn hsplit hc rfl⟩

/-! ### Whom the mail goes to -/

/-- Who may be written to. A mail goes to whom its author names with `!email`, to the sender of the
mail whose message it replies to, and else to the partner of the room that it was typed in, who
was that from the start or is the one that the room was made for. -/
inductive Addressee (cfg : Config) (duties : Nat → Duty) (start : World) (deeds : Deeds) (t : Nat)
    (account : Account) (draft : Draft) : Prop
  | kept (hworker : duties t = .call .worker)
      (hroom : start.partner draft.source.roomId = some draft.toEmail) :
      Addressee cfg duties start deeds t account draft
  | correspondent {user : UserId} {d : BridgeDeed} (hworker : duties t = .call .worker)
      (hmem : d ∈ deeds)
      (hroom : d.cmd = .store (.saveRoomGhostMapping draft.source.roomId draft.toEmail user))
      (hmade : MadeRoom deeds d.task user draft.toEmail draft.source.roomId)
      (hknown : Correspondent cfg duties deeds user draft.toEmail) :
      Addressee cfg duties start deeds t account draft
  | named {m : BotMessage} {chat : Chat} {command subject text : Str}
      (hbot : duties t = .bot m chat)
      (hlevel : (cfg.level m.event.user).isSome)
      (hcommand : startsWith "!email " m.body.toList)
      (hbody : Str.splitn (· == ' ') 4 m.body.toList =
        [command, draft.toEmail.toList, subject, text]) :
      Addressee cfg duties start deeds t account draft
  | sender {m : BotMessage} {chat : Chat} {target : EventId} {email : EmailId}
      {emails : List Email} {original : Email} (hbot : duties t = .bot m chat)
      (hlevel : (cfg.level m.event.user).isSome)
      (htarget : replyTargetEvent m.relation = some target)
      (hemail : ⟨t, .store (.getEmailIdFromEventId target), .ok (some email)⟩ ∈ deeds)
      (hclient : LoggedIn deeds t m.event.user account)
      (hemails : ⟨t, .jmap account (.getEmail [email]), .ok emails⟩ ∈ deeds)
      (horiginal : emails.getLast? = some original)
      (hto : draft.toEmail = (senderEmail original).getD "") :
      Addressee cfg duties start deeds t account draft

theorem Correspondent.lasting {user : UserId} {address : String} :
    Lasting fun deeds => Correspondent cfg duties deeds user address := by
  intro n deeds h
  cases h with
  | wrote hreads hemails hmem hsender =>
    exact .wrote (ReadsMail.lasting n deeds hreads) (List.mem_cons_of_mem _ hemails) hmem hsender
  | asked hbot hsender hlevel hbody haddress => exact .asked hbot hsender hlevel hbody haddress

/-- A room that has a partner has one from the start, or one that a user corresponds with. -/
theorem partner_known {newer older : Deeds} {room : RoomId} {address : String}
    (hgranted : (deedBook cfg duties start).Granted (newer ++ older))
    (h : (Fact.partner room address).Known start older) :
    start.partner room = some address ∨ ∃ d ∈ older, ∃ user,
      d.cmd = .store (.saveRoomGhostMapping room address user) ∧
        MadeRoom older d.task user address room ∧ Correspondent cfg duties older user address := by
  rcases hgranted.since h with h | ⟨later, d, oldest, rfl, ⟨user, hroom⟩, hgrant⟩
  · exact .inl h
  · have hmandated : BridgeDeed.Mandated cfg duties oldest d := hgrant
    unfold BridgeDeed.Mandated at hmandated
    rw [hroom] at hmandated
    have hlasting : Lasting fun deeds => MadeRoom deeds d.task user address room ∧
        Correspondent cfg duties deeds user address := MadeRoom.lasting.and Correspondent.lasting
    exact .inr ⟨d, List.mem_append_right _ List.mem_cons_self, user, hroom,
      hlasting.append later (hlasting d oldest hmandated)⟩

/-- In the same runs every mail goes to an address that its author has named, to the sender of the
mail that it answers, or else to the partner of its own room: who that is was settled when the room
was made, for a user who had mail from there or had asked to write there. -/
theorem mail_goes_to_correspondents {es : List (Event Answer Env)} {w : World} {q : Pool Op World}
    (hw : w.trace = []) (hrun : (household cfg duties).run es (Pool.boot w) = some q)
    (hspawn : (household cfg duties).Admits (spawnedFirst duties).meets es (Pool.boot w))
    {newer older : Deeds} {d : BridgeDeed} (hd : deedsOf cfg duties es w = newer ++ d :: older)
    {account : Account} {draft : Draft} (hc : d.cmd = .jmap account (.submitBatch draft)) :
    Addressee cfg duties w older d.task account draft := by
  obtain ⟨hgranted, hchronicle⟩ := chronicle_of_run hw hrun hspawn
  have hgrant : BridgeDeed.Mandated cfg duties older d := hgranted newer d older hd
  unfold BridgeDeed.Mandated at hgrant
  rw [hc] at hgrant
  cases hgrant rfl with
  | send hworker hrows hrow hclient hto hbody hfiles =>
    obtain ⟨newer', oldest, rfl⟩ := List.append_of_mem hto
    have hall : deedsOf cfg duties es w = (newer ++ d :: newer') ++
        ⟨d.task, .store (.getGhostEmailByRoom draft.source.roomId), .ok (some draft.toEmail)⟩ ::
          oldest := by
      rw [hd, List.append_assoc, List.cons_append]
    have hbound : (Fact.partner draft.source.roomId draft.toEmail).Known w oldest :=
      hchronicle.told _ _ oldest hall _ .partner
    rw [hall, List.append_cons] at hgranted
    rcases partner_known hgranted hbound with hkept | ⟨d', hmem, user, hroom, hknown⟩
    · exact .kept hworker hkept
    · have hlasting : Lasting fun deeds => MadeRoom deeds d'.task user draft.toEmail
          draft.source.roomId ∧ Correspondent cfg duties deeds user draft.toEmail :=
        MadeRoom.lasting.and Correspondent.lasting
      obtain ⟨hmade, hcorrespondent⟩ := hlasting.append newer' (hlasting _ oldest hknown)
      exact .correspondent hworker (List.mem_append_right _ (List.mem_cons_of_mem _ hmem)) hroom
        hmade hcorrespondent
  | typed hbot hlevel hcommand hbody hclient htext hfiles =>
    exact .named hbot hlevel hcommand hbody
  | answered hbot hlevel htarget hemail hclient hemails horiginal hto hsubject hsigned htext
    hfiles =>
    exact .sender hbot hlevel htarget hemail hclient hemails horiginal hto

/-- Alice opens a conversation with Bob, types a mail in its room, and the worker sends it. -/
def composing : Nat → Duty
  | 0 => .bot { event := ⟨"@alice:x", "!dm", "$c"⟩, body := "!compose bob@y.z Hello" } {}
  | 1 => .call (.transaction "1"
      { events := [.message "@alice:x" "!new" "$m" "Hi Bob" none none] })
  | _ => .call .worker

def aliceAtHome : World where
  store := {
    users := (∅ : Sql.Table UserId RegisteredUser).insert "@alice:x" ⟨"alice", "token", "https://z"⟩
    jmapState := (∅ : Sql.Table (UserId × StateKey) String).insert ("@alice:x", .emailSpaceRoom)
      "!space" }
  clients := (∅ : Sql.Table UserId Account).insert "@alice:x" "alice@z"

def composingRun : List (Event Answer Env) := List.flatten [
  [.start 0, .step 0 .done, .step 0 (.flag false), .step 0 (.id "!new"), .step 0 .done,
    .step 0 .done, .step 0 .done, .tau 0],
  List.replicate 4 (.step 0 .done), [.step 0 (.id "$1"), .step 0 (.id "$2"), .start 1],
  List.replicate 8 (.step 1 .done), [.start 2, .tau 2],
  List.replicate 4 (.step 2 .done),
  [.step 2 (.name (some "Hello")), .step 2 .done, .step 2 (.reply (.queried { ids := ["sent"] })),
    .step 2 (.reply (.identities [])), .step 2 (.reply (.batch ⟨some "e9", true⟩))]]

def mailToBob : Draft where
  source := ⟨1, "@alice:x", "!new", "$m", "Hi Bob", none, none, none, 0⟩
  mailboxId := "sent"
  fromName := none
  fromEmail := "alice@z"
  toEmail := "bob@y.z"
  subject := "Hello"
  body := "Hi Bob"
  inReplyTo := none
  references := []
  attachments := []
  identityId := none

theorem mail_goes_to_correspondents_composed : ∃ newer older d,
    deedsOf onlyAlice composing composingRun aliceAtHome = newer ++ d :: older ∧
      d.cmd = .jmap "alice@z" (.submitBatch mailToBob) ∧
      Addressee onlyAlice composing aliceAtHome older d.task "alice@z" mailToBob := by
  have hends :
      ((household onlyAlice composing).run composingRun (Pool.boot aliceAtHome)).isSome := by
    decide +kernel
  have hspawn : (household onlyAlice composing).Admits (spawnedFirst composing).meets
      composingRun (Pool.boot aliceAtHome) := by decide +kernel
  have hsent : (deedsOf onlyAlice composing composingRun aliceAtHome).any (fun d =>
      d.cmd == .jmap "alice@z" (.submitBatch mailToBob)) := by decide +kernel
  obtain ⟨q, hq⟩ := Option.isSome_iff_exists.mp hends
  obtain ⟨d, hd, hcmd⟩ := List.any_eq_true.mp hsent
  obtain ⟨newer, older, hsplit⟩ := List.append_of_mem hd
  have hc : d.cmd = .jmap "alice@z" (.submitBatch mailToBob) := eq_of_beq hcmd
  exact ⟨newer, older, d, hsplit, hc, mail_goes_to_correspondents rfl hq hspawn hsplit hc⟩

end JmapBridge
