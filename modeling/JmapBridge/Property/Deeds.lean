import JmapBridge.Effect.Warrant
import JmapBridge.Model.Bot
import JmapBridge.Model.Inbound
import JmapBridge.Model.Puppet
import JmapBridge.Property.EditAuthor

/-! What the bridge does on whose word. Its deeds are its commands with what it got for them, and
those that change an account, show a mail, load an image or bind a room to an address or a thread
need a mandate in the deeds before them. -/

namespace JmapBridge

open Effect Rust

/-- A command of a run, with what the bridge got for it. -/
structure BridgeDeed where
  task : Nat
  cmd : Cmd
  result : cmd.Ans

abbrev Deeds := List BridgeDeed

/-- The calls of the process, the part of a double puppet that marks mail unread, and what a
message outside the conversation rooms sets off. -/
inductive Duty where
  | call (c : Call)
  | markedUnread (user : UserId) (joined : JoinedRooms)
  | bot (m : BotMessage) (chat : Chat)

def Duty.program (cfg : Config) : Duty → Task Unit
  | call c => c.program cfg
  | markedUnread user joined => handleMarkedUnread user joined
  | bot m chat => ignore (m.handle cfg chat)

def household (cfg : Config) (duties : Nat → Duty) : System Op World Answer Env :=
  system fun t => (duties t).program cfg

/-- A detached task runs only once it has been spawned, and a thread gets its room only in the
course of a sync. -/
def Duty.mayStart (trace : List Record) : Duty → Bool
  | call (.detached d) => trace.any fun r => r.cmd == .task (.spawn d)
  | call (.newThread _ _ _ _) => false
  | _ => true

def spawnedFirst (duties : Nat → Duty) : Discipline Op World Answer Env where
  start t w := (duties t).mayStart w.trace

def commandTask (cfg : Config) (sender : UserId) (room : RoomId) (body : String)
    (relation : Option Relation) : Option Detached :=
  match parseGhostCommand cfg body with
  | some .showImages => (replyTargetEvent relation).map (.loadImages sender room)
  | some .deleteRoom => some (.threadAction sender room .trash)
  | some .spam => some (.threadAction sender room .junk)
  | none => none

def MatrixTransaction.Reacts (txn : MatrixTransaction) (d : Detached) : Prop :=
  ∃ sender room target key, .reaction sender room target key ∈ txn.events ∧
    isBridgeUser sender = false ∧ reactionTask sender room target key = some d

/-- Task `t` acts on a user's request for `d`. Either it delivers the transaction with the
message for it in a conversation room, or a delivery of the reaction for it has spawned it. -/
inductive ActsOn (cfg : Config) (duties : Nat → Duty) (deeds : Deeds) (t : Nat) : Detached → Prop
  | text {txnId : TransactionId} {txn : MatrixTransaction} {sender : UserId} {room : RoomId}
      {event : EventId} {body ghost : String} {relation : Option Relation} {d : Detached}
      (htxn : duties t = .call (.transaction txnId txn))
      (hmem : .message sender room event body none relation ∈ txn.events)
      (huser : isBridgeUser sender = false)
      (hroom : ⟨t, .store (.getGhostEmailByRoom room), .ok (some ghost)⟩ ∈ deeds)
      (htask : commandTask cfg sender room body relation = some d) : ActsOn cfg duties deeds t d
  | reaction {i : Nat} {txnId : TransactionId} {txn : MatrixTransaction} {d : Detached}
      (htask : duties t = .call (.detached d))
      (hspawn : ⟨i, .task (.spawn d), ()⟩ ∈ deeds)
      (htxn : duties i = .call (.transaction txnId txn))
      (hreacts : txn.Reacts d) : ActsOn cfg duties deeds t d

def LoggedIn (deeds : Deeds) (t : Nat) (user : UserId) (account : Account) : Prop :=
  ⟨t, .task (.getClient user), some account⟩ ∈ deeds

inductive ReadsMail (duties : Nat → Duty) (deeds : Deeds) (t : Nat) (user : UserId)
    (account : Account) : Prop
  | poll (hpoll : duties t = .call (.poll ⟨user, account⟩)) : ReadsMail duties deeds t user account
  | backfill (hbackfill : duties t = .call (.backfill ⟨user, account⟩)) :
      ReadsMail duties deeds t user account
  | asked {m : BotMessage} {chat : Chat} (hbot : duties t = .bot m chat)
      (hsender : m.event.user = user) (hclient : LoggedIn deeds t user account) :
      ReadsMail duties deeds t user account

/-- `user` corresponds with an address: mail from there has been read for the user, or the user,
who is permitted to, has asked for a conversation. -/
inductive Correspondent (cfg : Config) (duties : Nat → Duty) (deeds : Deeds) (user : UserId) :
    String → Prop
  | wrote {t : Nat} {account : Account} {ids : List EmailId} {emails : List Email} {email : Email}
      {address : String}
      (hreads : ReadsMail duties deeds t user account)
      (hemails : ⟨t, .jmap account (.getEmail ids), .ok emails⟩ ∈ deeds)
      (hmem : email ∈ emails) (hsender : senderEmail email = some address) :
      Correspondent cfg duties deeds user address
  | asked {t : Nat} {m : BotMessage} {chat : Chat} {address : Str} {subject : Option Str}
      (hbot : duties t = .bot m chat) (hsender : m.event.user = user)
      (hlevel : (cfg.level user).isSome)
      (hbody : Router.parseCompose m.body.toList = some (address, subject))
      (haddress : Router.looksLikeEmail address) :
      Correspondent cfg duties deeds user (String.ofList address)

/-- Task `t` has a mail of `user` to bridge: it has read the mail for `user`, as one of another
sender, and was told that it is not bridged yet. -/
structure MailInHand (duties : Nat → Duty) (deeds : Deeds) (t : Nat) (user : UserId) (email : Email)
    (address : String) : Prop where
  read : ∃ account ids emails, ReadsMail duties deeds t user account ∧
    ⟨t, .jmap account (.getEmail ids), .ok emails⟩ ∈ deeds ∧ email ∈ emails
  unmapped : ∃ emailId, email.id = some emailId ∧
    ⟨t, .store (.hasMessageMapped emailId), .ok false⟩ ∈ deeds
  sender : senderEmail email = some address
  inbound : ∃ own, ⟨t, .store (.getJmapState user .userEmail), .ok own⟩ ∈ deeds ∧
    shouldSkipInbound (some address) own = false

def PostedMail (cfg : Config) (deeds : Deeds) (t : Nat) (room : RoomId) (email : Email)
    (address : String)
    (event : EventId) : Prop :=
  ⟨t, .matrix
    (.sendAsGhost room (cfg.ghostUserId address) (.message (EmailBody.fromEmail cfg email))
    email.timestamp), .ok event⟩ ∈ deeds

def MadeRoom (deeds : Deeds) (t : Nat) (user : UserId) (address : String) (room : RoomId) : Prop :=
  ∃ name, ⟨t, .matrix (.createRoomForContact name address user), .ok room⟩ ∈ deeds

/-- Task `t` has been given `room` for mail of `thread` from `address`: the store has told it of
the room, or it has made the room for `user`. -/
inductive GivenRoom (deeds : Deeds) (t : Nat) (user : UserId) (address : String)
    (thread : ThreadId) :
    RoomId → Prop
  | found {row : ThreadRow} (h : ⟨t, .store (.getThreadInfo thread), .ok (some row)⟩ ∈ deeds) :
      GivenRoom deeds t user address thread row.roomId
  | made {room : RoomId} (h : MadeRoom deeds t user address room) :
      GivenRoom deeds t user address thread room

def EmailBodyPart.mimeType (part : EmailBodyPart) : String :=
  part.contentType.getD "application/octet-stream"

def EmailBodyPart.fileName (part : EmailBodyPart) : String := part.name.getD "📎 attachment"

/-- What entitles task `t` to show a mail, or a file that came with one it has shown. -/
inductive MailMandate (cfg : Config) (duties : Nat → Duty) (deeds : Deeds) (t : Nat) :
    MatrixCmd → Prop
  | message {user : UserId} {email : Email} {address : String} {thread : ThreadId} {room : RoomId}
      (hmail : MailInHand duties deeds t user email address)
      (hthread : email.threadId = some thread)
      (hroom : GivenRoom deeds t user address thread room) :
      MailMandate cfg duties deeds t (.sendAsGhost room (cfg.ghostUserId address)
        (.message (EmailBody.fromEmail cfg email)) email.timestamp)
  | file {user : UserId} {email : Email} {address : String} {thread : ThreadId} {room : RoomId}
      {event : EventId} {part : EmailBodyPart} {blob mxc : String} {row : RegisteredUser}
      (hmail : MailInHand duties deeds t user email address)
      (hthread : email.threadId = some thread)
      (hroom : GivenRoom deeds t user address thread room)
      (hposted : PostedMail cfg deeds t room email address event)
      (hpart : part ∈ email.attachments.getD [])
      (hblob : part.blobId = some blob) (hsize : part.size ≤ maxAttachmentSize)
      (hrow : ⟨t, .store (.getUser user), .ok (some row)⟩ ∈ deeds)
      (hdownload : ⟨t, .matrix (.downloadBlob blob part.fileName row.jmapUsername row.jmapToken),
        .ok ()⟩ ∈ deeds)
      (hupload : ⟨t,
        .matrix (.uploadMediaStream (cfg.ghostUserId address) part.mimeType part.fileName),
        .ok mxc⟩ ∈ deeds) :
      MailMandate cfg duties deeds t (.sendAsGhost room (cfg.ghostUserId address)
        (.file mxc part.fileName part.mimeType) email.timestamp)

def ShowsMail (cfg : Config) (duties : Nat → Duty) (deeds : Deeds) (t : Nat) (emailId : EmailId)
    (event : EventId) : Prop :=
  ∃ user email address room, MailInHand duties deeds t user email address ∧
  email.id = some emailId ∧
    PostedMail cfg deeds t room email address event

/-- What entitles task `t` to bind a thread to a room, with its first event. Either the task has
made the room for a user and posted a mail of the thread there, or it has sent what was typed in
the room, and the server has put it in the thread. -/
inductive BindsThread (cfg : Config) (duties : Nat → Duty) (deeds : Deeds) (t : Nat)
    (thread : ThreadId) : EventId → RoomId → Prop
  | inbound {user : UserId} {email : Email} {address : String} {room : RoomId} {event : EventId}
      (hmail : MailInHand duties deeds t user email address)
      (hthread : email.threadId = some thread)
      (hroom : MadeRoom deeds t user address room)
      (hposted : PostedMail cfg deeds t room email address event) :
      BindsThread cfg duties deeds t thread event room
  | composed {account : Account} {draft : Draft} {emailId : EmailId}
      (hworker : duties t = .call .worker)
      (hsent : ⟨t, .jmap account (.submitBatch draft),
        .ok { created := some emailId, submitted := true }⟩ ∈ deeds)
      (hthread : ⟨t, .jmap account (.getEmailThread emailId), .ok (some thread)⟩ ∈ deeds) :
      BindsThread cfg duties deeds t thread draft.source.eventId draft.source.roomId

def Signed (deeds : Deeds) (t : Nat) (user : UserId) (text body : String) : Prop :=
  body = text ∨ ∃ signature : String,
    ⟨t, .store (.getUserSignature user), .ok (some signature)⟩ ∈ deeds ∧
      body = s!"{text}\n\n-- \n{signature}"

/-- A copy of the queued text, with a quote below it or without. -/
def QuotedFrom (text body : String) : Prop :=
  body = text ∨ ∃ quote : String, body = s!"{text}\n\n{quote}"

/-- What entitles task `t` to change the account. -/
inductive Mandate (cfg : Config) (duties : Nat → Duty) (deeds : Deeds) (t : Nat)
    (account : Account) : JmapCmd → Prop
  /-- A permitted user has a room's whole newest thread moved to the mailbox of a role. -/
  | move {sender : UserId} {room : RoomId} {role : MailboxRole} {thread : ThreadId}
      {root : EventId} {subject : Option String} {emails : List EmailId} {mailboxes : QueryReply}
      {target : MailboxId}
      (hasked : ActsOn cfg duties deeds t (.threadAction sender room role))
      (hlevel : (cfg.level sender).isSome)
      (hclient : LoggedIn deeds t sender account)
      (hthread : ⟨t, .store (.getLatestThreadInRoom room),
        .ok (some (thread, root, subject))⟩ ∈ deeds)
      (hmailbox : ⟨t, .jmap account (.queryMailboxRole role), .ok mailboxes⟩ ∈ deeds)
      (htarget : mailboxes.ids.head? = some target)
      (hemails : ⟨t, .jmap account (.getThread thread), .ok (some emails)⟩ ∈ deeds) :
      Mandate cfg duties deeds t account (.setMailboxIds emails target)
  | send {rows : List OutboundMessage} {draft : Draft}
      (hworker : duties t = .call .worker)
      (hrows : ⟨t, .store .getPendingOutbound, .ok rows⟩ ∈ deeds)
      (hrow : draft.source ∈ rows)
      (hclient : LoggedIn deeds t draft.source.matrixUserId account)
      (hto : ⟨t, .store (.getGhostEmailByRoom draft.source.roomId),
        .ok (some draft.toEmail)⟩ ∈ deeds)
      (hbody : QuotedFrom draft.source.bodyText draft.body)
      (hfiles : draft.attachments = draft.source.attachments.getD []) :
      Mandate cfg duties deeds t account (.submitBatch draft)
  | read {txnId : TransactionId} {txn : MatrixTransaction} {receipts : List ReadReceipt}
      {receipt : ReadReceipt} {user : UserId} {row : RegisteredUser} {email : EmailId}
      (htxn : duties t = .call (.transaction txnId txn))
      (hreceipts : receipts ∈ txn.ephemeral) (hreceipt : receipt ∈ receipts)
      (huser : user ∈ receipt.readers)
      (hrow : ⟨t, .store (.getUser user), .ok (some row)⟩ ∈ deeds)
      (hclient : LoggedIn deeds t user account)
      (hemail : ⟨t, .store (.getEmailIdFromEventId receipt.event), .ok (some email)⟩ ∈ deeds) :
      Mandate cfg duties deeds t account (.setSeen email true)
  /-- The user of a double puppet has flagged a room, whose latest email is marked as unread. -/
  | unread {user : UserId} {joined : JoinedRooms} {room : RoomId}
      {events : List AccountDataEvent} {email : EmailId}
      (hduty : duties t = .markedUnread user joined)
      (hroom : (room, some events) ∈ joined)
      (hflag : parseMarkedUnread events = some true)
      (hclient : LoggedIn deeds t user account)
      (hemail : ⟨t, .store (.getLatestEmailIdByRoom room), .ok (some email)⟩ ∈ deeds) :
      Mandate cfg duties deeds t account (.setSeen email false)
  | upload {txnId : TransactionId} {txn : MatrixTransaction} {sender : UserId} {room : RoomId}
      {event : EventId} {body media ghost : String} {relation : Option Relation}
      (htxn : duties t = .call (.transaction txnId txn))
      (hmem : .message sender room event body (some media) relation ∈ txn.events)
      (huser : isBridgeUser sender = false)
      (hroom : ⟨t, .store (.getGhostEmailByRoom room), .ok (some ghost)⟩ ∈ deeds)
      (hclient : LoggedIn deeds t sender account) :
      Mandate cfg duties deeds t account (.uploadMatrixMedia media)
  | typed {m : BotMessage} {chat : Chat} {command text : Str} {draft : Draft}
      (hbot : duties t = .bot m chat)
      (hlevel : (cfg.level m.event.user).isSome)
      (hcommand : startsWith "!email " m.body.toList)
      (hbody : Str.splitn (· == ' ') 4 m.body.toList =
        [command, draft.toEmail.toList, draft.subject.toList, text])
      (hclient : LoggedIn deeds t m.event.user account)
      (htext : Signed deeds t m.event.user (String.ofList text) draft.body)
      (hfiles : draft.attachments = []) :
      Mandate cfg duties deeds t account (.submitBatch draft)
  /-- A permitted user has replied to the message of a mail, and the mail is in the account. -/
  | answered {m : BotMessage} {chat : Chat} {target : EventId} {email : EmailId}
      {emails : List Email} {original : Email} {signed : String} {draft : Draft}
      (hbot : duties t = .bot m chat)
      (hlevel : (cfg.level m.event.user).isSome)
      (htarget : replyTargetEvent m.relation = some target)
      (hemail : ⟨t, .store (.getEmailIdFromEventId target), .ok (some email)⟩ ∈ deeds)
      (hclient : LoggedIn deeds t m.event.user account)
      (hemails : ⟨t, .jmap account (.getEmail [email]), .ok emails⟩ ∈ deeds)
      (horiginal : emails.getLast? = some original)
      (hto : draft.toEmail = (senderEmail original).getD "")
      (hsubject : draft.subject = replySubject (original.subject.getD ""))
      (hsigned : Signed deeds t m.event.user m.body signed)
      (htext : QuotedFrom signed draft.body)
      (hfiles : ∀ info ∈ draft.attachments, ∃ media, m.media = some media ∧
        ⟨t, .jmap account (.uploadMatrixMedia media), .ok info⟩ ∈ deeds) :
      Mandate cfg duties deeds t account (.submitBatch draft)
  | attach {m : BotMessage} {chat : Chat} {media : String}
      (hbot : duties t = .bot m chat)
      (hlevel : (cfg.level m.event.user).isSome)
      (hmedia : m.media = some media)
      (hclient : LoggedIn deeds t m.event.user account) :
      Mandate cfg duties deeds t account (.uploadMatrixMedia media)

def JmapCmd.writes : JmapCmd → Bool
  | setMailboxIds _ _ => true
  | submitBatch _ => true
  | uploadMatrixMedia _ => true
  | setSeen _ _ => true
  | _ => false

/-- Task `t` may load the images of the email that `target` shows: a permitted user asked for it
and has the email in the account that the user is logged in to. -/
inductive MayLoad (cfg : Config) (duties : Nat → Duty) (deeds : Deeds) (t : Nat) (room : RoomId)
    (target : EventId) : UserId → String → String → Prop
  | intro {sender : UserId} {account : Account} {email : EmailId} {ghostEmail html plain : String}
      {rest : List (Option String × String)}
      (hasked : ActsOn cfg duties deeds t (.loadImages sender room target))
      (hlevel : (cfg.level sender).isSome)
      (hemail : ⟨t, .store (.getEmailIdFromEventId target), .ok (some email)⟩ ∈ deeds)
      (hghost : ⟨t, .store (.getGhostEmailByRoom room), .ok (some ghostEmail)⟩ ∈ deeds)
      (hclient : LoggedIn deeds t sender account)
      (hbody : ⟨t, .jmap account (.getBodies email), .ok ((some html, plain) :: rest)⟩ ∈ deeds) :
      MayLoad cfg duties deeds t room target (cfg.ghostUserId ghostEmail) html plain

/-- What entitles task `t` to fetch an image, or to show those that it has fetched. -/
inductive ImageMandate (cfg : Config) (duties : Nat → Duty) (deeds : Deeds) (t : Nat) :
    MatrixCmd → Prop
  | fetch {room : RoomId} {target : EventId} {ghost : UserId} {html plain url : String}
      (hload : MayLoad cfg duties deeds t room target ghost html plain)
      (hurl : url ∈ (cfg.remoteImages html).take maxImages) :
      ImageMandate cfg duties deeds t (.fetchAndUpload ghost url)
  | edit {room : RoomId} {target : EventId} {ghost : UserId} {html plain : String}
      {loaded : List (String × String)} {timestamp : Option Nat}
      (hload : MayLoad cfg duties deeds t room target ghost html plain)
      (hloaded : ∀ url mxc, (url, mxc) ∈ loaded →
        ⟨t, .matrix (.fetchAndUpload ghost url), .ok mxc⟩ ∈ deeds) :
      ImageMandate cfg duties deeds t
        (.sendAsGhost room ghost (.edit target plain (cfg.inlineImages html loaded)) timestamp)

def MatrixCmd.loads : MatrixCmd → Bool
  | fetchAndUpload _ _ => true
  | sendAsGhost _ _ (.edit _ _ _) _ => true
  | _ => false

def MatrixCmd.shows (cfg : Config) : MatrixCmd → Bool
  | sendAsGhost _ sender (.message _) _ => sender != cfg.botUserId
  | sendAsGhost _ _ (.file _ _ _) _ => true
  | _ => false

def BridgeDeed.Mandated (cfg : Config) (duties : Nat → Duty) (deeds : Deeds)
    (d : BridgeDeed) : Prop :=
  match d.cmd with
  | .jmap account c => c.writes → Mandate cfg duties deeds d.task account c
  | .matrix c => (c.loads → ImageMandate cfg duties deeds d.task c) ∧
      (c.shows cfg → MailMandate cfg duties deeds d.task c)
  | .store (.saveRoomGhostMapping room address user) =>
    MadeRoom deeds d.task user address room ∧ Correspondent cfg duties deeds user address
  | .store (.saveMessageMapping email event) => ShowsMail cfg duties deeds d.task email event
  | .store (.saveThreadMappingAtomic thread root room _) =>
    BindsThread cfg duties deeds d.task thread root room
  | .task (.spawn task) => ∃ txnId txn,
    duties d.task = .call (.transaction txnId txn) ∧ txn.Reacts task
  | _ => True

/-! What the store knows, and what a deed tells of it. -/

def World.partner (w : World) (room : RoomId) : Option String :=
  (w.store.roomGhostMapping.lookup room).map (·.ghostEmail)

/-- What the bridge keeps of rooms, threads and mail. -/
inductive Fact where
  | partner (room : RoomId) (address : String)
  | bound (thread : ThreadId) (root : EventId) (room : RoomId)
  | shown (email : EmailId) (event : EventId)

namespace Fact

def Holds : Fact → World → Prop
  | partner room address, w => w.partner room = some address
  | bound thread root room, w => (w.store.threadMapping.lookup thread).map
      (fun row => (row.rootEventId, row.roomId)) = some (root, room)
  | shown email event, w => w.store.messageMapping.lookup email = some event

def WrittenBy : Fact → Cmd → Prop
  | partner room address, c => ∃ user, c = .store (.saveRoomGhostMapping room address user)
  | bound thread root room, c =>
    ∃ subject, c = .store (.saveThreadMappingAtomic thread root room subject)
  | shown email event, c => c = .store (.saveMessageMapping email event)

inductive ToldBy : Fact → BridgeDeed → Prop
  | partner {t : Nat} {room : RoomId} {address : String} :
      ToldBy (.partner room address) ⟨t, .store (.getGhostEmailByRoom room), .ok (some address)⟩
  | bound {t : Nat} {thread : ThreadId} {row : ThreadRow} :
      ToldBy (.bound thread row.rootEventId row.roomId)
        ⟨t, .store (.getThreadInfo thread), .ok (some row)⟩
  | shown {t : Nat} {email : EmailId} {event : EventId} :
      ToldBy (.shown email event) ⟨t, .store (.getEmailIdFromEventId event), .ok (some email)⟩

/-- The fact holds from the start, or since a deed has written it. -/
def Known (start : World) (f : Fact) (deeds : Deeds) : Prop :=
  Since (f.Holds start) (fun d : BridgeDeed => f.WrittenBy d.cmd) deeds

end Fact

/-- The deeds tell of every command of the trace and of every fact, and what a task is told was
so. -/
structure Chronicle (start w : World) (deeds : Deeds) : Prop where
  trace : ∀ r ∈ w.trace, ∃ d ∈ deeds, d.task = r.task ∧ d.cmd = r.cmd
  facts : ∀ f : Fact, f.Holds w → f.Known start deeds
  told : ∀ newer d older, deeds = newer ++ d :: older → ∀ f : Fact, f.ToldBy d → f.Known start older

section

variable {start w w' : World} {deeds : Deeds} {t : Nat}

theorem threads_run {thread : ThreadId} {root : EventId} {room : RoomId} {store : Store} {now : Nat}
    {order : List Nat} {c : StoreCmd}
    (h : ((c.run now order store).2.threadMapping.lookup thread).map
      (fun row => (row.rootEventId, row.roomId)) = some (root, room)) :
    (store.threadMapping.lookup thread).map (fun row => (row.rootEventId, row.roomId)) =
        some (root, room) ∨ ∃ subject, c = .saveThreadMappingAtomic thread root room subject := by
  have hreferring : ∀ {β : Type} {user : UserId} {b : β} {store' : Store},
      ((store.referring user b store').2.threadMapping.lookup thread).map
        (fun row => (row.rootEventId, row.roomId)) = some (root, room) →
      store'.threadMapping = store.threadMapping →
      (store.threadMapping.lookup thread).map (fun row => (row.rootEventId, row.roomId)) =
        some (root, room) := by
    intro β user b store' h hsame
    rcases referring_cases store user b store' with heq | heq
    · rwa [heq, hsame] at h
    · rwa [heq] at h
  cases c with
  | saveThreadMappingAtomic thread' root' room' subject =>
    simp only [StoreCmd.run] at h
    by_cases hthread : thread = thread'
    · subst hthread
      rw [AList.lookup_insert, Option.map_some, Option.some.injEq, Prod.mk.injEq] at h
      obtain ⟨rfl, rfl⟩ := h
      exact .inr ⟨subject, rfl⟩
    · rw [AList.lookup_insert_ne hthread] at h
      exact .inl h
  | updateThreadLatestEvent thread' latest =>
    simp only [StoreCmd.run, Sql.Table.lookup_modify, Option.map_map] at h
    refine .inl ?_
    rw [← h]
    congr 1
    funext row
    simp only [Function.comp_apply]
    split <;> rfl
  | deleteThreadMappings room' =>
    obtain ⟨row, hrow, heq⟩ := Option.map_eq_some_iff.mp h
    have hkept : store.threadMapping.lookup thread = some row :=
      (Sql.Table.lookup_of_lookup_deleteWhere hrow).1
    exact .inl (Option.map_eq_some_iff.mpr ⟨row, hkept, heq⟩)
  | saveJmapState => exact .inl (hreferring h rfl)
  | saveRoomGhostMapping => exact .inl (hreferring h rfl)
  | addToOutboundQueue => exact .inl (hreferring h rfl)
  | tryAcquireRoomCreationLock key =>
    simp only [StoreCmd.run] at h
    split at h
    · exact .inl h
    · exact .inl h
  | _ => exact .inl h

theorem messages_run {email : EmailId} {event : EventId} {store : Store} {now : Nat}
    {order : List Nat} {c : StoreCmd}
    (h : (c.run now order store).2.messageMapping.lookup email = some event) :
    store.messageMapping.lookup email = some event ∨ c = .saveMessageMapping email event := by
  have hreferring : ∀ {β : Type} {user : UserId} {b : β} {store' : Store},
      (store.referring user b store').2.messageMapping.lookup email = some event →
      store'.messageMapping = store.messageMapping →
      store.messageMapping.lookup email = some event := by
    intro β user b store' h hsame
    rcases referring_cases store user b store' with heq | heq
    · rwa [heq, hsame] at h
    · rwa [heq] at h
  cases c with
  | saveMessageMapping email' event' =>
    simp only [StoreCmd.run] at h
    by_cases hemail : email = email'
    · subst hemail
      obtain rfl := Option.some.inj ((AList.lookup_insert _).symm.trans h)
      exact .inr rfl
    · exact .inl ((AList.lookup_insert_ne hemail).symm.trans h)
  | saveJmapState => exact .inl (hreferring h rfl)
  | saveRoomGhostMapping => exact .inl (hreferring h rfl)
  | addToOutboundQueue => exact .inl (hreferring h rfl)
  | tryAcquireRoomCreationLock key =>
    simp only [StoreCmd.run] at h
    split at h
    · exact .inl h
    · exact .inl h
  | _ => exact .inl h

namespace Fact

theorem of_run {f : Fact} {now : Nat} {order : List Nat} {c : StoreCmd}
    (h : f.Holds { w with store := (c.run now order w.store).2 }) :
    f.Holds w ∨ f.WrittenBy (.store c) := by
  cases f with
  | partner room address =>
    obtain ⟨row, hrow, rfl⟩ := Option.map_eq_some_iff.mp h
    rcases ghosts_run hrow with hrow | ⟨user, rfl⟩
    · exact .inl (Option.map_eq_some_iff.mpr ⟨row, hrow, rfl⟩)
    · exact .inr ⟨user, rfl⟩
  | bound thread root room =>
    rcases threads_run h with h | ⟨subject, rfl⟩
    · exact .inl h
    · exact .inr ⟨subject, rfl⟩
  | shown email event =>
    rcases messages_run h with h | rfl
    · exact .inl h
    · exact .inr rfl

theorem Holds.of_store {f : Fact} (h : f.Holds w) (hw : w'.store = w.store) : f.Holds w' := by
  cases f with
  | partner room address =>
    show (w'.store.roomGhostMapping.lookup room).map (·.ghostEmail) = some address
    rw [hw]
    exact h
  | bound thread root room =>
    show (w'.store.threadMapping.lookup thread).map _ = some (root, room)
    rw [hw]
    exact h
  | shown email event =>
    show w'.store.messageMapping.lookup email = some event
    rw [hw]
    exact h

theorem of_exec {f : Fact} {c : Cmd} {a : Answer} {b : c.Ans}
    (he : exec t (.mk c) a w = some (b, w'))
    (h : f.Holds w') : f.Holds w ∨ f.WrittenBy c := by
  cases c with
  | store c =>
    rcases exec_store he with ⟨order, -, -, rfl⟩ | ⟨-, -, rfl⟩ | ⟨-, -, rfl⟩
    · exact of_run (h.of_store rfl)
    · exact .inl (h.of_store rfl)
    · exact of_run (h.of_store rfl)
  | matrix c =>
    obtain ⟨⟨issued, rfl⟩, -⟩ := exec_matrix he
    exact .inl (h.of_store rfl)
  | jmap account c =>
    obtain ⟨mail, rfl⟩ := exec_jmap he
    exact .inl (h.of_store rfl)
  | task c =>
    obtain ⟨-, -, rfl⟩ := exec_task he
    cases c <;> exact .inl (h.of_store rfl)

theorem ToldBy.holds {f : Fact} {c : Cmd} {a : Answer} {b : c.Ans} (h : f.ToldBy ⟨t, c, b⟩)
    (he : exec t (.mk c) a w = some (b, w')) : f.Holds w := by
  cases h with
  | partner =>
    rcases exec_store he with ⟨order, -, hb, -⟩ | ⟨-, hb, -⟩ | ⟨-, hb, -⟩
    · exact (Except.ok.inj hb).symm
    · cases hb
    · cases hb
  | bound =>
    rcases exec_store he with ⟨order, -, hb, -⟩ | ⟨-, hb, -⟩ | ⟨-, hb, -⟩
    · exact Option.map_eq_some_iff.mpr ⟨_, (Except.ok.inj hb).symm, rfl⟩
    · cases hb
    · cases hb
  | shown =>
    rcases exec_store he with ⟨order, -, hb, -⟩ | ⟨-, hb, -⟩ | ⟨-, hb, -⟩
    · obtain ⟨found, hfound, rfl⟩ := Option.map_eq_some_iff.mp (Except.ok.inj hb).symm
      obtain ⟨hlookup, hevent⟩ := Sql.Table.lookup_of_findWhere hfound
      rw [eq_of_beq hevent] at hlookup
      exact hlookup
    · cases hb
    · cases hb

end Fact

theorem Chronicle.step {c : Cmd} {a : Answer} {b : c.Ans} (h : Chronicle start w deeds)
    (he : exec t (.mk c) a w = some (b, w')) : Chronicle start w' (⟨t, c, b⟩ :: deeds) := by
  refine ⟨fun r hr => ?_, fun f hf => ?_, fun newer d older heq f hf => ?_⟩
  · rw [exec_trace he] at hr
    rcases List.mem_cons.mp hr with rfl | hr
    · exact ⟨_, List.mem_cons_self, rfl, rfl⟩
    · obtain ⟨d, hd, heq⟩ := h.trace r hr
      exact ⟨d, List.mem_cons_of_mem _ hd, heq⟩
  · rcases Fact.of_exec he hf with hf | hwritten
    · exact (h.facts f hf).cons _
    · exact .of_head hwritten
  · cases newer with
    | nil =>
      obtain ⟨rfl, rfl⟩ := List.cons.inj heq
      exact h.facts f (hf.holds he)
    | cons d' newer => exact h.told newer d older (List.cons.inj heq).2 f hf

theorem Chronicle.env {e : Env} (h : Chronicle start w deeds) (he : e.perform w = some w') :
    Chronicle start w' deeds := by
  have hsame : w'.trace = w.trace ∧ ∀ f : Fact, f.Holds w' → f.Holds w := by
    cases e with
    | release key stored =>
      rw [Env.perform] at he
      split at he
      · obtain rfl := Option.some.inj he
        exact ⟨rfl, fun f hf => by cases f <;> exact hf⟩
      · cases he
    | _ =>
      obtain rfl := Option.some.inj he
      exact ⟨rfl, fun f hf => by cases f <;> exact hf⟩
  exact ⟨fun r hr => h.trace r (hsame.1 ▸ hr), fun f hf => h.facts f (hsame.2 f hf), h.told⟩

theorem Chronicle.boot (h : w.trace = []) : Chronicle w w [] := by
  refine ⟨fun r hr => ?_, fun _ hf => .inl hf, fun newer d older heq => ?_⟩
  · rw [h] at hr
    cases hr
  · simp at heq

end

/-- Every deed of a run has its mandate, and the book tells what has come of the deeds. -/
def deedBook (cfg : Config) (duties : Nat → Duty) (start : World) :
    Book (household cfg duties) BridgeDeed where
  entry t _ o _ b _ := match o, b with
    | .mk c, b => ⟨t, c, b⟩
  grant := BridgeDeed.Mandated cfg duties
  agrees := Chronicle start
  step {_ _ o _ _ _ _ _} hw _ he := match o, he with
    | .mk _, he => hw.step he
  env hw he := hw.env he
  drop hw := ⟨hw.trace, fun f hf => hw.facts f (hf.of_store rfl), hw.told⟩

end JmapBridge
