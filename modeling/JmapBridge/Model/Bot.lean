import JmapBridge.Model.Router

/-! The commands of the bot as they run: opening a conversation with a new address, sending one
mail, answering a bridged mail from outside its room, and a sync at the user's wish. -/

namespace JmapBridge

open Effect Rust

/-- A message outside the conversation rooms. `media` is the content URI of an image or a file,
whose name is then the body. -/
structure BotMessage where
  event : QueuedEvent
  body : String
  media : Option String := none
  relation : Option Relation := none

/-- The text of an error of another package is left out. -/
def errorText : Err → String
  | .context text => text
  | _ => ""

namespace BotMessage

variable (cfg : Config) (m : BotMessage)

def answer (text : String) : Bridge Unit := Act.lift (notify cfg m.event.room text)

/-! ### Mail -/

def builder (address subject body : String) (attachments : List AttachmentInfo) : EmailBuilder where
  source := ⟨0, m.event.user, m.event.room, m.event.event, m.body, none, none, none, 0⟩
  toEmail := address
  subject := subject
  body := body
  attachments := attachments

def notLoggedInAnswer : String := "You are not logged in. Type `login` to connect."

def sendTyped (account : Account) (address subject text : String) : Bridge Unit := do
  let signed ← Act.lift (appendUserSignature m.event.user text)
  match ← Act.attempt (submit account (m.builder address subject signed [])) with
  | .ok _ => m.answer cfg "Email sent successfully!"
  | .error err => m.answer cfg s!"Failed to send email: {errorText err}"

/-- `EmailCommand::execute`. -/
def executeEmail : Bridge Unit :=
  match Str.splitn (· == ' ') 4 m.body.toList with
  | [_, address, subject, text] => do
    match ← Act.lift (onTask (.getClient m.event.user)) with
    | none => m.answer cfg notLoggedInAnswer
    | some account =>
      m.sendTyped cfg account (String.ofList address) (String.ofList subject) (String.ofList text)
  | _ => m.answer cfg "Usage: !email <to> <subject> <body>"

/-- A file that cannot be attached is left out, with a notice. -/
def attachFile (account : Account) : Bridge (List AttachmentInfo) :=
  match m.media with
  | none => pure []
  | some uri => do
    match ← Act.attempt (onJmap account (.uploadMatrixMedia uri)) with
    | .ok info => pure [info]
    | .error err => do
      m.answer cfg s!"⚠️ Could not attach file \"{m.body}\":\n{errorText err}"
      pure []

def replyTo (account : Account) (original : Email) : Bridge Unit := do
  let thread ← Act.ofOption (.context "Email missing threadId") original.threadId
  let attachments ← m.attachFile cfg account
  let signed ← Act.lift (appendUserSignature m.event.user m.body)
  let sent ← Act.attempt (replyToEmail cfg account thread
    (m.builder ((senderEmail original).getD "") (replySubject (original.subject.getD "")) signed
      attachments))
  match sent with
  | .ok _ => m.answer cfg replySent
  | .error err => m.answer cfg (replyNotSent err)

/-- `ReplyCommand::execute`: nothing but a reply to a bridged email is answered. -/
def executeReply : Bridge Unit := do
  match replyTargetEvent m.relation with
  | none => pure ()
  | some target => do
    match ← onStore (.getEmailIdFromEventId target) with
    | none => pure ()
    | some email => do
      match ← Act.lift (onTask (.getClient m.event.user)) with
      | none => pure ()
      | some account => do
        let emails ← onJmap account (.getEmail [email])
        match emails.getLast? with
        | none => pure ()
        | some original => m.replyTo cfg account original

theorem executeReply_text (h : m.media = none) :
    m.executeReply cfg = replyCommand cfg m.event m.body m.relation := by
  have hreply : ∀ account original,
      m.replyTo cfg account original = JmapBridge.replyTo cfg account m.event m.body original := by
    intro account original
    unfold replyTo attachFile
    rw [h]
    rfl
  unfold executeReply replyCommand
  cases replyTargetEvent m.relation with
  | none => rfl
  | some target =>
    refine congrArg (Act.andThen (onStore (.getEmailIdFromEventId target))) (funext fun found => ?_)
    cases found with
    | none => rfl
    | some email =>
      refine congrArg (Act.andThen (Act.lift (onTask (.getClient m.event.user))))
        (funext fun client => ?_)
      cases client with
      | none => rfl
      | some account =>
        refine congrArg (Act.andThen (onJmap account (.getEmail [email]))) (funext fun emails => ?_)
        cases emails.getLast? with
        | none => rfl
        | some original => exact hreply account original

/-! ### Conversations -/

/-- The room is named for the subject, so that the first mail takes it over. -/
def openConversation (address subject : String) : Bridge Unit := do
  match ← Act.attempt (createContactRoom cfg m.event.user address address) with
  | .error err => m.answer cfg s!"Couldn't open a conversation with {address}: {errorText err}"
  | .ok room => do
    bestEffort (onMatrix (.setRoomName room (cleanSubject subject)))
    Act.lift (notify cfg room
      s!"Opened a conversation with {address}. Type your message here to send it as an email.")
    if m.event.room = room then pure ()
    else m.answer cfg s!"Opened a conversation with {address} — open the new room to write."

/-- `ComposeCommand::execute`. -/
def executeCompose : Bridge Unit :=
  match Router.parseCompose m.body.toList with
  | none => m.answer cfg "Usage: !compose <address> [subject]"
  | some (address, subject) =>
    if Router.looksLikeEmail address then do
      match ← Act.lift (onTask (.getClient m.event.user)) with
      | none => m.answer cfg notLoggedInAnswer
      | some _ =>
        let roomName := String.ofList (subject.getD "Matrix Conversation".toList)
        m.openConversation cfg (String.ofList address) roomName
    else m.answer cfg s!"'{String.ofList address}' doesn't look like an email address."

/-! ### The account -/

def pollNow (user : UserId) : Bridge Unit := do
  match ← Act.lift (onTask (.getClient user)) with
  | none => Act.fail (.context "no active JMAP session")
  | some account => poll cfg ⟨user, account⟩

/-- `SyncCommand::execute`. -/
def executeSync : Bridge Unit := do
  match ← Act.lift (onTask (.getClient m.event.user)) with
  | none => m.answer cfg "Not logged in. Type `login` to connect your JMAP account."
  | some _ => do
    m.answer cfg "Syncing…"
    bestEffort (pollNow cfg m.event.user)
    bestEffort (repairEmailSpace m.event.user)
    m.answer cfg "Sync complete — reconciled mail and re-filed your rooms into the email space."

/-- The end of a logout. -/
def endSession : Bridge Unit := do
  match ← Act.attempt (logout m.event.user) with
  | .ok _ => m.answer cfg "Logged out. Your rooms are kept — type `login` to reconnect. Any unsent mail was discarded."
  | .error _ => m.answer cfg "Logout failed — please try again or contact the operator."

/-- `LogoutCommand::execute`. -/
def executeLogout : Bridge Unit := do
  match ← Act.lift (onTask (.getClient m.event.user)) with
  | some _ => m.endSession cfg
  | none => do
    match ← onStore (.getUser m.event.user) with
    | some _ => m.endSession cfg
    | none => m.answer cfg "You are not logged in."

def saveSendDelay (secs : Int) : Bridge Unit := do
  match ← Act.attempt (onStore (.saveJmapState m.event.user .sendDelaySeconds (toString secs))) with
  | .error _ => m.answer cfg "Failed to save send delay."
  | .ok _ =>
    if secs = 0 then
      m.answer cfg "Send delay turned off — mail sends immediately. Redact a message to unsend only while it's still queued."
    else
      m.answer cfg s!"Send delay set to {secs}s. Redact within the window to unsend, or edit to change the text."

/-- `SendDelayCommand::execute`. -/
def executeSendDelay : Bridge Unit :=
  match Router.parseSendDelay m.body.toList with
  | .showSendDelay => do
    let effective ← Act.lift (sendDelayFor cfg m.event.user)
    m.answer cfg s!"Send delay is {effective}s. Use `send-delay <seconds>` (0–{maxSendDelaySecs}) or `send-delay off`."
  | .setSendDelay secs => m.saveSendDelay cfg secs
  | .answer text => m.answer cfg text
  | _ => pure ()

def helpText : String := "Available commands:\n\nlogin - Start interactive login\nlogout - Disconnect your JMAP account (keeps your rooms)\nstatus - Show bridge connection/sync status (alias: ping)\nsync - Reconcile mail now and re-file your rooms into the email space\nhelp - Show this message\nsignature <text> - Set custom signature\nsignature clear - Clear signature\n!compose <address> [subject] - Start a new email conversation (then just type)\n!email <to> <subject> <body> - Send a one-off email\nshow-images - In an email room, reply to a message with this (or react 🖼️) to load its remote images\ndelete-room - In an email room, move the whole thread to Trash and unbridge it (or react 🗑)\nspam - In an email room, move the whole thread to Junk and unbridge it (or react 🚫)"

/-- The commands that work on mail and rooms. Those left out say how the bridge stands, keep the
signature and log in. -/
def execute : ChatCommand → Bridge Unit
  | .help => m.answer cfg helpText
  | .logout => m.executeLogout cfg
  | .sync => m.executeSync cfg
  | .sendDelay => m.executeSendDelay cfg
  | .compose => m.executeCompose cfg
  | .email => m.executeEmail cfg
  | .reply => m.executeReply cfg
  | .status | .signature | .login | .loginMatrix => pure ()

def handlers (chat : Chat) : TextHandlers (Bridge Unit) :=
  { chat.handlers cfg m.event m.body m.relation with execute := m.execute cfg }

/-- How the message is handled, by how far its sender has come in the login dialog. -/
def handle (chat : Chat) : Bridge Unit :=
  (m.handlers cfg chat).receive m.body m.relation (cfg.level m.event.user) chat.loginState

theorem handle_text (chat : Chat) (h : m.media = none) :
    m.handle cfg { chat with others := m.execute cfg } =
      handleCommand cfg { chat with others := m.execute cfg } m.event m.body m.relation := by
  have hexecute : m.execute cfg =
      Chat.execute cfg { chat with others := m.execute cfg } m.event m.body m.relation := by
    funext c
    cases c with
    | reply => exact m.executeReply_text cfg h
    | _ => rfl
  rw [handle, handlers, handleCommand]
  refine congrArg (fun execute => TextHandlers.receive { Chat.handlers cfg
    { chat with others := m.execute cfg } m.event m.body m.relation with execute := execute }
    m.body m.relation (cfg.level m.event.user) chat.loginState) hexecute

end BotMessage

end JmapBridge
