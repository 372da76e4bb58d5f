import JmapBridge.Model.Calls

/-! What a text of a user sets off: in a conversation room it is mail or one of the room's
commands, elsewhere it belongs to the login dialog or to the commands of the bot. -/

namespace JmapBridge

open Effect Rust

universe u

/-- How far the sender has come in the login dialog. -/
inductive LoginState where
  | none
  | waitingForEmail
  | waitingForPassword (email : String)
  | waitingForUrl (email password : String)
deriving DecidableEq, Repr

inductive ChatCommand where
  | help
  | status
  | logout
  | sync
  | sendDelay
  | loginMatrix
  | login
  | compose
  | email
  | signature
  | reply
deriving DecidableEq, Repr

/-- The commands in the order in which the router tries them. -/
def ChatCommand.router : List ChatCommand :=
  [help, status, logout, sync, sendDelay, loginMatrix, login, compose, email, signature, reply]

def startsWith (name : String) (body : Str) : Bool := name.toList.isPrefixOf body

/-- `name` alone, or followed by white space. -/
def isCommandWord (body : Str) (name : String) : Bool :=
  body == name.toList ||
    startsWith name body && (body.drop name.length).head?.any Str.isWhitespace

/-- Every message that replies to another is a command of its own. -/
def ChatCommand.matches (body : String) (relation : Option Relation) : ChatCommand → Bool
  | help => ["help", "!help"].contains (trim body)
  | status => ["status", "!status", "ping", "!ping"].contains (trim body)
  | logout => ["logout", "!logout"].contains (trim body)
  | sync => ["sync", "!sync"].contains (trim body)
  | sendDelay => ["send-delay", "!send-delay"].contains (trim body) ||
      startsWith "send-delay " (Str.trim body.toList) ||
      startsWith "!send-delay " (Str.trim body.toList)
  | loginMatrix => startsWith "login-matrix" (Str.trimStart body.toList) ||
      startsWith "!login-matrix" (Str.trimStart body.toList)
  | login => ["login", "!login"].contains (trim body) || startsWith "!login " body.toList
  | compose => isCommandWord (Str.trimStart body.toList) "!compose" ||
      isCommandWord (Str.trimStart body.toList) "!email-to"
  | email => startsWith "!email " body.toList
  | signature => startsWith "!signature" body.toList || startsWith "signature" body.toList
  | reply => relation.isSome

def ChatCommand.minLevel : ChatCommand → Level := fun _ => .user

def Level.rank : Level → Nat
  | user => 0
  | admin => 1

def notPermitted : String :=
  "You are not permitted to use this bridge. Ask the operator for access."

/-- What is done with a text outside the conversation rooms: the answers, the commands and the
three messages of the login dialog. -/
structure TextHandlers (α : Type u) where
  silent : α
  answer : String → α
  execute : ChatCommand → α
  waitingForEmail : α
  waitingForPassword : String → α
  waitingForUrl : String → String → α

namespace TextHandlers

variable {α : Type u} (h : TextHandlers α) (body : String) (relation : Option Relation)

/-- `CommandRouter::dispatch`. -/
def dispatch (level : Level) : α :=
  match ChatCommand.router.find? (ChatCommand.matches body relation) with
  | none => h.silent
  | some c =>
    if level.rank < c.minLevel.rank then
      h.answer "That command requires admin permission on this bridge."
    else h.execute c

def handleLoginNone (level : Option Level) : α :=
  match level with
  | none =>
    if ChatCommand.router.any (ChatCommand.matches body relation) then h.answer notPermitted
    else h.silent
  | some level => h.dispatch body relation level

def receive (level : Option Level) : LoginState → α
  | .none => h.handleLoginNone body relation level
  | .waitingForEmail => h.waitingForEmail
  | .waitingForPassword email => h.waitingForPassword email
  | .waitingForUrl email password => h.waitingForUrl email password

variable {h body relation}

/-- A text of a sender in no dialog is let pass, answered, or a command of a permitted sender. -/
theorem handleLoginNone_of (C : α → Prop) {level : Option Level} (hsilent : C h.silent)
    (hanswer : ∀ text, C (h.answer text))
    (hexecute : ∀ c, level.isSome → c.matches body relation = true → C (h.execute c)) :
    C (h.handleLoginNone body relation level) := by
  cases level with
  | none =>
    rw [handleLoginNone]
    split
    · exact hanswer _
    · exact hsilent
  | some level =>
    rw [handleLoginNone, dispatch]
    cases hfound : ChatCommand.router.find? (ChatCommand.matches body relation) with
    | none => exact hsilent
    | some c =>
      dsimp only
      split
      · exact hanswer _
      · exact hexecute c rfl (List.find?_some hfound)

end TextHandlers

def replySent : String := "Reply sent successfully!"

/-- The text of an error of another package is left out. -/
def replyNotSent : Err → String
  | .context text => s!"Failed to send reply: {text}"
  | _ => "Failed to send reply: "

/-- The reply to an email, sent at once and not through the queue. -/
def replyTo (cfg : Config) (account : Account) (e : QueuedEvent) (body : String)
    (original : Email) : Bridge Unit := do
  let thread ← Act.ofOption (.context "Email missing threadId") original.threadId
  let signed ← Act.lift (appendUserSignature e.user body)
  let sent ← Act.attempt (replyToEmail cfg account thread
    { source := ⟨0, e.user, e.room, e.event, body, none, none, none, 0⟩
      toEmail := (senderEmail original).getD ""
      subject := replySubject (original.subject.getD "")
      body := signed })
  match sent with
  | .ok _ => Act.lift (notify cfg e.room replySent)
  | .error err => Act.lift (notify cfg e.room (replyNotSent err))

/-- `ReplyCommand` for a text: nothing but a reply to a bridged email is answered. -/
def replyCommand (cfg : Config) (e : QueuedEvent) (body : String) (relation : Option Relation) :
    Bridge Unit := do
  match replyTargetEvent relation with
  | none => pure ()
  | some target => do
    match ← onStore (.getEmailIdFromEventId target) with
    | none => pure ()
    | some email => do
      match ← Act.lift (onTask (.getClient e.user)) with
      | none => pure ()
      | some account => do
        let emails ← onJmap account (.getEmail [email])
        match emails.getLast? with
        | none => pure ()
        | some original => replyTo cfg account e body original

/-- What the bot knows of the sender besides the store. `loginSucceeds` is how the login ends
that the dialog comes to, which is `Env.login`, and `others` are the commands besides the reply. -/
structure Chat where
  loginState : LoginState := .none
  loginSucceeds : Bool := false
  others : ChatCommand → Bridge Unit := fun _ => Act.ok ()

def Chat.execute (cfg : Config) (chat : Chat) (e : QueuedEvent) (body : String)
    (relation : Option Relation) : ChatCommand → Bridge Unit
  | .reply => replyCommand cfg e body relation
  | c => chat.others c

def handleLoginWaitingForPassword (cfg : Config) (e : QueuedEvent) : Bridge Unit := do
  bestEffort (onMatrix (.redactEvent e.room e.event "Removing password"))
  Act.lift (notify cfg e.room
    "Finally, enter your JMAP Session URL (e.g. https://jmap.example.com/.well-known/jmap):")

def handleLoginWaitingForUrl (cfg : Config) (chat : Chat) (e : QueuedEvent) : Bridge Unit := do
  Act.lift (notify cfg e.room "Attempting to log in...")
  Act.lift (notify cfg e.room
    (if chat.loginSucceeds then "Success! You are now logged in."
    else "Login failed: could not log in with those details. Please try again from the start by typing `login`."))

def Chat.handlers (cfg : Config) (chat : Chat) (e : QueuedEvent) (body : String)
    (relation : Option Relation) : TextHandlers (Bridge Unit) where
  silent := pure ()
  answer text := Act.lift (notify cfg e.room text)
  execute := chat.execute cfg e body relation
  waitingForEmail :=
    Act.lift (notify cfg e.room "Great! Now enter your JMAP password or API token:")
  waitingForPassword _ := handleLoginWaitingForPassword cfg e
  waitingForUrl _ _ := handleLoginWaitingForUrl cfg chat e

/-- A text outside the conversation rooms. -/
def handleCommand (cfg : Config) (chat : Chat) (e : QueuedEvent) (body : String)
    (relation : Option Relation) : Bridge Unit :=
  (chat.handlers cfg e body relation).receive body relation (cfg.level e.user) chat.loginState

/-- `handleMessage` for a text, with what follows outside the conversation rooms. -/
def handleText (cfg : Config) (e : QueuedEvent) (body : String) (relation : Option Relation)
    (command : Bridge Unit) : Bridge Unit := do
  match ← onStore (.getGhostEmailByRoom e.room) with
  | some _ => routeGhostMessage cfg e body none relation
  | none => do
    Act.lift (onTask (.log (.notInGhostRoom e.event)))
    command

theorem handleText_ok (cfg : Config) (e : QueuedEvent) (body : String)
    (relation : Option Relation) :
    handleText cfg e body relation (Act.ok ()) = handleMessage cfg e body none relation := by
  refine congrArg (Act.andThen (onStore (.getGhostEmailByRoom e.room))) (funext fun ghost => ?_)
  cases ghost with
  | some _ => rfl
  | none => rfl

/-- A user types a text that is no edit. -/
def typing (cfg : Config) (chat : Chat) (e : QueuedEvent) (body : String)
    (relation : Option Relation) : Bridge Unit :=
  if isBridgeUser e.user then pure ()
  else handleText cfg e body relation
    (bestEffort (handleCommand cfg chat e body relation))

/-- A user reacts to a message, and the task that the reaction spawns runs. -/
def reacting (cfg : Config) (sender : UserId) (room : RoomId) (target : EventId) (key : String) :
    Bridge Unit :=
  if isBridgeUser sender then pure ()
  else do
    Act.lift (handleReaction sender room target key)
    match reactionTask sender room target key with
    | some task => bestEffort (task.program cfg)
    | none => pure ()

end JmapBridge
