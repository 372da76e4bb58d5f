import JmapBridge.Effect.Pool
import JmapBridge.Model.Router
import JmapBridge.Sql.Table

/-! The login dialog: the store of login states, which expire, the three messages in which a
user gives address, password and session URL, and the command that gives them at once. -/

namespace JmapBridge.Dialog

open Effect Rust Sql

/-! ### The store of login states -/

/-- `LOGIN_STATE_TTL_SECS`, in the nanoseconds of an `Instant`. -/
def loginStateTtl : Nat := 300 * 10 ^ 9

structure LoginStateEntry where
  state : LoginState
  expiresAt : Nat
deriving DecidableEq, Repr

abbrev StateStore := Table UserId LoginStateEntry

/-- An expired entry is evicted. -/
def getLoginState (now : Nat) (user : UserId) (s : StateStore) : LoginState × StateStore :=
  match s.lookup user with
  | some entry => if now < entry.expiresAt then (entry.state, s) else (.none, s.erase user)
  | none => (.none, s)

def setLoginState (now : Nat) (user : UserId) (state : LoginState) (s : StateStore) : StateStore :=
  s.insert user ⟨state, now + loginStateTtl⟩

def clearLoginState (user : UserId) (s : StateStore) : StateStore := s.erase user

def cleanupExpired (now : Nat) (s : StateStore) : StateStore :=
  s.deleteWhere fun _ entry => !decide (now < entry.expiresAt)

/-! ### The commands of a handler -/

/-- `login` is `ClientManager::login`, `autoDoublePuppet` what follows its success, and
`execute` a command of the bot that has no part in the login. -/
inductive Cmd where
  | getLoginState (user : UserId)
  | setLoginState (user : UserId) (state : LoginState)
  | clearLoginState (user : UserId)
  | cleanupExpired
  | tick
  | redactEvent (room : RoomId) (event : EventId) (reason : String)
  | notify (room : RoomId) (text : String)
  | login (user : UserId) (username token url : String)
  | autoDoublePuppet (user : UserId)
  | execute (user : UserId) (command : ChatCommand)
deriving DecidableEq, Repr

@[reducible] def Cmd.Ans : Cmd → Type
  | getLoginState _ => LoginState
  | login _ _ _ _ => Except String Unit
  | _ => Unit

inductive Op : Type → Type where
  | mk (c : Cmd) : Op c.Ans

/-- A login may be refused with an error. -/
inductive Answer where
  | done
  | refused (err : String)
deriving DecidableEq, Repr

structure World where
  now : Nat := 0
  states : StateStore := ∅

def Cmd.perform : (c : Cmd) → Answer → World → Option (c.Ans × World)
  | getLoginState user, .done, w =>
    some ((Dialog.getLoginState w.now user w.states).1,
      { w with states := (Dialog.getLoginState w.now user w.states).2 })
  | setLoginState user state, .done, w =>
    some ((), { w with states := Dialog.setLoginState w.now user state w.states })
  | clearLoginState user, .done, w =>
    some ((), { w with states := Dialog.clearLoginState user w.states })
  | cleanupExpired, .done, w =>
    some ((), { w with states := Dialog.cleanupExpired w.now w.states })
  | tick, .done, w => some ((), w)
  | redactEvent _ _ _, .done, w => some ((), w)
  | notify _ _, .done, w => some ((), w)
  | login _ _ _ _, .done, w => some (.ok (), w)
  | login _ _ _ _, .refused err, w => some (.error err, w)
  | autoDoublePuppet _, .done, w => some ((), w)
  | execute _ _, .done, w => some ((), w)
  | _, .refused _, _ => none

def exec (_ : Nat) {β : Type} : Op β → Answer → World → Option (β × World)
  | .mk c, a, w => c.perform a w

abbrev Task (α : Type) := Prog Op α

def run (c : Cmd) : Task c.Ans := Prog.call (.mk c)

/-! ### The handlers -/

/-- A text outside the conversation rooms; `level` is what the sender may do. -/
structure Message where
  sender : UserId
  level : Option Level
  room : RoomId
  event : EventId
  body : String
  relation : Option Relation := none

/-- `handle_one_shot_login`. -/
def oneShotLogin (m : Message) : Task Unit := do
  run (.redactEvent m.room m.event "Removing plain-text credentials")
  match Str.splitWhitespace m.body.toList with
  | _ :: username :: password :: url :: _ => do
    match ← run (.login m.sender (String.ofList username) (String.ofList password)
        (String.ofList url)) with
    | .ok () => do
      run (.notify m.room "Successfully logged in!")
      run (.autoDoublePuppet m.sender)
    | .error err => run (.notify m.room s!"Login failed: {err}")
  | _ => run (.notify m.room "Usage: !login <username> <token> <url>")

def isLoginWord (body : String) : Bool := ["login", "!login"].contains (trim body)

/-- `LoginCommand::execute`. -/
def executeLogin (m : Message) : Task Unit :=
  if isLoginWord m.body then do
    run (.setLoginState m.sender .waitingForEmail)
    run (.notify m.room "Please enter your email address:")
  else if startsWith "!login " m.body.toList then oneShotLogin m
  else pure ()

def handleLoginWaitingForEmail (m : Message) : Task Unit := do
  run (.setLoginState m.sender (.waitingForPassword (trim m.body)))
  run (.notify m.room "Great! Now enter your JMAP password or API token:")

def handleLoginWaitingForPassword (m : Message) (email : String) : Task Unit := do
  run (.redactEvent m.room m.event "Removing password")
  run (.setLoginState m.sender (.waitingForUrl email (trim m.body)))
  run (.notify m.room
    "Finally, enter your JMAP Session URL (e.g. https://jmap.example.com/.well-known/jmap):")

/-- The error of a failed login is not told. -/
def handleLoginWaitingForUrl (m : Message) (email password : String) : Task Unit := do
  run (.notify m.room "Attempting to log in...")
  match ← run (.login m.sender email password (trim m.body)) with
  | .ok () => do
    run (.clearLoginState m.sender)
    run (.notify m.room "Success! You are now logged in.")
    run (.autoDoublePuppet m.sender)
  | .error _ => do
    run (.notify m.room "Login failed: could not log in with those details. Please try again from the start by typing `login`.")
    run (.clearLoginState m.sender)

def handlers (m : Message) : TextHandlers (Task Unit) where
  silent := pure ()
  answer text := run (.notify m.room text)
  execute
    | .login => executeLogin m
    | c => run (.execute m.sender c)
  waitingForEmail := handleLoginWaitingForEmail m
  waitingForPassword := handleLoginWaitingForPassword m
  waitingForUrl := handleLoginWaitingForUrl m

def handle (m : Message) : Task Unit := do
  let state ← run (.getLoginState m.sender)
  (handlers m).receive m.body m.relation m.level state

/-- The task that `main` spawns, at ticks of a minute. -/
def runCleanup : Task Unit :=
  Prog.loop (fun _ : Unit => Prog.bind (run .tick) fun _ =>
    Prog.bind (run .cleanupExpired) fun _ => .pure (.inl ())) () (fun _ : Unit => .pure ())

/-- What a task does: the handlers of several deliveries may interleave. -/
inductive Call where
  | message (m : Message)
  | cleanup

def Call.program : Call → Task Unit
  | message m => handle m
  | cleanup => runCleanup

/-- The clock goes on. -/
inductive Env where
  | advance (nanos : Nat)

def Env.perform : Env → World → Option World
  | advance nanos, w => some { w with now := w.now + nanos }

def dialogs (calls : Nat → Call) : System Op World Answer Env where
  exec := exec
  env := Env.perform
  drop _ w := w
  entry t := (calls t).program

end JmapBridge.Dialog
