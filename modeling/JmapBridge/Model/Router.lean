import JmapBridge.Model.Commands
import JmapBridge.Rust.Scan

/-! What a text outside the conversation rooms asks of the bot: the command that the router
finds for it and what that command takes from the body, with the slices and the indices by
which it does so. -/

namespace Rust.Str

def stripPrefix (t s : Str) : Option Str :=
  if startsWith t s then some (s.drop t.length) else none

/-- `s.splitn(n, p)`. -/
def splitn (p : Char → Bool) : Nat → Str → List Str
  | 0, _ => []
  | 1, s => [s]
  | n + 2, s =>
    match s.dropWhile fun c => !p c with
    | [] => [s]
    | _ :: rest => splitFirst p s :: splitn p (n + 1) rest

/-- `n` times at most, the prefix `t` taken from `s`. -/
def trimPrefixes (t : Str) : Nat → Str → Str
  | 0, s => s
  | n + 1, s =>
    match stripPrefix t s with
    | some rest => trimPrefixes t n rest
    | none => s

/-- `s.trim_start_matches(t)` with a string that is not empty. -/
def trimStartStr (t s : Str) : Str := trimPrefixes t s.length s

end Rust.Str

namespace JmapBridge.Router

open Rust Rust.Str

/-- What a message asks the bot for. An answer that depends on the body alone is given here. -/
inductive Request where
  | nothing
  | answer (text : String)
  | help
  | status
  | logout
  | sync
  | showSendDelay
  | setSendDelay (secs : Int)
  | matrixToken (token : Str)
  | askEmail
  | keepEmail (email : Str)
  | keepPassword (email password : Str)
  | login (username password url : Str)
  | compose (address roomName : Str)
  | email (recipient subject body : Str)
  | showSignature
  | clearSignature
  | setSignature (text : Str)
  | reply (body : Str)
deriving DecidableEq, Repr

def parseSendDelay (body : Str) : Request :=
  let arg := Str.trim (trimStartStr "send-delay".toList (trimStartMatches '!' (Str.trim body)))
  if arg.isEmpty then .showSendDelay
  else if Str.eqIgnoreAsciiCase arg "off".toList then .setSendDelay 0
  else
    match Str.parseI64 arg with
    | some n =>
      if 0 ≤ n ∧ n ≤ maxSendDelaySecs then .setSendDelay n
      else .answer s!"Send delay must be between 0 and {maxSendDelaySecs} seconds."
    | none => .answer "Usage: `send-delay <seconds>` or `send-delay off`."

def parseLoginMatrix (body : Str) : Request :=
  match ((Str.splitWhitespace body)[1]?).filter fun token => !token.isEmpty with
  | some token => .matrixToken token
  | none =>
    .answer "Usage: `login-matrix <access-token>` — paste a Matrix access token (in Element: Settings → Help & About → Access Token) so I can auto-accept invites to your email rooms."

/-- `handle_one_shot_login`. -/
def oneShotLogin (body : Str) : Scan Request := do
  let parts := Str.splitWhitespace body
  if parts.length < 4 then pure (.answer "Usage: !login <username> <token> <url>")
  else do
    let username ← Scan.index parts 1
    let password ← Scan.index parts 2
    let url ← Scan.index parts 3
    pure (.login username password url)

def parseLogin (body : Str) : Scan Request :=
  let trimmed := Str.trim body
  if trimmed = "login".toList ∨ trimmed = "!login".toList then pure .askEmail
  else if Str.startsWith "!login ".toList body then oneShotLogin body
  else pure .nothing

/-- `parse_compose`. -/
def parseCompose (body : Str) : Option (Str × Option Str) := do
  let rest ← ["!compose", "!email-to"].findSome? fun p =>
    stripPrefix p.toList (Str.trimStart body)
  let parts := splitn Str.isWhitespace 2 (Str.trimStart rest)
  let address := Str.trim (parts.head?.getD [])
  if address.isEmpty then none
  else some (address, ((parts[1]?).map Str.trim).filter fun subject => !subject.isEmpty)

/-- `looks_like_email`. -/
def looksLikeEmail (addr : Str) : Bool :=
  match Str.split '@' addr with
  | [loc, domain] =>
    !loc.isEmpty && decide (3 ≤ byteLen domain) && List.contains domain '.' &&
      !Str.startsWith ['.'] domain && !Str.endsWith ['.'] domain
  | _ => false

/-- A round of the loop of `clean_subject`. -/
def subjectRound (s : Str) : Scan (Turn Str Str) :=
  match subjectPrefixes.find? fun p => Str.startsWith p.toList (Str.toAsciiLowercase s) with
  | none => pure (.done s)
  | some p => do
    let rest ← Scan.sliceFrom s (byteLen p.toList)
    pure (.again (Str.trimStart rest))

/-- `clean_subject`. -/
def cleanSubject (subject : Str) : Scan Str := do
  let s ← Scan.loop subjectRound (Str.trim subject)
  pure (if s.isEmpty then Str.trim subject else s)

def executeCompose (body : Str) : Scan Request :=
  match parseCompose body with
  | none => pure (.answer "Usage: !compose <address> [subject]")
  | some (address, subject) =>
    if looksLikeEmail address then do
      let name ← cleanSubject (subject.getD "Matrix Conversation".toList)
      pure (.compose address name)
    else pure (.answer s!"'{String.ofList address}' doesn't look like an email address.")

def parseEmail (body : Str) : Scan Request := do
  let parts := splitn (· == ' ') 4 body
  if parts.length < 4 then pure (.answer "Usage: !email <to> <subject> <body>")
  else do
    let recipient ← Scan.index parts 1
    let subject ← Scan.index parts 2
    let text ← Scan.index parts 3
    pure (.email recipient subject text)

def signatureArgs (body : Str) : Str :=
  let trimmed := Str.trim body
  if Str.startsWith "!signature".toList trimmed then
    Str.trim ((stripPrefix "!signature".toList trimmed).getD [])
  else Str.trim ((stripPrefix "signature".toList trimmed).getD [])

/-- `args` begins with a quote and ends with the same. -/
def quoted (args : Str) : Bool :=
  Str.startsWith ['"'] args && Str.endsWith ['"'] args ||
    Str.startsWith ['\''] args && Str.endsWith ['\''] args

def parseSignature (body : Str) : Scan Request :=
  let args := signatureArgs body
  if args.isEmpty then pure .showSignature
  else if args = "clear".toList then pure .clearSignature
  else if quoted args then do
    let text ← Scan.slice args 1 (Scan.usizeSub (byteLen args) 1)
    pure (.setSignature text)
  else pure (.setSignature args)

/-- What `execute` reads from the body. -/
def parse (body : Str) : ChatCommand → Scan Request
  | .help => pure .help
  | .status => pure .status
  | .logout => pure .logout
  | .sync => pure .sync
  | .sendDelay => pure (parseSendDelay body)
  | .loginMatrix => pure (parseLoginMatrix body)
  | .login => parseLogin body
  | .compose => executeCompose body
  | .email => parseEmail body
  | .signature => parseSignature body
  | .reply => pure (.reply body)

def handlers (body : String) : TextHandlers (Scan Request) where
  silent := pure .nothing
  answer text := pure (.answer text)
  execute := parse body.toList
  waitingForEmail := pure (.keepEmail (Str.trim body.toList))
  waitingForPassword email := pure (.keepPassword email.toList (Str.trim body.toList))
  waitingForUrl email password :=
    pure (.login email.toList password.toList (Str.trim body.toList))

/-- A text outside the conversation rooms, by how far its sender has come in the login dialog. -/
def receive (level : Option Level) (state : LoginState) (body : String)
    (relation : Option Relation) : Scan Request :=
  (handlers body).receive body relation level state

end JmapBridge.Router
