import JmapBridge.Model.Types
import JmapBridge.Rust.Str

/-! Pure parts of the ingestion: which mail is skipped, how rooms, ghosts and
topics are named, and the settings of a bridge process. -/

namespace JmapBridge

open Rust

inductive Level where
  | user
  | admin
deriving DecidableEq, Repr

/-- The settings of a bridge process. `render` is `EmailBody::from_email`, `toLowercase`
is `str::to_lowercase`, and `backfillWindow` maps the time to the time less the window,
`none` where the subtraction overflows. `level` is the permission of a sender and
`removeReplyFallback` strips the quote a client puts before a reply. `remoteImages` lists the
images of a body that are not decorative, and `inlineImages` is `render_inline_images`.
`maxUploadSize` is the limit in the session of an account, 0 where there is none. -/
structure Config where
  domain : String := "localhost"
  toLowercase : String → String := id
  syncLimit : Nat := 10
  bridgeMailboxes : Bool := false
  render : Email → String × Option String := fun e => (e.text, none)
  timestamp : Nat → String := toString
  backfillWindow : Option (Nat → Option Int) := none
  quoteReplies : Bool := false
  sendDelayDefault : Int := 0
  level : UserId → Option Level := fun _ => none
  removeReplyFallback : String → String := id
  remoteImages : String → List String := fun _ => []
  inlineImages : String → List (String × String) → String := fun html _ => html
  maxUploadSize : String → Nat := fun _ => 0

def unknownSender : String := "unknown@sender"

def noSubject : String := "(No Subject)"

def EmailBody.fromEmail (cfg : Config) (email : Email) : EmailBody where
  plain := (cfg.render email).1
  html := (cfg.render email).2
  origin := .email (email.id.getD "")

def eqIgnoreAsciiCase (a b : String) : Bool := Str.eqIgnoreAsciiCase a.toList b.toList

/-- Mail without a sender and the user's own mail is not bridged. -/
def shouldSkipInbound (senderEmail ownEmail : Option String) : Bool :=
  match senderEmail with
  | none => true
  | some addr => ownEmail.any fun own => eqIgnoreAsciiCase own addr

def trim (s : String) : String := String.ofList (Str.trim s.toList)

def ghostDisplayName (name : Option String) (email : String) : String :=
  match (name.map trim).filter (· != "") with
  | none => email
  | some n => s!"{n} ({email})"

def localpartOf (addr : String) : String := String.ofList (Str.splitNext '@' addr.toList)

def chooseRecipient (toAddrs ccAddrs : List String) (ownEmail : Option String) : Option String :=
  let aliasOf := fun own => (toAddrs ++ ccAddrs).find? fun addr =>
    eqIgnoreAsciiCase (localpartOf addr) (localpartOf own)
  (ownEmail.bind aliasOf).or (toAddrs.head?.or ownEmail)

def recipientAlias (email : Email) (ownEmail : Option String) : Option String :=
  chooseRecipient ((email.toAddrs.getD []).map (·.email)) ((email.ccAddrs.getD []).map (·.email))
    ownEmail

def threadTopic (email : Email) (ghostEmail : String) (ownEmail : Option String) : String :=
  match recipientAlias email ownEmail with
  | none => s!"Email from {ghostEmail}"
  | some addr => s!"Email from {ghostEmail} to {addr}"

/-- Milliseconds, clamped to what a `u64` holds. -/
def Email.timestamp (email : Email) : Option Nat :=
  email.receivedAt.map fun t => min (t.toNat * 1000) (2 ^ 64 - 1)

def hexByte (n : Nat) : Str :=
  let digits := Nat.toDigits 16 n
  if digits.length < 2 then '0' :: digits else digits

def localpartChar (c : Char) : Str :=
  if c.isLower || c.isDigit || c == '.' || c == '_' || c == '-' then [c] else '=' :: hexByte c.toNat

def emailToLocalpart (cfg : Config) (email : String) : String :=
  String.ofList ("_jmap_".toList ++ (cfg.toLowercase email).toList.flatMap localpartChar)

def Config.ghostUserId (cfg : Config) (email : String) : UserId :=
  s!"@{emailToLocalpart cfg email}:{cfg.domain}"

def Config.botUserId (cfg : Config) : UserId := s!"@_jmap_bot:{cfg.domain}"

def userLabel (user : UserId) : String :=
  String.ofList (Str.splitNext ':' (user.toList.dropWhile (· == '@')))

def subjectPrefixes : List String := ["re:", "fwd:", "fw:"]

/-- The loop of `clean_subject`, each round of which shortens `s`. -/
def stripSubjectPrefixes : Nat → Str → Str
  | 0, s => s
  | n + 1, s =>
    match subjectPrefixes.find? fun p => p.toList.isPrefixOf (Str.toAsciiLowercase s) with
    | none => s
    | some p => stripSubjectPrefixes n (Str.trimStart (s.drop p.length))

def cleanSubject (subject : String) : String :=
  let s := Str.trim subject.toList
  let stripped := stripSubjectPrefixes s.length s
  String.ofList (if stripped.isEmpty then s else stripped)

end JmapBridge
