import JmapBridge.Effect.Triple
import JmapBridge.Model.Store
import JmapBridge.Rust.Str

/-! The double puppets: the Matrix tokens in the store, the users in the set of running
puppets, and the auto-accept loops. -/

namespace JmapBridge

open Effect Sql

/-- A spawned loop accepts once the runtime polls it, and leaves once `run_auto_accept` has
returned. -/
inductive PuppetPhase where
  | spawned
  | accepting
  | leaving
deriving DecidableEq, Repr

structure AutoAccept where
  user : UserId
  token : String
  phase : PuppetPhase := .spawned
deriving DecidableEq, Repr

/-- A stripped state event of an invite; a field is `none` where the answer has no string. -/
structure StrippedEvent where
  type : Option String
  stateKey : Option String
  membership : Option String
  sender : Option UserId
deriving DecidableEq, Repr

/-- A `/sync` request that is rejected, fails in some other way, or returns the next batch
with its `rooms.invite`, each room with the events of its `invite_state`. -/
inductive SyncReply where
  | rejected
  | failed
  | batch (next : Option String) (invites : Option (List (RoomId × Option (List StrippedEvent))))
deriving DecidableEq, Repr

/-- `ensureRunning` takes the lock, inserts the user and spawns the loop, with no await
in between. `takeUp` is the first poll of a spawned loop. -/
inductive PuppetCmd where
  | redact (room : RoomId) (event : EventId)
  | whoami (token : String)
  | getUser (user : UserId)
  | getAllUsers
  | setToken (user : UserId) (token : String)
  | getToken (user : UserId)
  | mint (user : UserId)
  | loginPassword (user : UserId) (password : String)
  | ensureRunning (user : UserId) (token : String)
  | notify (room : Option RoomId) (text : String)
  | takeUp
  | sync (user : UserId) (token : String) (since : Option String)
  | sleep (millis : Nat)
  | markUnread (user : UserId)
  | joinRoom (token : String) (room : RoomId)
  | removeRunning (user : UserId)
deriving DecidableEq, Repr

@[reducible] def PuppetCmd.Ans : PuppetCmd → Type
  | whoami _ => Except String UserId
  | getUser _ => Option Bool
  | getAllUsers => Option (List UserId)
  | setToken _ _ => Except String Unit
  | getToken _ => Option (Option String)
  | mint _ => Option String
  | loginPassword _ _ => Option String
  | takeUp => UserId × String × UserId
  | sync _ _ _ => SyncReply
  | _ => Unit

inductive PuppetOp : Type → Type where
  | mk (c : PuppetCmd) : PuppetOp c.Ans

def PuppetOp.cmd {β : Type} : PuppetOp β → PuppetCmd
  | .mk c => c

inductive PuppetAnswer where
  | done
  | failed (text : String)
  | found (b : Bool)
  | user (u : UserId)
  | users (us : List UserId)
  | token (tok : String)
  | spawns (task : Nat)
  | reply (r : SyncReply)
deriving DecidableEq, Repr

structure PuppetRecord where
  task : Nat
  cmd : PuppetCmd
  answer : PuppetAnswer
deriving DecidableEq, Repr

/-- The loops are known by the task that runs them. The newest record of `trace` is its
first. -/
structure PuppetWorld where
  botUserId : UserId := "@_jmap_bot:localhost"
  tokens : Table UserId String := ∅
  running : Table UserId Unit := ∅
  puppets : Table Nat AutoAccept := ∅
  trace : List PuppetRecord := []

structure CommandContext where
  sender : UserId
  body : String
  room : Option RoomId := none
  event : Option EventId := none
deriving DecidableEq, Repr

structure PuppetConfig where
  secret : Option String := none
  domain : String
deriving DecidableEq, Repr

inductive PuppetCall where
  | loginMatrix (ctx : CommandContext)
  | autoPuppet (config : PuppetConfig) (user : UserId)
  | provision (user : UserId) (password : String)
  | resume
  | puppet
deriving DecidableEq, Repr

/-- A command of task `t` under an answer of the environment. A loop is spawned as a task
that is to run it. -/
def PuppetCmd.run (calls : Nat → PuppetCall) (t : Nat) :
    (c : PuppetCmd) → PuppetAnswer → PuppetWorld → Option (c.Ans × PuppetWorld)
  | redact _ _, .done, w => some ((), w)
  | whoami _, .user u, w => some (.ok u, w)
  | whoami _, .failed e, w => some (.error e, w)
  | getUser _, .found b, w => some (some b, w)
  | getUser _, .failed _, w => some (none, w)
  | getAllUsers, .users us, w => some (some us, w)
  | getAllUsers, .failed _, w => some (none, w)
  | setToken u token, .done, w => some (.ok (), { w with tokens := w.tokens.insert u token })
  | setToken _ _, .failed e, w => some (.error e, w)
  | getToken u, .token tok, w =>
    if w.tokens.lookup u = some tok then some (some (some tok), w) else none
  | getToken u, .done, w => if w.tokens.lookup u = none then some (some none, w) else none
  | getToken _, .failed _, w => some (none, w)
  | mint _, .token tok, w => some (some tok, w)
  | mint _, .failed _, w => some (none, w)
  | loginPassword _ _, .token tok, w => some (some tok, w)
  | loginPassword _ _, .failed _, w => some (none, w)
  | ensureRunning u token, .spawns i, w =>
    if (w.running.lookup u).isSome then some ((), w)
    else if calls i = .puppet ∧ w.puppets.lookup i = none then
      some ((), { w with
        running := w.running.insert u ()
        puppets := w.puppets.insert i ⟨u, token, .spawned⟩ })
    else none
  | notify _ _, .done, w => some ((), w)
  | takeUp, .done, w =>
    match w.puppets.lookup t with
    | some ⟨u, token, .spawned⟩ =>
      some ((u, token, w.botUserId),
        { w with puppets := w.puppets.insert t ⟨u, token, .accepting⟩ })
    | _ => none
  | sync u token _, .reply .rejected, w =>
    some (.rejected, { w with puppets := w.puppets.insert t ⟨u, token, .leaving⟩ })
  | sync _ _ _, .reply r, w => some (r, w)
  | sleep _, .done, w => some ((), w)
  | markUnread _, .done, w => some ((), w)
  | joinRoom _ _, .done, w => some ((), w)
  | removeRunning u, .done, w =>
    some ((), { w with running := w.running.erase u, puppets := w.puppets.erase t })
  | _, _, _ => none

def puppetExec (calls : Nat → PuppetCall) (t : Nat) {β : Type} :
    PuppetOp β → PuppetAnswer → PuppetWorld → Option (β × PuppetWorld)
  | .mk c, a, w =>
    (c.run calls t a w).map fun r => (r.1, { r.2 with trace := ⟨t, c, a⟩ :: r.2.trace })

def onPuppet (c : PuppetCmd) : Prog PuppetOp c.Ans := Prog.call (.mk c)

def retryMillis : Nat := 10000

/-- The state of the invite holds an invite for `mxid` from the bot. -/
def invitedBy (inviteRoom : Option (List StrippedEvent)) (mxid botUserId : UserId) : Bool :=
  (inviteRoom.getD []).any fun ev =>
    ev.type == some "m.room.member" && ev.stateKey == some mxid &&
      ev.membership == some "invite" && ev.sender == some botUserId

/-- One turn of the `/sync` loop; it ends when the token is rejected. -/
def acceptOnce (user : UserId) (token : String) (botUserId : UserId) (since : Option String) :
    Prog PuppetOp (Option String ⊕ Unit) :=
  Prog.bind (onPuppet (.sync user token since)) fun
    | .rejected => .pure (.inr ())
    | .failed => Prog.bind (onPuppet (.sleep retryMillis)) fun _ => .pure (.inl since)
    | .batch next invites =>
      Prog.bind (onPuppet (.markUnread user)) fun _ =>
      Prog.bind (Prog.forEach (fun invite =>
        if invitedBy invite.2 user botUserId then onPuppet (.joinRoom token invite.1)
        else .pure ()) (invites.getD [])) fun _ =>
      .pure (.inl next)

def runAutoAccept (user : UserId) (token : String) (botUserId : UserId) : Prog PuppetOp Unit :=
  Prog.loop (acceptOnce user token botUserId) none .pure

/-- The task that `ensure_running` spawns. -/
def puppetTask : Prog PuppetOp Unit :=
  Prog.bind (onPuppet .takeUp) fun p =>
  Prog.bind (runAutoAccept p.1 p.2.1 p.2.2) fun _ => onPuppet (.removeRunning p.1)

def usageText : String :=
  "Usage: `login-matrix <access-token>` — paste a Matrix access token " ++
  "(in Element: Settings → Help & About → Access Token) so I can " ++
  "auto-accept invites to your email rooms."

def otherAccountText : String :=
  "That access token belongs to a different account. Provide a token for your own account."

def loginFirstText : String :=
  "Please `login` to connect your JMAP account first, then run `login-matrix` again."

def doneText : String := "Done — I'll auto-accept invites to your email rooms from now on."

def tokenOf (body : String) : Option String :=
  ((Rust.Str.splitWhitespace body.toList)[1]?).map String.ofList

def loginMatrix (ctx : CommandContext) : Prog PuppetOp Unit :=
  Prog.bind (match ctx.event, ctx.room with
    | some event, some room => onPuppet (.redact room event)
    | _, _ => .pure ()) fun _ =>
  match tokenOf ctx.body with
  | none => onPuppet (.notify ctx.room usageText)
  | some token =>
    Prog.bind (onPuppet (.whoami token)) fun
      | .error e => onPuppet (.notify ctx.room s!"That access token was rejected: {e}")
      | .ok id =>
        if id = ctx.sender then
          Prog.bind (onPuppet (.getUser ctx.sender)) fun
            | none => .pure ()
            | some false => onPuppet (.notify ctx.room loginFirstText)
            | some true =>
              Prog.bind (onPuppet (.setToken ctx.sender token)) fun
                | .error e => onPuppet (.notify ctx.room s!"Failed to store the token: {e}")
                | .ok _ =>
                  Prog.bind (onPuppet (.ensureRunning ctx.sender token)) fun _ =>
                  onPuppet (.notify ctx.room doneText)
        else onPuppet (.notify ctx.room otherAccountText)

/-- Shared-secret-auth is for the users of the bridge's own homeserver. -/
def PuppetConfig.mints (config : PuppetConfig) (user : UserId) : Bool :=
  config.secret.isSome && (':' :: config.domain.toList).isSuffixOf user.toList

def tryAutoDoublePuppet (config : PuppetConfig) (user : UserId) : Prog PuppetOp Unit :=
  if config.mints user then
    Prog.bind (onPuppet (.getToken user)) fun
      | some (some _) => .pure ()
      | _ =>
        Prog.bind (onPuppet (.mint user)) fun
          | none => .pure ()
          | some token =>
            Prog.bind (onPuppet (.setToken user token)) fun
              | .error _ => .pure ()
              | .ok _ => onPuppet (.ensureRunning user token)
  else .pure ()

/-- A user of the configuration with a Matrix password; a store that fails is only logged. -/
def provisionPuppet (user : UserId) (password : String) : Prog PuppetOp Unit :=
  Prog.bind (onPuppet (.loginPassword user password)) fun
    | none => .pure ()
    | some token =>
      Prog.bind (onPuppet (.setToken user token)) fun _ => onPuppet (.ensureRunning user token)

def resumePuppet (user : UserId) : Prog PuppetOp Unit :=
  Prog.bind (onPuppet (.getToken user)) fun
    | some (some token) => onPuppet (.ensureRunning user token)
    | _ => .pure ()

def resumePuppets : Prog PuppetOp Unit :=
  Prog.bind (onPuppet .getAllUsers) fun
    | some users => Prog.forEach resumePuppet users
    | none => .pure ()

def PuppetCall.program : PuppetCall → Prog PuppetOp Unit
  | loginMatrix ctx => JmapBridge.loginMatrix ctx
  | autoPuppet config user => tryAutoDoublePuppet config user
  | provision user password => provisionPuppet user password
  | resume => resumePuppets
  | puppet => puppetTask

/-- A puppet that is dropped leaves its user in the set. -/
def puppetSystem (calls : Nat → PuppetCall) : System PuppetOp PuppetWorld PuppetAnswer Empty where
  exec := puppetExec calls
  env e _ := e.elim
  drop t w := { w with puppets := w.puppets.erase t }
  entry t := (calls t).program

section Exec

variable {calls : Nat → PuppetCall} {t : Nat} {a : PuppetAnswer} {w w' : PuppetWorld}

theorem puppetExec_mk {c : PuppetCmd} {b : c.Ans}
    (h : puppetExec calls t (.mk c) a w = some (b, w')) :
    ∃ w₁, c.run calls t a w = some (b, w₁) ∧ w' = { w₁ with trace := ⟨t, c, a⟩ :: w₁.trace } := by
  obtain ⟨⟨b₁, w₁⟩, hp, he⟩ := Option.map_eq_some_iff.mp h
  obtain ⟨rfl, rfl⟩ := Prod.mk.inj he
  exact ⟨w₁, hp, rfl⟩

theorem puppetExec_setToken {u : UserId} {token : String} {b : Except String Unit}
    (h : puppetExec calls t (.mk (.setToken u token)) a w = some (b, w')) :
    (a = .done ∧ b = .ok () ∧ w' = { w with
      tokens := w.tokens.insert u token, trace := ⟨t, .setToken u token, a⟩ :: w.trace }) ∨
    ∃ e, a = .failed e ∧ b = .error e ∧
    w' = { w with trace := ⟨t, .setToken u token, a⟩ :: w.trace } := by
  obtain ⟨w₁, hp, rfl⟩ := puppetExec_mk h
  cases a with
  | done =>
    obtain ⟨rfl, rfl⟩ := Prod.mk.inj (Option.some.inj hp)
    exact .inl ⟨rfl, rfl, rfl⟩
  | failed e =>
    obtain ⟨rfl, rfl⟩ := Prod.mk.inj (Option.some.inj hp)
    exact .inr ⟨e, rfl, rfl, rfl⟩
  | _ => cases hp

theorem puppetExec_getToken {u : UserId} {b : Option (Option String)}
    (h : puppetExec calls t (.mk (.getToken u)) a w = some (b, w')) :
    w' = { w with trace := ⟨t, .getToken u, a⟩ :: w.trace } ∧
      ∀ tok, b = some (some tok) ↔ a = .token tok ∧ w.tokens.lookup u = some tok := by
  obtain ⟨w₁, hp, rfl⟩ := puppetExec_mk h
  cases a with
  | token tok =>
    simp only [PuppetCmd.run] at hp
    split at hp
    case isTrue hl =>
      obtain ⟨rfl, rfl⟩ := Prod.mk.inj (Option.some.inj hp)
      refine ⟨rfl, fun tok' => ?_⟩
      constructor
      · rintro ⟨⟩
        exact ⟨rfl, hl⟩
      · rintro ⟨⟨⟩, -⟩
        rfl
    case isFalse => cases hp
  | done =>
    simp only [PuppetCmd.run] at hp
    split at hp
    case isTrue hl =>
      obtain ⟨rfl, rfl⟩ := Prod.mk.inj (Option.some.inj hp)
      exact ⟨rfl, fun tok' => by simp⟩
    case isFalse => cases hp
  | failed e =>
    obtain ⟨rfl, rfl⟩ := Prod.mk.inj (Option.some.inj hp)
    exact ⟨rfl, fun tok' => by simp⟩
  | _ => cases hp

theorem puppetExec_ensureRunning {u : UserId} {token : String} {b : Unit}
    (h : puppetExec calls t (.mk (.ensureRunning u token)) a w = some (b, w')) :
    ((w.running.lookup u).isSome ∧
      w' = { w with trace := ⟨t, .ensureRunning u token, a⟩ :: w.trace }) ∨
    ∃ i, w.running.lookup u = none ∧ w.puppets.lookup i = none ∧ w' = { w with
      running := w.running.insert u ()
      puppets := w.puppets.insert i ⟨u, token, .spawned⟩
      trace := ⟨t, .ensureRunning u token, a⟩ :: w.trace } := by
  obtain ⟨w₁, hp, rfl⟩ := puppetExec_mk h
  cases a with
  | spawns i =>
    simp only [PuppetCmd.run] at hp
    split at hp
    case isTrue hin =>
      obtain ⟨-, rfl⟩ := Prod.mk.inj (Option.some.inj hp)
      exact .inl ⟨hin, rfl⟩
    case isFalse hout =>
      split at hp
      case isTrue hfree =>
        obtain ⟨-, rfl⟩ := Prod.mk.inj (Option.some.inj hp)
        exact .inr ⟨i, by simpa using hout, hfree.2, rfl⟩
      case isFalse => cases hp
  | _ => cases hp

theorem puppetExec_takeUp {b : UserId × String × UserId}
    (h : puppetExec calls t (.mk .takeUp) a w = some (b, w')) :
    w.puppets.lookup t = some ⟨b.1, b.2.1, .spawned⟩ ∧ b.2.2 = w.botUserId ∧ w' = { w with
      puppets := w.puppets.insert t ⟨b.1, b.2.1, .accepting⟩
      trace := ⟨t, .takeUp, a⟩ :: w.trace } := by
  obtain ⟨w₁, hp, rfl⟩ := puppetExec_mk h
  cases a with
  | done =>
    simp only [PuppetCmd.run] at hp
    split at hp
    case h_1 u token hl =>
      obtain ⟨rfl, rfl⟩ := Prod.mk.inj (Option.some.inj hp)
      exact ⟨hl, rfl, rfl⟩
    case h_2 => cases hp
  | _ => cases hp

theorem puppetExec_sync {u : UserId} {token : String} {since : Option String} {b : SyncReply}
    (h : puppetExec calls t (.mk (.sync u token since)) a w = some (b, w')) :
    a = .reply b ∧ ((b = .rejected ∧ w' = { w with
        puppets := w.puppets.insert t ⟨u, token, .leaving⟩
        trace := ⟨t, .sync u token since, a⟩ :: w.trace }) ∨
      b ≠ .rejected ∧ w' = { w with trace := ⟨t, .sync u token since, a⟩ :: w.trace }) := by
  obtain ⟨w₁, hp, rfl⟩ := puppetExec_mk h
  cases a with
  | reply r =>
    cases r with
    | rejected =>
      obtain ⟨rfl, rfl⟩ := Prod.mk.inj (Option.some.inj hp)
      exact ⟨rfl, .inl ⟨rfl, rfl⟩⟩
    | _ =>
      obtain ⟨rfl, rfl⟩ := Prod.mk.inj (Option.some.inj hp)
      exact ⟨rfl, .inr ⟨by simp, rfl⟩⟩
  | _ => cases hp

theorem puppetExec_removeRunning {u : UserId} {b : Unit}
    (h : puppetExec calls t (.mk (.removeRunning u)) a w = some (b, w')) :
    w' = { w with
      running := w.running.erase u
      puppets := w.puppets.erase t
      trace := ⟨t, .removeRunning u, a⟩ :: w.trace } := by
  obtain ⟨w₁, hp, rfl⟩ := puppetExec_mk h
  cases a with
  | done =>
    obtain ⟨-, rfl⟩ := Prod.mk.inj (Option.some.inj hp)
    rfl
  | _ => cases hp

/-- The commands on the tokens, the set and the loops. -/
def PuppetCmd.onPuppets : PuppetCmd → Bool
  | setToken _ _ => true
  | ensureRunning _ _ => true
  | takeUp => true
  | sync _ _ _ => true
  | removeRunning _ => true
  | _ => false

theorem puppetExec_apart {c : PuppetCmd} {b : c.Ans} (hc : c.onPuppets = false)
    (h : puppetExec calls t (.mk c) a w = some (b, w')) :
    w' = { w with trace := ⟨t, c, a⟩ :: w.trace } := by
  cases c with
  | setToken => cases hc
  | ensureRunning => cases hc
  | takeUp => cases hc
  | sync => cases hc
  | removeRunning => cases hc
  | getToken u => exact (puppetExec_getToken h).1
  | _ =>
    obtain ⟨w₁, hp, rfl⟩ := puppetExec_mk h
    cases a <;> cases hp <;> rfl

end Exec

end JmapBridge
