import JmapBridge.Effect.Triple
import JmapBridge.Model.Store

/-! The sessions of the users: a client in the client map and an event loop whose handle is
in the map of handles. They are started by `login`, by the startup and by its background
reconnects, and ended by `logout`. -/

namespace JmapBridge

open Effect Sql

abbrev LoopId := Nat

/-- A client is known by the credentials it is connected with. -/
abbrev JmapClient := RegisteredUser

/-- A spawned task runs once the runtime polls it; an aborted one runs to its next await. -/
inductive LoopPhase where
  | spawned
  | running
  | stopping
deriving DecidableEq, Repr

structure EventLoop where
  user : UserId
  client : JmapClient
  phase : LoopPhase := .spawned
deriving DecidableEq, Repr

/-- `abortHandle` takes the handle out of the map and aborts its task, with no await
between the two. `report` hands the result of a call to its caller. -/
inductive SessionCmd where
  | sleep (millis : Nat)
  | connect (user : UserId) (row : RegisteredUser)
  | saveUser (user : UserId) (row : RegisteredUser)
  | fetchPrimaryEmail (client : JmapClient)
  | setUserEmail (user : UserId) (email : String)
  | clearUserCredentials (user : UserId)
  | clearOutboundQueue (user : UserId)
  | abortHandle (user : UserId)
  | joinLoop (loop : LoopId)
  | insertClient (user : UserId) (client : JmapClient)
  | removeClient (user : UserId)
  | spawnLoop (user : UserId) (client : JmapClient)
  | insertHandle (user : UserId) (loop : LoopId)
  | spawnReconnect (user : UserId) (row : RegisteredUser)
  | report (user : UserId) (ok : Bool)
deriving DecidableEq, Repr

@[reducible] def SessionCmd.Ans : SessionCmd → Type
  | connect _ _ => Bool
  | saveUser _ _ => Bool
  | fetchPrimaryEmail _ => Option String
  | setUserEmail _ _ => Bool
  | clearUserCredentials _ => Bool
  | clearOutboundQueue _ => Bool
  | abortHandle _ => Option LoopId
  | spawnLoop _ _ => LoopId
  | _ => Unit

inductive SessionOp : Type → Type where
  | mk (c : SessionCmd) : SessionOp c.Ans

def SessionOp.cmd {β : Type} : SessionOp β → SessionCmd
  | .mk c => c

inductive SessionAnswer where
  | done
  | failed
  | email (e : Option String)
deriving DecidableEq, Repr

structure SessionRecord where
  task : Nat
  cmd : SessionCmd
  answer : SessionAnswer
deriving DecidableEq, Repr

/-- `loops` are the event loops spawned and not ended. The newest record of `trace` is its
first. -/
structure SessionWorld where
  users : Table UserId RegisteredUser := ∅
  emails : Table UserId String := ∅
  clients : Table UserId JmapClient := ∅
  pollerHandles : Table UserId LoopId := ∅
  loops : Table LoopId EventLoop := ∅
  nextLoop : LoopId := 0
  trace : List SessionRecord := []

def EventLoop.abort (l : EventLoop) : EventLoop := { l with phase := .stopping }

/-- A command under an answer of the environment. `joinLoop` waits for the end of the loop. -/
def SessionCmd.run : (c : SessionCmd) → SessionAnswer → SessionWorld → Option (c.Ans × SessionWorld)
  | sleep _, .done, w => some ((), w)
  | connect _ _, .done, w => some (true, w)
  | connect _ _, .failed, w => some (false, w)
  | saveUser u row, .done, w => some (true, { w with users := w.users.insert u row })
  | saveUser _ _, .failed, w => some (false, w)
  | fetchPrimaryEmail _, .email e, w => some (e, w)
  | setUserEmail u e, .done, w => some (true, { w with emails := w.emails.insert u e })
  | setUserEmail _ _, .failed, w => some (false, w)
  | clearUserCredentials u, .done, w =>
    some (true, { w with users := w.users.modify u fun row => { row with jmapToken := "" } })
  | clearUserCredentials _, .failed, w => some (false, w)
  | clearOutboundQueue _, .done, w => some (true, w)
  | clearOutboundQueue _, .failed, w => some (false, w)
  | abortHandle u, .done, w =>
    match w.pollerHandles.lookup u with
    | none => some (none, w)
    | some id => some (some id, { w with
        pollerHandles := w.pollerHandles.erase u
        loops := w.loops.modify id EventLoop.abort })
  | joinLoop id, .done, w => if (w.loops.lookup id).isNone then some ((), w) else none
  | insertClient u client, .done, w => some ((), { w with clients := w.clients.insert u client })
  | removeClient u, .done, w => some ((), { w with clients := w.clients.erase u })
  | spawnLoop u client, .done, w => some (w.nextLoop, { w with
      loops := w.loops.insert w.nextLoop ⟨u, client, .spawned⟩
      nextLoop := w.nextLoop + 1 })
  | insertHandle u id, .done, w =>
    some ((), { w with pollerHandles := w.pollerHandles.insert u id })
  | spawnReconnect _ _, .done, w => some ((), w)
  | report _ _, .done, w => some ((), w)
  | _, _, _ => none

def sessionExec (t : Nat) {β : Type} :
    SessionOp β → SessionAnswer → SessionWorld → Option (β × SessionWorld)
  | .mk c, a, w => (c.run a w).map fun r => (r.1, { r.2 with trace := ⟨t, c, a⟩ :: r.2.trace })

/-- The runtime polls a spawned loop for the first time, or drops an aborted one. -/
inductive SessionEnv where
  | begins (loop : LoopId)
  | ends (loop : LoopId)

def SessionEnv.perform : SessionEnv → SessionWorld → Option SessionWorld
  | begins id, w =>
    if (w.loops.lookup id).any (·.phase == .spawned) then
      some { w with loops := w.loops.modify id fun l => { l with phase := .running } }
    else none
  | ends id, w =>
    if (w.loops.lookup id).any (·.phase == .stopping) then
      some { w with loops := w.loops.erase id }
    else none

def onSession (c : SessionCmd) : Prog SessionOp c.Ans := Prog.call (.mk c)

def abortPoller (user : UserId) : Prog SessionOp Unit :=
  Prog.bind (onSession (.abortHandle user)) fun
    | some id => onSession (.joinLoop id)
    | none => .pure ()

def startSession (user : UserId) (client : JmapClient) : Prog SessionOp Unit :=
  Prog.bind (onSession (.insertClient user client)) fun _ =>
  Prog.bind (onSession (.spawnLoop user client)) fun id => onSession (.insertHandle user id)

def spawnUser (user : UserId) (row : RegisteredUser) : Prog SessionOp Bool :=
  Prog.bind (onSession (.connect user row)) fun connected =>
    if connected then
      Prog.bind (abortPoller user) fun _ =>
      Prog.bind (startSession user row) fun _ => .pure true
    else .pure false

def firstBackoffMillis : Nat := 5000

def maxBackoffMillis : Nat := 600000

/-- The background reconnect keeps the credentials that were read at the startup. -/
def reconnect (user : UserId) (row : RegisteredUser) : Prog SessionOp Unit :=
  Prog.loop (fun backoff : Nat =>
    Prog.bind (onSession (.sleep backoff)) fun _ =>
    Prog.bind (spawnUser user row) fun spawned =>
      .pure (if spawned then .inr () else .inl (min (backoff * 2) maxBackoffMillis)))
    firstBackoffMillis .pure

/-- The part of `start` for one user, up to the repair of the space. -/
def startUser (jitterMillis : Nat) (user : UserId) (row : RegisteredUser) : Prog SessionOp Unit :=
  Prog.bind (onSession (.sleep jitterMillis)) fun _ =>
  Prog.bind (spawnUser user row) fun spawned =>
    if spawned then .pure () else onSession (.spawnReconnect user row)

def loginSession (user : UserId) (row : RegisteredUser) : Prog SessionOp Bool :=
  Prog.bind (onSession (.connect user row)) fun connected =>
    if connected then
      Prog.bind (onSession (.saveUser user row)) fun saved =>
        if saved then
          Prog.bind (onSession (.fetchPrimaryEmail row)) fun email =>
          Prog.bind (match email with
            | some e => Prog.bind (onSession (.setUserEmail user e)) fun _ => .pure ()
            | none => .pure ()) fun _ =>
          Prog.bind (abortPoller user) fun _ =>
          Prog.bind (startSession user row) fun _ => .pure true
        else .pure false
    else .pure false

def logoutSession (user : UserId) : Prog SessionOp Bool :=
  Prog.bind (abortPoller user) fun _ =>
  Prog.bind (onSession (.removeClient user)) fun _ =>
  Prog.bind (onSession (.clearUserCredentials user)) fun cleared =>
    if cleared then onSession (.clearOutboundQueue user) else .pure false

inductive SessionCall where
  | start (jitterMillis : Nat) (user : UserId) (row : RegisteredUser)
  | reconnect (user : UserId) (row : RegisteredUser)
  | login (user : UserId) (row : RegisteredUser)
  | logout (user : UserId)
deriving DecidableEq, Repr

def SessionCall.program : SessionCall → Prog SessionOp Unit
  | start jitter user row => startUser jitter user row
  | reconnect user row => JmapBridge.reconnect user row
  | login user row => Prog.bind (loginSession user row) fun ok => onSession (.report user ok)
  | logout user => Prog.bind (logoutSession user) fun ok => onSession (.report user ok)

/-- A cancelled call drops the handles it holds, which detaches their tasks. -/
def sessionSystem (calls : Nat → SessionCall) :
    System SessionOp SessionWorld SessionAnswer SessionEnv where
  exec := sessionExec
  env := SessionEnv.perform
  drop _ w := w
  entry t := (calls t).program

section Exec

variable {t : Nat} {a : SessionAnswer} {w w' : SessionWorld}

theorem sessionExec_mk {c : SessionCmd} {b : c.Ans} (h : sessionExec t (.mk c) a w = some (b, w')) :
    ∃ w₁, c.run a w = some (b, w₁) ∧ w' = { w₁ with trace := ⟨t, c, a⟩ :: w₁.trace } := by
  obtain ⟨⟨b₁, w₁⟩, hp, he⟩ := Option.map_eq_some_iff.mp h
  obtain ⟨rfl, rfl⟩ := Prod.mk.inj he
  exact ⟨w₁, hp, rfl⟩

theorem sessionExec_abortHandle {u : UserId} {b : Option LoopId}
    (h : sessionExec t (.mk (.abortHandle u)) a w = some (b, w')) :
    b = w.pollerHandles.lookup u ∧ w' = { w with
      pollerHandles := w.pollerHandles.erase u
      loops := b.elim w.loops fun id => w.loops.modify id EventLoop.abort
      trace := ⟨t, .abortHandle u, a⟩ :: w.trace } := by
  obtain ⟨w₁, hp, rfl⟩ := sessionExec_mk h
  cases a with
  | done =>
    simp only [SessionCmd.run] at hp
    split at hp
    case h_1 hnone =>
      obtain ⟨rfl, rfl⟩ := Prod.mk.inj (Option.some.inj hp)
      exact ⟨hnone.symm, by rw [Table.erase_of_lookup_none hnone]; rfl⟩
    case h_2 id hsome =>
      obtain ⟨rfl, rfl⟩ := Prod.mk.inj (Option.some.inj hp)
      exact ⟨hsome.symm, rfl⟩
  | _ => cases hp

theorem sessionExec_joinLoop {id : LoopId} {b : Unit}
    (h : sessionExec t (.mk (.joinLoop id)) a w = some (b, w')) :
    w.loops.lookup id = none ∧ w' = { w with trace := ⟨t, .joinLoop id, a⟩ :: w.trace } := by
  obtain ⟨w₁, hp, rfl⟩ := sessionExec_mk h
  cases a with
  | done =>
    simp only [SessionCmd.run] at hp
    split at hp
    case isTrue hnone =>
      obtain ⟨-, rfl⟩ := Prod.mk.inj (Option.some.inj hp)
      exact ⟨Option.isNone_iff_eq_none.mp hnone, rfl⟩
    case isFalse => cases hp
  | _ => cases hp

theorem sessionExec_insertClient {u : UserId} {client : JmapClient} {b : Unit}
    (h : sessionExec t (.mk (.insertClient u client)) a w = some (b, w')) :
    w' = { w with
      clients := w.clients.insert u client,
      trace := ⟨t, .insertClient u client, a⟩ :: w.trace } := by
  obtain ⟨w₁, hp, rfl⟩ := sessionExec_mk h
  cases a with
  | done =>
    obtain ⟨-, rfl⟩ := Prod.mk.inj (Option.some.inj hp)
    rfl
  | _ => cases hp

theorem sessionExec_removeClient {u : UserId} {b : Unit}
    (h : sessionExec t (.mk (.removeClient u)) a w = some (b, w')) :
    w' = { w with clients := w.clients.erase u, trace := ⟨t, .removeClient u, a⟩ :: w.trace } := by
  obtain ⟨w₁, hp, rfl⟩ := sessionExec_mk h
  cases a with
  | done =>
    obtain ⟨-, rfl⟩ := Prod.mk.inj (Option.some.inj hp)
    rfl
  | _ => cases hp

theorem sessionExec_spawnLoop {u : UserId} {client : JmapClient} {b : LoopId}
    (h : sessionExec t (.mk (.spawnLoop u client)) a w = some (b, w')) :
    b = w.nextLoop ∧ w' = { w with
      loops := w.loops.insert w.nextLoop ⟨u, client, .spawned⟩
      nextLoop := w.nextLoop + 1
      trace := ⟨t, .spawnLoop u client, a⟩ :: w.trace } := by
  obtain ⟨w₁, hp, rfl⟩ := sessionExec_mk h
  cases a with
  | done =>
    obtain ⟨rfl, rfl⟩ := Prod.mk.inj (Option.some.inj hp)
    exact ⟨rfl, rfl⟩
  | _ => cases hp

theorem sessionExec_insertHandle {u : UserId} {id : LoopId} {b : Unit}
    (h : sessionExec t (.mk (.insertHandle u id)) a w = some (b, w')) :
    w' = { w with
      pollerHandles := w.pollerHandles.insert u id
      trace := ⟨t, .insertHandle u id, a⟩ :: w.trace } := by
  obtain ⟨w₁, hp, rfl⟩ := sessionExec_mk h
  cases a with
  | done =>
    obtain ⟨-, rfl⟩ := Prod.mk.inj (Option.some.inj hp)
    rfl
  | _ => cases hp

/-- The commands that start or end a session. -/
def SessionCmd.onSession : SessionCmd → Bool
  | abortHandle _ => true
  | insertClient _ _ => true
  | removeClient _ => true
  | spawnLoop _ _ => true
  | insertHandle _ _ => true
  | _ => false

theorem sessionExec_apart {c : SessionCmd} {b : c.Ans} (hc : c.onSession = false)
    (h : sessionExec t (.mk c) a w = some (b, w')) :
    w'.clients = w.clients ∧ w'.pollerHandles = w.pollerHandles ∧ w'.loops = w.loops ∧
      w'.nextLoop = w.nextLoop ∧ w'.trace = ⟨t, c, a⟩ :: w.trace := by
  cases c with
  | abortHandle => cases hc
  | insertClient => cases hc
  | removeClient => cases hc
  | spawnLoop => cases hc
  | insertHandle => cases hc
  | joinLoop id =>
    obtain ⟨-, rfl⟩ := sessionExec_joinLoop h
    exact ⟨rfl, rfl, rfl, rfl, rfl⟩
  | _ =>
    obtain ⟨w₁, hp, rfl⟩ := sessionExec_mk h
    cases a <;> cases hp <;> exact ⟨rfl, rfl, rfl, rfl, rfl⟩

theorem sessionExec_trace {c : SessionCmd} {b : c.Ans}
    (h : sessionExec t (.mk c) a w = some (b, w')) :
    w'.trace = ⟨t, c, a⟩ :: w.trace := by
  cases c with
  | abortHandle => rw [(sessionExec_abortHandle h).2]
  | insertClient => rw [sessionExec_insertClient h]
  | removeClient => rw [sessionExec_removeClient h]
  | spawnLoop => rw [(sessionExec_spawnLoop h).2]
  | insertHandle => rw [sessionExec_insertHandle h]
  | _ => exact (sessionExec_apart rfl h).2.2.2.2

end Exec

/-! A call that starts a session goes through the same stages whatever is said of them. -/

/-- The assertions of task `t` as it starts a session of `v` for `row`. -/
structure SessionStart (S : System SessionOp SessionWorld SessionAnswer SessionEnv)
    (D : Discipline SessionOp SessionWorld SessionAnswer SessionEnv) (K : Contract SessionWorld)
    (t : Nat) (v : UserId) (row : RegisteredUser) (before : SessionWorld → Prop)
    (entered : Option LoopId → SessionWorld → Prop) (listed : SessionWorld → Prop)
    (spawned : LoopId → SessionWorld → Prop) (after : SessionWorld → Prop) : Prop where
  stable_before : Stable K t before
  stable_entered : ∀ {r}, Stable K t (entered r)
  stable_listed : Stable K t listed
  stable_spawned : ∀ {id}, Stable K t (spawned id)
  stable_after : Stable K t after
  enter : Step S D K t before (.mk (.abortHandle v)) entered
  join : ∀ id, Step S D K t (entered (some id)) (.mk (.joinLoop id)) fun _ => entered none
  list : Step S D K t (entered none) (.mk (.insertClient v row)) fun _ => listed
  spawn : Step S D K t listed (.mk (.spawnLoop v row)) spawned
  keep : ∀ id, Step S D K t (spawned id) (.mk (.insertHandle v id)) fun _ => after

section Rules

variable {S : System SessionOp SessionWorld SessionAnswer SessionEnv}
  {D : Discipline SessionOp SessionWorld SessionAnswer SessionEnv} {K : Contract SessionWorld}
  {t : Nat} {v : UserId} {row : RegisteredUser} {before listed after : SessionWorld → Prop}
  {entered : Option LoopId → SessionWorld → Prop} {spawned : LoopId → SessionWorld → Prop}

theorem abortPoller_rule (hbefore : Stable K t before) (hentered : ∀ r, Stable K t (entered r))
    (henter : Step S D K t before (.mk (.abortHandle v)) entered)
    (hjoin : ∀ id, Step S D K t (entered (some id)) (.mk (.joinLoop id)) fun _ => entered none) :
    Triple S D K t before (abortPoller v) fun _ => entered none := by
  refine .bind (.call hbefore henter hentered) fun r => ?_
  cases r with
  | none => exact .pure (hentered none) fun _ _ h => h
  | some id => exact .call (hentered _) (hjoin id) fun _ => hentered none

variable (A : SessionStart S D K t v row before entered listed spawned after)
include A

theorem SessionStart.abortPoller_triple :
    Triple S D K t before (abortPoller v) fun _ => entered none :=
  abortPoller_rule A.stable_before (fun _ => A.stable_entered) A.enter A.join

theorem SessionStart.startSession_triple :
    Triple S D K t (entered none) (startSession v row) fun _ => after := by
  refine .bind (.call A.stable_entered A.list fun _ => A.stable_listed) fun _ => ?_
  refine .bind (.call A.stable_listed A.spawn fun _ => A.stable_spawned) fun id => ?_
  exact .call A.stable_spawned (A.keep id) fun _ => A.stable_after

theorem SessionStart.spawnUser_triple
    (hconnect : Keeps S D K t before _ (.mk (.connect v row))) :
    Triple S D K t before (spawnUser v row) fun spawned w =>
      if spawned then after w else before w := by
  refine .bind (.only A.stable_before (Prog.only_call.mpr hconnect)) fun connected => ?_
  cases connected with
  | false => exact .pure A.stable_before fun _ _ h => h
  | true =>
    refine .bind A.abortPoller_triple fun _ => .bind A.startSession_triple fun _ => ?_
    exact .pure A.stable_after fun _ _ h => h

theorem SessionStart.reconnect_triple
    (hconnect : Keeps S D K t before _ (.mk (.connect v row)))
    (hsleep : ∀ n, Keeps S D K t before _ (.mk (.sleep n))) :
    Triple S D K t before (reconnect v row) fun _ => after := by
  refine .loop (J := fun _ => before) (R := fun _ => after) (fun backoff => ?_) fun _ =>
    .pure A.stable_after fun _ _ h => h
  refine .bind (.only A.stable_before (Prog.only_call.mpr (hsleep _))) fun _ => ?_
  refine .bind (A.spawnUser_triple hconnect) fun spawned => ?_
  cases spawned with
  | true => exact .pure A.stable_after fun _ _ h => h
  | false => exact .pure A.stable_before fun _ _ h => h

theorem SessionStart.startUser_triple {jitter : Nat}
    (hconnect : Keeps S D K t before _ (.mk (.connect v row)))
    (hsleep : ∀ n, Keeps S D K t before _ (.mk (.sleep n)))
    (hspawn : Keeps S D K t before _ (.mk (.spawnReconnect v row))) :
    Triple S D K t before (startUser jitter v row) fun _ w => after w ∨ before w := by
  refine .bind (.only A.stable_before (Prog.only_call.mpr (hsleep _))) fun _ => ?_
  refine .bind (A.spawnUser_triple hconnect) fun spawned => ?_
  cases spawned with
  | true => exact .pure A.stable_after fun _ _ h => .inl h
  | false =>
    exact .post (.only A.stable_before (Prog.only_call.mpr hspawn)) fun _ _ _ h => .inr h

theorem SessionStart.loginSession_triple {unopened : SessionWorld → Prop}
    (hun : Stable K t unopened)
    (hconnect : Step S D K t unopened (.mk (.connect v row)) fun _ => before)
    (hquiet : ∀ {β : Type} (o : SessionOp β), (o.cmd.onSession = false ∧
      ∀ u row, o.cmd ≠ .connect u row) ∧ (∀ u ok, o.cmd ≠ .report u ok) →
        Keeps S D K t before β o) :
    Triple S D K t unopened (loginSession v row) fun ok w => if ok then after w else before w := by
  have hcall : ∀ c : SessionCmd, (c.onSession = false ∧ ∀ u row, c ≠ .connect u row) ∧
      (∀ u ok, c ≠ .report u ok) → Triple S D K t before (onSession c) fun _ => before :=
    fun c hc => .only A.stable_before (Prog.only_call.mpr (hquiet _ hc))
  have hfalse : Triple S D K t before (.pure false) fun ok w => if ok then after w else before w :=
    .pure A.stable_before fun _ _ h => h
  refine .bind (.call hun hconnect fun _ => A.stable_before) fun connected => ?_
  cases connected with
  | false => exact hfalse
  | true =>
    refine .bind (hcall _ (by simp [SessionCmd.onSession])) fun saved => ?_
    cases saved with
    | false => exact hfalse
    | true =>
      refine .bind (hcall _ (by simp [SessionCmd.onSession])) fun email => ?_
      refine .bind (R := fun _ => before) ?_ fun _ => ?_
      · cases email with
        | none => exact .pure A.stable_before fun _ _ h => h
        | some e =>
          refine .bind (hcall _ (by simp [SessionCmd.onSession])) fun _ => ?_
          exact .pure A.stable_before fun _ _ h => h
      · refine .bind A.abortPoller_triple fun _ => .bind A.startSession_triple fun _ => ?_
        exact .pure A.stable_after fun _ _ h => h

end Rules

end JmapBridge
