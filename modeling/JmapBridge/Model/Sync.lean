import JmapBridge.Model.ProcessEmail

/-! The two walks over an account: the live sync, which follows `Email/changes`,
and the backfill, which pages through `Email/query`. -/

namespace JmapBridge

open Effect

/-- The `receivedAt` floor of a windowed walk, saved on first use. -/
def resolveBackfillCutoff (cfg : Config) (p : Poller) : Task (Option Int) := do
  match cfg.backfillWindow with
  | none => pure none
  | some window => do
    let saved ← result (onStore (.getJmapState p.user .backfillCutoff))
    let parsed := match saved with
      | .ok (some s) => Rust.Str.parseI64 s.toList
      | _ => none
    match parsed with
    | some cutoff => pure (some cutoff)
    | none => do
      let now ← onTask .now
      match window now with
      | none => pure none
      | some cutoff => do
        let _ ← result (onStore (.saveJmapState p.user .backfillCutoff (toString cutoff)))
        pure (some cutoff)

def fetchEmails (p : Poller) (ids : List EmailId) : Bridge (List Email) :=
  onJmap p.account (.getEmail ids)

/-- A failure is logged and left behind. -/
def processLogged (cfg : Config) (p : Poller) (email : Email) : Task Unit := do
  match ← result (processEmail cfg p email) with
  | .ok _ => pure ()
  | .error _ => onTask (.log (.failedToProcess email.id))

def processAll (cfg : Config) (p : Poller) (emails : List Email) : Bridge Unit :=
  Act.lift (Prog.forEach (processLogged cfg p) emails)

def processPage (cfg : Config) (p : Poller) (ids : List EmailId) : Bridge Unit := do
  if ids.isEmpty then pure ()
  else do
    let emails ← fetchEmails p ids
    processAll cfg p emails

/-- The end of one page: work off its emails and either stop or go on from its state. -/
def finishPage (cfg : Config) (p : Poller) (ids : List EmailId) (newState : String)
    (hasMore : Bool) : Bridge (Option String ⊕ String) := do
  processPage cfg p ids
  if hasMore then pure (.inl (some newState)) else pure (.inr newState)

def changesPage (cfg : Config) (p : Poller) (state : String) : Bridge (Option String ⊕ String) := do
  match ← Act.attempt (onJmap p.account (.changesEmail state)) with
  | .error .cannotCalculateChanges => do
    onStore (.deleteJmapState p.user .changes)
    pure (.inl none)
  | .error e => Act.fail e
  | .ok response => do
    Act.forEach (fun id => bestEffort (onStore (.markEmailDestroyed id))) response.destroyed
    finishPage cfg p (response.created ++ response.updated) response.newState
      response.hasMoreChanges

/-- A full first page registers the position of the backfill. -/
def registerBackfill (cfg : Config) (p : Poller) (ids : List EmailId) : Bridge Unit :=
  if ids.length = cfg.syncLimit then
    bestEffort (onStore (.saveJmapState p.user .backfillPosition (toString cfg.syncLimit)))
  else pure ()

/-- The first page of a walk. -/
def bootstrapPage (cfg : Config) (p : Poller) : Bridge (Option String ⊕ String) := do
  let cutoff ← Act.lift (resolveBackfillCutoff cfg p)
  let response ← onJmap p.account (.queryEmail cutoff none cfg.syncLimit)
  registerBackfill cfg p response.ids
  bestEffort (onStore (.saveJmapState p.user .query response.queryState))
  let changesState ← onJmap p.account .getEmailState
  finishPage cfg p response.ids changesState false

def syncEmails (cfg : Config) (p : Poller) : Bridge Unit := do
  let lastState ← onStore (.getJmapState p.user .changes)
  let finalState ← Act.loop (fun current : Option String => match current with
    | some state => changesPage cfg p state
    | none => bootstrapPage cfg p) lastState
  onStore (.saveJmapState p.user .changes finalState)

/-- A batch of the backfill from `pos`; `true` while more mail may follow. -/
def backfillBatch (cfg : Config) (p : Poller) (pos : Nat) : Bridge Bool := do
  let cutoff ← Act.lift (resolveBackfillCutoff cfg p)
  if 2 ^ 31 ≤ pos then Act.fail (.context "Position overflow")
  else do
    let response ← onJmap p.account (.queryEmail cutoff (some pos) cfg.syncLimit)
    if response.ids.isEmpty then pure false
    else do
      let emails ← fetchEmails p response.ids
      processAll cfg p emails
      if response.ids.length < cfg.syncLimit then pure false
      else do
        onStore (.saveJmapState p.user .backfillPosition (toString (pos + response.ids.length)))
        pure true

/-- One round of the backfill task; `true` ends it. -/
def backfillRound (cfg : Config) (p : Poller) : Task Bool := do
  let changes ← result (onStore (.getJmapState p.user .changes))
  let hasInitialSync := match changes with
    | .ok state => state.isSome
    | .error _ => false
  match ← result (onStore (.getJmapState p.user .backfillPosition)) with
  | .ok (some posStr) =>
    match Rust.Str.parseUsize posStr.toList with
    | none => do
      let _ ← result (onStore (.deleteJmapState p.user .backfillPosition))
      pure false
    | some pos => do
      match ← result (backfillBatch cfg p pos) with
      | .ok true => do
        onTask (.sleep 5000)
        pure false
      | .ok false => do
        let _ ← result (onStore (.deleteJmapState p.user .backfillPosition))
        let _ ← result (onStore (.deleteJmapState p.user .backfillCutoff))
        pure true
      | .error _ => do
        onTask (.sleep 30000)
        pure false
  | _ =>
    if hasInitialSync then pure true
    else do
      onTask (.sleep 30000)
      pure false

def runBackfillLoop (cfg : Config) (p : Poller) : Task Unit := do
  onTask (.sleep 5000)
  Prog.loop (fun _ : Unit => Prog.bind (backfillRound cfg p) fun ended =>
    .pure (if ended then .inr () else .inl ())) () .pure

def mailboxRoom (id : MailboxId) (name : String) : Bridge RoomId := do
  match ← onStore (.getRoomId id) with
  | some existing => pure existing
  | none => do
    let room ← onMatrix (.createRoomForMailbox name)
    onStore (.saveRoomMapping id room)
    pure room

/-- The room of a mailbox, created on first sight and filed in the email space. -/
def mapMailbox (p : Poller) (mailbox : Option MailboxId × Option String) : Bridge Unit := do
  match mailbox with
  | (some id, some name) => do
    let room ← mailboxRoom id name
    bestEffort (ensureRoomInEmailSpace p.user room)
  | _ => pure ()

/-- One page of mailbox ids: the ids so far, and the state to go on from or to save. -/
def mailboxPage (p : Poller) (current : Option String) (ids : List MailboxId) :
    Bridge ((Option String × List MailboxId) ⊕ (String × List MailboxId)) := do
  match current with
  | some state => do
    match ← Act.attempt (onJmap p.account (.changesMailbox state)) with
    | .error .cannotCalculateChanges => do
      onStore (.deleteJmapState p.user .mailbox)
      pure (.inl (none, ids))
    | .error e => Act.fail e
    | .ok response =>
      let ids := ids ++ response.created ++ response.updated
      if response.hasMoreChanges then pure (.inl (some response.newState, ids))
      else pure (.inr (response.newState, ids))
  | none => do
    let response ← onJmap p.account .queryMailbox
    let state ← onJmap p.account .getMailboxState
    pure (.inr (state, ids ++ response.ids))

def fetchAndMapMailboxes (p : Poller) (ids : List MailboxId) : Bridge Unit := do
  if ids.isEmpty then pure ()
  else do
    let mailboxes ← onJmap p.account (.getMailbox ids)
    Act.forEach (mapMailbox p) mailboxes

def syncMailboxes (p : Poller) : Bridge Unit := do
  let lastState ← onStore (.getJmapState p.user .mailbox)
  let final ← Act.loop (fun s : Option String × List MailboxId => mailboxPage p s.1 s.2)
    (lastState, [])
  fetchAndMapMailboxes p final.2
  onStore (.saveJmapState p.user .mailbox final.1)

def pollMailboxes (cfg : Config) (p : Poller) : Bridge Unit :=
  if cfg.bridgeMailboxes then
    Act.mapError (fun _ => .context "Mailbox sync failed") (syncMailboxes p)
  else pure ()

def poll (cfg : Config) (p : Poller) : Bridge Unit := do
  pollMailboxes cfg p
  Act.mapError (fun _ => .context "Email sync failed") (syncEmails cfg p)
  let now ← Act.lift (onTask .now)
  bestEffort (onStore (.saveJmapState p.user .lastSyncAt (cfg.timestamp now)))

end JmapBridge
