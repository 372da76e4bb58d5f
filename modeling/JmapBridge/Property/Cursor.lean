import JmapBridge.Property.Bridging

/-! The cursors of an account, its changes token and its backfill position, and the emails
they have passed. An email is accounted for once it is mapped, known to be destroyed, or
deliberately skipped. -/

namespace JmapBridge

open Effect

def Call.poller : Call → Option Poller
  | poll p => some p
  | backfill p => some p
  | newThread p _ _ _ => some p
  | _ => none

def Call.account (c : Call) : Option Account := c.poller.map (·.account)

def Call.isBackfill : Call → Bool
  | backfill _ => true
  | _ => false

def Record.skips (e : EmailId) (r : Record) : Bool :=
  match r.cmd with
  | .task (.log (.skipping i _)) => i == e
  | _ => false

/-- The email ids a reply of the mail server reports. -/
def Record.reported (r : Record) : List EmailId :=
  match r.cmd, r.answer with
  | .jmap _ (.changesEmail _), .reply (.changes c) => c.created ++ c.updated ++ c.destroyed
  | .jmap _ (.queryEmail _ _ _), .reply (.queried q) => q.ids
  | _, _ => []

/-- A walk over the account begins with a look at the changes token. -/
def Record.begins (r : Record) : Bool :=
  match r.cmd with
  | .store (.getJmapState _ .changes) => true
  | _ => false

/-- The ids reported to task `t` since its walk began. -/
def reportedTo (t : Nat) : List Record → List EmailId
  | [] => []
  | r :: older =>
    if r.task = t then if r.begins then [] else r.reported ++ reportedTo t older
    else reportedTo t older

/-- The first page of a walk from the start of the account. -/
def Record.bootstraps (a : Account) (r : Record) : Bool :=
  match r.cmd, r.answer with
  | .jmap b (.queryEmail _ none _), .reply (.queried _) => b == a
  | _, _ => false

def firstPage (a : Account) : List Record → List EmailId
  | [] => []
  | r :: older => if r.bootstraps a then r.reported else firstPage a older

section

variable (calls : Nat → Call)

def World.covered (a : Account) (e : EmailId) (w : World) : Bool :=
  w.store.mapped e || w.trace.any fun r => r.skips e && (calls r.task).account == some a

/-- The record saves the changes token of `a`. -/
def Record.savesChanges (a : Account) (r : Record) : Bool :=
  (calls r.task).account == some a &&
    match r.cmd with
    | .store (.saveJmapState _ .changes _) => true
    | _ => false

/-- The record advances the backfill position of `a`. -/
def Record.advances (a : Account) (r : Record) : Bool :=
  (calls r.task).account == some a && (calls r.task).isBackfill &&
    match r.cmd with
    | .store (.saveJmapState _ .backfillPosition _) => true
    | _ => false

/-- The ids a cursor passes with this record: those reported in the walk that moves it, and,
for the backfill, those of the first page, after which it starts. -/
def Record.passes (a : Account) (r : Record) (older : List Record) : List EmailId :=
  if r.savesChanges calls a then reportedTo r.task older
  else if r.advances calls a then reportedTo r.task older ++ firstPage a older
  else []

/-- The ids behind the cursors of `a`. -/
def behind (a : Account) : List Record → List EmailId
  | [] => []
  | r :: older => r.passes calls a older ++ behind a older

/-- The task that reported the newest first page has gone on to save the changes token.
`saved` are the tasks seen to have done so in the walk under way. -/
def initialSyncOver (a : Account) (saved : List Nat) : List Record → Bool
  | [] => true
  | r :: older =>
    if r.bootstraps a then saved.contains r.task
    else initialSyncOver a
      (if r.savesChanges calls a then r.task :: saved
      else if r.begins then saved.filter (· != r.task) else saved) older

/-- What a walk over `a` must meet. Of the emails that are not accounted for yet none fails in
`process_email`, none that is destroyed fails to be marked, and none is missing in the reply
of Email/get; and the backfill advances only after the initial sync. -/
def Cmd.diligent (a : Account) (t : Nat) (w : World) : Cmd → Answer → Bool
  | task (.log (.failedToProcess i)), _ => i.all fun e => w.covered calls a e
  | store (.markEmailDestroyed e), .failed => w.covered calls a e
  | jmap _ (.getEmail ids), .reply (.emails l) =>
    ids.all fun e => w.covered calls a e || l.any fun m => m.id == some e
  | store (.saveJmapState _ .backfillPosition _), _ =>
    !(calls t).isBackfill || initialSyncOver calls a [] w.trace
  | _, _ => true

def diligent (a : Account) : Discipline Op World Answer Env where
  step := fun t {_} o c w => (calls t).account ≠ some a ∨ o.cmd.diligent calls a t w c

instance decidableDiligentStep (a : Account) (t : Nat) (β : Type) (o : Op β) (x : Answer)
    (w : World) : Decidable ((diligent calls a).step t o x w) :=
  inferInstanceAs (Decidable (_ ∨ o.cmd.diligent calls a t w x = true))

instance decidableDiligent (a : Account) (ev : Event Answer Env) (q : Pool Op World) :
    Decidable ((diligent calls a).meets ev q) :=
  @Discipline.decidableMeets Op World Answer Env (diligent calls a) (fun _ _ => instDecidableTrue)
    _ (fun _ _ => instDecidableTrue) (fun _ _ => instDecidableTrue) ev q

def cursorContract (a : Account) : Contract World where
  inv := fun w => ∀ e ∈ behind calls a w.trace, w.covered calls a e
  rely := fun t w w' => (∀ e, w.covered calls a e → w'.covered calls a e) ∧
    reportedTo t w'.trace = reportedTo t w.trace
  refl := fun _ _ => ⟨fun _ h => h, rfl⟩
  trans := fun hab hbc => ⟨fun e h => hbc.1 e (hab.1 e h), hbc.2.trans hab.2⟩

/-- The commands with which task `t` neither learns of emails nor moves a cursor. -/
def Cmd.still (t : Nat) : Cmd → Bool
  | store (.getJmapState _ .changes) => false
  | store (.saveJmapState _ .changes _) => false
  | store (.saveJmapState _ .backfillPosition _) => !(calls t).isBackfill
  | jmap _ (.changesEmail _) => false
  | jmap _ (.queryEmail _ _ _) => false
  | _ => true

end

section

variable {cfg : Config} {calls : Nat → Call} {a : Account} {t : Nat} {w w' : World} {α β : Type}

theorem InboundCmd.still {p : Poller} {I : EmailId → Prop} {c : Cmd} (h : InboundCmd p I c) :
    c.still calls t := by
  cases h with
  | getState k hk => cases k <;> first | rfl | cases hk
  | saveState k v hk => cases k <;> first | rfl | cases hk
  | _ => rfl

theorem MailboxCmd.still {p : Poller} {I : EmailId → Prop} {c : Cmd} (h : MailboxCmd p I c) :
    c.still calls t := by
  cases h with
  | contact c h => exact (RoomCmd.inbound h : InboundCmd p I c).still
  | _ => rfl

section Email

variable {p : Poller} {email : Email} {e : EmailId} {P : World → Prop}

def Covered (calls : Nat → Call) (a : Account) (e : EmailId) (w : World) : Prop :=
  w.covered calls a e

theorem Covered.stable : Stable (cursorContract calls a) t (Covered calls a e) :=
  fun _ _ h hr _ => hr.1 e h

end Email

/-- Of what was reported to the task in its walk only `ids` are not accounted for. -/
def Owed (calls : Nat → Call) (a : Account) (t : Nat) (ids : List EmailId) (w : World) : Prop :=
  ∀ e ∈ reportedTo t w.trace, w.covered calls a e ∨ e ∈ ids

/-- Only emails of `l` are not accounted for. -/
def Left (calls : Nat → Call) (a : Account) (t : Nat) (l : List Email) (w : World) : Prop :=
  ∀ e ∈ reportedTo t w.trace, w.covered calls a e ∨ ∃ m ∈ l, m.id = some e

theorem Owed.stable {ids : List EmailId} :
    Stable (cursorContract calls a) t (Owed calls a t ids) := by
  intro w w' h hr _ e he
  rw [hr.2] at he
  exact (h e he).imp (hr.1 e) id

theorem Left.stable {l : List Email} : Stable (cursorContract calls a) t (Left calls a t l) := by
  intro w w' h hr _ e he
  rw [hr.2] at he
  exact (h e he).imp (hr.1 e) id

theorem Owed.mono {ids ids' : List EmailId} (h : Owed calls a t ids w)
    (hi : ∀ e ∈ ids, w.covered calls a e ∨ e ∈ ids') : Owed calls a t ids' w := by
  intro e he
  rcases h e he with hc | hm
  · exact .inl hc
  · exact hi e hm

section Walk

variable {p : Poller}

theorem Owed.all (h : Owed calls a t [] w) : ∀ e ∈ reportedTo t w.trace, w.covered calls a e :=
  fun e he => (h e he).resolve_right (by simp)

end Walk

end

/-- Task `t` posts an email of the known thread as `m` and maps it. -/
def bridges (t : Nat) (m : EventId) : List (Event Answer Env) :=
  ([.step t .done, .step t .done, .step t .done, .step t (.flag false), .step t .done,
      .step t (.id m)] : List (Event Answer Env)) ++ List.replicate 4 (.step t .done)

end JmapBridge
