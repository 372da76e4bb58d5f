import JmapBridge.Property.Working

/-! How a row leaves the outbound queue: with its submission confirmed, by its author, with
its room, or given up with a notice. -/

namespace JmapBridge

open Effect

/-- The senders of the redactions of `e` in a transaction. -/
def Call.redactors (e : EventId) : Call → List UserId
  | transaction _ txn => txn.events.filterMap fun
    | .redaction sender _ (some target) => if target = e then some sender else none
    | _ => none
  | _ => []

/-- The mail server has confirmed the submission of row `id`. -/
def Record.confirms (id : Nat) (r : Record) : Bool :=
  match r.cmd, r.answer with
  | .jmap _ (.submitBatch draft), .reply (.batch ⟨some _, true⟩) => draft.source.id == id
  | _, _ => false

/-- A try to post the notice that row `id` is given up. -/
def Record.triesNotice (id : Nat) (r : Record) : Bool :=
  match r.cmd with
  | .matrix (.sendAsGhost _ _ (.message body) _) => body.origin == .queued id
  | _ => false

def Record.arrives (r : Record) : Bool :=
  match r.answer with
  | .id _ => true
  | .lost _ => true
  | _ => false

/-- The notice about row `id` has been posted in `room`. -/
def Record.notifies (id : Nat) (room : RoomId) (r : Record) : Bool :=
  r.triesNotice id && r.arrives &&
    match r.cmd with
    | .matrix (.sendAsGhost dest _ _ _) => dest == room
    | _ => false

/-- An attempt begins with the lookup of a client. -/
def Record.opensAttempt (r : Record) : Bool :=
  match r.cmd with
  | .task (.getClient _) => true
  | _ => false

/-- In its attempt under way task `t` has tried to post the notice about row `id`, and the
last try was refused. -/
def refused (t id : Nat) : List Record → Bool
  | [] => false
  | r :: older =>
    if r.task = t then
      if r.triesNotice id then !r.arrives
      else if r.opensAttempt then false else refused t id older
    else refused t id older

section

variable (calls : Nat → Call)

/-- Why the row `row` under `id` may have left the queue. -/
inductive Accounted (id : Nat) (row : OutboundRow) (trace : List Record) : Prop where
  | confirmed (r : Record) (h : r ∈ trace) (hr : r.confirms id)
  | redacted (r : Record) (h : r ∈ trace)
      (hr : r.cmd = .store (.cancelOutboundByEvent row.eventId) ∧ r.answer ≠ .failed)
      (ha : row.matrixUserId ∈ (calls r.task).redactors row.eventId)
  | loggedOut (r : Record) (h : r ∈ trace)
      (hr : r.cmd = .store (.clearOutboundQueue row.matrixUserId) ∧ r.answer ≠ .failed)
      (ha : calls r.task = .logout row.matrixUserId)
  | unbridged (r : Record) (h : r ∈ trace)
      (hr : r.cmd = .store (.deleteRoomGhostMapping row.roomId) ∧ r.answer ≠ .failed)
  | givenUp (h10 : 9 ≤ row.retryCount) (r : Record) (h : r ∈ trace)
      (hr : r.notifies id row.roomId)

/-- No row is removed while its notice stands refused, and a redaction that hits a row is
its author's. -/
def Cmd.considerate (t : Nat) (w : World) : Cmd → Answer → Bool
  | store (.removeFromOutboundQueue id), a =>
    a == .failed || (w.store.outboundQueue.lookup id).isNone || !refused t id w.trace
  | store (.cancelOutboundByEvent e), _ =>
    w.store.outboundQueue.entries.all fun r =>
      r.2.eventId != e || ((calls t).redactors e).contains r.2.matrixUserId
  | _, _ => true

def considerate : Discipline Op World Answer Env where
  step := fun t {_} o c w => o.cmd.considerate calls t w c

instance decidableConsiderateStep (t : Nat) (β : Type) (o : Op β) (a : Answer) (w : World) :
    Decidable ((considerate calls).step t o a w) :=
  inferInstanceAs (Decidable (o.cmd.considerate calls t w a = true))

instance decidableConsiderate (ev : Event Answer Env) (q : Pool Op World) :
    Decidable ((considerate calls).meets ev q) :=
  @Discipline.decidableMeets Op World Answer Env (considerate calls) (fun _ _ => instDecidableTrue)
    _ (fun _ _ => instDecidableTrue) (fun _ _ => instDecidableTrue) ev q

end

/-- The room has a ghost, or had one and was unbridged. -/
def Known (room : RoomId) (w : World) : Prop :=
  (w.store.roomGhostMapping.lookup room).isSome ∨
    ∃ r ∈ w.trace, r.cmd = .store (.deleteRoomGhostMapping room) ∧ r.answer ≠ .failed

/-- What any number of steps may do to the queue. -/
structure Grown (calls : Nat → Call) (w w' : World) : Prop where
  next : w.store.nextOutboundId ≤ w'.store.nextOutboundId
  rows : ∀ id row', w'.store.outboundQueue.lookup id = some row' →
    (∃ row, w.store.outboundQueue.lookup id = some row ∧ row.SameMail row') ∨
      w.store.nextOutboundId ≤ id
  left : ∀ id row, w.store.outboundQueue.lookup id = some row →
    (∃ row', w'.store.outboundQueue.lookup id = some row' ∧ row.SameMail row') ∨
      ∃ row', row.SameMail row' ∧ Accounted calls id row' w'.trace
  trace : ∀ r ∈ w.trace, r ∈ w'.trace
  known : ∀ room, Known room w → Known room w'

theorem Accounted.mono {calls : Nat → Call} {id : Nat} {row : OutboundRow}
    {trace trace' : List Record} (h : Accounted calls id row trace)
    (ht : ∀ r ∈ trace, r ∈ trace') : Accounted calls id row trace' := by
  cases h with
  | confirmed r h hr => exact .confirmed r (ht r h) hr
  | redacted r h hr ha => exact .redacted r (ht r h) hr ha
  | loggedOut r h hr ha => exact .loggedOut r (ht r h) hr ha
  | unbridged r h hr => exact .unbridged r (ht r h) hr
  | givenUp h10 r h hr => exact .givenUp h10 r (ht r h) hr

theorem Accounted.follow {calls : Nat → Call} {id : Nat} {row row' : OutboundRow}
    {trace : List Record} (h : Accounted calls id row trace) (hs : row.SameMail row') :
    Accounted calls id row' trace := by
  cases h with
  | confirmed r h hr => exact .confirmed r h hr
  | redacted r h hr ha => exact .redacted r h (hs.event ▸ hr) (hs.event ▸ hs.user ▸ ha)
  | loggedOut r h hr ha => exact .loggedOut r h (hs.user ▸ hr) (hs.user ▸ ha)
  | unbridged r h hr => exact .unbridged r h (hs.room ▸ hr)
  | givenUp h10 r h hr => exact .givenUp (h10.trans hs.retries) r h (hs.room ▸ hr)

theorem Grown.refl (calls : Nat → Call) (w : World) : Grown calls w w where
  next := Nat.le_refl _
  rows _ row' h := .inl ⟨row', h, .refl _⟩
  left _ row h := .inl ⟨row, h, .refl _⟩
  trace _ h := h
  known _ h := h

theorem Grown.trans {calls : Nat → Call} {a b c : World} (hab : Grown calls a b)
    (hbc : Grown calls b c) : Grown calls a c where
  next := hab.next.trans hbc.next
  rows id row'' h := by
    rcases hbc.rows id row'' h with ⟨row', hrow', hs'⟩ | hnew
    · rcases hab.rows id row' hrow' with ⟨row, hrow, hs⟩ | hnew
      · exact .inl ⟨row, hrow, hs.trans hs'⟩
      · exact .inr hnew
    · exact .inr (hab.next.trans hnew)
  left id row h := by
    rcases hab.left id row h with ⟨row', hrow', hs⟩ | ⟨row', hs, ha⟩
    · rcases hbc.left id row' hrow' with ⟨row'', hrow'', hs'⟩ | ⟨row'', hs', ha⟩
      · exact .inl ⟨row'', hrow'', hs.trans hs'⟩
      · exact .inr ⟨row'', hs.trans hs', ha⟩
    · exact .inr ⟨row', hs, ha.mono hbc.trace⟩
  trace r h := hbc.trace r (hab.trace r h)
  known room h := hbc.known room (hab.known room h)

structure ExitInv (w : World) : Prop where
  ids : ∀ id row, w.store.outboundQueue.lookup id = some row → id < w.store.nextOutboundId
  known : ∀ id row, w.store.outboundQueue.lookup id = some row → Known row.roomId w

def exitContract (calls : Nat → Call) : Contract World where
  inv := ExitInv
  rely := fun t w w' => Grown calls w w' ∧ ∀ id, refused t id w'.trace = refused t id w.trace
  refl := fun _ w => ⟨.refl calls w, fun _ => rfl⟩
  trans := fun hab hbc => ⟨hab.1.trans hbc.1, fun id => (hbc.2 id).trans (hab.2 id)⟩

section

variable {cfg : Config} {calls : Nat → Call} {t : Nat} {w w' : World} {α β : Type}

theorem refused_ne {i : Nat} (hi : i ≠ t) (c : Cmd) (x : Answer) (id : Nat) (older : List Record) :
    refused i id (⟨t, c, x⟩ :: older) = refused i id older := by
  simp [refused, Ne.symm hi]

theorem refused_aside {c : Cmd} (hc : c.aside) (x : Answer) (id : Nat) (older : List Record) :
    refused t id (⟨t, c, x⟩ :: older) = refused t id older := by
  have htry : (⟨t, c, x⟩ : Record).triesNotice id = false := by
    unfold Record.triesNotice
    split
    case h_1 room sender body ts heq =>
      have hbody : body.origin ≠ .queued id := by
        intro ho
        have hcmd : c = .matrix (.sendAsGhost room sender (.message body) ts) := heq
        simp [hcmd, Cmd.aside, ho] at hc
      simpa using hbody
    case h_2 => rfl
  have hopen : (⟨t, c, x⟩ : Record).opensAttempt = false := by
    unfold Record.opensAttempt
    split
    case h_1 u heq =>
      have hcmd : c = .task (.getClient u) := heq
      simp [hcmd, Cmd.aside] at hc
    case h_2 => rfl
  simp [refused, htry, hopen]

def Cmd.removes (id : Nat) (row : OutboundRow) : Cmd → Bool
  | store c => c.removes id row
  | _ => false

/-- A command that removes only rows that are accounted for, and adds only rows of known
rooms. -/
theorem grown_exec {c : Cmd} {x : Answer} {b : c.Ans} (h : exec t (.mk c) x w = some (b, w'))
    (hi : ExitInv w)
    (hremoved : ∀ id row, w.store.outboundQueue.lookup id = some row → c.removes id row →
      x ≠ .failed → Accounted calls id row (⟨t, c, x⟩ :: w.trace))
    (hadded : ∀ user room event body html thread files delay,
      c = .store (.addToOutboundQueue user room event body html thread files delay) →
        Known room w) :
    ExitInv w' ∧ Grown calls w w' := by
  have htrace := exec_trace h
  have hmem : ∀ r ∈ w.trace, r ∈ w'.trace := by
    intro r hr
    rw [htrace]
    exact List.mem_cons_of_mem _ hr
  rcases exec_run h with hs | ⟨q, order, rfl, hx, hs⟩
  · have hknown : ∀ room, Known room w → Known room w' := by
      intro room hr
      unfold Known
      rw [hs]
      exact hr.imp id fun ⟨r, hr, hc⟩ => ⟨r, hmem r hr, hc⟩
    refine ⟨⟨hs ▸ hi.ids, fun id row hrow => hknown _ (hi.known id row (hs ▸ hrow))⟩, ?_⟩
    exact {
      next := by rw [hs]
      rows := fun id row' hrow => .inl ⟨row', hs ▸ hrow, .refl _⟩
      left := fun id row hrow => .inl ⟨row, hs.symm ▸ hrow, .refl _⟩
      trace := hmem
      known := hknown }
  · have hq := queue_run q w.now order w.store
    rw [← hs] at hq
    have hknown : ∀ room, Known room w → Known room w' := by
      intro room hr
      rcases hr with hg | ⟨r, hr, hc⟩
      · rcases ghost_run q w.now order w.store room hg with hg | rfl
        · exact .inl (hs ▸ hg)
        · exact .inr ⟨_, htrace ▸ List.mem_cons_self, rfl, hx⟩
      · exact .inr ⟨r, hmem r hr, hc⟩
    refine ⟨⟨fun id row' hrow => ?_, fun id row' hrow => ?_⟩, ?_⟩
    · rcases hq.row id row' hrow with ⟨row, hrow, -⟩ | ⟨-, hid, -⟩
      · exact Nat.lt_of_lt_of_le (hi.ids id row hrow) hq.next
      · exact hid
    · rcases hq.row id row' hrow with ⟨row, hrow, hsame, -⟩ | ⟨-, -, html, thread, files,
        delay, rfl⟩
      · rw [hsame.room]
        exact hknown _ (hi.known id row hrow)
      · exact hknown _ (hadded _ _ _ _ _ _ _ _ rfl)
    · refine ⟨hq.next, fun id row' hrow => ?_, fun id row hrow => ?_, hmem, hknown⟩
      · rcases hq.row id row' hrow with ⟨row, hrow, hsame, -⟩ | ⟨rfl, -⟩
        · exact .inl ⟨row, hrow, hsame⟩
        · exact .inr (Nat.le_refl _)
      · rcases hq.kept id row hrow with hkept | hgone
        · obtain ⟨row', hrow'⟩ := Option.isSome_iff_exists.mp hkept
          rcases hq.row id row' hrow' with ⟨row₀, hrow₀, hsame, -⟩ | ⟨rfl, -⟩
          · obtain rfl : row = row₀ := Option.some.inj (hrow ▸ hrow₀)
            exact .inl ⟨row', hrow', hsame⟩
          · exact absurd (hi.ids _ row hrow) (Nat.lt_irrefl _)
        · exact .inr ⟨row, .refl _, htrace ▸ hremoved id row hrow hgone hx⟩

abbrev ExitTriple (cfg : Config) (calls : Nat → Call) (t : Nat) (P : World → Prop)
    (p : Prog Op α) (Q : α → World → Prop) : Prop :=
  Triple (bridge cfg calls) (considerate calls) (exitContract calls) t P p Q

abbrev ExitStep (cfg : Config) (calls : Nat → Call) (t : Nat) (P : World → Prop) (c : Cmd)
    (R : c.Ans → World → Prop) : Prop :=
  Step (bridge cfg calls) (considerate calls) (exitContract calls) t P (.mk c) R

/-- The step rule. What the command does to the notices of its own task is left to `hR`. -/
theorem exitStep_intro {c : Cmd} {P : World → Prop} {R : c.Ans → World → Prop}
    (hremoved : ∀ w x id row, ExitInv w → P w → c.considerate calls t w x →
      w.store.outboundQueue.lookup id = some row → c.removes id row → x ≠ .failed →
        Accounted calls id row (⟨t, c, x⟩ :: w.trace))
    (hadded : ∀ w user room event body html thread files delay, P w →
      c = .store (.addToOutboundQueue user room event body html thread files delay) → Known room w)
    (hR : ∀ w x b w', ExitInv w → ExitInv w' → P w → Grown calls w w' →
      exec t (.mk c) x w = some (b, w') → R b w') : ExitStep cfg calls t P c R := by
  intro w x b w' hi hw hd hexec
  have he : exec t (.mk c) x w = some (b, w') := hexec
  obtain ⟨hi', hg⟩ := grown_exec he hi (fun id row hrow => hremoved w x id row hi hw hd hrow)
    fun user room event body html thread files delay hc =>
      hadded w user room event body html thread files delay hw hc
  refine ⟨hi', fun i hit => ⟨hg, fun id => ?_⟩, hR w x b w' hi hi' hw hg he⟩
  rw [exec_trace he, refused_ne hit]

theorem removes_offRows {c : Cmd} (hc : c.offRows) (id : Nat) (row : OutboundRow) :
    c.removes id row = false := by
  cases c with
  | store c => cases c <;> first | rfl | cases hc
  | _ => rfl

theorem not_adds_offRows {c : Cmd} (hc : c.offRows) {user : UserId} {room : RoomId}
    {event : EventId} {body : String} {html thread : Option String}
    {files : Option (List AttachmentInfo)} {delay : Nat} :
    c ≠ .store (.addToOutboundQueue user room event body html thread files delay) := by
  rintro rfl
  cases hc

theorem offRows_step {c : Cmd} (hc : c.offRows) {P : World → Prop} {R : c.Ans → World → Prop}
    (hR : ∀ w x b w', ExitInv w → ExitInv w' → P w → Grown calls w w' →
      exec t (.mk c) x w = some (b, w') → R b w') : ExitStep cfg calls t P c R := by
  refine exitStep_intro (fun w x id row _ _ _ _ hr => ?_) (fun w _ _ _ _ _ _ _ _ _ ha => ?_) hR
  · rw [removes_offRows hc] at hr
    cases hr
  · exact absurd ha (not_adds_offRows hc)

theorem Grown.rely_aside {c : Cmd} {x : Answer} {b : c.Ans} (hc : c.aside)
    (h : exec t (.mk c) x w = some (b, w')) (hg : Grown calls w w') :
    (exitContract calls).rely t w w' :=
  ⟨hg, fun id => by rw [exec_trace h, refused_aside hc]⟩

theorem offRows_keeps {c : Cmd} (hc : c.offRows) {P : World → Prop}
    (hP : ∀ w w', P w → Grown calls w w' → P w') :
    Keeps (bridge cfg calls) (considerate calls) (exitContract calls) t P _ (.mk c) := by
  intro w x b w' hw hi hd he
  have hstep : ExitStep cfg calls t P c fun _ => P :=
    offRows_step hc fun w _ _ w' _ _ hw hg _ => hP w w' hw hg
  exact hstep w x b w' hi hw hd he

theorem offRows_triple {x : Prog Op α} (hx : OffRows x) {P : World → Prop}
    (hP : ∀ w w', P w → Grown calls w w' → P w') : ExitTriple cfg calls t P x fun _ => P := by
  have hstable : Stable (exitContract calls) t P := fun w w' hw hr _ => hP w w' hw hr.1
  refine .only hstable (Prog.Only.mono (fun β o h => ?_) hx)
  obtain ⟨c⟩ := o
  exact offRows_keeps h hP

theorem offQueue_triple {x : Prog Op α} (hx : OffQueue x) {P : World → Prop}
    (hP : ∀ w w', P w → Grown calls w w' → P w') : ExitTriple cfg calls t P x fun _ => P :=
  offRows_triple (hx.mono fun _ => Cmd.offQueue.offRows) hP

theorem aside_keeps {P : World → Prop} (hP : Stable (exitContract calls) t P) {o : Op β}
    (hc : o.cmd.aside) :
    Keeps (bridge cfg calls) (considerate calls) (exitContract calls) t P β o := by
  obtain ⟨c⟩ := o
  intro w x b w' hw hi hd he
  have hstep : ExitStep cfg calls t P c fun _ => P :=
    offRows_step (Cmd.offQueue.offRows (Cmd.aside.offQueue hc))
      fun w x b w' _ hi' hw hg he => hP w w' hw (hg.rely_aside hc he) hi'
  exact hstep w x b w' hi hw hd he

/-- The row still is the message the worker has fetched. -/
structure OutboundMessage.Of (m : OutboundMessage) (row : OutboundRow) : Prop where
  user : row.matrixUserId = m.matrixUserId
  room : row.roomId = m.roomId
  event : row.eventId = m.eventId
  retries : m.retryCount ≤ row.retryCount

def Retained (m : OutboundMessage) (w : World) : Prop :=
  m.id < w.store.nextOutboundId ∧
    ∀ row, w.store.outboundQueue.lookup m.id = some row → m.Of row

/-- What a worker knows at each stage of an attempt. -/
def Evidence (calls : Nat → Call) (t : Nat) (s : Stage) (m : OutboundMessage) (w : World) : Prop :=
  match s with
  | .confirmed | .orphaned =>
    ∀ row, w.store.outboundQueue.lookup m.id = some row → Accounted calls m.id row w.trace
  | .noticed =>
    9 ≤ m.retryCount ∧ (refused t m.id w.trace ∨ ∃ r ∈ w.trace, r.notifies m.id m.roomId)
  | _ => True

def HeldAll (l : List OutboundMessage) (w : World) : Prop := ∀ m ∈ l, Retained m w

def Attempt (calls : Nat → Call) (t : Nat) (s : Stage) (m : OutboundMessage)
    (rest : List OutboundMessage) (w : World) : Prop :=
  HeldAll (m :: rest) w ∧ Evidence calls t s m w

theorem OutboundMessage.Of.follow {m : OutboundMessage} {row row' : OutboundRow} (h : m.Of row)
    (hs : row.SameMail row') : m.Of row' where
  user := hs.user.trans h.user
  room := hs.room.trans h.room
  event := hs.event.trans h.event
  retries := h.retries.trans hs.retries

theorem Grown.row_of_held (hg : Grown calls w w') {m : OutboundMessage} (h : Retained m w)
    {row' : OutboundRow} (hrow' : w'.store.outboundQueue.lookup m.id = some row') :
    ∃ row, w.store.outboundQueue.lookup m.id = some row ∧ row.SameMail row' := by
  rcases hg.rows m.id row' hrow' with hold | hnew
  · exact hold
  · exact absurd h.1 (Nat.not_lt.mpr hnew)

theorem Grown.heldAll (hg : Grown calls w w') {l : List OutboundMessage} (h : HeldAll l w) :
    HeldAll l w' := by
  intro m hm
  refine ⟨Nat.lt_of_lt_of_le (h m hm).1 hg.next, fun row' hrow' => ?_⟩
  obtain ⟨row, hrow, hs⟩ := hg.row_of_held (h m hm) hrow'
  exact ((h m hm).2 row hrow).follow hs

theorem HeldAll.stable {l : List OutboundMessage} : Stable (exitContract calls) t (HeldAll l) :=
  fun _ _ h hr _ => hr.1.heldAll h

theorem Grown.evidence (hg : Grown calls w w') {s : Stage} {m : OutboundMessage}
    (hm : Retained m w) (hn : refused t m.id w'.trace = refused t m.id w.trace)
    (h : Evidence calls t s m w) : Evidence calls t s m w' := by
  have hacc : (∀ row, w.store.outboundQueue.lookup m.id = some row →
      Accounted calls m.id row w.trace) → ∀ row', w'.store.outboundQueue.lookup m.id = some row' →
        Accounted calls m.id row' w'.trace := by
    intro h row' hrow'
    obtain ⟨row, hrow, hs⟩ := hg.row_of_held hm hrow'
    exact ((h row hrow).follow hs).mono hg.trace
  cases s with
  | confirmed => exact hacc h
  | orphaned => exact hacc h
  | noticed => exact ⟨h.1, h.2.imp (hn.trans ·) fun ⟨r, hr, hp⟩ => ⟨r, hg.trace r hr, hp⟩⟩
  | _ => trivial

theorem Attempt.stable {s : Stage} {m : OutboundMessage} {rest : List OutboundMessage} :
    Stable (exitContract calls) t (Attempt calls t s m rest) :=
  fun _ _ h hr _ =>
    ⟨hr.1.heldAll h.1, hr.1.evidence (h.1 m List.mem_cons_self) (hr.2 m.id) h.2⟩

/-! The steps of a worker. -/

theorem fetch_step :
    ExitStep cfg calls t (HeldAll []) (.store .getPendingOutbound)
      (post (fun l => HeldAll l) fun _ => HeldAll []) := by
  refine exitStep_intro (fun _ _ _ _ _ _ _ _ hr => by cases hr)
    (fun _ _ _ _ _ _ _ _ _ _ ha => by cases ha) fun w x b w' hi _ hw hg he => ?_
  rcases exec_store he with ⟨order, -, rfl, rfl⟩ | ⟨-, rfl, -⟩ | ⟨-, rfl, -⟩
  · intro m hm
    obtain ⟨row, hrow, heq⟩ := mem_pendingChoice hm
    refine ⟨hi.ids m.id row hrow, fun row' hrow' => ?_⟩
    obtain rfl : row = row' := Option.some.inj (hrow ▸ hrow')
    rw [heq]
    exact ⟨rfl, rfl, rfl, Nat.le_refl _⟩
  · exact hg.heldAll hw
  · exact hg.heldAll hw

theorem ghost_step {m : OutboundMessage} {rest : List OutboundMessage} :
    ExitStep cfg calls t (HeldAll (m :: rest)) (.store (.getGhostEmailByRoom m.roomId))
      fun r w => HeldAll (m :: rest) w ∧ (r = .ok none → Attempt calls t .orphaned m rest w) := by
  refine offRows_step rfl fun w x b w' hi hi' hw hg he => ?_
  have hheld : HeldAll (m :: rest) w' := hg.heldAll hw
  refine ⟨hheld, fun hb => ⟨hheld, fun row hrow => ?_⟩⟩
  rcases exec_store he with ⟨order, -, rfl, rfl⟩ | ⟨-, rfl, -⟩ | ⟨-, rfl, -⟩
  · have hroom : row.roomId = m.roomId := ((hheld m List.mem_cons_self).2 row hrow).room
    have hnone : w.store.roomGhostMapping.lookup m.roomId = none := by
      simpa [StoreCmd.run] using hb
    rcases hi'.known m.id row hrow with hsome | ⟨r, hr, hc⟩
    · rw [hroom] at hsome
      simp [StoreCmd.run, hnone] at hsome
    · exact .unbridged r hr hc
  · cases hb
  · cases hb

theorem sending_step {m : OutboundMessage} {rest : List OutboundMessage} :
    ExitStep cfg calls t (HeldAll (m :: rest)) (.task (.log (.sending m)))
      fun _ => Attempt calls t .begun m rest :=
  exitStep_intro (fun _ _ _ _ _ _ _ _ hr => by cases hr)
    (fun _ _ _ _ _ _ _ _ _ _ ha => by cases ha) fun _ _ _ _ _ _ hw hg _ =>
      ⟨hg.heldAll hw, trivial⟩

theorem submit_step {m : OutboundMessage} {rest : List OutboundMessage} {account : Account}
    {draft : Draft} (hsource : draft.source = m) :
    ExitStep cfg calls t (Attempt calls t .begun m rest) (.jmap account (.submitBatch draft))
      fun r => Attempt calls t (.ofReply r) m rest := by
  refine exitStep_intro (fun _ _ _ _ _ _ _ _ hr => by cases hr)
    (fun _ _ _ _ _ _ _ _ _ _ ha => by cases ha) fun w x b w' _ _ hw hg he => ?_
  refine ⟨hg.heldAll hw.1, ?_⟩
  rcases exec_reply he with ⟨r, v, rfl, rfl, hv⟩ | ⟨-, err, rfl⟩
  · have hr : r = .batch v := by
      cases r <;> simp_all [JmapCmd.value]
    subst hr
    match v with
    | ⟨none, _⟩ => trivial
    | ⟨some e, false⟩ => trivial
    | ⟨some e, true⟩ =>
      intro row _
      refine .confirmed ⟨t, .jmap account (.submitBatch draft), .reply (.batch ⟨some e, true⟩)⟩
        (exec_trace he ▸ List.mem_cons_self) ?_
      simp [Record.confirms, hsource]
  · trivial

theorem notice_step {m : OutboundMessage} {rest : List OutboundMessage} {s : Stage}
    (h9 : 9 ≤ m.retryCount) :
    ExitStep cfg calls t (Attempt calls t s m rest) (.matrix (failureNotice cfg m))
      fun _ => Attempt calls t .noticed m rest := by
  refine offRows_step rfl fun w x b w' _ _ hw hg he => ⟨hg.heldAll hw.1, h9, ?_⟩
  have htry : (⟨t, .matrix (failureNotice cfg m), x⟩ : Record).triesNotice m.id := by
    simp [Record.triesNotice, failureNotice]
  have htrace := exec_trace he
  cases hx : (⟨t, .matrix (failureNotice cfg m), x⟩ : Record).arrives with
  | false =>
    left
    rw [htrace]
    simp [refused, htry, hx]
  | true =>
    right
    refine ⟨_, htrace ▸ List.mem_cons_self, ?_⟩
    simp only [Record.notifies, htry, hx, Bool.and_self, Bool.true_and]
    simp [failureNotice]

theorem remove_step {m : OutboundMessage} {rest : List OutboundMessage} {s : Stage}
    (hs : s.removes) :
    ExitStep cfg calls t (Attempt calls t s m rest) (.store (.removeFromOutboundQueue m.id))
      fun _ => Attempt calls t .ended m rest := by
  refine exitStep_intro (fun w x id row hi hw hd hrow hr hx => ?_)
    (fun _ _ _ _ _ _ _ _ _ _ ha =>
      by cases ha) fun _ _ _ _ _ _ hw hg _ => ⟨hg.heldAll hw.1, trivial⟩
  obtain rfl : m.id = id := eq_of_beq hr
  have hkeep : Accounted calls m.id row w.trace → Accounted calls m.id row
      (⟨t, .store (.removeFromOutboundQueue m.id), x⟩ :: w.trace) :=
    fun h => h.mono fun _ hr => List.mem_cons_of_mem _ hr
  refine hkeep ?_
  cases s with
  | confirmed => exact hw.2 row hrow
  | orphaned => exact hw.2 row hrow
  | noticed =>
    obtain ⟨h9, hnotice⟩ := hw.2
    have hof : m.Of row := (hw.1 m List.mem_cons_self).2 row hrow
    have hnot : refused t m.id w.trace = false := by
      simpa [Cmd.considerate, hx, hrow] using hd
    obtain ⟨r, hr, hp⟩ := hnotice.resolve_left (by simp [hnot])
    exact .givenUp (h9.trans hof.retries) r hr (hof.room ▸ hp)
  | begun => exact hs.elim
  | failed => exact hs.elim
  | ended => exact hs.elim

theorem worker_working :
    Working (bridge cfg calls) (considerate calls) (exitContract calls) t cfg (HeldAll [])
      HeldAll (Attempt calls t) where
  stable_idle := HeldAll.stable
  stable_todo := HeldAll.stable
  stable := Attempt.stable
  sleep _ := aside_keeps HeldAll.stable rfl
  client l u := offRows_keeps rfl fun _ _ h hg => hg.heldAll h
  ready _ _ _ _ hc := aside_keeps HeldAll.stable hc
  aside _ _ _ _ _ hc := aside_keeps Attempt.stable hc
  unbegun _ _ _ h := ⟨h, trivial⟩
  unsent _ _ _ h := ⟨h.1, trivial⟩
  idle_of_todo _ h := h
  fetch := fetch_step
  ghost _ _ := ghost_step
  begin _ _ := sending_step
  submit _ _ _ _ hsource _ := submit_step hsource
  notice _ _ _ _ h9 := notice_step h9
  remove _ _ _ hs := remove_step hs
  retry _ _ := exitStep_intro (fun _ _ _ _ _ _ _ _ hr => by cases hr)
    (fun _ _ _ _ _ _ _ _ _ _ ha =>
      by cases ha) fun _ _ _ _ _ _ hw hg _ => ⟨hg.heldAll hw.1, trivial⟩
  drop _ _ := exitStep_intro (fun _ _ _ _ _ _ _ _ hr => by cases hr)
    (fun _ _ _ _ _ _ _ _ _ _ ha => by cases ha) fun _ _ _ _ _ _ hw hg _ m hm =>
      hg.heldAll hw.1 m (List.mem_cons_of_mem _ hm)

/-! The calls of users. -/

theorem cancel_step {e : EventId} :
    ExitStep cfg calls t (fun _ => True) (.store (.cancelOutboundByEvent e)) fun _ _ => True := by
  refine exitStep_intro (fun w x id row hi _ hd hrow hr hx => ?_)
    (fun _ _ _ _ _ _ _ _ _ _ ha => by cases ha) fun _ _ _ _ _ _ _ _ _ => trivial
  have he : row.eventId = e := eq_of_beq hr
  have hmem : (⟨id, row⟩ : Sigma fun _ : Nat => OutboundRow) ∈ w.store.outboundQueue.entries :=
    AList.mem_lookup_iff.mp hrow
  have hauthor : row.matrixUserId ∈ (calls t).redactors row.eventId := by
    have := List.all_eq_true.mp hd _ hmem
    simpa [he] using this
  exact .redacted _ List.mem_cons_self ⟨by rw [he], hx⟩ hauthor

theorem handleRedaction_triple {room : RoomId} {redacted : EventId} :
    ExitTriple cfg calls t (fun _ => True) (handleRedaction cfg room redacted) fun _ _ => True := by
  have htrue : Stable (exitContract calls) t fun _ => True := Stable.const True
  refine .bind (.call htrue cancel_step fun _ => htrue) fun r => ?_
  split
  · exact offQueue_triple notify_remark.offQueue fun _ _ h _ => h
  · exact .pure htrue fun _ _ h => h

theorem handleEdit_triple {room : RoomId} {target : EventId} {body : String} :
    ExitTriple cfg calls t (fun _ => True) (handleEdit cfg room target body) fun _ _ => True := by
  have htrue : Stable (exitContract calls) t fun _ => True := Stable.const True
  have hstep : ExitStep cfg calls t (fun _ => True)
      (.store (.updateOutboundBodyByEvent target body)) fun _ _ => True :=
    exitStep_intro (fun _ _ _ _ _ _ _ _ hr => by cases hr)
      (fun _ _ _ _ _ _ _ _ _ _ ha => by cases ha) fun _ _ _ _ _ _ _ _ _ => trivial
  refine .bind (.call htrue hstep fun _ => htrue) fun r => ?_
  split
  · exact offQueue_triple notify_remark.offQueue fun _ _ h _ => h
  · exact .pure htrue fun _ _ h => h

theorem Known.stable {room : RoomId} : Stable (exitContract calls) t (Known room) :=
  fun _ _ h hr _ => hr.1.known room h

theorem add_step {e : QueuedEvent} {c : Cmd} (hc : c.enqueues e) :
    ExitStep cfg calls t (Known e.room) c fun _ => Known e.room := by
  by_cases hq : c.offQueue
  · exact offRows_step (Cmd.offQueue.offRows hq) fun _ _ _ _ _ _ hw hg _ => hg.known _ hw
  · refine exitStep_intro (fun w x id row _ _ _ _ hr => ?_)
      (fun w user room event body html thread files delay hw ha => ?_)
      fun _ _ _ _ _ _ hw hg _ => hg.known _ hw
    · unfold Cmd.enqueues at hc
      split at hc
      · cases hr
      · exact absurd hc hq
    · subst ha
      have hroom : room = e.room := by
        simp only [Cmd.enqueues, Bool.and_eq_true, beq_iff_eq] at hc
        exact hc.1.2
      rw [hroom]
      exact hw

theorem enqueues_triple {e : QueuedEvent} {x : Prog Op α} (hx : Enqueues e x) :
    ExitTriple cfg calls t (Known e.room) x fun _ => Known e.room := by
  refine .only Known.stable (Prog.Only.mono (fun β o h => ?_) hx)
  obtain ⟨c⟩ := o
  intro w y b w' hw hi hd he
  have hstep : ExitStep cfg calls t (Known e.room) c fun _ => Known e.room := add_step h
  exact hstep w y b w' hi hw hd he

theorem knows_step {room : RoomId} :
    ExitStep cfg calls t (fun _ => True) (.store (.getGhostEmailByRoom room))
      fun r w => ∀ email, r = .ok (some email) → Known room w := by
  refine offRows_step rfl fun w x b w' _ _ _ hg he email hb => ?_
  rcases exec_store he with ⟨order, -, rfl, rfl⟩ | ⟨-, rfl, -⟩ | ⟨-, rfl, -⟩
  · refine hg.known room (.inl ?_)
    have hsome : (w.store.roomGhostMapping.lookup room).map (·.ghostEmail) = some email := by
      simpa [StoreCmd.run] using hb
    obtain ⟨row, hrow, -⟩ := Option.map_eq_some_iff.mp hsome
    simp [hrow]
  · cases hb
  · cases hb

theorem handleMessage_triple {e : QueuedEvent} {body : String} {media : Option String}
    {relation : Option Relation} :
    ExitTriple cfg calls t (fun _ => True) (handleMessage cfg e body media relation)
      fun _ _ => True := by
  have htrue : Stable (exitContract calls) t fun _ => True := Stable.const True
  have hknows : ∀ r : Except Err (Option String), Stable (exitContract calls) t fun w =>
      ∀ email, r = .ok (some email) → Known e.room w :=
    fun r w w' h hr _ email hb => hr.1.known e.room (h email hb)
  refine .bind (.call htrue knows_step hknows) fun r => ?_
  match r with
  | .error _ => exact .pure (hknows _) fun _ _ _ => trivial
  | .ok none =>
    have hlog : OffQueue (Act.lift (onTask (.log (.notInGhostRoom e.event))) : Bridge Unit) :=
      .lift (.task rfl)
    exact .pre (offQueue_triple (P := fun _ => True) hlog fun _ _ h _ => h) fun _ _ _ => trivial
  | .ok (some email) =>
    exact .pre (.post (enqueues_triple routeGhostMessage_enqueues) fun _ _ _ _ => trivial)
      fun w _ h => h email rfl

theorem handleMessageLike_triple {ev : MatrixEvent} :
    ExitTriple cfg calls t (fun _ => True) (handleMessageLike cfg ev) fun _ _ => True := by
  have htrue : Stable (exitContract calls) t fun _ => True := Stable.const True
  unfold handleMessageLike
  split
  · exact .pure htrue fun _ _ h => h
  · split
    · exact offQueue_triple (.lift handleReaction_remark.offQueue) fun _ _ h _ => h
    · exact .pure htrue fun _ _ h => h
    · exact .bind handleRedaction_triple fun _ => .pure htrue fun _ _ h => h
    · exact .bind handleEdit_triple fun _ => .pure htrue fun _ _ h => h
    · exact handleMessage_triple
    · exact .pure htrue fun _ _ h => h

theorem handleEvent_triple {ev : MatrixEvent} :
    ExitTriple cfg calls t (fun _ => True) (handleEvent cfg ev) fun _ _ => True := by
  unfold handleEvent
  split
  · exact offQueue_triple (.bestEffort handleRoomMember_offQueue) fun _ _ h _ => h
  · exact handleMessageLike_triple

theorem processTransaction_triple {txn : MatrixTransaction} :
    ExitTriple cfg calls t (fun _ => True) (processTransaction cfg txn) fun _ _ => True := by
  have hreceipts : OffQueue (Act.forEach (fun receipts => bestEffort (handleReceipt receipts))
      txn.ephemeral) := .forEach _ fun _ => .bestEffort handleReceipt_offQueue
  have hevents : ExitTriple cfg calls t (fun _ => True) (Act.forEach (handleEvent cfg) txn.events)
      (post (fun _ _ => True) fun _ _ => True) :=
    .actForEach (Stable.const True) (fun _ => Stable.const True) _ fun ev _ =>
      .post handleEvent_triple fun r _ _ _ => by cases r <;> trivial
  have hfirst : ExitTriple cfg calls t (fun _ => True)
      (Act.forEach (fun receipts => bestEffort (handleReceipt receipts)) txn.ephemeral)
      (post (fun _ _ => True) fun _ _ => True) :=
    .post (offQueue_triple hreceipts fun _ _ h _ => h) fun r _ _ _ => by cases r <;> trivial
  exact .post (.andThen hfirst (fun _ => Stable.const True) fun _ => hevents) fun _ _ _ _ => trivial

theorem handleTransactions_triple {txnId : TransactionId} {txn : MatrixTransaction} :
    ExitTriple cfg calls t (fun _ => True) (handleTransactions cfg txnId txn) fun _ _ => True := by
  have hoff : ∀ {α : Type} {x : Task α}, OffRows x →
      ExitTriple cfg calls t (fun _ => True) x fun _ _ => True :=
    fun hx => offRows_triple hx fun _ _ h _ => h
  refine .bind (hoff (.result (.store rfl))) fun claimed => ?_
  split
  · exact hoff (.task rfl)
  · exact hoff (.task rfl)
  · exact .bind processTransaction_triple fun _ => hoff concludeTransaction_offRows

theorem logout_triple {user : UserId} (hc : calls t = .logout user) :
    ExitTriple cfg calls t (fun _ => True) (logout user) fun _ _ => True := by
  have htrue : Stable (exitContract calls) t fun _ => True := Stable.const True
  have hclear : ExitStep cfg calls t (fun _ => True) (.store (.clearOutboundQueue user))
      fun _ _ => True := by
    refine exitStep_intro (fun w x id row _ _ _ _ hr hx => ?_)
      (fun _ _ _ _ _ _ _ _ _ _ ha => by cases ha) fun _ _ _ _ _ _ _ _ _ => trivial
    have hu : row.matrixUserId = user := eq_of_beq hr
    exact .loggedOut _ List.mem_cons_self ⟨by rw [hu], hx⟩ (by rw [hu]; exact hc)
  have hoff : ∀ x : Bridge Unit, OffQueue x →
      ExitTriple cfg calls t (fun _ => True) x (post (fun _ _ => True) fun _ _ => True) :=
    fun x hx => .post (offQueue_triple hx fun _ _ h _ => h) fun r _ _ _ => by cases r <;> trivial
  have hlast : ExitTriple cfg calls t (fun _ => True) (onStore (.clearOutboundQueue user))
      (post (fun _ _ => True) fun _ _ => True) :=
    .post (.call htrue hclear fun _ => htrue) fun r _ _ _ => by cases r <;> trivial
  have hmain : ExitTriple cfg calls t (fun _ => True) (logout user)
      (post (fun _ _ => True) fun _ _ => True) :=
    .andThen (hoff _ (.lift (.task rfl))) (fun _ => htrue) fun _ =>
      .andThen (hoff _ (.store rfl)) (fun _ => htrue) fun _ => hlast
  exact .post hmain fun _ _ _ _ => trivial

theorem call_triple :
    ExitTriple cfg calls t (fun _ => True) ((calls t).program cfg) fun _ _ => True := by
  have htrue : Stable (exitContract calls) t fun _ => True := Stable.const True
  have hoff : ∀ x :
      Task Unit, OffQueue x → ExitTriple cfg calls t (fun _ => True) x fun _ _ => True :=
    fun x hx => offQueue_triple hx fun _ _ h _ => h
  have hend : ∀ x : Bridge Unit, ExitTriple cfg calls t (fun _ => True) x (fun _ _ => True) →
      ExitTriple cfg calls t (fun _ => True) (ignore x) fun _ _ => True :=
    fun x hx => .bind hx fun _ => .pure htrue fun _ _ h => h
  match hcall : calls t with
  | .poll p => exact hoff _ (.bind poll_offQueue fun _ => .pure)
  | .backfill p => exact hoff _ runBackfillLoop_offQueue
  | .newThread p email ghost body =>
    have hnew : OffQueue (processNewThread cfg p email ghost body) :=
      inbound_offQueue (processNewThread_inbound (fun _ _ => trivial) fun _ _ => trivial)
    exact hoff _ (.bind hnew fun _ => .pure)
  | .fileRoom user room =>
    have hfile : OffQueue (ensureRoomInEmailSpace user room) :=
      inbound_offQueue (p := ⟨user, ""⟩) ensureRoomInEmailSpace_inbound
    exact hoff _ (.bind hfile fun _ => .pure)
  | .repairSpace user =>
    have hrepair : OffQueue (repairEmailSpace user) :=
      inbound_offQueue (p := ⟨user, ""⟩) repairEmailSpace_inbound
    exact hoff _ (.bind hrepair fun _ => .pure)
  | .worker =>
    have hidle : ∀ w, HeldAll [] w := fun _ _ h => by cases h
    exact .pre (.post worker_working.runRetryLoop_triple fun _ _ _ _ => trivial)
      fun w _ _ => hidle w
  | .transaction txnId txn => exact handleTransactions_triple
  | .detached task => exact hoff _ (.bind detached_offQueue fun _ => .pure)
  | .prune => exact offRows_triple runPruning_offRows fun _ _ h _ => h
  | .logout user => exact hend _ (logout_triple hcall)

end

theorem exit_upholds {cfg : Config} {calls : Nat → Call} :
    Upholds (bridge cfg calls) (considerate calls) (exitContract calls) where
  start := fun t w hi _ _ => call_triple w hi trivial
  env := by
    intro ev w w' hi _ h
    have hsame : w'.trace = w.trace ∧ w'.store.outboundQueue = w.store.outboundQueue ∧
        w'.store.nextOutboundId = w.store.nextOutboundId ∧
        w'.store.roomGhostMapping = w.store.roomGhostMapping := by
      cases ev with
      | release key stored =>
        change (Env.release key stored).perform w = some w' at h
        simp only [Env.perform] at h
        split at h
        · obtain rfl := Option.some.inj h
          exact ⟨rfl, rfl, rfl, rfl⟩
        · cases h
      | _ =>
        obtain rfl := Option.some.inj h
        exact ⟨rfl, rfl, rfl, rfl⟩
    obtain ⟨htrace, hqueue, hnext, hghost⟩ := hsame
    have hknown : ∀ room, Known room w → Known room w' := by
      intro room hr
      simpa [Known, htrace, hghost] using hr
    have hgrown : Grown calls w w' := {
      next := by rw [hnext]
      rows := fun id row' hrow => .inl ⟨row', hqueue ▸ hrow, .refl _⟩
      left := fun id row hrow => .inl ⟨row, hqueue.symm ▸ hrow, .refl _⟩
      trace := fun r hr => htrace.symm ▸ hr
      known := hknown }
    refine ⟨⟨fun id row hrow => ?_, fun id row hrow => ?_⟩,
      fun i => ⟨hgrown, fun id => by rw [htrace]⟩⟩
    · rw [hnext]
      exact hi.ids id row (hqueue ▸ hrow)
    · exact hknown _ (hi.known id row (hqueue ▸ hrow))
  cancel := by
    intro t w hi _
    have hgrown : Grown calls w (drop t w) :=
      ⟨Nat.le_refl _, fun id row' h => .inl ⟨row', h, .refl _⟩,
      fun id row h => .inl ⟨row, h, .refl _⟩, fun _ h => h, fun _ h => h⟩
    exact ⟨⟨hi.ids, hi.known⟩, fun i _ => ⟨hgrown, fun _ => rfl⟩, trivial⟩

/-- Between any two states of a `considerate` run, a row that has left the queue left it
accounted for: `row'` is the row as it was then. -/
theorem never_dropped_silently {cfg : Config} {calls : Nat → Call} {w : World}
    (hw : w.store.outboundQueue = ∅) {es fs : List (Event Answer Env)} {q q' : Pool Op World}
    (hrun : (bridge cfg calls).run es (Pool.boot w) = some q)
    (hrun' : (bridge cfg calls).run fs q = some q')
    (hD : (bridge cfg calls).Admits (considerate calls).meets (es ++ fs) (Pool.boot w))
    {id : Nat} {row : OutboundRow} (hrow : q.world.store.outboundQueue.lookup id = some row)
    (hgone : q'.world.store.outboundQueue.lookup id = none) :
    ∃ row', row.SameMail row' ∧ Accounted calls id row' q'.world.trace := by
  have hinv : ExitInv w := by
    constructor
    · intro id row h
      simp [hw] at h
    · intro id row h
      simp [hw] at h
  have hboot : Upholds.PoolInv (bridge cfg calls) (considerate calls) (exitContract calls)
      (Pool.boot w) := Upholds.poolInv_boot hinv fun _ => trivial
  obtain ⟨hD₁, hD₂⟩ := (bridge cfg calls).admits_append hrun hD
  have hpool := exit_upholds.poolInv_of_run hboot hrun hD₁
  have hgrown : Grown calls q.world q'.world :=
    exit_upholds.run_guarantee (fun _ _ _ h => h.1) (fun _ _ _ => Grown.trans) hpool hrun' hD₂
  rcases hgrown.left id row hrow with ⟨row', hrow', -⟩ | haccounted
  · rw [hrow'] at hgone
    cases hgone
  · exact haccounted

def mailRoom : World where
  store :=
    { users := (∅ : Sql.Table _ _).insert "@a:localhost" ⟨"a", "token", "url"⟩
      roomGhostMapping := (∅ : Sql.Table _ _).insert "!r"
        { ghostEmail := "bob@x", matrixUserId := "@a:localhost" } }
  clients := (∅ : Sql.Table _ _).insert "@a:localhost" "a"

/-- Task 0 hands in one message and task 1 is the worker. -/
def oneMessage : Nat → Call
  | 0 => .transaction "1" ⟨[.message "@a:localhost" "!r" "$m" "hello" none none], []⟩
  | 1 => .worker
  | _ => .prune

def enqueued : List (Event Answer Env) :=
  (.start 0 :: List.replicate 8 (.step 0 .done) : List (Event Answer Env)) ++
    ([.tau 0, .start 1] : List (Event Answer Env))

/-- An attempt in which the mail server cannot be reached. -/
def failedTry : List (Event Answer Env) :=
  (.tau 1 :: List.replicate 4 (.step 1 .done) : List (Event Answer Env)) ++
    ([.step 1 .failed, .step 1 .done, .step 1 .failed] : List (Event Answer Env))

def nineTries : List (Event Answer Env) :=
  enqueued ++
  (List.replicate 9 (failedTry ++ [.step 1 .done, .step 1 .done, .env (.advance 20000)])).flatten

/-- The tenth attempt fails as well, and the notice meets with `a`. -/
def lastTry (a : Answer) : List (Event Answer Env) := failedTry ++ [.step 1 a, .step 1 .done]

theorem never_dropped_silently_notified : ∃ q q' row,
    (bridge {} oneMessage).run nineTries (Pool.boot mailRoom) = some q ∧
      (bridge {} oneMessage).run (lastTry (.id "$n")) q = some q' ∧
      q.world.store.outboundQueue.lookup 1 = some row ∧
      q'.world.store.outboundQueue.lookup 1 = none ∧
      ∃ row', row.SameMail row' ∧ Accounted oneMessage 1 row' q'.world.trace := by
  have hends : (((bridge {} oneMessage).run nineTries (Pool.boot mailRoom)).bind fun q =>
      ((bridge {} oneMessage).run (lastTry (.id "$n")) q).map fun q' =>
        ((q.world.store.outboundQueue.lookup 1).isSome,
          (q'.world.store.outboundQueue.lookup 1).isNone)) = some (true, true) := by decide +kernel
  have hadmits : (bridge {} oneMessage).Admits (considerate oneMessage).meets
      (nineTries ++ lastTry (.id "$n")) (Pool.boot mailRoom) := by decide +kernel
  obtain ⟨q, hq, hrest⟩ := Option.bind_eq_some_iff.mp hends
  obtain ⟨q', hq', hrows⟩ := Option.map_eq_some_iff.mp hrest
  obtain ⟨hrow, hgone⟩ := Prod.mk.inj hrows
  obtain ⟨row, hrow⟩ := Option.isSome_iff_exists.mp hrow
  have hgone := Option.isNone_iff_eq_none.mp hgone
  exact ⟨q, q', row, hq, hq', hrow, hgone,
    never_dropped_silently rfl hq hq' hadmits hrow hgone⟩

/-- The records that may account for row `id` in `room`. -/
def Record.explains (id : Nat) (room : RoomId) (r : Record) : Bool :=
  r.confirms id || r.notifies id room ||
    match r.cmd with
    | .store (.cancelOutboundByEvent _) => true
    | .store (.clearOutboundQueue _) => true
    | .store (.deleteRoomGhostMapping _) => true
    | _ => false

theorem Accounted.explained {calls : Nat → Call} {id : Nat} {row : OutboundRow}
    {trace : List Record} (h : Accounted calls id row trace) :
    trace.any fun r => r.explains id row.roomId := by
  rw [List.any_eq_true]
  cases h with
  | confirmed r h hr => exact ⟨r, h, by simp [Record.explains, hr]⟩
  | redacted r h hr ha => exact ⟨r, h, by simp [Record.explains, hr.1]⟩
  | loggedOut r h hr ha => exact ⟨r, h, by simp [Record.explains, hr.1]⟩
  | unbridged r h hr => exact ⟨r, h, by simp [Record.explains, hr.1]⟩
  | givenUp h10 r h hr => exact ⟨r, h, by simp [Record.explains, hr]⟩

/-- The homeserver refuses the notice, and the row is removed all the same. -/
theorem refused_notice_drops_row : ∃ q q' row,
    (bridge {} oneMessage).run nineTries (Pool.boot mailRoom) = some q ∧
      (bridge {} oneMessage).run (lastTry .failed) q = some q' ∧
      q.world.store.outboundQueue.lookup 1 = some row ∧
      q'.world.store.outboundQueue.lookup 1 = none ∧
      ¬ ∃ row', row.SameMail row' ∧ Accounted oneMessage 1 row' q'.world.trace := by
  have hends : (((bridge {} oneMessage).run nineTries (Pool.boot mailRoom)).bind fun q =>
      ((bridge {} oneMessage).run (lastTry .failed) q).map fun q' =>
        ((q.world.store.outboundQueue.lookup 1).map (·.roomId),
          (q'.world.store.outboundQueue.lookup 1).isNone,
          q'.world.trace.any fun r => r.explains 1 "!r")) = some (some "!r", true, false) := by
    decide +kernel
  obtain ⟨q, hq, hrest⟩ := Option.bind_eq_some_iff.mp hends
  obtain ⟨q', hq', hrows⟩ := Option.map_eq_some_iff.mp hrest
  obtain ⟨hrow, hgone, hnone⟩ : _ ∧ _ ∧ _ := by simpa only [Prod.mk.injEq] using hrows
  obtain ⟨row, hrow, hroom⟩ := Option.map_eq_some_iff.mp hrow
  refine ⟨q, q', row, hq, hq', hrow, Option.isNone_iff_eq_none.mp hgone, ?_⟩
  rintro ⟨row', hs, ha⟩
  have hsome := ha.explained
  rw [hs.room, hroom, hnone] at hsome
  cases hsome

end JmapBridge
