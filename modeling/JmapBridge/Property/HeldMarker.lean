import JmapBridge.Model.Frames
import JmapBridge.Model.Service

/-! The marker of a held message. It is remembered, and its reaction stands, only while a row of
the message is queued, if rows leave the queue by the worker alone. -/

namespace JmapBridge

open Effect

/-- The reaction remembered for a held message. -/
def World.heldMark (w : World) (user : UserId) (e : EventId) : Option String :=
  w.store.jmapState.lookup (user, .sendState e)

/-- The message still has a row. -/
def World.hasRow (w : World) (user : UserId) (e : EventId) : Prop :=
  ∃ id row, w.store.outboundQueue.lookup id = some row ∧ row.matrixUserId = user ∧ row.eventId = e

/-- A marker has its row. -/
def World.Queues (w : World) (user : UserId) (e : EventId) : Prop :=
  (w.heldMark user e).isSome → w.hasRow user e

def Cmd.hourglass (e : EventId) : Cmd → Bool
  | matrix (.sendAsGhost _ _ (.reaction target key) _) => target == e && key == heldReaction
  | _ => false

/-- The id of what arrived. -/
def Answer.arrived : Answer → Option String
  | id s => some s
  | lost s => some s
  | _ => none

def Record.posted (e : EventId) (r : Record) : Option String :=
  if r.cmd.hourglass e then r.answer.arrived else none

def Record.redacts (s : EventId) (r : Record) : Bool :=
  match r.cmd with
  | .matrix (.redactEvent _ target _) =>
    target == s && r.answer != .failed && r.answer != .notJoined
  | _ => false

/-- The hourglasses that stand on the event. -/
def hourglasses (e : EventId) (l : List Record) : List EventId :=
  (l.filterMap (Record.posted e)).filter fun s => !l.any (Record.redacts s)

/-- The hourglass that task `t` has just posted. -/
def justPosted (e : EventId) (t : Nat) (l : List Record) : Option EventId :=
  (newest t l).bind (Record.posted e)

def Cmd.removal : Cmd → Bool
  | store (.removeFromOutboundQueue _) => true
  | _ => false

/-- The commands that look for a marker and take its reaction away. -/
def Cmd.takes : Cmd → Bool
  | store (.getJmapState _ (.sendState _)) => true
  | matrix (.redactEvent _ _ _) => true
  | _ => false

/-- The task that has removed a row and not come to the end of taking its marker. -/
def resolver : List Record → Option Nat
  | [] => none
  | r :: l =>
    if r.cmd.removal then some r.task
    else if resolver l = some r.task then (if r.cmd.takes then some r.task else none)
    else resolver l

/-- The room of the row in hand was looked for last: it is purged if it is removed now. -/
def purging (t : Nat) (l : List Record) : Bool :=
  (newest t l).any fun r =>
    match r.cmd with
    | .store (.getGhostEmailByRoom _) => true
    | _ => false

/-- The marker of `e` was looked for last. -/
def taking (e : EventId) (t : Nat) (l : List Record) : Bool :=
  (newest t l).any fun r =>
    match r.cmd with
    | .store (.getJmapState _ (.sendState x)) => x == e
    | _ => false

/-- No row of `e` that the statement removes has its marker. -/
def World.sparing (w : World) (e : EventId) (c : StoreCmd) : Prop :=
  ∀ r ∈ w.store.outboundQueue.entries, c.removes r.1 r.2 → r.2.eventId = e →
    w.heldMark r.2.matrixUserId e = none

def Cmd.marked (e : EventId) (t : Nat) (w : World) : Cmd → Answer → Prop
  | store (.saveJmapState user (.sendState x) _), _ =>
    x = e → w.hasRow user e ∧ w.heldMark user e = none
  | store (.removeFromOutboundQueue id), _ => (∀ i ∈ resolver w.trace, i = t) ∧
    (purging t w.trace → w.sparing e (.removeFromOutboundQueue id))
  | store c, _ => w.sparing e c
  | matrix (.redactEvent _ _ _), a => taking e t w.trace → a ≠ .failed ∧ a ≠ .notJoined
  | c, .lost _ => c.hourglass e = false
  | _, _ => True

/-- The store is reliable. A marker of `e` is remembered while its row is queued and none is
remembered for it. No row with a marker of `e` is cancelled, cleared or purged. One worker at
a time removes rows. The reactions arrive with their ids and are redacted on request. No task is
cancelled between a reaction and its marker, or between a removal and taking the marker. -/
def marking (e : EventId) : Discipline Op World Answer Env where
  step := fun t {_} o a w => o.cmd.carriedOut a ∧ o.cmd.marked e t w a
  cancel := fun t w => justPosted e t w.trace = none ∧ resolver w.trace ≠ some t

structure MarkInv (e : EventId) (w : World) : Prop where
  ids : ∀ id row, w.store.outboundQueue.lookup id = some row → id < w.store.nextOutboundId
  users : ∀ id row, w.store.outboundQueue.lookup id = some row → w.store.hasUser row.matrixUserId
  queues : resolver w.trace = none → ∀ user, w.Queues user e
  stands : ∀ s ∈ hourglasses e w.trace,
    (∃ user, w.heldMark user e = some s) ∨ ∃ t, justPosted e t w.trace = some s

structure MarkRely (e : EventId) (t : Nat) (w w' : World) : Prop where
  newest : newest t w'.trace = newest t w.trace
  resolver : resolver w'.trace = some t ↔ resolver w.trace = some t
  next : w.store.nextOutboundId ≤ w'.store.nextOutboundId
  rows : ∀ id row', w'.store.outboundQueue.lookup id = some row' →
    (∃ row, w.store.outboundQueue.lookup id = some row ∧ row.SameMail row') ∨
      w.store.nextOutboundId ≤ id
  marks : JmapBridge.resolver w.trace = some t → ∀ user s, w.heldMark user e = some s →
    w'.heldMark user e = some s
  queues : JmapBridge.resolver w.trace = some t → ∀ user, w.Queues user e → w'.Queues user e
  redacted : ∀ s, w.trace.any (Record.redacts s) → w'.trace.any (Record.redacts s)

/-- Task `t` has no hourglass to remember and no marker to take. -/
def AtEase (e : EventId) (t : Nat) (w : World) : Prop :=
  justPosted e t w.trace = none ∧ (resolver w.trace = some t → ∀ user, w.Queues user e)

theorem AtEase.rely {e : EventId} {t : Nat} {w w' : World} (h : AtEase e t w)
    (hr : MarkRely e t w w') : AtEase e t w' := by
  refine ⟨?_, fun hres user => ?_⟩
  · rw [justPosted, hr.newest]
    exact h.1
  · have hres' : resolver w.trace = some t := hr.resolver.mp hres
    exact hr.queues hres' user (h.2 hres' user)

def markContract (e : EventId) : Contract World where
  inv := MarkInv e
  rely := MarkRely e
  idle := AtEase e
  idle_stable := AtEase.rely
  refl := fun _ _ => ⟨rfl, Iff.rfl, Nat.le_refl _, fun _ row h => .inl ⟨row, h, .refl _⟩,
    fun _ _ _ h => h, fun _ _ h => h, fun _ h => h⟩
  trans := by
    intro t a b c hab hbc
    have hres : resolver a.trace = some t → resolver b.trace = some t := hab.resolver.mpr
    refine ⟨hbc.newest.trans hab.newest, hbc.resolver.trans hab.resolver, hab.next.trans hbc.next,
      fun id row'' h => ?_, fun h user s hs => hbc.marks (hres h) user s (hab.marks h user s hs),
      fun h user hq => hbc.queues (hres h) user (hab.queues h user hq),
      fun s h => hbc.redacted s (hab.redacted s h)⟩
    rcases hbc.rows id row'' h with ⟨row', hrow', hs'⟩ | hnew
    · rcases hab.rows id row' hrow' with ⟨row, hrow, hs⟩ | hnew
      · exact .inl ⟨row, hrow, hs.trans hs'⟩
      · exact .inr hnew
    · exact .inr (hab.next.trans hnew)

section

variable {cfg : Config} {calls : Nat → Call} {e : EventId} {t i : Nat} {w w' : World} {α β : Type}
  {a : Answer}

/-! What one command does to them. -/

theorem mem_hourglasses {s : EventId} {l : List Record} : s ∈ hourglasses e l ↔
    (∃ r ∈ l, r.posted e = some s) ∧ l.any (Record.redacts s) = false := by
  simp [hourglasses]

theorem justPosted_own {r : Record} {l : List Record} :
    justPosted e r.task (r :: l) = r.posted e := by
  simp [justPosted, newest_own]

theorem justPosted_other {r : Record} {l : List Record} (h : r.task ≠ i) :
    justPosted e i (r :: l) = justPosted e i l := by
  simp [justPosted, newest_other h]

/-- No command changes whose removal is under way but a removal and the resolver's own. -/
theorem resolver_other {r : Record} {l : List Record} (h : r.task ≠ i)
    (hr : r.cmd.removal → ∀ j ∈ resolver l, j = r.task) :
    resolver (r :: l) = some i ↔ resolver l = some i := by
  rw [resolver]
  split
  case isTrue hremoval =>
    constructor
    · intro hi
      exact absurd (Option.some.inj hi) h
    · intro hi
      exact absurd (hr hremoval i hi).symm h
  case isFalse =>
    split
    case isTrue hown =>
      have hne : resolver l ≠ some i := by
        rw [hown]
        simpa using h
      split
      · simp [h, hne]
      · simp [hne]
    case isFalse => rfl

theorem resolver_own {r : Record} {l : List Record} (hr : r.cmd.removal = false)
    (h : resolver (r :: l) = some r.task) : resolver l = some r.task ∧ r.cmd.takes := by
  rw [resolver, hr] at h
  simp only [Bool.false_eq_true, if_false] at h
  split at h
  case isTrue hown =>
    split at h
    case isTrue htakes => exact ⟨hown, htakes⟩
    case isFalse => cases h
  case isFalse hown => exact absurd h hown

theorem resolver_takes {r : Record} {l : List Record} (hr : r.cmd.removal = false)
    (h : resolver l = some r.task) (htakes : r.cmd.takes) : resolver (r :: l) = some r.task := by
  rw [resolver, hr, h]
  simp [htakes]

theorem resolver_none {r : Record} {l : List Record} (hr : r.cmd.removal = false)
    (h : resolver (r :: l) = none) :
      resolver l = none ∨ resolver l = some r.task ∧ r.cmd.takes = false := by
  rw [resolver, hr] at h
  simp only [Bool.false_eq_true, if_false] at h
  split at h
  case isTrue hown =>
    split at h
    case isTrue => cases h
    case isFalse htakes => exact .inr ⟨hown, by simpa using htakes⟩
  case isFalse => exact .inl h

theorem rows_exec {c : Cmd} {b : c.Ans} (h : exec t (.mk c) a w = some (b, w')) :
    w.store.nextOutboundId ≤ w'.store.nextOutboundId ∧
      ∀ id row', w'.store.outboundQueue.lookup id = some row' →
        (∃ row, w.store.outboundQueue.lookup id = some row ∧ row.SameMail row') ∨
          w.store.nextOutboundId ≤ id := by
  rcases exec_run h with hs | ⟨q, order, rfl, -, hs⟩
  · exact ⟨by rw [hs], fun id row' hrow => .inl ⟨row', hs ▸ hrow, .refl _⟩⟩
  · have hq := queue_run q w.now order w.store
    rw [← hs] at hq
    refine ⟨hq.next, fun id row' hrow => ?_⟩
    rcases hq.row id row' hrow with ⟨row, hrow, hmail, -⟩ | ⟨rfl, -⟩
    · exact .inl ⟨row, hrow, hmail⟩
    · exact .inr (Nat.le_refl _)

theorem ids_exec {c : Cmd} {b : c.Ans} (h : exec t (.mk c) a w = some (b, w'))
    (hids : ∀ id row, w.store.outboundQueue.lookup id = some row → id < w.store.nextOutboundId)
    (husers : ∀ id row, w.store.outboundQueue.lookup id = some row →
      w.store.hasUser row.matrixUserId) :
    (∀ id row, w'.store.outboundQueue.lookup id = some row → id < w'.store.nextOutboundId) ∧
      ∀ id row, w'.store.outboundQueue.lookup id = some row →
        w'.store.hasUser row.matrixUserId := by
  have hsame : ∀ user, w'.store.hasUser user = w.store.hasUser user := fun _ => hasUser_exec h
  rcases exec_run h with hs | ⟨q, order, rfl, -, hs⟩
  · refine ⟨hs ▸ hids, fun id row hrow => ?_⟩
    rw [hsame]
    exact husers id row (hs ▸ hrow)
  · have hq := queue_run q w.now order w.store
    rw [← hs] at hq
    refine ⟨fun id row' hrow => ?_, fun id row' hrow => ?_⟩
    · rcases hq.row id row' hrow with ⟨row, hrow, -⟩ | ⟨-, hid, -⟩
      · exact Nat.lt_of_lt_of_le (hids id row hrow) hq.next
      · exact hid
    · rw [hsame]
      rcases hq.row id row' hrow with ⟨row, hrow, hmail, -⟩ | ⟨rfl, hlt, html, thread, files,
        delay, rfl⟩
      · rw [hmail.user]
        exact husers id row hrow
      · rw [hs] at hlt
        simp only [StoreCmd.run, Store.referring] at hlt
        split at hlt
        case isTrue huser => exact huser
        case isFalse => exact absurd hlt (Nat.lt_irrefl _)

theorem keptRow_exec {c : Cmd} {b : c.Ans} (h : exec t (.mk c) a w = some (b, w'))
    (hids : ∀ id row, w.store.outboundQueue.lookup id = some row → id < w.store.nextOutboundId)
    {id : Nat} {row : OutboundRow} (hrow : w.store.outboundQueue.lookup id = some row) :
    (∃ row', w'.store.outboundQueue.lookup id = some row' ∧ row.SameMail row') ∨
      ∃ q, c = .store q ∧ q.removes id row := by
  rcases exec_run h with hs | ⟨q, order, rfl, -, hs⟩
  · exact .inl ⟨row, hs ▸ hrow, .refl _⟩
  · have hq := queue_run q w.now order w.store
    rw [← hs] at hq
    rcases hq.kept id row hrow with hkept | hgone
    · obtain ⟨row', hrow'⟩ := Option.isSome_iff_exists.mp hkept
      rcases hq.row id row' hrow' with ⟨row₀, hrow₀, hmail, -⟩ | ⟨rfl, -⟩
      · obtain rfl : row = row₀ := Option.some.inj (hrow ▸ hrow₀)
        exact .inl ⟨row', hrow', hmail⟩
      · exact absurd (hids _ row hrow) (Nat.lt_irrefl _)
    · exact .inr ⟨q, rfl, hgone⟩

theorem queues_exec {c : Cmd} {b : c.Ans} {user : UserId} (h : exec t (.mk c) a w = some (b, w'))
    (hi : MarkInv e w) (hmark : (w'.heldMark user e).isSome → (w.heldMark user e).isSome)
    (hq : w.Queues user e)
    (hgone : ∀ q id row, c = .store q → q.removes id row →
      w.store.outboundQueue.lookup id = some row → row.matrixUserId = user → row.eventId = e →
        w.heldMark user e = none) : w'.Queues user e := by
  intro hsome
  obtain ⟨id, row, hrow, huser, hevent⟩ := hq (hmark hsome)
  rcases keptRow_exec h hi.ids hrow with ⟨row', hrow', hmail⟩ | ⟨q, hc, hremoves⟩
  · exact ⟨id, row', hrow', hmail.user.trans huser, hmail.event.trans hevent⟩
  · have hold : (w.heldMark user e).isSome := hmark hsome
    rw [hgone q id row hc hremoves hrow huser hevent] at hold
    cases hold

theorem sparing_row {q : StoreCmd} (h : w.sparing e q) {id : Nat} {row : OutboundRow}
    (hremoves : q.removes id row) (hrow : w.store.outboundQueue.lookup id = some row)
    (hevent : row.eventId = e) : w.heldMark row.matrixUserId e = none :=
  h ⟨id, row⟩ (AList.mem_lookup_iff.mp hrow) hremoves hevent

theorem mark_rely {c : Cmd} {b : c.Ans} (h : exec t (.mk c) a w = some (b, w'))
    (hit : i ≠ t) (hremoval : c.removal → ∀ j ∈ resolver w.trace, j = t)
    (hmarks : resolver w.trace = some i → ∀ user s, w.heldMark user e = some s →
      w'.heldMark user e = some s)
    (hqueues : resolver w.trace = some i → ∀ user, w.Queues user e → w'.Queues user e) :
    MarkRely e i w w' := by
  have htrace : w'.trace = ⟨t, c, a⟩ :: w.trace := exec_trace h
  obtain ⟨hnext, hrows⟩ := rows_exec h
  refine ⟨?_, ?_, hnext, hrows, hmarks, hqueues, fun s hs => ?_⟩
  · rw [htrace, newest_other (Ne.symm hit)]
  · rw [htrace]
    exact resolver_other (Ne.symm hit) hremoval
  · rw [htrace, List.any_cons, hs, Bool.or_true]

theorem mark_inv {c : Cmd} {b : c.Ans} (h : exec t (.mk c) a w = some (b, w')) (hi : MarkInv e w)
    (hqueues : resolver w'.trace = none → ∀ user, w'.Queues user e)
    (hstands : ∀ s ∈ hourglasses e w'.trace,
      (∃ user, w'.heldMark user e = some s) ∨
        ∃ t, justPosted e t w'.trace = some s) : MarkInv e w' := by
  obtain ⟨hids, husers⟩ := ids_exec h hi.ids hi.users
  exact ⟨hids, husers, hqueues, hstands⟩

/-- An hourglass that stands after a command of task `t` was posted by it, or stood before. -/
theorem stood {c : Cmd} {s : EventId} (hs : s ∈ hourglasses e (⟨t, c, a⟩ :: w.trace)) :
    Record.posted e ⟨t, c, a⟩ = some s ∨ s ∈ hourglasses e w.trace := by
  obtain ⟨⟨r, hr, hposted⟩, hredacted⟩ := mem_hourglasses.mp hs
  rw [List.any_cons, Bool.or_eq_false_iff] at hredacted
  rcases List.mem_cons.mp hr with rfl | hr
  · exact .inl hposted
  · exact .inr (mem_hourglasses.mpr ⟨⟨r, hr, hposted⟩, hredacted.2⟩)

/-- What stood stays accounted for by the markers and by the hourglasses of the other tasks. -/
theorem stands_exec {c : Cmd} {s : EventId} (hi : MarkInv e w) (hs : s ∈ hourglasses e w.trace)
    (hown : justPosted e t w.trace = none)
    (hmarks : ∀ user, w.heldMark user e = some s → w'.heldMark user e = some s) :
    (∃ user, w'.heldMark user e = some s) ∨
      ∃ i, justPosted e i (⟨t, c, a⟩ :: w.trace) = some s := by
  rcases hi.stands s hs with ⟨user, hmark⟩ | ⟨i, hposting⟩
  · exact .inl ⟨user, hmarks user hmark⟩
  · by_cases hit : t = i
    · subst hit
      rw [hown] at hposting
      cases hposting
    · exact .inr ⟨i, (justPosted_other hit).trans hposting⟩

/-- The command neither removes a row as the worker does nor writes a marker of `e`. -/
structure Cmd.OffMarks (e : EventId) (c : Cmd) : Prop where
  removal : c.removal = false
  save : ∀ user v, c ≠ .store (.saveJmapState user (.sendState e) v)
  delete : ∀ user, c ≠ .store (.deleteJmapState user (.sendState e))

theorem offMarks_of_marking {c : Cmd} (hc : c.marking = false) : c.OffMarks e := by
  refine ⟨?_, fun user v hv => ?_, fun user hv => ?_⟩
  · unfold Cmd.removal
    split
    · cases hc
    · rfl
  · subst hv
    cases hc
  · subst hv
    cases hc

theorem hourglass_of_marking {c : Cmd} (hc : c.marking = false) : c.hourglass e = false := by
  unfold Cmd.hourglass
  split
  · simp only [Cmd.marking] at hc
    simp [hc]
  · rfl

theorem Cmd.OffMarks.sparing {q : StoreCmd} (hc : (Cmd.store q).OffMarks e)
    (hd : (Cmd.store q).marked e t w a) {id : Nat} {row : OutboundRow}
    (hremoves : q.removes id row) (hrow : w.store.outboundQueue.lookup id = some row)
    (hevent : row.eventId = e) : w.heldMark row.matrixUserId e = none := by
  cases q with
  | cancelOutboundByEvent => exact sparing_row hd hremoves hrow hevent
  | clearOutboundQueue => exact sparing_row hd hremoves hrow hevent
  | removeFromOutboundQueue => cases hc.removal
  | _ => cases hremoves

theorem offMarks_exec {c : Cmd} {b : c.Ans} (hc : c.OffMarks e)
    (h : exec t (.mk c) a w = some (b, w')) (hi : MarkInv e w)
    (hd : (marking e).step t (.mk c) a w) (hposting : justPosted e t w.trace = none)
    (hres : resolver w.trace = some t → c.takes ∨ ∀ user, w.Queues user e) :
    MarkInv e w' ∧ (∀ i, i ≠ t → MarkRely e i w w') ∧
      justPosted e t w'.trace = Record.posted e ⟨t, c, a⟩ ∧
      (∀ user, w'.heldMark user e = w.heldMark user e) ∧
      ∀ user, w.Queues user e → w'.Queues user e := by
  have htrace : w'.trace = ⟨t, c, a⟩ :: w.trace := exec_trace h
  have hown : justPosted e t w'.trace = Record.posted e ⟨t, c, a⟩ := by
    rw [htrace]
    exact justPosted_own
  have hmark : ∀ user, w'.heldMark user e = w.heldMark user e :=
    fun user => state_exec (hc.save user) (hc.delete user) h
  have hqueues : ∀ user, w.Queues user e → w'.Queues user e := by
    intro user hq
    refine queues_exec h hi (fun hs => hmark user ▸ hs) hq
      fun q id row hcq hremoves hrow huser hevent => ?_
    subst hcq
    rw [← huser]
    exact hc.sparing hd.2 hremoves hrow hevent
  refine ⟨mark_inv h hi (fun hnone user => ?_) fun s hs => ?_, fun i hit => ?_, hown, hmark,
    hqueues⟩
  · rw [htrace] at hnone
    rcases resolver_none hc.removal hnone with hbefore | ⟨hbefore, htakes⟩
    · exact hqueues user (hi.queues hbefore user)
    · rcases hres hbefore with h' | hall
      · rw [show c.takes = false from htakes] at h'
        cases h'
      · exact hqueues user (hall user)
  · rw [htrace] at hs
    rcases stood hs with hposted | hs
    · exact .inr ⟨t, hown.trans hposted⟩
    · rw [htrace]
      exact stands_exec hi hs hposting fun user hm => (hmark user).trans hm
  · refine mark_rely h hit (fun hr => ?_) (fun _ user s hs => (hmark user).trans hs)
      fun _ => hqueues
    rw [hc.removal] at hr
    cases hr

/-! What a task knows of the markers. -/

theorem AtEase.stable : Stable (markContract e) t (AtEase e t) := fun _ _ h hr _ => h.rely hr

/-- The message is the one of the row under its id, if that is still there. -/
def OfRow (msg : OutboundMessage) (w : World) : Prop :=
  msg.id < w.store.nextOutboundId ∧ ∀ row, w.store.outboundQueue.lookup msg.id = some row →
    row.matrixUserId = msg.matrixUserId ∧ row.eventId = msg.eventId

/-- A row of the message is removed, and its marker is still to be taken. -/
def Clearing (e : EventId) (m : QueuedEvent) (t : Nat) (w : World) : Prop :=
  justPosted e t w.trace = none ∧ resolver w.trace = some t ∧
    ∀ user, ¬(m.event = e ∧ m.user = user) → w.Queues user e

/-- The marker of the message is `prior`. -/
def Marked (e : EventId) (m : QueuedEvent) (t : Nat) (prior : EventId) (w : World) : Prop :=
  Clearing e m t w ∧ (m.event = e → w.heldMark m.user e = some prior)

/-- The hourglass `s` is posted and not yet remembered. -/
def Unremembered (e : EventId) (t : Nat) (s : EventId) (w : World) : Prop :=
  justPosted e t w.trace = some s ∧ resolver w.trace ≠ some t

theorem ofRow_rows {msg : OutboundMessage} (h : OfRow msg w)
    (hnext : w.store.nextOutboundId ≤ w'.store.nextOutboundId)
    (hrows : ∀ id row', w'.store.outboundQueue.lookup id = some row' →
      (∃ row, w.store.outboundQueue.lookup id = some row ∧ row.SameMail row') ∨
        w.store.nextOutboundId ≤ id) : OfRow msg w' := by
  refine ⟨Nat.lt_of_lt_of_le h.1 hnext, fun row' hrow' => ?_⟩
  rcases hrows _ row' hrow' with ⟨row, hrow, hmail⟩ | hnew
  · obtain ⟨huser, hevent⟩ := h.2 row hrow
    exact ⟨hmail.user.trans huser, hmail.event.trans hevent⟩
  · exact absurd h.1 (Nat.not_lt.mpr hnew)

theorem OfRow.stable {msg : OutboundMessage} : Stable (markContract e) t (OfRow msg) :=
  fun _ _ h hr _ => ofRow_rows h hr.next hr.rows

theorem ofRow_exec {msg : OutboundMessage} {o : Op β} {b : β} (h : OfRow msg w)
    (he : exec t o a w = some (b, w')) : OfRow msg w' := by
  obtain ⟨c⟩ := o
  obtain ⟨hnext, hrows⟩ := rows_exec he
  exact ofRow_rows h hnext hrows

theorem Clearing.stable {m : QueuedEvent} : Stable (markContract e) t (Clearing e m t) := by
  intro w w' h hr _
  obtain ⟨hposting, hres, hq⟩ := h
  refine ⟨?_, hr.resolver.mpr hres, fun user hne => hr.queues hres user (hq user hne)⟩
  rw [justPosted, hr.newest]
  exact hposting

theorem Marked.stable {m : QueuedEvent} {prior : EventId} :
    Stable (markContract e) t (Marked e m t prior) :=
  fun w w' h hr hi => ⟨Clearing.stable w w' h.1 hr hi, fun he => hr.marks h.1.2.1 _ _ (h.2 he)⟩

theorem Unremembered.stable {s : EventId} : Stable (markContract e) t (Unremembered e t s) := by
  intro w w' h hr _
  refine ⟨?_, fun hres => h.2 (hr.resolver.mp hres)⟩
  rw [justPosted, hr.newest]
  exact h.1

abbrev MarkTriple (cfg : Config) (calls : Nat → Call) (e : EventId) (t : Nat) (P : World → Prop)
    (p : Prog Op α) (Q : α → World → Prop) : Prop :=
  Triple (bridge cfg calls) (marking e) (markContract e) t P p Q

abbrev MarkStep (cfg : Config) (calls : Nat → Call) (e : EventId) (t : Nat) (P : World → Prop)
    (c : Cmd) (R : c.Ans → World → Prop) : Prop :=
  Step (bridge cfg calls) (marking e) (markContract e) t P (.mk c) R

theorem atEase_of_queues {r : Record} (htrace : w'.trace = r :: w.trace)
    (hremoval : r.cmd.removal = false) (hposting : justPosted e r.task w'.trace = none)
    (h : resolver w.trace = some r.task → ∀ user, w'.Queues user e) : AtEase e r.task w' := by
  refine ⟨hposting, fun hres => ?_⟩
  rw [htrace] at hres
  exact h (resolver_own hremoval hres).1

theorem atEase_step {c : Cmd} (hc : c.OffMarks e) (hglass : c.hourglass e = false) :
    MarkStep cfg calls e t (AtEase e t) c fun _ => AtEase e t := by
  intro w a b w' hi hease hd he
  have he : exec t (.mk c) a w = some (b, w') := he
  obtain ⟨hi', hrely, hposting, -, hqueues⟩ :=
    offMarks_exec hc he hi hd hease.1 fun hres => .inr (hease.2 hres)
  refine ⟨hi', hrely, atEase_of_queues (exec_trace he) hc.removal ?_ fun hres user =>
    hqueues user (hease.2 hres user)⟩
  rw [hposting]
  simp [Record.posted, hglass]

theorem removal_step {msg : OutboundMessage} {P : World → Prop} :
    MarkStep cfg calls e t (fun w => (AtEase e t w ∧ OfRow msg w) ∧ P w)
      (.store (.removeFromOutboundQueue msg.id)) fun _ w' => Clearing e msg.queued t w' ∧
        ∃ w, P w ∧ (purging t w.trace → AtEase e t w') := by
  intro w a b w' hi ⟨⟨hease, hrowOf⟩, hP⟩ hd he
  have he : exec t (.mk (.store (.removeFromOutboundQueue msg.id))) a w = some (b, w') := he
  have htrace : w'.trace = ⟨t, .store (.removeFromOutboundQueue msg.id), a⟩ :: w.trace :=
    exec_trace he
  have hres : resolver w'.trace = some t := by
    rw [htrace, resolver]
    rfl
  have hbefore : ∀ user, w.Queues user e := by
    cases hr : resolver w.trace with
    | none => exact hi.queues hr
    | some j =>
      obtain rfl : j = t := hd.2.1 j hr
      exact hease.2 hr
  have hmark : ∀ user, w'.heldMark user e = w.heldMark user e := fun user =>
    state_exec (fun v hv => by cases hv) (fun hv => by cases hv) he
  have hafter : ∀ user, (∀ row, w.store.outboundQueue.lookup msg.id = some row →
      row.matrixUserId = user → row.eventId = e → w.heldMark user e = none) → w'.Queues user e := by
    intro user hgone
    refine queues_exec he hi (fun hs => hmark user ▸ hs) (hbefore user) ?_
    intro q id row hq hremoves hrow huser hevent
    cases hq
    obtain rfl : msg.id = id := eq_of_beq hremoves
    exact hgone row hrow huser hevent
  have hposting : justPosted e t w'.trace = none := by
    rw [htrace]
    exact justPosted_own
  refine ⟨mark_inv he hi (fun hnone => ?_) fun s hs => ?_, fun i hit => ?_, ⟨hposting, hres, ?_⟩,
    w, hP, fun hpurge => ⟨hposting, fun _ user => ?_⟩⟩
  · rw [hres] at hnone
    cases hnone
  · rw [htrace] at hs ⊢
    rcases stood hs with hposted | hs
    · cases hposted
    · exact stands_exec hi hs hease.1 fun user hm => (hmark user).trans hm
  · have hne : resolver w.trace ≠ some i := fun h => hit (hd.2.1 i h)
    exact mark_rely he hit (fun _ => hd.2.1) (fun h => absurd h hne) fun h => absurd h hne
  · intro user hne
    refine hafter user fun row hrow huser hevent => ?_
    obtain ⟨huser', hevent'⟩ := hrowOf.2 row hrow
    exact absurd ⟨hevent'.symm.trans hevent, huser'.symm.trans huser⟩ hne
  · refine hafter user fun row hrow huser hevent => ?_
    rw [← huser]
    exact sparing_row (hd.2.2 hpurge) (beq_self_eq_true msg.id) hrow hevent

theorem takeOff_step {msg : OutboundMessage} :
    MarkStep cfg calls e t (fun w => AtEase e t w ∧ OfRow msg w)
      (.store (.removeFromOutboundQueue msg.id)) fun _ => Clearing e msg.queued t := by
  intro w a b w' hi hw hd he
  obtain ⟨hi', hrely, hclearing, -⟩ :=
    removal_step (P := fun _ => True) w a b w' hi ⟨hw, trivial⟩ hd he
  exact ⟨hi', hrely, hclearing⟩

theorem purge_step {msg : OutboundMessage} :
    MarkStep cfg calls e t (fun w => (AtEase e t w ∧ OfRow msg w) ∧ purging t w.trace)
      (.store (.removeFromOutboundQueue msg.id)) fun _ => AtEase e t := by
  intro w a b w' hi hw hd he
  obtain ⟨hi', hrely, -, w₀, hpurge, hease⟩ :=
    removal_step (P := fun w => purging t w.trace) w a b w' hi hw hd he
  exact ⟨hi', hrely, hease hpurge⟩

/-! The marker is looked for, its reaction redacted, and forgotten. -/

theorem clearing_exec {c : Cmd} {b : c.Ans} {m : QueuedEvent} (hc : c.OffMarks e)
    (htakes : c.takes) (hglass : c.hourglass e = false) (hw : Clearing e m t w) (hi : MarkInv e w)
    (hd : (marking e).step t (.mk c) a w) (he : exec t (.mk c) a w = some (b, w')) :
    MarkInv e w' ∧ (∀ i, i ≠ t → MarkRely e i w w') ∧ Clearing e m t w' ∧
      ∀ user, w'.heldMark user e = w.heldMark user e := by
  obtain ⟨hposting, hres, hq⟩ := hw
  obtain ⟨hi', hrely, hposting', hmark, hqueues⟩ :=
    offMarks_exec hc he hi hd hposting fun _ => .inl htakes
  refine ⟨hi', hrely, ⟨?_, ?_, fun user hne => hqueues user (hq user hne)⟩, hmark⟩
  · rw [hposting']
    simp [Record.posted, hglass]
  · rw [exec_trace he]
    exact resolver_takes (r := ⟨t, c, a⟩) hc.removal hres htakes

/-- What a look for the marker finds. -/
def MarkFound (e : EventId) (m : QueuedEvent) (t : Nat) : Except Err (Option String) → World → Prop
  | .ok (some prior) => fun w => Marked e m t prior w ∧ (m.event = e → taking e t w.trace)
  | .ok none => AtEase e t
  | .error _ => fun _ => False

theorem taking_stable : Stable (markContract e) t fun w => taking e t w.trace := by
  intro w w' h hr _
  rw [taking, hr.newest]
  exact h

theorem MarkFound.stable {m : QueuedEvent} (r : Except Err (Option String)) :
    Stable (markContract e) t (MarkFound e m t r) := by
  rcases r with err | (_ | prior)
  · exact Stable.const False
  · exact AtEase.stable
  · exact Marked.stable.and fun w w' h hr hi he => taking_stable w w' (h he) hr hi

theorem seek_step {m : QueuedEvent} :
    MarkStep cfg calls e t (Clearing e m t) (.store (.getJmapState m.user (.sendState m.event)))
      (MarkFound e m t) := by
  intro w a r w' hi hw hd he
  have he :
      exec t (.mk (.store (.getJmapState m.user (.sendState m.event)))) a w = some (r, w') := he
  obtain ⟨hi', hrely, hclearing, hmark⟩ := clearing_exec
    (offMarks_of_marking rfl) rfl rfl hw hi hd he
  refine ⟨hi', hrely, ?_⟩
  obtain ⟨order, hr, -⟩ := exec_carriedOut hd.1 he
  have hr : r = .ok (w.store.jmapState.lookup (m.user, .sendState m.event)) := hr
  subst hr
  cases hlookup : w.store.jmapState.lookup (m.user, .sendState m.event) with
  | none =>
    refine ⟨hclearing.1, fun _ user => ?_⟩
    by_cases hm : m.event = e ∧ m.user = user
    · obtain ⟨rfl, rfl⟩ := hm
      intro hsome
      rw [hmark, World.heldMark, hlookup] at hsome
      cases hsome
    · exact hclearing.2.2 user hm
  | some prior =>
    refine ⟨⟨hclearing, fun hm => ?_⟩, fun hm => ?_⟩
    · rw [hmark, ← hm]
      exact hlookup
    · simp [exec_trace he, taking, newest, hm]

theorem redact_step {m : QueuedEvent} {prior : EventId} :
    MarkStep cfg calls e t (fun w => Marked e m t prior w ∧ (m.event = e → taking e t w.trace))
      (.matrix (.redactEvent m.room prior "send resolved")) fun _ w => Marked e m t prior w ∧
        (m.event = e → w.trace.any (Record.redacts prior)) := by
  intro w a r w' hi ⟨⟨hclearing, hprior⟩, htaking⟩ hd he
  have he :
      exec t (.mk (.matrix (.redactEvent m.room prior "send resolved"))) a w = some (r, w') := he
  obtain ⟨hi', hrely, hclearing', hmark⟩ := clearing_exec
    (offMarks_of_marking rfl) rfl rfl hclearing hi hd he
  refine ⟨hi', hrely, ⟨hclearing', fun hm => (hmark m.user).trans (hprior hm)⟩, fun hm => ?_⟩
  obtain ⟨hfailed, hjoined⟩ := hd.2 (htaking hm)
  simp [exec_trace he, Record.redacts, hfailed, hjoined]

theorem forget_step {m : QueuedEvent} {prior : EventId} :
    MarkStep cfg calls e t
      (fun w => Marked e m t prior w ∧ (m.event = e → w.trace.any (Record.redacts prior)))
      (.store (.deleteJmapState m.user (.sendState m.event))) fun _ => AtEase e t := by
  intro w a r w' hi ⟨⟨⟨hposting, hres, hq⟩, hprior⟩, hredacted⟩ hd he
  have he :
      exec t (.mk (.store (.deleteJmapState m.user (.sendState m.event)))) a w = some (r, w') := he
  have htrace := exec_trace he
  have hother :
      ∀ user, ¬(m.event = e ∧ m.user = user) → w'.heldMark user e = w.heldMark user e := by
    intro user hne
    refine state_exec (fun v hv => by cases hv) (fun hv => hne ?_) he
    cases hv
    exact ⟨rfl, rfl⟩
  have hgone : m.event = e → w'.heldMark m.user e = none := by
    rintro rfl
    obtain ⟨order, -, hstore, -⟩ := exec_carriedOut hd.1 he
    rw [World.heldMark, hstore]
    simp [StoreCmd.run]
  have hqueues : ∀ user, w'.Queues user e := by
    intro user
    by_cases hm : m.event = e ∧ m.user = user
    · obtain ⟨hevent, rfl⟩ := hm
      intro hsome
      rw [hgone hevent] at hsome
      cases hsome
    · refine queues_exec he hi (fun hs => hother user hm ▸ hs) (hq user hm) ?_
      intro q id row hc hremoves
      cases hc
      cases hremoves
  have hposting' : justPosted e t w'.trace = none := by
    rw [htrace]
    exact justPosted_own
  refine ⟨mark_inv he hi (fun _ => hqueues) fun s hs => ?_, fun i hit => ?_, hposting',
    fun _ => hqueues⟩
  · rw [htrace] at hs ⊢
    rcases stood hs with hposted | hs
    · cases hposted
    · refine stands_exec hi hs hposting fun user hm => ?_
      by_cases hmine : m.event = e ∧ m.user = user
      · obtain ⟨hevent, rfl⟩ := hmine
        obtain rfl : prior = s := Option.some.inj ((hprior hevent).symm.trans hm)
        rw [(mem_hourglasses.mp hs).2] at hredacted
        cases hredacted hevent
      · exact (hother user hmine).trans hm
  · have hne : resolver w.trace ≠ some i := fun h => hit (Option.some.inj (h.symm.trans hres))
    exact mark_rely he hit (fun h => by cases h) (fun h => absurd h hne) fun h => absurd h hne

theorem takeHeld_triple {m : QueuedEvent} :
    MarkTriple cfg calls e t (Clearing e m t) (takeHeld m) fun _ => AtEase e t := by
  refine .bind (.call Clearing.stable seek_step MarkFound.stable) fun r => ?_
  rcases r with err | (_ | prior)
  · exact .pure (Stable.const False) fun _ _ h => h.elim
  · exact .pure AtEase.stable fun _ _ h => h
  · have hredacted : Stable (markContract e) t fun w =>
        Marked e m t prior w ∧ (m.event = e → w.trace.any (Record.redacts prior)) :=
      Marked.stable.and fun _ _ h hr _ he => hr.redacted prior (h he)
    refine .bind (.call (MarkFound.stable (.ok (some prior))) redact_step fun _ => hredacted)
      fun _ => ?_
    exact .bind (.call hredacted forget_step fun _ => AtEase.stable) fun _ =>
      .pure AtEase.stable fun _ _ h => h

/-! The worker. -/

theorem offMarks_closed : Prog.Closed (fun _ o => o.cmd.OffMarks e ∧ o.cmd.hourglass e = false)
    fun _ (p : Prog Op _) => MarkTriple cfg calls e t (AtEase e t) p fun _ => AtEase e t :=
  (Triple.closed AtEase.stable).mono fun _ o ⟨hc, hglass⟩ => by
    obtain ⟨c⟩ := o
    exact fun w a b w' hw hi hd he => atEase_step hc hglass w a b w' hi hw hd he

theorem atEase_closed : Prog.Closed (fun _ o => o.cmd.marking = false) fun _ (p : Prog Op _) =>
    MarkTriple cfg calls e t (AtEase e t) p fun _ => AtEase e t :=
  offMarks_closed.mono fun _ _ h => ⟨offMarks_of_marking h, hourglass_of_marking h⟩

theorem chore_atEase : Prog.Closed (fun _ o => o.cmd.chore) fun _ (p : Prog Op _) =>
    MarkTriple cfg calls e t (AtEase e t) p fun _ => AtEase e t :=
  atEase_closed.mono fun _ _ h => by simpa using (Bool.and_eq_true_iff.mp h).2

theorem sendReaction_atEase {room : RoomId} {target : EventId} {key : String}
    (hkey : (key == heldReaction) = false) :
    MarkTriple cfg calls e t (AtEase e t) (sendReaction cfg room target key) fun _ =>
      AtEase e t := by
  have hdoes : Does (fun c => c.marking = false) (sendReaction cfg room target key) :=
    sendAsGhostJoining_does hkey rfl rfl
  exact atEase_closed.of_only hdoes

theorem sendQueued_atEase {account : Account} {email : String} {msg : OutboundMessage} :
    MarkTriple cfg calls e t (AtEase e t) (sendQueued cfg account email msg) fun _ => AtEase e t :=
  sendQueued_closed chore_atEase fun _ => submit_closed (upkeep_closed chore_atEase) fun _ =>
    atEase_closed.call rfl

theorem markSubmitted_triple {m : QueuedEvent} :
    MarkTriple cfg calls e t (Clearing e m t) (markSubmitted cfg m) fun _ => AtEase e t := by
  refine .bind takeHeld_triple fun held => ?_
  split
  · exact .bind (sendReaction_atEase (by decide)) fun _ => .pure AtEase.stable fun _ _ h => h
  · exact .pure AtEase.stable fun _ _ h => h

theorem markFailed_triple {m : QueuedEvent} :
    MarkTriple cfg calls e t (Clearing e m t) (markFailed cfg m) fun _ => AtEase e t :=
  .bind takeHeld_triple fun _ => .bind (sendReaction_atEase (by decide)) fun _ =>
    .pure AtEase.stable fun _ _ h => h

section

variable {msg : OutboundMessage}

theorem ofRow_stable : Stable (markContract e) t fun w => AtEase e t w ∧ OfRow msg w :=
  AtEase.stable.and OfRow.stable

theorem ofRow_frame {p : Prog Op α}
    (h : MarkTriple cfg calls e t (AtEase e t) p fun _ => AtEase e t) :
    MarkTriple cfg calls e t (fun w => AtEase e t w ∧ OfRow msg w) p
      fun _ w => AtEase e t w ∧ OfRow msg w :=
  .frame OfRow.stable (fun _ _ _ _ _ _ hw he => ofRow_exec hw he) h

/-- What is left to do after an attempt: a message that is not resolved is still in hand. -/
def Attempted (e : EventId) (t : Nat) (msg : OutboundMessage) (resolved : Bool)
    (w : World) : Prop :=
  AtEase e t w ∧ (resolved = false → OfRow msg w)

theorem Attempted.stable {resolved : Bool} :
    Stable (markContract e) t (Attempted e t msg resolved) :=
  AtEase.stable.and fun w w' h hr hi hres => OfRow.stable w w' (h hres) hr hi

theorem unresolved_triple : MarkTriple cfg calls e t (fun w => AtEase e t w ∧ OfRow msg w)
    (.pure false) (Attempted e t msg) := .pure ofRow_stable fun _ _ h => ⟨h.1, fun _ => h.2⟩

theorem resolved_triple : MarkTriple cfg calls e t (AtEase e t) (.pure true) (Attempted e t msg) :=
  .pure AtEase.stable fun _ _ h => ⟨h, nofun⟩

theorem deliver_triple {account : Account} {email : String} :
    MarkTriple cfg calls e t (fun w => AtEase e t w ∧ OfRow msg w) (deliver cfg account email msg)
      (Attempted e t msg) := by
  refine .bind (ofRow_frame sendQueued_atEase) fun sent => ?_
  split
  · refine .bind (.call ofRow_stable takeOff_step fun _ => Clearing.stable) fun _ => ?_
    exact .bind markSubmitted_triple fun _ => resolved_triple
  · exact unresolved_triple

theorem roomGhost_step {room : RoomId} :
    MarkStep cfg calls e t (fun w => AtEase e t w ∧ OfRow msg w)
      (.store (.getGhostEmailByRoom room))
      fun _ w => (AtEase e t w ∧ OfRow msg w) ∧ purging t w.trace := by
  intro w a r w' hi ⟨hease, hrowOf⟩ hd he
  have he : exec t (.mk (.store (.getGhostEmailByRoom room))) a w = some (r, w') := he
  have hstep : MarkStep cfg calls e t (AtEase e t) (.store (.getGhostEmailByRoom room))
      fun _ => AtEase e t := atEase_step (offMarks_of_marking rfl) rfl
  obtain ⟨hi', hrely, hease'⟩ := hstep w a r w' hi hease hd he
  refine ⟨hi', hrely, ⟨hease', ofRow_exec hrowOf he⟩, ?_⟩
  simp [exec_trace he, purging, newest]

theorem submitOne_triple : MarkTriple cfg calls e t (fun w => AtEase e t w ∧ OfRow msg w)
    (submitOne cfg msg) (Attempted e t msg) := by
  have hpurging : Stable (markContract e) t fun w => (AtEase e t w ∧ OfRow msg w) ∧
    purging t w.trace := by
    refine ofRow_stable.and fun w w' h hr _ => ?_
    rw [purging, hr.newest]
    exact h
  refine .bind (ofRow_frame (atEase_closed.call rfl)) fun client => ?_
  split
  · exact unresolved_triple
  · refine .bind (.call ofRow_stable roomGhost_step fun _ => hpurging) fun ghost => ?_
    split
    · exact .pre deliver_triple fun _ _ h => h.1
    · exact .bind (.call hpurging purge_step fun _ => AtEase.stable) fun _ => resolved_triple
    · exact .pre unresolved_triple fun _ _ h => h.1

theorem giveUp_triple : MarkTriple cfg calls e t (fun w => AtEase e t w ∧ OfRow msg w)
    (giveUp cfg msg) fun _ => AtEase e t := by
  have hnotice : Does (fun c => c.marking = false)
      (sendMessage cfg msg.roomId deliveryFailure (.queued msg.id)) :=
    sendAsGhostJoining_does rfl rfl rfl
  refine .bind (ofRow_frame (atEase_closed.of_only hnotice)) fun _ => ?_
  refine .bind (.call ofRow_stable takeOff_step fun _ => Clearing.stable) fun _ => ?_
  exact markFailed_triple

theorem workOff_triple : MarkTriple cfg calls e t (fun w => AtEase e t w ∧ OfRow msg w)
    (workOff cfg msg) fun _ => AtEase e t := by
  refine .bind submitOne_triple fun resolved => .bind (R := fun _ => AtEase e t) ?_ fun _ =>
    atEase_closed.call rfl
  split
  · exact .pure Attempted.stable fun _ _ h => h.1
  · rename_i hres
    refine .pre ?_ fun w _ h => (⟨h.1, h.2 (by simpa using hres)⟩ : AtEase e t w ∧ OfRow msg w)
    rw [handleUnresolved]
    split
    · exact giveUp_triple
    · exact .bind (.pre (atEase_closed.call rfl) fun _ _ h => h.1) fun _ =>
        .pure AtEase.stable fun _ _ h => h

end

theorem fetchRows_step : MarkStep cfg calls e t (AtEase e t) (.store .getPendingOutbound) fun r w =>
    AtEase e t w ∧ ∀ messages, r = .ok messages → ∀ msg ∈ messages, OfRow msg w := by
  intro w a r w' hi hease hd he
  have he : exec t (.mk (.store .getPendingOutbound)) a w = some (r, w') := he
  have hstep :
      MarkStep cfg calls e t (AtEase e t) (.store .getPendingOutbound) fun _ => AtEase e t :=
    atEase_step (offMarks_of_marking rfl) rfl
  obtain ⟨hi', hrely, hease'⟩ := hstep w a r w' hi hease hd he
  refine ⟨hi', hrely, hease', fun messages hr msg hmsg => ?_⟩
  obtain ⟨order, hrun, hstore, -⟩ := exec_carriedOut hd.1 he
  obtain rfl : w.store.pendingChoice w.now order = messages := Except.ok.inj (hrun.symm.trans hr)
  obtain ⟨row, hrow, heq⟩ := mem_pendingChoice hmsg
  have hsame : w'.store = w.store := hstore
  rw [OfRow, hsame]
  refine ⟨hi.ids _ row hrow, fun row' hrow' => ?_⟩
  obtain rfl : row = row' := Option.some.inj (hrow.symm.trans hrow')
  rw [heq]
  exact ⟨rfl, rfl⟩

theorem runRetryLoop_triple :
    MarkTriple cfg calls e t (AtEase e t) (runRetryLoop cfg) fun _ => AtEase e t := by
  refine atEase_closed.loop fun _ => .bind (R := fun _ => AtEase e t) ?_ fun _ =>
    .pure AtEase.stable fun _ _ h => h
  refine .bind (atEase_closed.call rfl) fun _ => ?_
  have hrowOf : ∀ messages : List OutboundMessage, Stable (markContract e) t fun w =>
      ∀ msg ∈ messages, OfRow msg w :=
    fun messages w w' h hr hi msg hmsg => OfRow.stable w w' (h msg hmsg) hr hi
  refine .bind (.call AtEase.stable fetchRows_step fun r => AtEase.stable.and
    (Stable.forall fun messages w w' h hr hi heq => hrowOf messages w w' (h heq) hr hi)) fun r => ?_
  split
  · rename_i messages
    have hround : MarkTriple cfg calls e t (fun w => AtEase e t w ∧ ∀ msg ∈ messages, OfRow msg w)
        (Prog.forEach (workOff cfg) messages) fun _ w => AtEase e t w ∧
        ∀ msg ∈ messages, OfRow msg w := by
      refine .forEach (AtEase.stable.and (hrowOf messages)) messages fun msg hmsg => ?_
      refine .pre (.frame (hrowOf messages) (fun _ _ _ _ _ _ h he m hm => ofRow_exec (h m hm) he)
        workOff_triple) fun w _ h => ⟨⟨h.1, h.2 msg hmsg⟩, h.2⟩
    exact .post (.pre hround fun w _ h => ⟨h.1, h.2 messages rfl⟩) fun _ _ _ h => h.1
  · exact .pure (AtEase.stable.and (Stable.forall fun messages w w' h hr hi heq =>
      hrowOf messages w w' (h heq) hr hi)) fun _ _ h => h.1

/-! The handler of a message. -/

/-- What became of an hourglass. -/
def Tried (e : EventId) (t : Nat) : Except Err EventId → World → Prop :=
  Effect.post (Unremembered e t) fun _ => AtEase e t

theorem Tried.stable (r : Except Err EventId) : Stable (markContract e) t (Tried e t r) := by
  cases r with
  | ok s => exact Unremembered.stable
  | error => exact AtEase.stable

end

instance decidableHasRow (w : World) (user : UserId) (e : EventId) : Decidable (w.hasRow user e) :=
  decidable_of_iff (∃ r ∈ w.store.outboundQueue.entries, r.2.matrixUserId = user ∧ r.2.eventId = e)
    ⟨fun ⟨⟨id, row⟩, hr, h⟩ => ⟨id, row, AList.mem_lookup_iff.mpr hr, h⟩,
      fun ⟨id, row, hrow, h⟩ => ⟨⟨id, row⟩, AList.mem_lookup_iff.mp hrow, h⟩⟩

instance decidableSparing (w : World) (e : EventId) (c : StoreCmd) : Decidable (w.sparing e c) :=
  inferInstanceAs (Decidable (∀ r ∈ w.store.outboundQueue.entries, _))

instance decidableMarked (e : EventId) (t : Nat) (w : World) :
    (c : Cmd) → (a : Answer) → Decidable (c.marked e t w a) := by
  intro c a
  unfold Cmd.marked
  split <;> infer_instance

instance decidableMarkingStep (e : EventId) (t : Nat) (β : Type) (o : Op β) (a : Answer)
    (w : World) :
    Decidable ((marking e).step t o a w) := inferInstanceAs (Decidable (_ ∧ _))

instance decidableMarking (e : EventId) (ev : Event Answer Env) (q : Pool Op World) :
    Decidable ((marking e).meets ev q) :=
  @Discipline.decidableMeets Op World Answer Env (marking e) (fun _ _ => instDecidableTrue) _
    (fun t w =>
      inferInstanceAs (Decidable (justPosted e t w.trace = none ∧ resolver w.trace ≠ some t)))
    (fun _ _ => instDecidableTrue) ev q

/-- The message is queued. -/
def enqueues : List (Event Answer Env) := .start 0 :: List.replicate 7 (.step 0 .done)

/-- Its hourglass is posted and remembered, and the delivery ends. -/
def marks : List (Event Answer Env) :=
  [.step 0 (.id "$h"), .step 0 .done, .step 0 .done, .step 0 (.id "$n"), .step 0 .done,
    .step 0 .done, .tau 0]

/-- A minute later the worker submits the message. -/
def submits : List (Event Answer Env) :=
  [.env (.advance 60), .start 1, .tau 1, .step 1 .done, .step 1 .done, .step 1 .done, .step 1 .done,
    .step 1 (.name none), .step 1 .done, .step 1 (.reply (.queried { ids := ["S"] })),
    .step 1 (.reply (.identities [])), .step 1 (.reply (.batch ⟨some "E", true⟩)), .step 1 .failed,
    .step 1 .done, .step 1 .done]

end JmapBridge
