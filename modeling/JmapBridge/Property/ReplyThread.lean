import JmapBridge.Model.Frames

/-! The thread of a message in a conversation room. The lookups that resolve it swallow
their errors, and the first of them go by the event that the sender names. -/

namespace JmapBridge

open Effect Sql Rust

/-- What stands before the first separator. -/
def threadComponent (raw : String) : List Char := raw.toList.takeWhile (· != threadQueueSeparator)

/-- The two threads are told apart in no row. -/
def sameThread (found thread : ThreadId) : Bool := threadComponent found == thread.toList

def OutboundRow.carries (row : OutboundRow) (thread : ThreadId) : Prop :=
  row.threadRootId.map threadComponent = some thread.toList

/-- Whatever the handler has queued carries the thread; and it has queued the message of a
user who is logged in, unless it returns an error. -/
structure RepliesIn (thread : ThreadId) (e : QueuedEvent) (w : World) (r : Except Err Unit)
    (w' : World) : Prop where
  carried : ∀ id row, w.store.outboundQueue.lookup id = none →
    w'.store.outboundQueue.lookup id = some row → row.carries thread
  queued : r = .ok () → (w.clients.lookup e.user).isSome → ∃ id row,
    w.store.outboundQueue.lookup id = none ∧ w'.store.outboundQueue.lookup id = some row ∧
    row.eventId = e.event

def Store.threadOfRoot (s : Store) (root : EventId) : Option ThreadId :=
  (s.threadMapping.findWhere fun _ r => r.rootEventId == root).map (·.1)

def Store.threadOfRoom (s : Store) (room : RoomId) : Option ThreadId :=
  (s.threadMapping.findWhere fun _ r => r.roomId == room).map (·.1)

/-- The lookup finds another thread, or the one of the room is not found. -/
def Record.astray (s : Store) (thread : ThreadId) (r : Record) : Bool :=
  match r.cmd, r.answer with
  | .store (.getJmapThreadIdByRootEvent root), a =>
    (Cmd.store (.getJmapThreadIdByRootEvent root)).carriedOut a &&
      (s.threadOfRoot root).any fun found => !sameThread found thread
  | .jmap _ (.getEmailThread _), .reply (.emailThread (some found)) => !sameThread found thread
  | .store (.getLatestThreadInRoom room), a =>
    !((Cmd.store (.getLatestThreadInRoom room)).carriedOut a &&
      (s.threadOfRoom room).any fun found => sameThread found thread)
  | _, _ => false

/-- The statement ends the handler with an error, and nothing is queued. -/
def Record.stops (s : Store) (r : Record) : Bool :=
  match r.cmd, r.answer with
  | .store (.getThreadSubject root), a => !(Cmd.store (.getThreadSubject root)).carriedOut a
  | .store (.getThreadInfo thread), a => !(Cmd.store (.getThreadInfo thread)).carriedOut a
  | .store (.addToOutboundQueue user _ _ _ _ _ _ _), a => a == .failed || !s.hasUser user
  | _, _ => false

/-- The commands whose answers decide on the thread, or on the row. -/
def Cmd.decides : Cmd → Bool
  | store (.getJmapThreadIdByRootEvent _) => true
  | store (.getLatestThreadInRoom _) => true
  | store (.getThreadSubject _) => true
  | store (.getThreadInfo _) => true
  | store (.addToOutboundQueue ..) => true
  | jmap _ (.getEmailThread _) => true
  | _ => false

/-- Commands that decide nothing, and leave the store and the sessions alone. -/
def Cmd.looks (c : Cmd) : Bool := c.reads && !c.decides

section

variable {cfg : Config} {calls : Nat → Call} {D : Discipline Op World Answer Env} {t : Nat}
  {w₀ w w' : World} {thread : ThreadId} {e : QueuedEvent} {P : Prop} {α : Type} {a : Answer}

theorem not_astray_of {s : Store} {r : Record} (h : r.cmd.decides = false) :
    r.astray s thread = false := by
  obtain ⟨task, c, a⟩ := r
  cases c with
  | store c => cases c <;> first | rfl | cases h
  | jmap account c => cases c <;> first | rfl | cases h
  | _ => rfl

theorem not_stops_of {s : Store} {r : Record} (h : r.cmd.decides = false) :
    r.stops s = false := by
  obtain ⟨task, c, a⟩ := r
  cases c with
  | store c => cases c <;> first | rfl | cases h
  | _ => rfl

/-! The handler so far: its records stopped nothing, and none led astray if and only if `P`. -/

structure Trail (w₀ : World) (thread : ThreadId) (P : Prop) (l : List Record) : Prop where
  goes : ∀ r ∈ l, r.stops w₀.store = false
  leads : (∀ r ∈ l, r.astray w₀.store thread = false) ↔ P

theorem Trail.cons {l : List Record} {r : Record} (h : Trail w₀ thread P l)
    (hr : r.stops w₀.store = false) :
    Trail w₀ thread (r.astray w₀.store thread = false ∧ P) (r :: l) where
  goes := List.forall_mem_cons.mpr ⟨hr, h.goes⟩
  leads := by rw [List.forall_mem_cons, h.leads]

structure Underway (w₀ : World) (thread : ThreadId) (P : Prop) (w : World) : Prop where
  store : w.store = w₀.store
  clients : w.clients = w₀.clients
  trail : ∃ l, w.trace = l ++ w₀.trace ∧ Trail w₀ thread P l

/-- The handler has returned: what holds of its result, by its records. -/
def Threaded (w₀ : World) (thread : ThreadId) (e : QueuedEvent) (r : Except Err Unit) (w : World) :
    Prop :=
  ∃ l, w.trace = l ++ w₀.trace ∧ (RepliesIn thread e w₀ r w ↔
    (∃ x ∈ l, x.stops w₀.store) ∨ ∀ x ∈ l, x.astray w₀.store thread = false)

theorem Underway.start : Underway w₀ thread True w₀ :=
  ⟨rfl, rfl, [], rfl, fun _ h => (List.not_mem_nil h).elim, by simp⟩

theorem Underway.step {c : Cmd} {b : c.Ans} (h : Underway w₀ thread P w)
    (he : exec t (.mk c) a w = some (b, w')) (hstore : w'.store = w.store)
    (hclients : w'.clients = w.clients) (hgoes : (⟨t, c, a⟩ : Record).stops w₀.store = false) :
    Underway w₀ thread ((⟨t, c, a⟩ : Record).astray w₀.store thread = false ∧ P) w' := by
  obtain ⟨l, hl, htrail⟩ := h.trail
  exact ⟨hstore.trans h.store, hclients.trans h.clients, ⟨t, c, a⟩ :: l,
    by rw [exec_trace he, hl, List.cons_append], htrail.cons hgoes⟩

theorem Underway.settled {r : Except Err Unit} (h : Underway w₀ thread P w)
    (hr : RepliesIn thread e w₀ r w ↔ P) : Threaded w₀ thread e r w := by
  obtain ⟨l, hl, htrail⟩ := h.trail
  refine ⟨l, hl, hr.trans (htrail.leads.symm.trans ⟨.inr, ?_⟩)⟩
  rintro (⟨x, hx, hstops⟩ | hleads)
  · rw [htrail.goes x hx] at hstops
    cases hstops
  · exact hleads

theorem Underway.congr {P' : Prop} (h : Underway w₀ thread P w) (hP : P ↔ P') :
    Underway w₀ thread P' w := by
  rw [← hP]
  exact h

theorem repliesIn_of_unqueued {r : Except Err Unit}
    (hrows : w.store.outboundQueue = w₀.store.outboundQueue)
    (hr : r = .ok () → w₀.clients.lookup e.user = none) : RepliesIn thread e w₀ r w where
  carried := fun id row hnone hrow => by
    rw [hrows, hnone] at hrow
    cases hrow
  queued := fun hok hclient => by
    rw [hr hok] at hclient
    cases hclient

theorem Underway.unqueued {r : Except Err Unit} (h : Underway w₀ thread True w)
    (hr : r = .ok () → w₀.clients.lookup e.user = none) : Threaded w₀ thread e r w :=
  h.settled ⟨fun _ => trivial, fun _ => repliesIn_of_unqueued (by rw [h.store]) hr⟩

theorem Underway.stopped {c : Cmd} {b : c.Ans} {err : Err} (h : Underway w₀ thread P w)
    (he : exec t (.mk c) a w = some (b, w')) (hstore : w'.store = w.store)
    (hstops : (⟨t, c, a⟩ : Record).stops w₀.store) : Threaded w₀ thread e (.error err) w' := by
  obtain ⟨l, hl, -⟩ := h.trail
  refine ⟨⟨t, c, a⟩ :: l, by rw [exec_trace he, hl, List.cons_append], ?_⟩
  constructor
  · intro _
    exact .inl ⟨_, List.mem_cons_self, hstops⟩
  · intro _
    exact repliesIn_of_unqueued (by rw [hstore, h.store]) fun hok => by cases hok

theorem RepliesIn.congr {r : Except Err Unit} (h : SameQueue w w') :
    RepliesIn thread e w₀ r w' ↔ RepliesIn thread e w₀ r w := by
  constructor
  · intro hr
    exact ⟨by rw [← h.rows]; exact hr.carried, by rw [← h.rows]; exact hr.queued⟩
  · intro hr
    exact ⟨by rw [h.rows]; exact hr.carried, by rw [h.rows]; exact hr.queued⟩

theorem Threaded.quiet {x : Prog Op α} {r : Except Err Unit}
    (hx : Does (fun c => c.offRows ∧ c.decides = false) x) :
    Ends (bridge cfg calls) D t (Threaded w₀ thread e r) x fun _ => Threaded w₀ thread e r := by
  refine .only (φ := fun _ o => o.cmd.offRows ∧ o.cmd.decides = false)
    (fun β o a w b w' ho _ he hw => ?_) hx
  obtain ⟨c⟩ := o
  have he : exec t (.mk c) a w = some (b, w') := he
  obtain ⟨l, hl, hreplies⟩ := hw
  refine ⟨⟨t, c, a⟩ :: l, by rw [exec_trace he, hl, List.cons_append], ?_⟩
  rw [RepliesIn.congr (sameQueue_exec ho.1 he), hreplies]
  simp [not_stops_of (r := ⟨t, c, a⟩) ho.2, not_astray_of (r := ⟨t, c, a⟩) ho.2]

end

end JmapBridge
