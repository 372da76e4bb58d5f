import JmapBridge.Property.LockRelease

/-! The rooms that threads are bound to. A thread gets its room from a task that holds its
creation lock and has just made the room, or else without the lock once a composed message
is sent. -/

namespace JmapBridge

open Effect Sql

def Store.hasGhost (s : Store) (room : RoomId) : Bool := (s.roomGhostMapping.lookup room).isSome

/-- The threads mapped to a room. -/
def Store.threadsOf (s : Store) (room : RoomId) : List ThreadId :=
  (s.threadMapping.entries.filter fun r => r.2.roomId == room).map (·.1)

/-- Going for the lock of a thread begins the making of a room, which has an id once the
homeserver has created it. -/
def Record.founds (r : Record) : Option (Option RoomId) :=
  match r.cmd, r.answer with
  | .store (.tryAcquireRoomCreationLock (.thread _)), _ => some none
  | .matrix (.createRoomForContact _ _ _), .id room => some (some room)
  | _, _ => none

/-- The room the task has created since it last went for the lock of a thread. -/
def World.founded (w : World) (t : Nat) : Option RoomId :=
  (w.trace.findSome? fun r => if r.task = t then r.founds else none).join

/-- The threads that a room is being made for. -/
def World.makers (w : World) (room : RoomId) : List ThreadId :=
  w.guards.filterMap fun g => match g.2 with
    | .thread thread => if w.founded g.1 = some room then some thread else none
    | .emailSpace _ => none

/-- No thread is mapped to the room, and none is being given it. -/
def World.unshared (w : World) (room : RoomId) : Bool :=
  (w.store.threadsOf room).isEmpty && (w.makers room).isEmpty

/-- The message that a worker is at: its room, and its thread once the mail server has told it. -/
structure Outgoing where
  room : RoomId
  thread : Option ThreadId := none
deriving DecidableEq

def Record.tells (r : Record) : Option ThreadId :=
  match r.cmd, r.answer with
  | .jmap _ (.getEmailThread _), .reply (.emailThread thread) => thread
  | _, _ => none

/-- The worker is at a message from when it looks up whom the room is with until it records the
thread or turns away from the message. -/
def Record.advance (r : Record) (o : Option Outgoing) : Option Outgoing :=
  match r.cmd with
  | .store (.getGhostEmailByRoom room) => some { room := room }
  | .jmap _ (.getEmailThread _) => match r.tells with
    | some thread => o.map fun o => { o with thread := some thread }
    | none => o
  | .store (.saveThreadMappingAtomic _ _ _ _) => none
  | .task (.dropMessage _) => none
  | _ => o

def outgoing (t : Nat) : List Record → Option Outgoing
  | [] => none
  | r :: older => if r.task = t then r.advance (outgoing t older) else outgoing t older

def World.sending (w : World) (t : Nat) : Option Outgoing := outgoing t w.trace

/-- A worker is at a message of the room that `φ` holds of. -/
def World.sendsFrom (calls : Nat → Call) (w : World) (room : RoomId) (φ : Outgoing → Bool) : Bool :=
  w.trace.any fun r => (calls r.task).isWorker &&
    (w.sending r.task).any fun o => o.room == room && φ o

/-- The record takes the mappings of the room away. -/
def Record.unbridges (room : RoomId) (r : Record) : Prop :=
  r.cmd = .store (.deleteThreadMappings room) ∧ r.answer ≠ .failed

instance (room : RoomId) (r : Record) : Decidable (r.unbridges room) :=
  inferInstanceAs (Decidable (_ ∧ _))

/-- The room of the message that a worker was at when the mail server told it the thread, until
that room is unbridged. -/
def homeOf (calls : Nat → Call) (thread : ThreadId) : List Record → Option RoomId
  | [] => none
  | r :: older =>
    if (calls r.task).isWorker && r.tells == some thread then (outgoing r.task older).map (·.room)
    else (homeOf calls thread older).filter fun room => ¬r.unbridges room

def World.home (calls : Nat → Call) (w : World) (thread : ThreadId) : Option RoomId :=
  homeOf calls thread w.trace

def Record.submits (r : Record) : Bool :=
  match r.cmd with
  | .jmap _ (.submitBatch _) => true
  | _ => false

/-- Nobody has gone for the lock of the thread since task `t` last submitted a message. -/
def World.unsought (w : World) (t : Nat) (thread : ThreadId) : Bool :=
  (w.trace.takeWhile fun r => !(r.task == t && r.submits)).all fun r =>
    r.cmd != .store (.tryAcquireRoomCreationLock (.thread thread))

/-- The thread is in the room of its message already; or it is in none, nobody makes it one or has
gone for its lock since the message was submitted, and it is at home in no other. -/
def World.mayTell (calls : Nat → Call) (w : World) (t : Nat) (thread : ThreadId) (room : RoomId) :
    Bool :=
  w.store.boundTo thread == some room ||
    w.store.boundTo thread == none && w.guards.all (·.2 != .thread thread) &&
      w.unsought t thread && (w.home calls thread).all (· == room)

/-- Three laws: the room of a thread has a ghost, it has no other thread, and the thread
stays in it. -/
inductive Law where
  | anchored
  | exclusive
  | stable

/-- The overlaps and orders that break a law. A room is unbridged, at the request of a user, while
a thread is mapped to it or about to be. A message that was queued as the first of its room is
taken up when the room has a thread. Mail of a thread is given a room while the thread of a
message that was sent is not recorded yet. -/
def Law.step (cfg : Config) (calls : Nat → Call) (law : Law) (t : Nat) (c : Cmd) (a : Answer)
    (w : World) : Bool :=
  match law, c with
  | anchored, .store (.deleteRoomGhostMapping room) =>
    a == .failed || !((calls t).unbridges cfg).contains room ||
      w.unshared room && !w.sendsFrom calls room fun _ => true
  | exclusive, .task (.log (.sending m)) =>
    (parseThreadRoot m.threadRootId).isSome || w.unshared m.roomId
  | exclusive, .matrix (.createRoomForContact _ _ _) => match a with
    | .id room => (w.store.threadsOf room).isEmpty && !w.sendsFrom calls room fun _ => true
    | _ => true
  | stable, .jmap account (.getEmailThread email) =>
    match (⟨t, .jmap account (.getEmailThread email), a⟩ : Record).tells with
    | some thread => !(calls t).isWorker ||
        (w.sending t).all fun o => w.mayTell calls t thread o.room
    | none => true
  | stable, .store (.tryAcquireRoomCreationLock (.thread thread)) =>
    a == .failed || w.store.holds (.thread thread) || (w.home calls thread).isNone ||
      (w.store.boundTo thread).isSome
  | stable, .store (.deleteThreadMappings room) =>
    a == .failed || !w.sendsFrom calls room fun o => o.thread.isSome
  | _, _ => true

def Law.discipline (cfg : Config) (calls : Nat → Call) (law : Law) :
    Discipline Op World Answer Env where
  step t _ o a w := law.step cfg calls t o.cmd a w

instance decidableLaw (cfg : Config) (calls : Nat → Call) (law : Law) (e : Event Answer Env)
    (q : Pool Op World) : Decidable ((law.discipline cfg calls).meets e q) :=
  @Discipline.decidableMeets Op World Answer Env (law.discipline cfg calls)
    (fun _ _ => instDecidableTrue)
    (fun t _ o a w => inferInstanceAs (Decidable (law.step cfg calls t o.cmd a w = true)))
    (fun _ _ => instDecidableTrue) (fun _ _ => instDecidableTrue) e q

/-- One token of a key at most, and none without its row. -/
def World.lockSafe (w : World) : Prop :=
  ∀ key, w.tokens key ≤ 1 ∧ (0 < w.tokens key → w.store.holds key)

/-- A room is made by one task. -/
structure Founders (w : World) : Prop where
  issued : ∀ i room, w.founded i = some room → room ∈ w.issued
  single : ∀ i j room, w.founded i = some room → w.founded j = some room → i = j

/-- The threads of messages that were sent are at home: mapped to no other room, and given no
other. -/
structure World.Homed (calls : Nat → Call) (w : World) : Prop where
  placed : ∀ i thread room, .thread thread ∈ w.hand i → w.founded i = some room →
    w.store.boundTo thread = none ∨ w.store.boundTo thread = some room
  bound : ∀ thread room, w.home calls thread = some room →
    w.store.boundTo thread = none ∨ w.store.boundTo thread = some room
  free : ∀ thread room, w.home calls thread = some room → w.store.boundTo thread = none →
    ∀ i, .thread thread ∉ w.hand i

def Law.holds (calls : Nat → Call) (law : Law) (w : World) : Prop :=
  match law with
  | anchored => ∀ thread room, w.store.boundTo thread = some room → w.store.hasGhost room
  | exclusive => ∀ thread thread' room, w.store.boundTo thread = some room →
      w.store.boundTo thread' = some room → thread = thread'
  | stable => w.Homed calls

/-- Between the two worlds a thread has left its room only where that was unbridged. -/
def RoomsStay (w w' : World) : Prop :=
  ∃ l, w'.trace = l ++ w.trace ∧ ∀ thread room, w.store.boundTo thread = some room →
    w'.store.boundTo thread = some room ∨ ∃ r ∈ l, r.unbridges room

/-- Task `t` is a worker that is at a message. -/
structure World.Composing (calls : Nat → Call) (w : World) (t : Nat) (o : Outgoing) : Prop where
  worker : calls t = .worker
  sending : w.sending t = some o

/-- What a task relies on that holds the lock of a thread and makes a room for it, and what a
worker relies on that is at a message. -/
def Law.leaves (calls : Nat → Call) (law : Law) (t : Nat) (w w' : World) : Prop :=
  match law with
  | anchored => (∀ thread room, .thread thread ∈ w.hand t → w.founded t = some room →
      w.store.hasGhost room → w'.store.hasGhost room) ∧
    ∀ o, w.Composing calls t o → w.store.hasGhost o.room → w'.store.hasGhost o.room
  | exclusive => (∀ thread room, .thread thread ∈ w.hand t → w.founded t = some room →
      (∀ other, w.store.boundTo other = some room → other = thread) →
        ∀ other, w'.store.boundTo other = some room → other = thread) ∧
    ∀ o, w.Composing calls t o → w.unshared o.room → w'.unshared o.room
  | stable => RoomsStay w w' ∧ (∀ thread, .thread thread ∈ w.hand t →
      w.store.boundTo thread = none → w'.store.boundTo thread = none) ∧
    ∀ o thread, w.Composing calls t o → o.thread = some thread →
      w.home calls thread = some o.room → w'.home calls thread = some o.room

structure Law.Rely (calls : Nat → Call) (law : Law) (t : Nat) (w w' : World) : Prop where
  hand : w'.hand t = w.hand t
  founded : w'.founded t = w.founded t
  sending : w'.sending t = w.sending t
  leaves : law.leaves calls t w w'

structure Law.Inv (calls : Nat → Call) (law : Law) (w : World) : Prop where
  locks : w.lockSafe
  founders : Founders w
  law : law.holds calls w

theorem RoomsStay.refl (w : World) : RoomsStay w w := ⟨[], rfl, fun _ _ h => .inl h⟩

theorem RoomsStay.trans {w₁ w₂ w₃ : World} (h : RoomsStay w₁ w₂) (h' : RoomsStay w₂ w₃) :
    RoomsStay w₁ w₃ := by
  obtain ⟨l, htrace, hl⟩ := h
  obtain ⟨l', htrace', hl'⟩ := h'
  refine ⟨l' ++ l, by rw [htrace', htrace, List.append_assoc], fun thread room hbound => ?_⟩
  rcases hl thread room hbound with hmid | ⟨r, hr, hu⟩
  · rcases hl' thread room hmid with hend | ⟨r, hr, hu⟩
    · exact .inl hend
    · exact .inr ⟨r, List.mem_append_left _ hr, hu⟩
  · exact .inr ⟨r, List.mem_append_right _ hr, hu⟩

theorem World.Composing.forth {calls : Nat → Call} {t : Nat} {o : Outgoing} {w w' : World}
    (h : w.Composing calls t o) (hs : w'.sending t = w.sending t) : w'.Composing calls t o :=
  ⟨h.worker, hs.trans h.sending⟩

theorem Law.leaves_refl (calls : Nat → Call) (law : Law) (t : Nat) (w : World) :
    law.leaves calls t w w := by
  cases law with
  | anchored => exact ⟨fun _ _ _ _ h => h, fun _ _ h => h⟩
  | exclusive => exact ⟨fun _ _ _ _ h => h, fun _ _ h => h⟩
  | stable => exact ⟨.refl w, fun _ _ h => h, fun _ _ _ _ h => h⟩

theorem Law.Rely.trans {calls : Nat → Call} {law : Law} {t : Nat} {w₁ w₂ w₃ : World}
    (h : law.Rely calls t w₁ w₂) (h' : law.Rely calls t w₂ w₃) : law.Rely calls t w₁ w₃ := by
  refine ⟨h'.hand.trans h.hand, h'.founded.trans h.founded, h'.sending.trans h.sending, ?_⟩
  have hleaves := h.leaves
  have hleaves' := h'.leaves
  cases law with
  | anchored =>
    refine ⟨fun thread room hkey hroom hghost => ?_, fun o ho hghost => ?_⟩
    · exact hleaves'.1 thread room (h.hand ▸ hkey) (h.founded.trans hroom)
        (hleaves.1 thread room hkey hroom hghost)
    · exact hleaves'.2 o (ho.forth h.sending) (hleaves.2 o ho hghost)
  | exclusive =>
    refine ⟨fun thread room hkey hroom honly => ?_, fun o ho hfree => ?_⟩
    · exact hleaves'.1 thread room (h.hand ▸ hkey) (h.founded.trans hroom)
        (hleaves.1 thread room hkey hroom honly)
    · exact hleaves'.2 o (ho.forth h.sending) (hleaves.2 o ho hfree)
  | stable =>
    refine ⟨hleaves.1.trans hleaves'.1, fun thread hkey hnone => ?_,
      fun o thread ho hthread hhome => ?_⟩
    · exact hleaves'.2.1 thread (h.hand ▸ hkey) (hleaves.2.1 thread hkey hnone)
    · exact hleaves'.2.2 o thread (ho.forth h.sending) hthread
        (hleaves.2.2 o thread ho hthread hhome)

def Law.contract (calls : Nat → Call) (law : Law) : Contract World where
  inv := law.Inv calls
  rely := law.Rely calls
  idle t w := w.hand t = []
  idle_stable hidle hr := hr.hand.trans hidle
  refl t w := ⟨rfl, rfl, rfl, law.leaves_refl calls t w⟩
  trans := .trans

/-- How far a task has come with the room of a thread. -/
inductive Footing where
  | idle
  | unbound (thread : ThreadId)
  | founding (thread : ThreadId) (room : RoomId)
  | grounded (thread : ThreadId) (room : RoomId)

/-- The thread whose lock the task must hold. -/
def Footing.thread : Footing → Option ThreadId
  | idle => none
  | unbound thread => some thread
  | founding thread _ => some thread
  | grounded thread _ => some thread

/-- The thread has no room yet, and it is the one that the task is at. -/
def Law.Unbound (law : Law) (t : Nat) (thread : ThreadId) (w : World) : Prop :=
  law = stable → w.store.boundTo thread = none ∧
    ∀ other, .thread other ∈ w.hand t → other = thread

/-- The task has made the room, and no other thread is in it. -/
structure Law.Founding (law : Law) (t : Nat) (thread : ThreadId) (room : RoomId) (w : World) :
    Prop where
  unbound : law.Unbound t thread w
  founded : w.founded t = some room
  only : law = exclusive → ∀ other, w.store.boundTo other = some room → other = thread

def Footing.At (law : Law) (t : Nat) : Footing → World → Prop
  | idle, _ => True
  | unbound thread, w => law.Unbound t thread w
  | founding thread room, w => law.Founding t thread room w
  | grounded thread room, w => law.Founding t thread room w ∧
      (law = .anchored → w.store.hasGhost room)

/-- The task guards exactly these keys, that of its thread among them. -/
structure Stands (law : Law) (t : Nat) (l : List LockKey) (f : Footing) (w : World) : Prop where
  hand : w.hand t = l
  locked : ∀ thread ∈ f.thread, .thread thread ∈ l
  footing : f.At law t w

section

variable {cfg : Config} {calls : Nat → Call} {law : Law} {t : Nat} {w w' : World} {key : LockKey}
  {thread : ThreadId} {room : RoomId} {o : Outgoing} {l : List LockKey} {α : Type}

theorem mem_threadsOf {s : Store} : thread ∈ s.threadsOf room ↔ s.boundTo thread = some room := by
  have hrow : ∀ row, s.threadMapping.lookup thread = some row ↔
      Sigma.mk thread row ∈ s.threadMapping.entries := fun row => AList.mem_lookup_iff
  constructor
  · intro h
    obtain ⟨⟨k, row⟩, hmem, rfl⟩ := List.mem_map.mp h
    obtain ⟨hmem, hroom⟩ := List.mem_filter.mp hmem
    have hroom : row.roomId = room := by simpa using hroom
    rw [Store.boundTo, (hrow row).mpr hmem, Option.map_some, hroom]
  · intro h
    obtain ⟨row, hlookup, hroom⟩ := Option.map_eq_some_iff.mp h
    refine List.mem_map.mpr ⟨⟨thread, row⟩, List.mem_filter.mpr ⟨(hrow row).mp hlookup, ?_⟩, rfl⟩
    simpa using hroom

theorem mem_makers :
    thread ∈ w.makers room ↔ ∃ i, .thread thread ∈ w.hand i ∧ w.founded i = some room := by
  constructor
  · intro h
    obtain ⟨⟨i, key⟩, hmem, hmaker⟩ := List.mem_filterMap.mp h
    cases key with
    | thread other =>
      by_cases hroom : w.founded i = some room
      · obtain rfl : other = thread := by simpa [hroom] using hmaker
        exact ⟨i, mem_hand.mpr hmem, hroom⟩
      · simp [hroom] at hmaker
    | emailSpace _ => cases hmaker
  · rintro ⟨i, hkey, hroom⟩
    exact List.mem_filterMap.mpr ⟨(i, .thread thread), mem_hand.mp hkey, if_pos hroom⟩

theorem unshared_iff : w.unshared room ↔ (∀ thread, w.store.boundTo thread ≠ some room) ∧
    ∀ i thread, .thread thread ∈ w.hand i → w.founded i ≠ some room := by
  rw [World.unshared, Bool.and_eq_true, List.isEmpty_iff, List.isEmpty_iff,
    List.eq_nil_iff_forall_not_mem, List.eq_nil_iff_forall_not_mem]
  simp only [mem_threadsOf, mem_makers, not_exists, not_and]
  exact ⟨fun h => ⟨h.1, fun i thread => h.2 thread i⟩, fun h => ⟨h.1, fun thread i => h.2 i thread⟩⟩

theorem mem_outgoing {l : List Record} (h : outgoing t l = some o) : ∃ r ∈ l, r.task = t := by
  induction l with
  | nil => cases h
  | cons r older ih =>
    by_cases hr : r.task = t
    · exact ⟨r, List.mem_cons_self, hr⟩
    · rw [outgoing, if_neg hr] at h
      obtain ⟨x, hx, ht⟩ := ih h
      exact ⟨x, List.mem_cons_of_mem _ hx, ht⟩

theorem World.Composing.sendsFrom (h : w.Composing calls t o) (φ : Outgoing → Bool) (hφ : φ o) :
    w.sendsFrom calls o.room φ := by
  obtain ⟨r, hr, rfl⟩ := mem_outgoing h.sending
  refine List.any_eq_true.mpr ⟨r, hr, ?_⟩
  simp [h.worker, Call.isWorker, h.sending, hφ]

theorem stands_stable {f : Footing} : Stable (law.contract calls) t (Stands law t l f) := by
  intro w w' h hr _
  obtain ⟨hhand, hfounded, -, hleaves⟩ : law.Rely calls t w w' := hr
  have hunbound : ∀ thread, .thread thread ∈ l → law.Unbound t thread w →
      law.Unbound t thread w' := by
    intro thread hkey hnone hlaw
    subst hlaw
    obtain ⟨hnone, honly⟩ := hnone rfl
    exact ⟨hleaves.2.1 thread (h.hand ▸ hkey) hnone,
      fun other hother => honly other (hhand ▸ hother)⟩
  have hfounding : ∀ thread room, .thread thread ∈ l → law.Founding t thread room w →
      law.Founding t thread room w' := by
    intro thread room hkey hf
    refine ⟨hunbound thread hkey hf.unbound, hfounded.trans hf.founded, fun hlaw => ?_⟩
    subst hlaw
    exact hleaves.1 thread room (h.hand ▸ hkey) hf.founded (hf.only rfl)
  refine ⟨hhand.trans h.hand, h.locked, ?_⟩
  have hfoot := h.footing
  cases f with
  | idle => trivial
  | unbound thread => exact hunbound thread (h.locked thread rfl) hfoot
  | founding thread room => exact hfounding thread room (h.locked thread rfl) hfoot
  | grounded thread room =>
    have hkey := h.locked thread rfl
    refine ⟨hfounding thread room hkey hfoot.1, fun hlaw => ?_⟩
    subst hlaw
    exact hleaves.1 thread room (h.hand ▸ hkey) hfoot.1.founded (hfoot.2 rfl)

/-- The worker is at the message: its room has a ghost, is the message's alone if that is `fresh`,
and is the home of the thread if the mail server has told that. -/
structure Sends (calls : Nat → Call) (law : Law) (t : Nat) (o : Outgoing) (fresh : Prop)
    (w : World) : Prop where
  hand : w.hand t = []
  sending : w.sending t = some o
  ghost : law = .anchored → w.store.hasGhost o.room
  alone : law = .exclusive → fresh → w.unshared o.room
  home : law = .stable → ∀ thread, o.thread = some thread → w.home calls thread = some o.room

theorem sends_stable {fresh : Prop} (ht : calls t = .worker) :
    Stable (law.contract calls) t (Sends calls law t o fresh) := by
  intro w w' h hr _
  obtain ⟨hhand, -, hsending, hleaves⟩ : law.Rely calls t w w' := hr
  have hat : w.Composing calls t o := ⟨ht, h.sending⟩
  refine ⟨hhand.trans h.hand, hsending.trans h.sending, fun hlaw => ?_, fun hlaw hfresh => ?_,
    fun hlaw thread hthread => ?_⟩
  · subst hlaw
    exact hleaves.2 o hat (h.ghost rfl)
  · subst hlaw
    exact hleaves.2 o hat (h.alone rfl hfresh)
  · subst hlaw
    exact hleaves.2.2 o thread hat hthread (h.home rfl thread hthread)

/-! What the commands do. -/

theorem founded_exec {c : Cmd} {a : Answer} {b : c.Ans} (he : exec t (.mk c) a w = some (b, w'))
    (i : Nat) : w'.founded i =
      if t = i then (Record.founds ⟨t, c, a⟩).getD (w.founded i) else w.founded i := by
  rw [World.founded, exec_trace he, List.findSome?_cons]
  by_cases hi : t = i
  · rw [if_pos hi, if_pos hi]
    cases Record.founds ⟨t, c, a⟩ with
    | none => rfl
    | some _ => rfl
  · rw [if_neg hi, if_neg hi]
    rfl

theorem founded_quiet {c : Cmd} {a : Answer} {b : c.Ans} (he : exec t (.mk c) a w = some (b, w'))
    (hr : Record.founds ⟨t, c, a⟩ = none) (i : Nat) : w'.founded i = w.founded i := by
  rw [founded_exec he, hr, Option.getD_none, ite_self]

theorem founded_ne {c : Cmd} {a : Answer} {b : c.Ans} (he : exec t (.mk c) a w = some (b, w'))
    {i : Nat} (hit : i ≠ t) : w'.founded i = w.founded i := by
  rw [founded_exec he, if_neg (Ne.symm hit)]

theorem sending_ne {c : Cmd} {a : Answer} {b : c.Ans} (he : exec t (.mk c) a w = some (b, w'))
    {i : Nat} (hit : i ≠ t) : w'.sending i = w.sending i := by
  rw [World.sending, exec_trace he, outgoing, if_neg (Ne.symm hit)]
  rfl

theorem sending_own {c : Cmd} {a : Answer} {b : c.Ans} (he : exec t (.mk c) a w = some (b, w')) :
    w'.sending t = (⟨t, c, a⟩ : Record).advance (w.sending t) := by
  rw [World.sending, exec_trace he, outgoing, if_pos rfl]
  rfl

theorem home_told {c : Cmd} {a : Answer} {b : c.Ans} (he : exec t (.mk c) a w = some (b, w'))
    (ht : calls t = .worker) (hr : (⟨t, c, a⟩ : Record).tells = some thread) :
    w'.home calls thread = (w.sending t).map (·.room) := by
  rw [World.home, exec_trace he, homeOf, if_pos (by simp [ht, hr, Call.isWorker])]
  rfl

theorem home_untold {c : Cmd} {a : Answer} {b : c.Ans} (he : exec t (.mk c) a w = some (b, w'))
    (hr : calls t = .worker → (⟨t, c, a⟩ : Record).tells ≠ some thread) :
    w'.home calls thread =
      (w.home calls thread).filter fun room => ¬(⟨t, c, a⟩ : Record).unbridges room := by
  rw [World.home, exec_trace he, homeOf, if_neg, World.home]
  intro h
  obtain ⟨hworker, htells⟩ := Bool.and_eq_true_iff.mp h
  refine hr ?_ (eq_of_beq htells)
  cases hcall : calls t with
  | worker => rfl
  | _ =>
    rw [hcall] at hworker
    cases hworker

theorem home_quiet {c : Cmd} {a : Answer} {b : c.Ans} (he : exec t (.mk c) a w = some (b, w'))
    (hr : calls t = .worker → (⟨t, c, a⟩ : Record).tells ≠ some thread)
    (hc : ∀ room, c ≠ .store (.deleteThreadMappings room)) :
    w'.home calls thread = w.home calls thread := by
  have hnot : ∀ room, ¬(⟨t, c, a⟩ : Record).unbridges room := fun room h => hc room h.1
  rw [home_untold he hr]
  cases w.home calls thread with
  | none => rfl
  | some room => simp [Option.filter, hnot]

/-- The same rooms, with the same ghosts and threads. -/
structure SameRooms (s s' : Store) : Prop where
  bound : ∀ thread, s'.boundTo thread = s.boundTo thread
  ghosts : ∀ room, s'.hasGhost room = s.hasGhost room

theorem SameRooms.refl (s : Store) : SameRooms s s := ⟨fun _ => rfl, fun _ => rfl⟩

theorem SameRooms.referring {β : Type} {s s' : Store} {user : UserId} {b : β}
    (h : SameRooms s s') : SameRooms s (s.referring user b s').2 := by
  unfold Store.referring
  split
  · exact h
  · exact .refl s

theorem sameRooms_run {c : StoreCmd} (hc : (Cmd.store c).offBindings) (now : Nat) (order : List Nat)
    (s : Store) : SameRooms s (c.run now order s).2 := by
  cases c with
  | saveThreadMappingAtomic => cases hc
  | deleteThreadMappings => cases hc
  | saveRoomGhostMapping => cases hc
  | deleteRoomGhostMapping => cases hc
  | saveJmapState => exact .referring ⟨fun _ => rfl, fun _ => rfl⟩
  | addToOutboundQueue => exact .referring ⟨fun _ => rfl, fun _ => rfl⟩
  | tryAcquireRoomCreationLock key =>
    simp only [StoreCmd.run]
    split
    · exact .refl s
    · exact ⟨fun _ => rfl, fun _ => rfl⟩
  | updateThreadLatestEvent thread latest =>
    refine ⟨fun other => ?_, fun _ => rfl⟩
    simp only [StoreCmd.run, Store.boundTo, Table.lookup_modify, Option.map_map]
    congr 1
    funext row
    by_cases hother : other = thread <;> simp [hother]
  | _ => exact ⟨fun _ => rfl, fun _ => rfl⟩

theorem sameRooms_exec {c : Cmd} {a : Answer} {b : c.Ans} (hc : c.offBindings)
    (he : exec t (.mk c) a w = some (b, w')) : SameRooms w.store w'.store := by
  cases c with
  | store c =>
    rcases exec_store he with ⟨order, -, -, rfl⟩ | ⟨-, -, rfl⟩ | ⟨-, -, rfl⟩
    · exact sameRooms_run hc _ _ _
    · exact .refl _
    · exact sameRooms_run hc _ _ _
  | matrix c =>
    obtain ⟨⟨issued, rfl⟩, -⟩ := exec_matrix he
    exact .refl _
  | jmap account c =>
    obtain ⟨mail, rfl⟩ := exec_jmap he
    exact .refl _
  | task c =>
    obtain ⟨-, -, rfl⟩ := exec_task he
    cases c <;> exact .refl _

/-- The same rooms, and nobody makes another. -/
structure Still (w w' : World) : Prop where
  rooms : SameRooms w.store w'.store
  makers : ∀ i thread room, .thread thread ∈ w'.hand i → w'.founded i = some room →
    .thread thread ∈ w.hand i ∧ w.founded i = some room

theorem Still.unshared (h : Still w w') (hw : w.unshared room) : w'.unshared room := by
  obtain ⟨hbound, hmakers⟩ := unshared_iff.mp hw
  refine unshared_iff.mpr ⟨fun thread => ?_, fun i thread hkey hroom => ?_⟩
  · rw [h.rooms.bound]
    exact hbound thread
  · obtain ⟨hkey, hroom⟩ := h.makers i thread room hkey hroom
    exact hmakers i thread hkey hroom

/-- The threads at home stay there, as long as no lock of one that is mapped nowhere is taken. -/
theorem Still.homed (h : Still w w') (hw : w.Homed calls)
    (hhomes : ∀ thread, w'.home calls thread = w.home calls thread)
    (hholders : ∀ i thread room, w.home calls thread = some room → w.store.boundTo thread = none →
      .thread thread ∈ w'.hand i → .thread thread ∈ w.hand i) : w'.Homed calls := by
  refine ⟨fun i thread room hkey hroom => ?_, fun thread room hhome => ?_,
    fun thread room hhome hnone i hkey => ?_⟩
  · rw [h.rooms.bound]
    obtain ⟨hkey, hroom⟩ := h.makers i thread room hkey hroom
    exact hw.placed i thread room hkey hroom
  · rw [h.rooms.bound]
    exact hw.bound thread room (hhomes thread ▸ hhome)
  · rw [h.rooms.bound] at hnone
    rw [hhomes] at hhome
    exact hw.free thread room hhome hnone i (hholders i thread room hhome hnone hkey)

theorem Still.holds (h : Still w w') (hw : law.holds calls w)
    (hhomed : law = .stable → w'.Homed calls) : law.holds calls w' := by
  cases law with
  | anchored =>
    intro thread room hbound
    rw [h.rooms.bound] at hbound
    rw [h.rooms.ghosts]
    exact hw thread room hbound
  | exclusive =>
    intro thread thread' room hbound hbound'
    rw [h.rooms.bound] at hbound hbound'
    exact hw thread thread' room hbound hbound'
  | stable => exact hhomed rfl

theorem Still.leaves (h : Still w w') (htrace : ∃ l, w'.trace = l ++ w.trace) {i : Nat}
    (hhomes : law = .stable → ∀ o thread, w.Composing calls i o → o.thread = some thread →
      w.home calls thread = some o.room → w'.home calls thread = some o.room) :
    law.leaves calls i w w' := by
  cases law with
  | anchored =>
    refine ⟨fun _ room _ _ hghost => ?_, fun o _ hghost => ?_⟩
    · rwa [h.rooms.ghosts]
    · rwa [h.rooms.ghosts]
  | exclusive =>
    refine ⟨fun _ _ _ _ honly other hbound => ?_, fun o _ hfree => h.unshared hfree⟩
    rw [h.rooms.bound] at hbound
    exact honly other hbound
  | stable =>
    obtain ⟨l, hl⟩ := htrace
    refine ⟨⟨l, hl, fun thread room hbound => .inl ?_⟩, fun thread _ hnone => ?_, hhomes rfl⟩
    · rwa [h.rooms.bound]
    · rwa [h.rooms.bound]

theorem SameRooms.at {f : Footing} (h : SameRooms w.store w'.store)
    (hfounded : w'.founded t = w.founded t)
    (hhand : ∀ thread, .thread thread ∈ w'.hand t → .thread thread ∈ w.hand t)
    (hf : f.At law t w) : f.At law t w' := by
  have hunbound : ∀ thread, law.Unbound t thread w → law.Unbound t thread w' := by
    intro thread hf hlaw
    rw [h.bound]
    exact ⟨(hf hlaw).1, fun other hother => (hf hlaw).2 other (hhand other hother)⟩
  have hfounding : ∀ thread room, law.Founding t thread room w → law.Founding t thread room w' := by
    intro thread room hf
    refine ⟨hunbound thread hf.unbound, hfounded.trans hf.founded, fun hlaw other hbound => ?_⟩
    rw [h.bound] at hbound
    exact hf.only hlaw other hbound
  cases f with
  | idle => trivial
  | unbound thread => exact hunbound thread hf
  | founding thread room => exact hfounding thread room hf
  | grounded thread room =>
    refine ⟨hfounding thread room hf.1, fun hlaw => ?_⟩
    rw [h.ghosts]
    exact hf.2 hlaw

theorem SameLocks.lockSafe (h : SameLocks w w') (hw : w.lockSafe) : w'.lockSafe := by
  intro key
  have htokens : w'.tokens key = w.tokens key := by
    rw [World.tokens, h.guards, h.releases, World.tokens]
  have hheld : w'.store.holds key = w.store.holds key := by
    rw [Store.holds, h.locks, Store.holds]
  rw [htokens, hheld]
  exact hw key

theorem SameLocks.hand (h : SameLocks w w') (i : Nat) : w'.hand i = w.hand i := by
  rw [World.hand, h.guards, World.hand]

abbrev BindTriple (cfg : Config) (calls : Nat → Call) (law : Law) (t : Nat) (P : World → Prop)
    (x : Prog Op α) (Q : α → World → Prop) : Prop :=
  Triple (bridge cfg calls) (law.discipline cfg calls) (law.contract calls) t P x Q

abbrev BindStep (cfg : Config) (calls : Nat → Call) (law : Law) (t : Nat) (P : World → Prop)
    (c : Cmd) (R : c.Ans → World → Prop) : Prop :=
  Step (bridge cfg calls) (law.discipline cfg calls) (law.contract calls) t P (.mk c) R

theorem bindStep_intro {c : Cmd} {P : World → Prop} {R : c.Ans → World → Prop}
    (hstep : ∀ w a b w', law.Inv calls w → P w → law.step cfg calls t c a w →
      exec t (.mk c) a w = some (b, w') →
        law.Inv calls w' ∧ (∀ i, i ≠ t → law.Rely calls i w w') ∧ R b w') :
    BindStep cfg calls law t P c R := hstep

theorem trace_exec {c : Cmd} {a : Answer} {b : c.Ans} (he : exec t (.mk c) a w = some (b, w')) :
    ∃ l, w'.trace = l ++ w.trace := ⟨[⟨t, c, a⟩], exec_trace he⟩

theorem Founders.exec {c : Cmd} {a : Answer} {b : c.Ans} (h : Founders w)
    (he : exec t (.mk c) a w = some (b, w'))
    (hfounded : ∀ room, w'.founded t = some room → w.founded t = some room) : Founders w' := by
  have hback : ∀ i room, w'.founded i = some room → w.founded i = some room := by
    intro i room hi
    by_cases hit : i = t
    · subst hit
      exact hfounded room hi
    · rwa [founded_ne he hit] at hi
  constructor
  · exact fun i room hi => issued_exec he (h.issued i room (hback i room hi))
  · exact fun i j room hi hj => h.single i j room (hback i room hi) (hback j room hj)

theorem founds_plain {r : Record} (hr : r.cmd.plain) : r.founds = none := by
  unfold Record.founds
  split
  · next heq =>
    rw [heq] at hr
    cases hr
  · next heq _ =>
    rw [heq] at hr
    cases hr
  · rfl

theorem tells_reads {r : Record} (h : r.tells = some thread) :
    ∃ account email, r.cmd = .jmap account (.getEmailThread email) := by
  unfold Record.tells at h
  split at h
  case h_1 account email _ hc _ => exact ⟨account, email, hc⟩
  case h_2 => cases h

/-- The mail server tells a worker the thread of its message: the thread is at home from then. -/
theorem told_homed {c : Cmd} {a : Answer} {b : c.Ans} (hi : Law.stable.Inv calls w)
    (ht : calls t = .worker) (hr : (⟨t, c, a⟩ : Record).tells = some thread)
    (hd : Law.stable.step cfg calls t c a w) (he : exec t (.mk c) a w = some (b, w'))
    (hbound : ∀ other, w'.store.boundTo other = w.store.boundTo other)
    (hhand : ∀ i, w'.hand i = w.hand i) (hfounded : ∀ i, w'.founded i = w.founded i) :
    w'.Homed calls := by
  have hw : w.Homed calls := hi.law
  obtain ⟨account, email, rfl⟩ : ∃ account email, c = .jmap account (.getEmailThread email) :=
    tells_reads hr
  have htell : ∀ room, w'.home calls thread = some room → w.mayTell calls t thread room := by
    intro room hhome
    rw [home_told he ht hr] at hhome
    obtain ⟨o, ho, rfl⟩ := Option.map_eq_some_iff.mp hhome
    simpa [Law.step, hr, ht, Call.isWorker, ho] using hd
  have hother : ∀ other, other ≠ thread → w'.home calls other = w.home calls other := by
    intro other hne
    refine home_quiet he (fun _ h => hne ?_) fun room h => by cases h
    exact Option.some.inj (h.symm.trans hr)
  refine ⟨fun i other room hkey hroom => ?_, fun other room hhome => ?_,
    fun other room hhome hnone i hkey => ?_⟩
  · rw [hhand] at hkey
    rw [hfounded] at hroom
    rw [hbound]
    exact hw.placed i other room hkey hroom
  · rw [hbound]
    by_cases hne : other = thread
    · subst hne
      rcases Bool.or_eq_true_iff.mp (htell room hhome) with hsame | hfree
      · exact .inr (eq_of_beq hsame)
      · simp only [Bool.and_eq_true] at hfree
        exact .inl (eq_of_beq hfree.1.1.1)
    · exact hw.bound other room (hother other hne ▸ hhome)
  · rw [hbound] at hnone
    rw [hhand] at hkey
    by_cases hne : other = thread
    · subst hne
      rcases Bool.or_eq_true_iff.mp (htell room hhome) with hsame | hfree
      · have hsame : w.store.boundTo other = some room := eq_of_beq hsame
        rw [hnone] at hsame
        cases hsame
      · simp only [Bool.and_eq_true] at hfree
        simpa using List.all_eq_true.mp hfree.1.1.2 _ (mem_hand.mp hkey)
    · exact hw.free other room (hother other hne ▸ hhome) hnone i hkey

theorem plain_still {c : Cmd} {a : Answer} {b : c.Ans} (hc : c.plain)
    (he : exec t (.mk c) a w = some (b, w')) : Still w w' := by
  have hlocks := offLocks_exec (Cmd.plain.offLocks hc) he
  have hfounded := founded_quiet he (founds_plain (r := ⟨t, c, a⟩) hc)
  refine ⟨sameRooms_exec (Cmd.plain.offBindings hc) he, fun i thread room hkey hroom => ?_⟩
  rw [hlocks.hand] at hkey
  rw [hfounded] at hroom
  exact ⟨hkey, hroom⟩

theorem plain_exec (hone : OneWorker calls) {c : Cmd} {a : Answer} {b : c.Ans} (hc : c.plain)
    (hi : law.Inv calls w) (hd : law.step cfg calls t c a w)
    (he : exec t (.mk c) a w = some (b, w')) :
    law.Inv calls w' ∧ ∀ i, i ≠ t → law.Rely calls i w w' := by
  have hlocks := offLocks_exec (Cmd.plain.offLocks hc) he
  have hrooms := sameRooms_exec (Cmd.plain.offBindings hc) he
  have hfounded := founded_quiet he (founds_plain (r := ⟨t, c, a⟩) hc)
  have hstill := plain_still hc he
  have hquiet : ∀ room, c ≠ .store (.deleteThreadMappings room) := by
    rintro room rfl
    cases hc
  have hhomes : ∀ thread, (calls t = .worker → (⟨t, c, a⟩ : Record).tells ≠ some thread) →
      w'.home calls thread = w.home calls thread := fun thread h => home_quiet he h hquiet
  have hhomed : law = .stable → w'.Homed calls := by
    intro hlaw
    subst hlaw
    by_cases htells : calls t = .worker ∧ ∃ thread, (⟨t, c, a⟩ : Record).tells = some thread
    · obtain ⟨ht, thread, hr⟩ := htells
      exact told_homed hi ht hr hd he hrooms.bound hlocks.hand hfounded
    · refine hstill.homed hi.law (fun thread => hhomes thread fun ht hr => ?_)
        fun i thread room _ _ hkey => hlocks.hand i ▸ hkey
      exact htells ⟨ht, thread, hr⟩
  refine ⟨⟨hlocks.lockSafe hi.locks, hi.founders.exec he fun room h => hfounded t ▸ h,
    hstill.holds hi.law hhomed⟩, fun i hit => ⟨hlocks.hand i, hfounded i, sending_ne he hit,
      hstill.leaves (trace_exec he) fun _ o thread ho _ hhome => ?_⟩⟩
  rw [hhomes thread fun ht _ => hit (hone t i ht ho.worker)]
  exact hhome

theorem plain_keeps (hone : OneWorker calls) {f : Footing} {c : Cmd} (hc : c.plain) :
    Keeps (bridge cfg calls) (law.discipline cfg calls) (law.contract calls) t (Stands law t l f)
      c.Ans (.mk c) := by
  intro w a b w' hw hi hd he
  have he : exec t (.mk c) a w = some (b, w') := he
  have hlocks := offLocks_exec (Cmd.plain.offLocks hc) he
  have hrooms := sameRooms_exec (Cmd.plain.offBindings hc) he
  have hfounded := founded_quiet he (founds_plain (r := ⟨t, c, a⟩) hc)
  obtain ⟨hinv, hrely⟩ := plain_exec hone hc hi hd he
  exact ⟨hinv, hrely, (hlocks.hand t).trans hw.hand, hw.locked,
    hrooms.at (hfounded t) (fun thread h => hlocks.hand t ▸ h) hw.footing⟩

/-- The programs that leave a task where it stands. -/
def Neutral (cfg : Config) (calls : Nat → Call) (law : Law) (t : Nat) (α : Type)
    (x : Prog Op α) : Prop :=
  ∀ l f, BindTriple cfg calls law t (Stands law t l f) x fun _ => Stands law t l f

theorem neutral_closed (hone : OneWorker calls) :
    Prog.Closed (fun _ o => o.cmd.bland) (Neutral cfg calls law t) := by
  have hkeeps : ∀ (l : List LockKey) (f : Footing) (β : Type) (o : Op β), o.cmd.bland →
      Keeps (bridge cfg calls) (law.discipline cfg calls) (law.contract calls) t
        (Stands law t l f) β o := by
    intro l f β o hc
    obtain ⟨c⟩ := o
    exact plain_keeps hone (Cmd.bland.plain hc)
  constructor
  · exact fun a l f => (Triple.closed stands_stable).pure a
  · exact fun hc l f => (Triple.closed stands_stable).call (hkeeps l f _ _ hc)
  · exact fun hp hf l f => (Triple.closed stands_stable).bind (hp l f) fun a => hf a l f
  · exact fun hb l f => (Triple.closed stands_stable).loop fun s => hb s l f

theorem Neutral.does (hone : OneWorker calls) {x : Prog Op α} (hx : Bland x) :
    Neutral cfg calls law t α x := (neutral_closed hone).of_only hx

theorem Neutral.act {x : Bridge α} {f : Footing} (hx : Neutral cfg calls law t _ x) :
    BindTriple cfg calls law t (Stands law t l f) x
      (post (fun _ => Stands law t l f) fun _ => Stands law t l f) :=
  .post (hx l f) fun r _ _ hw => by
    cases r with
    | ok _ => exact hw
    | error _ => exact hw

theorem Neutral.of_act {x : Bridge α} (hx : ∀ l f, BindTriple cfg calls law t (Stands law t l f) x
    (post (fun _ => Stands law t l f) fun _ => Stands law t l f)) : Neutral cfg calls law t _ x :=
  fun l f => .post (hx l f) fun r _ _ hw => by
    cases r with
    | ok _ => exact hw
    | error _ => exact hw

/-! Taking a lock and giving it up. -/

theorem holds_acquire {s : Store} {k : LockKey} {now : Nat} {order : List Nat} (h : s.holds k) :
    (StoreCmd.run now order (.tryAcquireRoomCreationLock key) s).2.holds k := by
  simp only [StoreCmd.run]
  split
  · exact h
  · by_cases hkey : k = key
    · subst hkey
      simp [Store.holds]
    · simpa [Store.holds, AList.lookup_insert_ne hkey] using h

theorem acquire_exec {a : Answer} {b : Except Err Bool} (hw : w.lockSafe)
    (he : exec t (.mk (.store (.tryAcquireRoomCreationLock key))) a w = some (b, w')) :
    w'.lockSafe ∧ (∀ i, i ≠ t → w'.hand i = w.hand i) ∧
      (b = .ok true ∧ (a ≠ .failed ∧ w.store.holds key = false) ∧ w'.hand t = key :: w.hand t ∨
        b ≠ .ok true ∧ w'.hand t = w.hand t) := by
  rcases exec_store he with ⟨order, ha, rfl, rfl⟩ | ⟨-, rfl, rfl⟩ | ⟨-, rfl, rfl⟩
  · cases hrow : w.store.holds key with
    | true =>
      have hrun : StoreCmd.run w.now order (.tryAcquireRoomCreationLock key) w.store =
          (.ok false, w.store) := by
        simp only [StoreCmd.run]
        exact if_pos hrow
      rw [hrun]
      exact ⟨hw, fun _ _ => rfl, .inr ⟨by rintro ⟨⟩, rfl⟩⟩
    | false =>
      have hrun : StoreCmd.run w.now order (.tryAcquireRoomCreationLock key) w.store =
          (.ok true, { w.store with
            roomCreationLocks := w.store.roomCreationLocks.insert key () }) := by
        simp only [StoreCmd.run]
        exact if_neg (by simpa [Store.holds] using hrow)
      rw [hrun]
      have hnot : a ≠ .failed := by rcases ha with ⟨rfl, -⟩ | rfl <;> rintro ⟨⟩
      refine ⟨fun k => ?_, fun i hit => ?_, .inl ⟨rfl, ⟨hnot, rfl⟩, ?_⟩⟩
      · simp only [World.tokens, StoreCmd.guards, List.cons_append, List.nil_append,
          List.countP_cons]
        have hsafe := hw k
        rw [World.tokens] at hsafe
        by_cases hkey : key = k
        · subst hkey
          have hnone : ¬ 0 < w.guards.countP (fun g => g.2 = key) + w.releases.count key := by
            intro hpos
            have hheld := hsafe.2 hpos
            rw [hrow] at hheld
            cases hheld
          simp only [decide_true, if_true]
          exact ⟨by omega, fun _ => by simp [Store.holds]⟩
        · simpa [hkey, Store.holds, AList.lookup_insert_ne (Ne.symm hkey)] using hsafe
      · simp [World.hand, StoreCmd.guards, Ne.symm hit]
      · simp [World.hand, StoreCmd.guards]
  · exact ⟨hw, fun _ _ => rfl, .inr ⟨by rintro ⟨⟩, rfl⟩⟩
  · refine ⟨fun k => ⟨(hw k).1, fun hpos => ?_⟩, fun _ _ => rfl, .inr ⟨by rintro ⟨⟩, rfl⟩⟩
    exact holds_acquire ((hw k).2 hpos)

/-- A lock that is gone for makes no maker, and it is not taken of a thread that is at home
but mapped nowhere. -/
theorem acquire_still {a : Answer} {b : Except Err Bool} (hi : law.Inv calls w)
    (hd : law.step cfg calls t (.store (.tryAcquireRoomCreationLock key)) a w)
    (he : exec t (.mk (.store (.tryAcquireRoomCreationLock key))) a w = some (b, w')) :
    Still w w' ∧ (law = .stable → w'.Homed calls) := by
  obtain ⟨-, hothers, hown⟩ := acquire_exec hi.locks he
  have hrooms := sameRooms_exec (c := .store (.tryAcquireRoomCreationLock key)) rfl he
  have hnew : ∀ i thread, .thread thread ∈ w'.hand i → .thread thread ∈ w.hand i ∨
      i = t ∧ key = .thread thread ∧ a ≠ .failed ∧ w.store.holds key = false := by
    intro i thread hkey
    by_cases hit : i = t
    · subst hit
      rcases hown with ⟨-, hfree, hhand⟩ | ⟨-, hhand⟩
      · rw [hhand] at hkey
        rcases List.mem_cons.mp hkey with hkey | hkey
        · exact .inr ⟨rfl, hkey.symm, hfree⟩
        · exact .inl hkey
      · exact .inl (hhand ▸ hkey)
    · exact .inl (hothers i hit ▸ hkey)
  have hstill : Still w w' := by
    refine ⟨hrooms, fun i thread room hkey hroom => ?_⟩
    by_cases hit : i = t
    · subst hit
      rw [founded_exec he, if_pos rfl] at hroom
      cases key with
      | thread _ => cases hroom
      | emailSpace _ =>
        rcases hnew i thread hkey with hkey | ⟨-, hsame, -⟩
        · exact ⟨hkey, hroom⟩
        · cases hsame
    · rw [founded_ne he hit] at hroom
      exact ⟨hothers i hit ▸ hkey, hroom⟩
  refine ⟨hstill, fun hlaw => ?_⟩
  subst hlaw
  refine hstill.homed hi.law (fun thread => home_quiet he (fun _ h => by cases h)
    fun room h => by cases h) fun i thread room hhome hnone hkey => ?_
  rcases hnew i thread hkey with hkey | ⟨-, rfl, hnot, hrow⟩
  · exact hkey
  · exfalso
    simp [Law.step, hnot, hrow, hhome, hnone] at hd

/-- A task goes for the lock of a thread while it is at no other, for that of a space at any
time. -/
theorem acquire_binding {f : Footing} (hf : f = .idle ∨ ∃ u, key = .emailSpace u) :
    BindStep cfg calls law t (Stands law t l f) (.store (.tryAcquireRoomCreationLock key))
      (post (fun b => if b = true then Stands law t (key :: l) f else Stands law t l f)
        fun _ => Stands law t l f) := by
  refine bindStep_intro fun w a b w' hi hw hd he => ?_
  obtain ⟨hsafe, hothers, hown⟩ := acquire_exec hi.locks he
  obtain ⟨hstill, hhomed⟩ := acquire_still hi hd he
  have hfounders : ∀ room, w'.founded t = some room → w.founded t = some room := by
    intro room h
    rw [founded_exec he, if_pos rfl] at h
    cases key with
    | thread _ => cases h
    | emailSpace _ => exact h
  have hfooting : f.At law t w' := by
    rcases hf with rfl | ⟨u, rfl⟩
    · trivial
    · refine hstill.rooms.at (founded_quiet he rfl t) (fun thread hkey => ?_) hw.footing
      rcases hown with ⟨-, -, hhand⟩ | ⟨-, hhand⟩
      · rw [hhand] at hkey
        exact (List.mem_cons.mp hkey).resolve_left (by rintro ⟨⟩)
      · exact hhand ▸ hkey
  refine ⟨⟨hsafe, hi.founders.exec he hfounders, hstill.holds hi.law hhomed⟩,
    fun i hit => ⟨hothers i hit, founded_ne he hit, sending_ne he hit,
      hstill.leaves (trace_exec he) fun _ o thread _ _ hhome => ?_⟩, ?_⟩
  · rw [home_quiet he (fun _ h => by cases h) fun room h => by cases h]
    exact hhome
  rcases hown with ⟨rfl, -, hhand⟩ | ⟨hb, hhand⟩
  · refine ⟨hhand.trans (by rw [hw.hand]), fun thread h => ?_, hfooting⟩
    exact List.mem_cons_of_mem _ (hw.locked thread h)
  · have hstay : Stands law t l f w' := ⟨hhand.trans hw.hand, hw.locked, hfooting⟩
    match b with
    | .ok true => exact absurd rfl hb
    | .ok false => exact hstay
    | .error _ => exact hstay

theorem dropGuard_binding {f : Footing} (hf : f = .idle ∨ ∃ u, key = .emailSpace u) :
    BindStep cfg calls law t (Stands law t (key :: l) f) (.task (.dropGuard key))
      fun _ => Stands law t l f := by
  refine bindStep_intro fun w a b w' hi hw _ he => ?_
  have hdrop : Dropped calls t key w w' := exec_dropGuard he
  have hmem : (t, key) ∈ w.guards := mem_hand.mp (by simp [hw.hand])
  have hrooms := sameRooms_exec (c := .task (.dropGuard key)) rfl he
  have hfounded := founded_quiet he rfl
  have hheld : ∀ i k, k ∈ w'.hand i → k ∈ w.hand i := by
    intro i k hk
    by_cases hit : i = t
    · subst hit
      rw [hdrop.hand] at hk
      exact List.mem_of_mem_erase hk
    · rwa [hdrop.hand_ne hit] at hk
  have hstill : Still w w' :=
    ⟨hrooms, fun i thread room hkey hroom => ⟨hheld i _ hkey, hfounded i ▸ hroom⟩⟩
  have hhomes : ∀ thread, w'.home calls thread = w.home calls thread := fun thread =>
    home_quiet he (fun _ h => by cases h) fun room h => by cases h
  have hlocked : ∀ thread ∈ f.thread, .thread thread ∈ l := by
    intro thread hthread
    rcases hf with rfl | ⟨u, rfl⟩
    · cases hthread
    · exact (List.mem_cons.mp (hw.locked thread hthread)).resolve_left (by rintro ⟨⟩)
  refine ⟨⟨fun k => ?_, hi.founders.exec he fun room h => ?_, hstill.holds hi.law fun hlaw => ?_⟩,
    fun i hit => ⟨hdrop.hand_ne hit, hfounded i, sending_ne he hit,
      hstill.leaves (trace_exec he) fun _ o thread _ _ hhome => ?_⟩,
    ⟨?_, hlocked, hrooms.at (hfounded t) (fun thread => hheld t _) hw.footing⟩⟩
  · rw [hdrop.tokens hmem, hdrop.held]
    exact hi.locks k
  · rwa [← hfounded]
  · subst hlaw
    exact hstill.homed hi.law hhomes fun i thread _ _ _ => hheld i _
  · rwa [hhomes]
  · rw [hdrop.hand, hw.hand, List.erase_cons_head]

/-! Making a room. -/

theorem create_issues {name email : String} {user : UserId} {a : Answer} {b : Except Err RoomId}
    (he : exec t (.mk (.matrix (.createRoomForContact name email user))) a w = some (b, w')) :
    (∃ room, a = .id room ∧ b = .ok room ∧ room ∉ w.issued ∧ room ∈ w'.issued) ∨
      (∀ room, a ≠ .id room) ∧ ∃ err, b = .error err := by
  rcases exec_matrix_cases he with ⟨room, rfl, hv⟩ | ⟨rfl, rfl⟩ | ⟨rfl, rfl⟩ | ⟨s, rfl, rfl⟩
  · cases a with
    | id s =>
      cases hv
      obtain ⟨hnew, hissued⟩ := exec_issues he (.inl rfl)
      refine .inl ⟨_, rfl, rfl, hnew, ?_⟩
      rw [hissued]
      exact List.mem_cons_self
    | _ => cases hv
  · exact .inr ⟨fun _ h => (by cases h), _, rfl⟩
  · exact .inr ⟨fun _ h => (by cases h), _, rfl⟩
  · exact .inr ⟨fun _ h => (by cases h), _, rfl⟩

theorem createRoom_quiet {name email : String} {user : UserId} {a : Answer} {b : Except Err RoomId}
    (he : exec t (.mk (.matrix (.createRoomForContact name email user))) a w = some (b, w')) :
    ∀ thread, w'.home calls thread = w.home calls thread := fun _ =>
  home_quiet he (fun _ h => by cases h) fun room h => by cases h

/-- A room that the homeserver has just named has one maker, and no message is sent from there. -/
theorem create_leaves {name email : String} {user : UserId} {b : Except Err RoomId}
    (hd : law.step cfg calls t (.matrix (.createRoomForContact name email user)) (.id room) w)
    (he : exec t (.mk (.matrix (.createRoomForContact name email user))) (.id room) w =
      some (b, w')) {i : Nat} (hit : i ≠ t) : law.leaves calls i w w' := by
  have hlocks := offLocks_exec (c := .matrix (.createRoomForContact name email user)) rfl he
  have hrooms := sameRooms_exec (c := .matrix (.createRoomForContact name email user)) rfl he
  cases law with
  | anchored =>
    refine ⟨fun _ room _ _ hghost => ?_, fun o _ hghost => ?_⟩
    · rwa [hrooms.ghosts]
    · rwa [hrooms.ghosts]
  | exclusive =>
    refine ⟨fun _ _ _ _ honly other hbound => ?_, fun o ho hfree => ?_⟩
    · rw [hrooms.bound] at hbound
      exact honly other hbound
    · obtain ⟨hbound, hmakers⟩ := unshared_iff.mp hfree
      refine unshared_iff.mpr ⟨fun thread => ?_, fun j thread hkey => ?_⟩
      · rw [hrooms.bound]
        exact hbound thread
      · rw [hlocks.hand] at hkey
        by_cases hjt : j = t
        · subst hjt
          rw [founded_exec he, if_pos rfl]
          intro hsame
          obtain rfl : room = o.room := Option.some.inj hsame
          have hsends := ho.sendsFrom (fun _ => true) rfl
          simp [Law.step, hsends] at hd
        · rw [founded_ne he hjt]
          exact hmakers j thread hkey
  | stable =>
    obtain ⟨l, hl⟩ := trace_exec he
    refine ⟨⟨l, hl, fun thread room hbound => .inl ?_⟩, fun thread _ hnone => ?_,
      fun o thread _ _ hhome => ?_⟩
    · rwa [hrooms.bound]
    · rwa [hrooms.bound]
    · rwa [createRoom_quiet he]

theorem create_binding {name email : String} {user : UserId} :
    BindStep cfg calls law t (Stands law t l (.unbound thread))
      (.matrix (.createRoomForContact name email user))
      (post (fun room => Stands law t l (.founding thread room))
        fun _ => Stands law t l (.unbound thread)) := by
  refine bindStep_intro fun w a b w' hi hw hd he => ?_
  have hlocks := offLocks_exec (c := .matrix (.createRoomForContact name email user)) rfl he
  have hrooms := sameRooms_exec (c := .matrix (.createRoomForContact name email user)) rfl he
  have hhand := (hlocks.hand t).trans hw.hand
  rcases create_issues he with ⟨room, rfl, rfl, hnew, hissued⟩ | ⟨ha, err, rfl⟩
  · have hown : w'.founded t = some room := by
      rw [founded_exec he, if_pos rfl]
      rfl
    have hunnamed : ∀ i, w.founded i ≠ some room := fun i h => hnew (hi.founders.issued i room h)
    have hfounders : Founders w' := by
      refine ⟨fun i r hr => ?_, fun i j r hr hr' => ?_⟩
      · by_cases hit : i = t
        · subst hit
          obtain rfl : room = r := Option.some.inj (hown.symm.trans hr)
          exact hissued
        · rw [founded_ne he hit] at hr
          exact issued_exec he (hi.founders.issued i r hr)
      · by_cases hit : i = t
        · by_cases hjt : j = t
          · rw [hit, hjt]
          · rw [founded_ne he hjt] at hr'
            rw [hit, hown] at hr
            rw [← Option.some.inj hr] at hr'
            exact absurd hr' (hunnamed j)
        · rw [founded_ne he hit] at hr
          by_cases hjt : j = t
          · rw [hjt, hown] at hr'
            rw [← Option.some.inj hr'] at hr
            exact absurd hr (hunnamed i)
          · rw [founded_ne he hjt] at hr'
            exact hi.founders.single i j r hr hr'
    have hlaw : law.holds calls w' := by
      have hlaw := hi.law
      cases law with
      | anchored =>
        intro other r hbound
        rw [hrooms.bound] at hbound
        rw [hrooms.ghosts]
        exact hlaw other r hbound
      | exclusive =>
        intro x y r hx hy
        rw [hrooms.bound] at hx hy
        exact hlaw x y r hx hy
      | stable =>
        refine ⟨fun i other r hkey hr => ?_, fun other r hhome => ?_,
          fun other r hhome hnone i hkey => ?_⟩
        · rw [hlocks.hand] at hkey
          rw [hrooms.bound]
          by_cases hit : i = t
          · subst hit
            obtain ⟨hnone, honly⟩ := hw.footing rfl
            rw [honly other hkey]
            exact .inl hnone
          · rw [founded_ne he hit] at hr
            exact hlaw.placed i other r hkey hr
        · rw [createRoom_quiet he] at hhome
          rw [hrooms.bound]
          exact hlaw.bound other r hhome
        · rw [createRoom_quiet he] at hhome
          rw [hrooms.bound] at hnone
          rw [hlocks.hand] at hkey
          exact hlaw.free other r hhome hnone i hkey
    refine ⟨⟨hlocks.lockSafe hi.locks, hfounders, hlaw⟩,
      fun i hit => ⟨hlocks.hand i, founded_ne he hit, sending_ne he hit, create_leaves hd he hit⟩,
      ⟨hhand, hw.locked, fun hlaw => ?_, hown, fun hlaw other hbound => ?_⟩⟩
    · rw [hrooms.bound, hlocks.hand]
      exact hw.footing hlaw
    · subst hlaw
      have hd : ((w.store.threadsOf room).isEmpty &&
        !w.sendsFrom calls room fun _ => true) = true := hd
      have hempty : w.store.threadsOf room = [] :=
        List.isEmpty_iff.mp (Bool.and_eq_true_iff.mp hd).1
      rw [hrooms.bound, ← mem_threadsOf, hempty] at hbound
      cases hbound
  · have hquiet : Record.founds ⟨t, .matrix (.createRoomForContact name email user), a⟩ = none := by
      cases a with
      | id room => exact absurd rfl (ha room)
      | _ => rfl
    have hfounded := founded_quiet he hquiet
    have hstill : Still w w' :=
      ⟨hrooms, fun i thread room hkey hroom => ⟨hlocks.hand i ▸ hkey, hfounded i ▸ hroom⟩⟩
    refine ⟨⟨hlocks.lockSafe hi.locks, hi.founders.exec he fun room h => ?_,
      hstill.holds hi.law fun hlaw => ?_⟩, fun i hit =>
        ⟨hlocks.hand i, hfounded i, sending_ne he hit,
        hstill.leaves (trace_exec he) fun _ o thread _ _ hhome => ?_⟩,
      ⟨hhand, hw.locked, hrooms.at (hfounded t) (fun thread h => hlocks.hand t ▸ h) hw.footing⟩⟩
    · rwa [← hfounded]
    · subst hlaw
      exact hstill.homed hi.law (createRoom_quiet he) fun i _ _ _ _ h => hlocks.hand i ▸ h
    · rwa [createRoom_quiet he]

theorem saveGhost_run {s : Store} {email : String} {user : UserId} {now : Nat} {order : List Nat} :
    let r := StoreCmd.run now order (.saveRoomGhostMapping room email user) s
    (∀ thread, r.2.boundTo thread = s.boundTo thread) ∧
      (∀ other, s.hasGhost other → r.2.hasGhost other) ∧ (r.1 = .ok () → r.2.hasGhost room) := by
  simp only [StoreCmd.run, Store.referring]
  split
  · refine ⟨fun _ => rfl, fun other h => ?_, fun _ => by simp [Store.hasGhost]⟩
    by_cases hother : other = room
    · subst hother
      simp [Store.hasGhost]
    · simpa [Store.hasGhost, AList.lookup_insert_ne hother] using h
  · exact ⟨fun _ => rfl, fun _ h => h, by rintro ⟨⟩⟩

theorem saveGhost_keeps {email : String} {user : UserId} {a : Answer} {b : Except Err Unit}
    (hi : law.Inv calls w)
    (he : exec t (.mk (.store (.saveRoomGhostMapping room email user))) a w = some (b, w'))
    (hbound : ∀ thread, w'.store.boundTo thread = w.store.boundTo thread)
    (hghosts : ∀ other, w.store.hasGhost other → w'.store.hasGhost other) :
    law.Inv calls w' ∧ ∀ i, i ≠ t → law.Rely calls i w w' := by
  have hlocks := offLocks_exec (c := .store (.saveRoomGhostMapping room email user)) rfl he
  have hfounded := founded_quiet he rfl
  have hhomes : ∀ thread, w'.home calls thread = w.home calls thread := fun _ =>
    home_quiet he (fun _ h => by cases h) fun room h => by cases h
  have hlaw : law.holds calls w' := by
    have hlaw := hi.law
    cases law with
    | anchored =>
      intro thread r hr
      rw [hbound] at hr
      exact hghosts r (hlaw thread r hr)
    | exclusive =>
      intro thread thread' r hr hr'
      rw [hbound] at hr hr'
      exact hlaw thread thread' r hr hr'
    | stable =>
      refine ⟨fun i other r hkey hr => ?_, fun other r hhome => ?_, fun other r hhome hnone i => ?_⟩
      · rw [hlocks.hand] at hkey
        rw [hfounded] at hr
        rw [hbound]
        exact hlaw.placed i other r hkey hr
      · rw [hhomes] at hhome
        rw [hbound]
        exact hlaw.bound other r hhome
      · rw [hhomes] at hhome
        rw [hbound] at hnone
        rw [hlocks.hand]
        exact hlaw.free other r hhome hnone i
  have hleaves : ∀ i, law.leaves calls i w w' := by
    intro i
    cases law with
    | anchored => exact ⟨fun _ r _ _ => hghosts r, fun o _ => hghosts o.room⟩
    | exclusive =>
      refine ⟨fun _ _ _ _ honly other hother => ?_, fun o _ hfree => ?_⟩
      · rw [hbound] at hother
        exact honly other hother
      · obtain ⟨hnone, hmakers⟩ := unshared_iff.mp hfree
        refine unshared_iff.mpr ⟨fun thread => ?_, fun j thread hkey => ?_⟩
        · rw [hbound]
          exact hnone thread
        · rw [hlocks.hand] at hkey
          rw [hfounded]
          exact hmakers j thread hkey
    | stable =>
      obtain ⟨l, hl⟩ := trace_exec he
      refine ⟨⟨l, hl, fun thread r h => .inl ?_⟩, fun thread _ hnone => ?_,
        fun o thread _ _ hhome => ?_⟩
      · rwa [hbound]
      · rwa [hbound]
      · rwa [hhomes]
  refine ⟨⟨hlocks.lockSafe hi.locks, hi.founders.exec he fun r h => ?_, hlaw⟩, fun i hit =>
    ⟨hlocks.hand i, hfounded i, sending_ne he hit, hleaves i⟩⟩
  rwa [← hfounded]

theorem saveGhost_binding {email : String} {user : UserId} :
    BindStep cfg calls law t (Stands law t l (.founding thread room))
      (.store (.saveRoomGhostMapping room email user))
      (post (fun _ => Stands law t l (.grounded thread room))
        fun _ => Stands law t l (.founding thread room)) := by
  refine bindStep_intro fun w a b w' hi hw _ he => ?_
  have hlocks := offLocks_exec (c := .store (.saveRoomGhostMapping room email user)) rfl he
  have hfounded := founded_quiet he rfl
  obtain ⟨hbound, hghosts, hnew⟩ : (∀ thread, w'.store.boundTo thread = w.store.boundTo thread) ∧
      (∀ other, w.store.hasGhost other → w'.store.hasGhost other) ∧
      (b = .ok () → w'.store.hasGhost room) := by
    rcases exec_store he with ⟨order, -, rfl, rfl⟩ | ⟨-, rfl, rfl⟩ | ⟨-, rfl, rfl⟩
    · exact ⟨saveGhost_run.1, saveGhost_run.2.1, saveGhost_run.2.2⟩
    · exact ⟨fun _ => rfl, fun _ h => h, by rintro ⟨⟩⟩
    · exact ⟨saveGhost_run.1, saveGhost_run.2.1, by rintro ⟨⟩⟩
  have hfounding : law.Founding t thread room w' := by
    refine ⟨fun hlaw => ?_, (hfounded t).trans hw.footing.founded, fun hlaw other hother => ?_⟩
    · rw [hbound, hlocks.hand]
      exact hw.footing.unbound hlaw
    · rw [hbound] at hother
      exact hw.footing.only hlaw other hother
  obtain ⟨hinv, hrely⟩ := saveGhost_keeps hi he hbound hghosts
  refine ⟨hinv, hrely, ?_⟩
  cases b with
  | ok _ => exact ⟨(hlocks.hand t).trans hw.hand, hw.locked, hfounding, fun _ => hnew rfl⟩
  | error _ => exact ⟨(hlocks.hand t).trans hw.hand, hw.locked, hfounding⟩

/-! Mapping a thread to a room. -/

/-- The thread is now in the room, and nothing else has changed. -/
structure Bound (thread : ThreadId) (room : RoomId) (w w' : World) : Prop where
  self : w'.store.boundTo thread = some room
  others : ∀ other, other ≠ thread → w'.store.boundTo other = w.store.boundTo other
  ghosts : ∀ r, w'.store.hasGhost r = w.store.hasGhost r

theorem saveThread_exec {root : EventId} {subject : String} {a : Answer} {b : Except Err Unit}
    (he : exec t (.mk (.store (.saveThreadMappingAtomic thread root room subject))) a w =
      some (b, w')) : a = .failed ∧ w'.store = w.store ∨ a ≠ .failed ∧ Bound thread room w w' := by
  have hbound : ∀ order, Bound thread room w { w with
      store := (StoreCmd.run w.now order (.saveThreadMappingAtomic thread root room subject)
        w.store).2 } := by
    intro order
    refine ⟨by simp [StoreCmd.run, Store.boundTo], fun other hother => ?_, fun _ => rfl⟩
    simp [StoreCmd.run, Store.boundTo, AList.lookup_insert_ne hother]
  rcases exec_store he with ⟨order, ha, -, rfl⟩ | ⟨ha, -, rfl⟩ | ⟨⟨s, ha⟩, -, rfl⟩
  · have hne : a ≠ .failed := by rcases ha with ⟨rfl, -⟩ | rfl <;> rintro ⟨⟩
    exact .inr ⟨hne, (hbound order).self, (hbound order).others, (hbound order).ghosts⟩
  · exact .inl ⟨ha, rfl⟩
  · have hne : a ≠ .failed := by rw [ha]; rintro ⟨⟩
    exact .inr ⟨hne, (hbound []).self, (hbound []).others, (hbound []).ghosts⟩

/-- The task may map the thread to the room. -/
def Law.Permits (calls : Nat → Call) (law : Law) (t : Nat) (thread : ThreadId) (room : RoomId)
    (w : World) : Prop :=
  match law with
  | anchored => w.store.hasGhost room
  | exclusive => (∀ other, w.store.boundTo other = some room → other = thread) ∧
      (∀ i other, i ≠ t → .thread other ∈ w.hand i → w.founded i ≠ some room) ∧
      ∀ i o, i ≠ t → w.Composing calls i o → w.unshared o.room → o.room ≠ room
  | stable => (∀ old, w.store.boundTo thread = some old → old = room) ∧
      (w.store.boundTo thread = none → ∀ i, i ≠ t → .thread thread ∉ w.hand i) ∧
      (.thread thread ∈ w.hand t → w.founded t = some room) ∧
      ∀ r, w.home calls thread = some r → r = room

theorem Stands.permits (hi : law.Inv calls w) (hw : Stands law t l (.grounded thread room) w) :
    law.Permits calls t thread room w := by
  have hkey : .thread thread ∈ w.hand t := hw.hand ▸ hw.locked thread rfl
  obtain ⟨hfounding, hghost⟩ : law.Founding t thread room w ∧
      (law = .anchored → w.store.hasGhost room) := hw.footing
  cases law with
  | anchored => exact hghost rfl
  | exclusive =>
    refine ⟨hfounding.only rfl, fun i other hit _ hroom => ?_, fun i o _ _ hfree hsame => ?_⟩
    · exact hit (hi.founders.single i t room hroom hfounding.founded)
    · exact (unshared_iff.mp hfree).2 t thread hkey (hsame ▸ hfounding.founded)
  | stable =>
    have hnone := (hfounding.unbound rfl).1
    have hhomed : w.Homed calls := hi.law
    refine ⟨fun old hold => ?_, fun _ i hit hother => hit ?_, fun _ => hfounding.founded,
      fun r hr => ?_⟩
    · rw [hnone] at hold
      cases hold
    · exact holder_unique (hi.locks _).1 (mem_hand.mp hother) (mem_hand.mp hkey)
    · exact absurd hkey (hhomed.free thread r hr hnone t)

/-- The message is the worker's own, and the thread is the one that the mail server has told. -/
theorem Sends.permits (hone : OneWorker calls) (ht : calls t = .worker) (hi : law.Inv calls w)
    (hw : Sends calls law t ⟨room, some thread⟩ True w) : law.Permits calls t thread room w := by
  cases law with
  | anchored => exact hw.ghost rfl
  | exclusive =>
    obtain ⟨hbound, hmakers⟩ := unshared_iff.mp (hw.alone rfl trivial)
    refine ⟨fun other hother => absurd hother (hbound other),
      fun i other _ hkey => hmakers i other hkey, fun i o hit ho _ _ => ?_⟩
    exact hit (hone t i ht ho.worker)
  | stable =>
    have hhomed : w.Homed calls := hi.law
    have hhome : w.home calls thread = some room := hw.home rfl thread rfl
    refine ⟨fun old hold => ?_, fun hnone i _ => hhomed.free thread room hhome hnone i,
      fun hkey => ?_, fun r hr => ?_⟩
    · rcases hhomed.bound thread room hhome with hnone | hsome
      · rw [hnone] at hold
        cases hold
      · exact Option.some.inj (hold.symm.trans hsome)
    · rw [hw.hand] at hkey
      cases hkey
    · exact Option.some.inj (hr.symm.trans hhome)

theorem Bound.keeps (h : Bound thread room w w') (hp : law.Permits calls t thread room w)
    (hw : law.holds calls w) (htrace : ∃ l, w'.trace = l ++ w.trace)
    (hhand : ∀ i, w'.hand i = w.hand i) (hfounded : ∀ i, w'.founded i = w.founded i)
    (hhomes : ∀ thread, w'.home calls thread = w.home calls thread) :
    law.holds calls w' ∧ ∀ i, i ≠ t → law.leaves calls i w w' := by
  have hsplit : ∀ other r, w'.store.boundTo other = some r →
      other = thread ∧ r = room ∨ w.store.boundTo other = some r := by
    intro other r hother
    by_cases heq : other = thread
    · subst heq
      rw [h.self] at hother
      exact .inl ⟨rfl, (Option.some.inj hother).symm⟩
    · rw [h.others other heq] at hother
      exact .inr hother
  cases law with
  | anchored =>
    constructor
    · intro other r hother
      rw [h.ghosts]
      rcases hsplit other r hother with ⟨-, rfl⟩ | hold
      · exact hp
      · exact hw other r hold
    · refine fun i _ => ⟨fun _ r _ _ hghost => ?_, fun o _ hghost => ?_⟩
      · rwa [h.ghosts]
      · rwa [h.ghosts]
  | exclusive =>
    obtain ⟨honly, hmakers, hsends⟩ := hp
    constructor
    · intro x y r hx hy
      rcases hsplit x r hx with ⟨rfl, rfl⟩ | hx
      · rcases hsplit y r hy with ⟨rfl, -⟩ | hy
        · rfl
        · exact (honly y hy).symm
      · rcases hsplit y r hy with ⟨rfl, rfl⟩ | hy
        · exact honly x hx
        · exact hw x y r hx hy
    · intro i hit
      refine ⟨fun maker r hkey hroom hmaker other hother => ?_, fun o ho hfree => ?_⟩
      · rcases hsplit other r hother with ⟨rfl, rfl⟩ | hold
        · exact absurd hroom (hmakers i maker hit hkey)
        · exact hmaker other hold
      · obtain ⟨hnone, hothers⟩ := unshared_iff.mp hfree
        refine unshared_iff.mpr ⟨fun other hother => ?_, fun j other hkey => ?_⟩
        · rcases hsplit other o.room hother with ⟨-, hsame⟩ | hold
          · exact hsends i o hit ho hfree hsame
          · exact hnone other hold
        · rw [hhand] at hkey
          rw [hfounded]
          exact hothers j other hkey
  | stable =>
    obtain ⟨hsame, hfree, hmine, hhome⟩ := hp
    have hw : w.Homed calls := hw
    refine ⟨⟨fun i other r hkey hr => ?_, fun other r hr => ?_, fun other r hr hnone => ?_⟩,
      fun i hit => ⟨?_, fun other hkey hnone => ?_, fun o other _ _ hr => ?_⟩⟩
    · rw [hhand] at hkey
      rw [hfounded] at hr
      by_cases heq : other = thread
      · subst heq
        rw [h.self]
        refine .inr (congrArg some ?_)
        rcases hw.placed i other r hkey hr with hnone | hsome
        · by_cases hit : i = t
          · subst hit
            exact Option.some.inj ((hmine hkey).symm.trans hr)
          · exact absurd hkey (hfree hnone i hit)
        · exact (hsame r hsome).symm
      · rw [h.others other heq]
        exact hw.placed i other r hkey hr
    · rw [hhomes] at hr
      by_cases heq : other = thread
      · subst heq
        rw [h.self, hhome r hr]
        exact .inr rfl
      · rw [h.others other heq]
        exact hw.bound other r hr
    · rw [hhomes] at hr
      by_cases heq : other = thread
      · subst heq
        rw [h.self] at hnone
        cases hnone
      · rw [h.others other heq] at hnone
        intro i
        rw [hhand]
        exact hw.free other r hr hnone i
    · obtain ⟨l, hl⟩ := htrace
      refine ⟨l, hl, fun other r hother => .inl ?_⟩
      by_cases heq : other = thread
      · subst heq
        rw [h.self, hsame r hother]
      · rwa [h.others other heq]
    · by_cases heq : other = thread
      · subst heq
        exact absurd hkey (hfree hnone i hit)
      · rwa [h.others other heq]
    · rwa [hhomes]

theorem saveThread_keeps {root : EventId} {subject : String} {a : Answer} {b : Except Err Unit}
    (hi : law.Inv calls w) (hp : law.Permits calls t thread room w)
    (he : exec t (.mk (.store (.saveThreadMappingAtomic thread root room subject))) a w =
      some (b, w')) :
    law.Inv calls w' ∧ (∀ i, i ≠ t → law.Rely calls i w w') ∧ w'.hand t = w.hand t := by
  have hlocks := offLocks_exec (c := .store (.saveThreadMappingAtomic thread root room subject))
    rfl he
  have hfounded := founded_quiet he rfl
  have hhomes : ∀ thread, w'.home calls thread = w.home calls thread := fun _ =>
    home_quiet he (fun _ h => by cases h) fun room h => by cases h
  have hfounders : Founders w' := hi.founders.exec he fun r h => by rwa [← hfounded]
  rcases saveThread_exec he with ⟨-, hstore⟩ | ⟨-, hbound⟩
  · have hstill : Still w w' := by
      refine ⟨by rw [hstore]; exact .refl _, fun i thread r hkey hr => ?_⟩
      exact ⟨hlocks.hand i ▸ hkey, hfounded i ▸ hr⟩
    refine ⟨⟨hlocks.lockSafe hi.locks, hfounders, hstill.holds hi.law fun hlaw => ?_⟩,
      fun i hit => ⟨hlocks.hand i, hfounded i, sending_ne he hit,
        hstill.leaves (trace_exec he) fun _ o other _ _ hhome => ?_⟩, hlocks.hand t⟩
    · subst hlaw
      exact hstill.homed hi.law hhomes fun i _ _ _ _ h => hlocks.hand i ▸ h
    · rwa [hhomes]
  · obtain ⟨hlaw, hleaves⟩ :=
      hbound.keeps hp hi.law (trace_exec he) hlocks.hand hfounded hhomes
    exact ⟨⟨hlocks.lockSafe hi.locks, hfounders, hlaw⟩,
      fun i hit => ⟨hlocks.hand i, hfounded i, sending_ne he hit, hleaves i hit⟩, hlocks.hand t⟩

theorem saveThread_binding {root : EventId} {subject : String} :
    BindStep cfg calls law t (Stands law t l (.grounded thread room))
      (.store (.saveThreadMappingAtomic thread root room subject))
      fun _ => Stands law t l .idle := by
  refine bindStep_intro fun w a b w' hi hw _ he => ?_
  obtain ⟨hinv, hrely, hhand⟩ := saveThread_keeps hi (hw.permits hi) he
  exact ⟨hinv, hrely, hhand.trans hw.hand, by rintro _ ⟨⟩, trivial⟩

theorem saveComposed_binding (hone : OneWorker calls) (ht : calls t = .worker) {root : EventId}
    {subject : String} :
    BindStep cfg calls law t (Sends calls law t ⟨room, some thread⟩ True)
      (.store (.saveThreadMappingAtomic thread root room subject))
      fun _ => Stands law t [] .idle := by
  refine bindStep_intro fun w a b w' hi hw _ he => ?_
  obtain ⟨hinv, hrely, hhand⟩ := saveThread_keeps hi (hw.permits hone ht hi) he
  exact ⟨hinv, hrely, hhand.trans hw.hand, by rintro _ ⟨⟩, trivial⟩

/-! Taking the mappings of a room away. -/

theorem deleteThreads_exec {a : Answer} {b : Except Err Unit}
    (he : exec t (.mk (.store (.deleteThreadMappings room))) a w = some (b, w')) :
    (∀ r, w'.store.hasGhost r = w.store.hasGhost r) ∧
      (∀ thread r, w'.store.boundTo thread = some r → w.store.boundTo thread = some r) ∧
      ∀ thread r, w.store.boundTo thread = some r → w'.store.boundTo thread = some r ∨
        r = room ∧ a ≠ .failed := by
  have hrun : ∀ order thread r,
      ((StoreCmd.run w.now order (.deleteThreadMappings room) w.store).2.boundTo thread = some r →
        w.store.boundTo thread = some r) ∧ (w.store.boundTo thread = some r → r ≠ room →
        (StoreCmd.run w.now order (.deleteThreadMappings room) w.store).2.boundTo thread =
          some r) := by
    intro order thread r
    constructor
    · intro h
      obtain ⟨row, hrow, rfl⟩ := Option.map_eq_some_iff.mp h
      exact Option.map_eq_some_iff.mpr ⟨row, (Table.lookup_of_lookup_deleteWhere hrow).1, rfl⟩
    · intro h hr
      obtain ⟨row, hrow, rfl⟩ := Option.map_eq_some_iff.mp h
      exact Option.map_eq_some_iff.mpr
        ⟨row, Table.lookup_deleteWhere_of_not (by simpa using hr) hrow, rfl⟩
  have heffect : ∀ order, a ≠ .failed → w'.store =
      (StoreCmd.run w.now order (.deleteThreadMappings room) w.store).2 →
      (∀ r, w'.store.hasGhost r = w.store.hasGhost r) ∧
      (∀ thread r, w'.store.boundTo thread = some r → w.store.boundTo thread = some r) ∧
      ∀ thread r, w.store.boundTo thread = some r → w'.store.boundTo thread = some r ∨
        r = room ∧ a ≠ .failed := by
    intro order ha hstore
    rw [hstore]
    refine ⟨fun _ => rfl, fun thread r => (hrun order thread r).1, fun thread r h => ?_⟩
    by_cases hr : r = room
    · exact .inr ⟨hr, ha⟩
    · exact .inl ((hrun order thread r).2 h hr)
  rcases exec_store he with ⟨order, ha, -, rfl⟩ | ⟨ha, -, rfl⟩ | ⟨⟨s, ha⟩, -, rfl⟩
  · refine heffect order ?_ rfl
    rcases ha with ⟨rfl, -⟩ | rfl <;> rintro ⟨⟩
  · exact ⟨fun _ => rfl, fun _ _ h => h, fun _ _ h => .inl h⟩
  · refine heffect [] ?_ rfl
    rw [ha]
    rintro ⟨⟩

theorem deleteThreads_home {a : Answer} {b : Except Err Unit} {r : RoomId}
    (he : exec t (.mk (.store (.deleteThreadMappings room))) a w = some (b, w')) :
    w'.home calls thread = some r ↔
      w.home calls thread = some r ∧ (r = room → a = .failed) := by
  have hun : (⟨t, .store (.deleteThreadMappings room), a⟩ : Record).unbridges r ↔
      r = room ∧ a ≠ .failed := by
    constructor
    · rintro ⟨hsame, ha⟩
      cases hsame
      exact ⟨rfl, ha⟩
    · rintro ⟨rfl, ha⟩
      exact ⟨rfl, ha⟩
  rw [home_untold he fun _ h => by cases h]
  simp only [Option.filter_eq_some_iff, decide_eq_true_eq, hun, not_and, not_not]

theorem deleteThreads_homed {a : Answer} {b : Except Err Unit} (hw : w.Homed calls)
    (he : exec t (.mk (.store (.deleteThreadMappings room))) a w = some (b, w')) :
    w'.Homed calls := by
  have hlocks := offLocks_exec (c := .store (.deleteThreadMappings room)) rfl he
  obtain ⟨-, hback, hforth⟩ := deleteThreads_exec he
  have hshrink : ∀ other r, w.store.boundTo other = none ∨ w.store.boundTo other = some r →
      w'.store.boundTo other = none ∨ w'.store.boundTo other = some r := by
    intro other r h
    cases hnew : w'.store.boundTo other with
    | none => exact .inl rfl
    | some r' =>
      rw [hback other r' hnew] at h
      exact .inr (h.resolve_left (by rintro ⟨⟩))
  refine ⟨fun i other r hkey hr => ?_, fun other r hhome => ?_, fun other r hhome hnone i => ?_⟩
  · rw [hlocks.hand] at hkey
    rw [founded_quiet he rfl] at hr
    exact hshrink other r (hw.placed i other r hkey hr)
  · exact hshrink other r (hw.bound other r ((deleteThreads_home he).mp hhome).1)
  · obtain ⟨hhome, hstays⟩ := (deleteThreads_home he).mp hhome
    rw [hlocks.hand]
    refine hw.free other r hhome ?_ i
    rcases hw.bound other r hhome with hold | hold
    · exact hold
    · rcases hforth other r hold with hnew | ⟨hsame, ha⟩
      · rw [hnone] at hnew
        cases hnew
      · exact absurd (hstays hsame) ha

theorem deleteThreads_keeps :
    Keeps (bridge cfg calls) (law.discipline cfg calls) (law.contract calls) t
      (Stands law t l .idle) _ (.mk (.store (.deleteThreadMappings room))) := by
  intro w a b w' hw hi hd he
  have he : exec t (.mk (.store (.deleteThreadMappings room))) a w = some (b, w') := he
  have hi : law.Inv calls w := hi
  have hd : law.step cfg calls t (.store (.deleteThreadMappings room)) a w := hd
  have hlocks := offLocks_exec (c := .store (.deleteThreadMappings room)) rfl he
  have hfounded := founded_quiet he rfl
  obtain ⟨hghosts, hback, hforth⟩ := deleteThreads_exec he
  have hlaw : law.holds calls w' := by
    have hlaw := hi.law
    cases law with
    | anchored =>
      intro thread r h
      rw [hghosts]
      exact hlaw thread r (hback thread r h)
    | exclusive =>
      intro x y r hx hy
      exact hlaw x y r (hback x r hx) (hback y r hy)
    | stable => exact deleteThreads_homed hlaw he
  have hleaves : ∀ i, law.leaves calls i w w' := by
    intro i
    cases law with
    | anchored =>
      refine ⟨fun _ r _ _ hghost => ?_, fun o _ hghost => ?_⟩
      · rwa [hghosts]
      · rwa [hghosts]
    | exclusive =>
      refine ⟨fun _ r _ _ honly other h => honly other (hback other r h), fun o _ hfree => ?_⟩
      obtain ⟨hnone, hmakers⟩ := unshared_iff.mp hfree
      refine unshared_iff.mpr ⟨fun other h => hnone other (hback other _ h), fun j other hkey => ?_⟩
      rw [hlocks.hand] at hkey
      rw [hfounded]
      exact hmakers j other hkey
    | stable =>
      refine ⟨⟨[_], exec_trace he, fun thread r h => ?_⟩, fun thread _ hnone => ?_,
        fun o thread ho hthread hhome => (deleteThreads_home he).mpr ⟨hhome, fun hsame => ?_⟩⟩
      · rcases hforth thread r h with h | ⟨rfl, ha⟩
        · exact .inl h
        · exact .inr ⟨_, List.mem_singleton_self _, rfl, ha⟩
      · cases hnew : w'.store.boundTo thread with
        | none => rfl
        | some r =>
          rw [hback thread r hnew] at hnone
          cases hnone
      · -- no message of the room is between its submission and its record
        have hsends := ho.sendsFrom (fun o => o.thread.isSome) (by simp [hthread])
        rw [hsame] at hsends
        simpa [Law.step, hsends] using hd
  refine ⟨⟨hlocks.lockSafe hi.locks, hi.founders.exec he fun r h => ?_, hlaw⟩,
    fun i hit => ⟨hlocks.hand i, hfounded i, sending_ne he hit, hleaves i⟩,
    ⟨(hlocks.hand t).trans hw.hand, hw.locked, trivial⟩⟩
  rwa [← hfounded]

theorem deleteGhost_exec {a : Answer} {b : Except Err Unit}
    (he : exec t (.mk (.store (.deleteRoomGhostMapping room))) a w = some (b, w')) :
    (∀ thread, w'.store.boundTo thread = w.store.boundTo thread) ∧
      ∀ r, a = .failed ∨ r ≠ room → w'.store.hasGhost r = w.store.hasGhost r := by
  have hrun : ∀ order r, r ≠ room →
      (StoreCmd.run w.now order (.deleteRoomGhostMapping room) w.store).2.hasGhost r =
        w.store.hasGhost r := by
    intro order r hr
    simp [StoreCmd.run, Store.hasGhost, AList.lookup_erase_ne hr]
  rcases exec_store he with ⟨order, ha, -, rfl⟩ | ⟨-, -, rfl⟩ | ⟨⟨s, ha⟩, -, rfl⟩
  · refine ⟨fun _ => rfl, fun r h => hrun order r (h.resolve_left ?_)⟩
    rcases ha with ⟨rfl, -⟩ | rfl <;> rintro ⟨⟩
  · exact ⟨fun _ => rfl, fun _ _ => rfl⟩
  · refine ⟨fun _ => rfl, fun r h => hrun [] r (h.resolve_left ?_)⟩
    rw [ha]
    rintro ⟨⟩

/-- A room that the task is asked to unbridge has no thread and is given none when its ghost is
taken away. -/
theorem deleteGhost_unused {a : Answer}
    (hd : Law.anchored.step cfg calls t (.store (.deleteRoomGhostMapping room)) a w)
    (hroom : room ∈ (calls t).unbridges cfg) :
    a = .failed ∨ w.unshared room ∧ ∀ i o, w.Composing calls i o → o.room ≠ room := by
  rcases Bool.or_eq_true_iff.mp hd with hd | hunused
  · refine .inl ?_
    simpa [hroom] using hd
  · rw [Bool.and_eq_true] at hunused
    refine .inr ⟨hunused.1, fun i o ho hsame => ?_⟩
    have hsends := ho.sendsFrom (fun _ => true) rfl
    rw [hsame] at hsends
    simp [hsends] at hunused

theorem deleteGhost_keeps (hroom : room ∈ (calls t).unbridges cfg) :
    Keeps (bridge cfg calls) (law.discipline cfg calls) (law.contract calls) t
      (Stands law t l .idle) _ (.mk (.store (.deleteRoomGhostMapping room))) := by
  intro w a b w' hw hi hd he
  have he : exec t (.mk (.store (.deleteRoomGhostMapping room))) a w = some (b, w') := he
  have hi : law.Inv calls w := hi
  have hd : law.step cfg calls t (.store (.deleteRoomGhostMapping room)) a w := hd
  have hlocks := offLocks_exec (c := .store (.deleteRoomGhostMapping room)) rfl he
  have hfounded := founded_quiet he rfl
  have hhomes : ∀ thread, w'.home calls thread = w.home calls thread := fun _ =>
    home_quiet he (fun _ h => by cases h) fun room h => by cases h
  obtain ⟨hbound, hghosts⟩ := deleteGhost_exec he
  have hmakers : ∀ i thread r, .thread thread ∈ w'.hand i → w'.founded i = some r →
      .thread thread ∈ w.hand i ∧ w.founded i = some r := fun i thread r hkey hr =>
    ⟨hlocks.hand i ▸ hkey, hfounded i ▸ hr⟩
  have hlaw : law.holds calls w' := by
    have hlaw := hi.law
    cases law with
    | anchored =>
      intro thread r h
      rw [hbound] at h
      rw [hghosts r ?_]
      · exact hlaw thread r h
      · refine (deleteGhost_unused hd hroom).imp id fun ⟨hfree, _⟩ hr => ?_
        exact (unshared_iff.mp hfree).1 thread (hr ▸ h)
    | exclusive =>
      intro x y r hx hy
      rw [hbound] at hx hy
      exact hlaw x y r hx hy
    | stable =>
      refine ⟨fun i thread r hkey hr => ?_, fun thread r hhome => ?_,
        fun thread r hhome hnone i => ?_⟩
      · rw [hbound]
        obtain ⟨hkey, hr⟩ := hmakers i thread r hkey hr
        exact hlaw.placed i thread r hkey hr
      · rw [hhomes] at hhome
        rw [hbound]
        exact hlaw.bound thread r hhome
      · rw [hhomes] at hhome
        rw [hbound] at hnone
        rw [hlocks.hand]
        exact hlaw.free thread r hhome hnone i
  have hleaves : ∀ i, law.leaves calls i w w' := by
    intro i
    cases law with
    | anchored =>
      refine ⟨fun thread r hkey hr hghost => ?_, fun o ho hghost => ?_⟩
      · rw [hghosts r ?_]
        · exact hghost
        · refine (deleteGhost_unused hd hroom).imp id fun ⟨hfree, _⟩ hsame => ?_
          exact (unshared_iff.mp hfree).2 i thread hkey (hsame ▸ hr)
      · rw [hghosts o.room ?_]
        · exact hghost
        · exact (deleteGhost_unused hd hroom).imp id fun ⟨_, hsends⟩ => hsends i o ho
    | exclusive =>
      refine ⟨fun _ r _ _ honly other h => ?_, fun o _ hfree => ?_⟩
      · rw [hbound] at h
        exact honly other h
      · obtain ⟨hnone, hothers⟩ := unshared_iff.mp hfree
        refine unshared_iff.mpr ⟨fun thread => ?_, fun j thread hkey hr => ?_⟩
        · rw [hbound]
          exact hnone thread
        · obtain ⟨hkey, hr⟩ := hmakers j thread o.room hkey hr
          exact hothers j thread hkey hr
    | stable =>
      refine ⟨⟨[_], exec_trace he, fun thread r h => .inl ?_⟩, fun thread _ hnone => ?_,
        fun o thread _ _ hhome => ?_⟩
      · rwa [hbound]
      · rwa [hbound]
      · rwa [hhomes]
  refine ⟨⟨hlocks.lockSafe hi.locks, hi.founders.exec he fun r h => ?_, hlaw⟩,
    fun i hit => ⟨hlocks.hand i, hfounded i, sending_ne he hit, hleaves i⟩,
    ⟨(hlocks.hand t).trans hw.hand, hw.locked, trivial⟩⟩
  rwa [← hfounded]

end

end JmapBridge
