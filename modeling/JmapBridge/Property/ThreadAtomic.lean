import JmapBridge.Model.Inbound
import JmapBridge.Model.Frames

/-! Bridging a new thread is atomic but for one stretch: from the moment the homeserver has
made the room until the thread is mapped to it. -/

namespace JmapBridge

open Effect Sql

/-- The homeserver makes a room for a contact, whether or not the bridge learns of it. -/
def Record.makesRoom (r : Record) : Bool :=
  match r.cmd, r.answer with
  | .matrix (.createRoomForContact _ _ _), .id _ => true
  | .matrix (.createRoomForContact _ _ _), .lost _ => true
  | _, _ => false

/-- What a conversation needs besides a registered user. -/
inductive Need where
  | room
  | ghost
  | ownEmail
  | message
  | thread
deriving DecidableEq, Repr

def Need.asks : Need → Cmd → Bool
  | room, .matrix (.createRoomForContact _ _ _) => true
  | ghost, .store (.saveRoomGhostMapping _ _ _) => true
  | ownEmail, .store (.getJmapState _ .userEmail) => true
  | message, .matrix (.sendAsGhost _ _ (.message _) _) => true
  | thread, .store (.saveThreadMappingAtomic _ _ _ _) => true
  | _, _ => false

/-- The bridge is refused what it asks for, or never told of it. The row of a thread is what
matters of its mapping, and a lost answer leaves that in place. -/
def Need.denied : Need → Answer → Bool
  | _, .failed => true
  | thread, _ => false
  | _, .lost _ => true
  | _, .notJoined => true
  | _, _ => false

/-- It was denied when it was last asked for. -/
def World.lacks (w : World) (n : Need) : Bool :=
  ((w.trace.find? fun r => n.asks r.cmd).map fun r => n.denied r.answer).getD false

def World.roomsMade (w : World) : Nat := w.trace.countP Record.makesRoom

/-- Of the rows for rooms of contacts that are there now and were not before, each has a thread
that points at its room. -/
def Paired (w w' : World) : Prop :=
  ∀ room, (w'.store.roomGhostMapping.lookup room).isSome →
    (w.store.roomGhostMapping.lookup room).isSome ∨
      ∃ thread row, w'.store.threadMapping.lookup thread = some row ∧ row.roomId = room

/-- A later email of the thread, and this one tried again, is given no room of its own: not with
the same mappings, whoever polls and whatever locks have been let go. -/
def NoSecondRoom (cfg : Config) (calls : Nat → Call) (t : Nat) (thread : ThreadId)
    (w' : World) : Prop :=
  ∀ (p : Poller) (email : Email) (ghost : GhostUser) (body : EmailBody) (w₁ w₂ : World)
    (r : Except Err Unit), email.threadId = some thread →
    w₁.store = { w'.store with roomCreationLocks := w₁.store.roomCreationLocks } →
    Eval (bridge cfg calls) {} t (bridgeToRoom cfg p email thread ghost body) w₁ r w₂ →
    w₂.roomsMade = w₁.roomsMade

/-- The call leaves no half-made conversation. -/
def Atomic (cfg : Config) (calls : Nat → Call) (t : Nat) (email : Email) (w w' : World) : Prop :=
  Paired w w' ∧ ∀ thread, email.threadId = some thread → w.roomsMade < w'.roomsMade →
    NoSecondRoom cfg calls t thread w'

/-- The homeserver has made a room in the call, but the user is not registered, or one of the
things that the conversation needs was denied. -/
structure Stranded (p : Poller) (w w' : World) : Prop where
  made : w.roomsMade < w'.roomsMade
  stopped : w.store.hasUser p.user = false ∨ ∃ n, w'.lacks n = true

/-! ### What a command does to rooms and threads -/

def Cmd.roomless : Cmd → Bool
  | matrix (.createRoomForContact _ _ _) => false
  | matrix (.sendAsGhost _ _ (.message _) _) => false
  | store (.saveRoomGhostMapping _ _ _) => false
  | store (.getJmapState _ .userEmail) => false
  | store (.deleteRoomGhostMapping _) => false
  | store (.saveThreadMappingAtomic _ _ _ _) => false
  | store (.deleteThreadMappings _) => false
  | _ => true

/-- What there is of the rooms of contacts and of the room of one thread, and what is lacking. -/
@[ext] structure RoomView where
  ghosts : Table RoomId GhostRow
  room : Option RoomId
  known : Bool
  made : Nat
  lacking : Need → Bool

def World.roomView (user : UserId) (thread : ThreadId) (w : World) : RoomView where
  ghosts := w.store.roomGhostMapping
  room := (w.store.threadMapping.lookup thread).map (·.roomId)
  known := w.store.hasUser user
  made := w.roomsMade
  lacking := w.lacks

/-- The need has been asked for, and denied or not. -/
def RoomView.note (n : Need) (b : Bool) (v : RoomView) : RoomView :=
  { v with lacking := fun m => if m = n then b else v.lacking m }

@[simp] theorem RoomView.note_note (n : Need) (b b' : Bool) (v : RoomView) :
    (v.note n b).note n b' = v.note n b' := by
  refine RoomView.ext rfl rfl rfl rfl (funext fun m => ?_)
  by_cases h : m = n
  · exact (if_pos h).trans (if_pos h).symm
  · exact ((if_neg h).trans (if_neg h)).trans (if_neg h).symm

section

variable {cfg : Config} {calls : Nat → Call} {t : Nat} {w w' w₀ : World} {α β : Type}
  {thread : ThreadId} {p : Poller} {email : Email} {ghost : GhostUser} {body : EmailBody}
  {emailId : EmailId} {user : UserId}

theorem run_roomless {c : StoreCmd} (hc : (Cmd.store c).roomless) (now : Nat) (order : List Nat)
    (s : Store) (thread : ThreadId) :
    (c.run now order s).2.roomGhostMapping = s.roomGhostMapping ∧
      ((c.run now order s).2.threadMapping.lookup thread).map (·.roomId) =
        (s.threadMapping.lookup thread).map (·.roomId) := by
  cases c with
  | saveRoomGhostMapping => cases hc
  | deleteRoomGhostMapping => cases hc
  | saveThreadMappingAtomic => cases hc
  | deleteThreadMappings => cases hc
  | saveJmapState user key state =>
    simp only [StoreCmd.run, Store.referring]
    split
    · exact ⟨rfl, rfl⟩
    · exact ⟨rfl, rfl⟩
  | addToOutboundQueue =>
    simp only [StoreCmd.run, Store.referring]
    split
    · exact ⟨rfl, rfl⟩
    · exact ⟨rfl, rfl⟩
  | tryAcquireRoomCreationLock key =>
    simp only [StoreCmd.run]
    split
    · exact ⟨rfl, rfl⟩
    · exact ⟨rfl, rfl⟩
  | updateThreadLatestEvent th latest =>
    refine ⟨rfl, ?_⟩
    show ((s.threadMapping.modify th _).lookup thread).map _ = _
    rw [Table.lookup_modify, Option.map_map]
    refine congrArg (Option.map · _) (funext fun row => ?_)
    by_cases h : thread = th
    · simp [h]
    · simp [h]
  | _ => exact ⟨rfl, rfl⟩

theorem roomless_asks {c : Cmd} (hc : c.roomless) (n : Need) : n.asks c = false := by
  cases n with
  | room =>
    cases c with
    | matrix c =>
      cases c with
      | createRoomForContact => cases hc
      | _ => rfl
    | _ => rfl
  | ghost =>
    cases c with
    | store c =>
      cases c with
      | saveRoomGhostMapping => cases hc
      | _ => rfl
    | _ => rfl
  | ownEmail =>
    cases c with
    | store c =>
      cases c with
      | getJmapState user key =>
        cases key with
        | userEmail => cases hc
        | _ => rfl
      | _ => rfl
    | _ => rfl
  | message =>
    cases c with
    | matrix c =>
      cases c with
      | sendAsGhost room sender content =>
        cases content with
        | message => cases hc
        | _ => rfl
      | _ => rfl
    | _ => rfl
  | thread =>
    cases c with
    | store c =>
      cases c with
      | saveThreadMappingAtomic => cases hc
      | _ => rfl
    | _ => rfl

theorem makesRoom_asks {c : Cmd} {a : Answer} (h : Need.room.asks c = false) :
    (⟨t, c, a⟩ : Record).makesRoom = false := by
  cases c with
  | matrix c =>
    cases c with
    | createRoomForContact => cases h
    | _ => rfl
  | _ => rfl

theorem roomsMade_exec {c : Cmd} {a : Answer} {b : c.Ans}
    (h : exec t (.mk c) a w = some (b, w')) :
    w'.roomsMade = w.roomsMade + if (⟨t, c, a⟩ : Record).makesRoom then 1 else 0 := by
  rw [World.roomsMade, exec_trace h, List.countP_cons]
  rfl

theorem lacks_exec {c : Cmd} {a : Answer} {b : c.Ans} (h : exec t (.mk c) a w = some (b, w'))
    (n : Need) : w'.lacks n = if n.asks c then n.denied a else w.lacks n := by
  rw [World.lacks, exec_trace h, List.find?_cons]
  cases hasks : n.asks c with
  | true => rfl
  | false => rfl

theorem roomless_exec {c : Cmd} {a : Answer} {b : c.Ans} (hc : c.roomless)
    (h : exec t (.mk c) a w = some (b, w')) :
    w'.roomView user thread = w.roomView user thread := by
  have hstore : (w'.roomView user thread).ghosts = (w.roomView user thread).ghosts ∧
      (w'.roomView user thread).room = (w.roomView user thread).room := by
    rcases exec_run h with hsame | ⟨q, order, rfl, -, hrun⟩
    · rw [World.roomView, hsame]
      exact ⟨rfl, rfl⟩
    · rw [World.roomView, hrun]
      exact run_roomless hc w.now order w.store thread
  refine RoomView.ext hstore.1 hstore.2 (hasUser_exec h) ?_ (funext fun n => ?_)
  · show w'.roomsMade = w.roomsMade
    rw [roomsMade_exec h, makesRoom_asks (roomless_asks hc .room)]
    rfl
  · show w'.lacks n = w.lacks n
    rw [lacks_exec h, roomless_asks hc n]
    rfl

/-- A command that leaves the store alone and makes no room is noted, and no more. -/
theorem note_exec {c : Cmd} {a : Answer} {b : c.Ans} {n : Need} (hstore : w'.store = w.store)
    (hn : ∀ m, m.asks c = decide (m = n)) (hroom : n ≠ .room)
    (h : exec t (.mk c) a w = some (b, w')) :
    w'.roomView user thread = (w.roomView user thread).note n (n.denied a) := by
  have hmade : w'.roomsMade = w.roomsMade := by
    rw [roomsMade_exec h, makesRoom_asks ((hn .room).trans (decide_eq_false hroom.symm))]
    rfl
  refine RoomView.ext (congrArg Store.roomGhostMapping hstore)
    (congrArg (fun s : Store => (s.threadMapping.lookup thread).map ThreadRow.roomId) hstore)
    (hasUser_exec h) hmade (funext fun m => ?_)
  show w'.lacks m = if m = n then n.denied a else w.lacks m
  rw [lacks_exec h, hn m]
  by_cases heq : m = n
  · rw [heq, decide_eq_true rfl, if_pos rfl, if_pos rfl]
  · rw [decide_eq_false heq, if_neg Bool.false_ne_true, if_neg heq]

theorem roomless_ends {P : RoomView → Prop} {x : Prog Op α} (hx : Does (fun c => c.roomless) x) :
    Ends (bridge cfg calls) {} t (fun w => P (w.roomView user thread)) x
      fun _ w => P (w.roomView user thread) := by
  refine .only (φ := fun _ o => o.cmd.roomless) (fun β o a w b w' ho _ he hw => ?_) hx
  obtain ⟨c⟩ := o
  have he : exec t (.mk c) a w = some (b, w') := he
  show P (w'.roomView user thread)
  rw [roomless_exec ho he]
  exact hw

theorem AttachmentCmd.roomless {room : RoomId} {c : Cmd} (h : AttachmentCmd p room c) :
    c.roomless := by
  cases h <;> rfl

theorem registerGhost_roomless {address name : String} :
    Does (fun c => c.roomless) (registerGhost cfg address name) := by
  refine .andThen (.matrix rfl) fun b => ?_
  split
  · exact .bestEffort (.matrix rfl)
  · exact .ok

theorem awaitThreadLock_roomless : Does (fun c => c.roomless) (awaitThreadLock thread) := by
  refine .loop fun _ => .andThen (.store rfl) fun row => ?_
  split
  · exact .ok
  · refine .andThen (.store rfl) fun b => ?_
    split
    · exact .ok
    · exact .andThen (.lift (.task rfl)) fun _ => .ok

/-! ### How far the call has come -/

structure Untried (v₀ v : RoomView) : Prop where
  ghosts : v.ghosts = v₀.ghosts
  made : v.made = v₀.made

structure Dangling (v₀ v : RoomView) : Prop where
  unmapped : v.room = none
  made : v₀.made < v.made
  stopped : v₀.known = false ∨ ∃ n, v.lacking n = true

structure Pending (v₀ v : RoomView) : Prop where
  unmapped : v.room = none
  made : v₀.made < v.made
  known : v.known = v₀.known
  answered : v.lacking .room = false

/-- Of the rooms of contacts that are there, one may be new. -/
def OnlyNew (room : RoomId) (v₀ v : RoomView) : Prop :=
  ∀ x, (v.ghosts.lookup x).isSome → x = room ∨ (v₀.ghosts.lookup x).isSome

structure Housed (room : RoomId) (v₀ v : RoomView) : Prop extends Pending v₀ v where
  registered : v₀.known = true
  ghost : v.lacking .ghost = false
  new : OnlyNew room v₀ v

structure Addressed (room : RoomId) (v₀ v : RoomView) : Prop extends Housed room v₀ v where
  ownEmail : v.lacking .ownEmail = false

structure Conveyed (room : RoomId) (v₀ v : RoomView) : Prop extends Addressed room v₀ v where
  message : v.lacking .message = false

structure MappedTo (room : RoomId) (v₀ v : RoomView) : Prop where
  registered : v₀.known = true
  points : v.room = some room
  new : OnlyNew room v₀ v
  met : ∀ n, v.lacking n = false

inductive ThreadEnding (v₀ v : RoomView) : Prop where
  | untried (h : Untried v₀ v)
  | dangling (h : Dangling v₀ v)
  | finished (room : RoomId) (h : MappedTo room v₀ v)

variable {v₀ v : RoomView} {room : RoomId}

/-- What follows may ask for the user's address and be denied it. -/
theorem Housed.note (h : Housed room v₀ v) (b : Bool) : Housed room v₀ (v.note .ownEmail b) :=
  ⟨⟨h.unmapped, h.made, h.known, h.answered⟩, h.registered, h.ghost, h.new⟩

theorem Housed.addressed (h : Housed room v₀ v) : Addressed room v₀ (v.note .ownEmail false) :=
  ⟨h.note false, rfl⟩

theorem Addressed.conveyed (h : Addressed room v₀ v) : Conveyed room v₀ (v.note .message false) :=
  ⟨⟨⟨⟨h.unmapped, h.made, h.known, h.answered⟩, h.registered, h.ghost, h.new⟩, h.ownEmail⟩, rfl⟩

theorem Pending.denied (h : Pending v₀ v) (n : Need) : ThreadEnding v₀ (v.note n true) :=
  .dangling ⟨h.unmapped, h.made, .inr ⟨n, if_pos rfl⟩⟩

theorem getThreadInfo_ends {P : RoomView → Prop} :
    Ends (bridge cfg calls) {} t (fun w => P (w.roomView user thread))
      (onStore (.getThreadInfo thread))
      (onResult (fun row w => P (w.roomView user thread) ∧
          (w.roomView user thread).room = row.map (·.roomId))
        fun _ w => P (w.roomView user thread)) := by
  refine .call fun w a r w' hw _ he => ?_
  have hexec : exec t (.mk (.store (.getThreadInfo thread))) a w = some (r, w') := he
  have hview : w'.roomView user thread = w.roomView user thread :=
    roomless_exec (c := .store (.getThreadInfo thread)) rfl hexec
  have hkept : P (w'.roomView user thread) := by
    rw [hview]
    exact hw
  rcases exec_store hexec with ⟨order, -, rfl, -⟩ | ⟨-, rfl, -⟩ | ⟨-, rfl, -⟩
  · refine ⟨hkept, ?_⟩
    rw [hview]
    rfl
  · exact hkept
  · exact hkept

theorem createRoomForContact_ends {name address : String} {contact : UserId} :
    Ends (bridge cfg calls) {} t (fun w => w.roomView user thread = v₀ ∧ v₀.room = none)
      (onMatrix (.createRoomForContact name address contact))
      (onResult (fun _ w => Pending v₀ (w.roomView user thread) ∧
          (w.roomView user thread).ghosts = v₀.ghosts)
        fun _ w => ThreadEnding v₀ (w.roomView user thread)) := by
  refine .call fun w a r w' hw _ he => ?_
  obtain ⟨rfl, hnone⟩ := hw
  have hexec : exec t (.mk (.matrix (.createRoomForContact name address contact))) a w =
    some (r, w') := he
  obtain ⟨⟨issued, hw'⟩, -⟩ := exec_matrix hexec
  have hstore : w'.store = w.store := by rw [hw']
  have hghosts : (w'.roomView user thread).ghosts = (w.roomView user thread).ghosts :=
    congrArg Store.roomGhostMapping hstore
  have hroom : (w'.roomView user thread).room = none := by
    rw [World.roomView, hstore]
    exact hnone
  have hmade : (⟨t, .matrix (.createRoomForContact name address contact), a⟩ : Record).makesRoom →
      (w.roomView user thread).made < (w'.roomView user thread).made := by
    intro hyes
    show w.roomsMade < w'.roomsMade
    rw [roomsMade_exec hexec, if_pos hyes]
    exact Nat.lt_succ_self _
  have hlacks : (w'.roomView user thread).lacking .room = Need.room.denied a :=
    lacks_exec hexec .room
  rcases exec_matrix_cases hexec with ⟨room, rfl, hid⟩ | ⟨rfl, rfl⟩ | ⟨rfl, rfl⟩ | ⟨s, rfl, rfl⟩
  · cases a with
    | id s => exact ⟨⟨hroom, hmade rfl, hasUser_exec hexec, hlacks⟩, hghosts⟩
    | _ => cases hid
  · exact .untried ⟨hghosts, roomsMade_exec hexec⟩
  · exact .untried ⟨hghosts, roomsMade_exec hexec⟩
  · exact .dangling ⟨hroom, hmade rfl, .inr ⟨.room, hlacks⟩⟩

theorem saveRoomGhostMapping_ends {address : String} :
    Ends (bridge cfg calls) {} t
      (fun w => Pending v₀ (w.roomView user thread) ∧
        (w.roomView user thread).ghosts = v₀.ghosts)
      (onStore (.saveRoomGhostMapping room address user))
      (onResult (fun _ w => Housed room v₀ (w.roomView user thread))
        fun _ w => ThreadEnding v₀ (w.roomView user thread)) := by
  refine .call fun w a r w' hw _ he => ?_
  obtain ⟨hpending, hghosts⟩ := hw
  have hexec : exec t (.mk (.store (.saveRoomGhostMapping room address user))) a w =
    some (r, w') := he
  have hthread : ∀ now order, (StoreCmd.run now order (.saveRoomGhostMapping room address user)
      w.store).2.threadMapping = w.store.threadMapping := by
    intro now order
    simp only [StoreCmd.run, Store.referring]
    split
    · rfl
    · rfl
  have hroom : (w'.roomView user thread).room = none := by
    have hsame : w'.store.threadMapping = w.store.threadMapping := by
      rcases exec_run hexec with hsame | ⟨q, order, hq, -, hrun⟩
      · rw [hsame]
      · obtain rfl := Cmd.store.inj hq
        rw [hrun]
        exact hthread w.now order
    show (w'.store.threadMapping.lookup thread).map _ = none
    rw [hsame]
    exact hpending.unmapped
  have hmade : v₀.made < (w'.roomView user thread).made :=
    Nat.lt_of_lt_of_eq hpending.made (roomsMade_exec hexec).symm
  have hlacks : (w'.roomView user thread).lacking .ghost = Need.ghost.denied a :=
    lacks_exec hexec .ghost
  rcases exec_store hexec with ⟨order, ha, rfl, hw'⟩ | ⟨rfl, rfl, -⟩ | ⟨⟨s, rfl⟩, rfl, -⟩
  · have hknown : w.store.hasUser user = v₀.known := hpending.known
    have hghost : Need.ghost.denied a = false := by
      rcases ha with ⟨rfl, -⟩ | rfl
      · rfl
      · rfl
    have hstore : w'.store = (StoreCmd.run w.now order (.saveRoomGhostMapping room address user)
      w.store).2 := by rw [hw']
    simp only [StoreCmd.run, Store.referring] at hstore ⊢
    cases hyes : w.store.hasUser user with
    | false => exact .dangling ⟨hroom, hmade, .inl (hknown.symm.trans hyes)⟩
    | true =>
      rw [if_pos hyes] at hstore
      have hrows : ∀ x, ((w'.roomView user thread).ghosts.lookup x).isSome →
          x = room ∨ (v₀.ghosts.lookup x).isSome := by
        intro x hx
        have hx : (w'.store.roomGhostMapping.lookup x).isSome := hx
        rw [hstore] at hx
        by_cases hxroom : x = room
        · exact .inl hxroom
        · rw [AList.lookup_insert_ne hxroom] at hx
          refine .inr ?_
          rw [← hghosts]
          exact hx
      exact ⟨⟨hroom, hmade, (hasUser_exec hexec).trans hknown,
        (lacks_exec hexec .room).trans hpending.answered⟩, hknown.symm.trans hyes,
        hlacks.trans hghost, hrows⟩
  · exact .dangling ⟨hroom, hmade, .inr ⟨.ghost, hlacks⟩⟩
  · exact .dangling ⟨hroom, hmade, .inr ⟨.ghost, hlacks⟩⟩

theorem userEmail_exec {a : Answer} {r : Except Err (Option String)}
    (h : exec t (.mk (.store (.getJmapState user .userEmail))) a w = some (r, w')) :
    w'.roomView user thread =
      (w.roomView user thread).note .ownEmail (Need.ownEmail.denied a) := by
  refine note_exec ?_ (fun m => by cases m <;> rfl) Need.noConfusion h
  rcases exec_run h with hsame | ⟨q, order, hq, -, hrun⟩
  · exact hsame
  · obtain rfl := Cmd.store.inj hq
    exact hrun

theorem userEmail_ends : Ends (bridge cfg calls) {} t
    (fun w => Housed room v₀ (w.roomView user thread))
    (onStore (.getJmapState user .userEmail))
    (onResult (fun _ w => Addressed room v₀ (w.roomView user thread))
      fun _ w => ThreadEnding v₀ (w.roomView user thread)) := by
  refine .call fun w a r w' hw _ he => ?_
  have hexec : exec t (.mk (.store (.getJmapState user .userEmail))) a w = some (r, w') := he
  have hview : w'.roomView user thread =
    (w.roomView user thread).note .ownEmail (Need.ownEmail.denied a) := userEmail_exec hexec
  have hview : ∀ {P : RoomView → Prop},
      P ((w.roomView user thread).note .ownEmail (Need.ownEmail.denied a)) →
        P (w'.roomView user thread) := fun h => hview ▸ h
  rcases exec_store hexec with ⟨order, ha, rfl, -⟩ | ⟨rfl, rfl, -⟩ | ⟨⟨s, rfl⟩, rfl, -⟩
  · refine hview (P := Addressed room v₀) ?_
    rcases ha with ⟨rfl, -⟩ | rfl
    · exact hw.addressed
    · exact hw.addressed
  · exact hview (P := ThreadEnding v₀) (hw.denied .ownEmail)
  · exact hview (P := ThreadEnding v₀) (hw.denied .ownEmail)

/-- The email space is filed under the user's address, and may be denied it without harm. -/
theorem ensureRoomInEmailSpace_ends {room' : RoomId} : Ends (bridge cfg calls) {} t
    (fun w => Housed room v₀ (w.roomView user thread)) (ensureRoomInEmailSpace user room')
    fun _ w => Housed room v₀ (w.roomView user thread) := by
  refine .only (φ := fun _ o => SpaceCmd user o.cmd) (fun β o a w b w' ho _ he hw => ?_)
    ensureRoomInEmailSpace_space
  obtain ⟨c⟩ := o
  have hexec : exec t (.mk c) a w = some (b, w') := he
  have hstep : c.roomless → Housed room v₀ (w'.roomView user thread) := fun hc => by
    rw [roomless_exec hc hexec]
    exact hw
  have hspace : SpaceCmd user c := ho
  cases hspace with
  | ownEmail =>
    rw [userEmail_exec hexec]
    exact hw.note _
  | _ => exact hstep rfl

/-! The message: sent once, and once more when the ghost has been let in. -/

theorem sendMessage_ends {sender : UserId} {timestamp : Option Nat} :
    Ends (bridge cfg calls) {} t (fun w => w.roomView user thread = v₀)
      (onMatrix (.sendAsGhost room sender (.message body) timestamp))
      (onResult (fun _ w => w.roomView user thread = v₀.note .message false)
        fun _ w => w.roomView user thread = v₀.note .message true) := by
  refine .call fun w a r w' hw _ he => ?_
  obtain rfl := hw
  have hexec : exec t (.mk (.matrix (.sendAsGhost room sender (.message body) timestamp))) a w =
    some (r, w') := he
  obtain ⟨⟨issued, hw'⟩, -⟩ := exec_matrix hexec
  have hview : w'.roomView user thread =
      (w.roomView user thread).note .message (Need.message.denied a) :=
    note_exec (by rw [hw']) (fun m => by cases m <;> rfl) Need.noConfusion hexec
  rcases exec_send hexec with ⟨event, rfl, rfl⟩ | ⟨rfl | rfl, err, rfl⟩ | ⟨event, rfl, rfl⟩
  · exact hview
  · exact hview
  · exact hview
  · exact hview

theorem sendMessageAs_ends {sender : UserId} {timestamp : Option Nat} :
    Ends (bridge cfg calls) {} t (fun w => w.roomView user thread = v₀)
      (sendMessageAs room body sender timestamp)
      (onResult (fun _ w => w.roomView user thread = v₀.note .message false)
        fun _ w => w.roomView user thread = v₀.note .message true) := by
  have hstep : ∀ {β : Type} {x : Bridge β}, Does (fun c => c.roomless) x →
      Ends (bridge cfg calls) {} t (fun w => w.roomView user thread = v₀.note .message true) x
        (onResult (fun _ w => w.roomView user thread = v₀.note .message true)
          fun _ w => w.roomView user thread = v₀.note .message true) := fun hx =>
    Ends.always_iff.mpr (roomless_ends (P := (· = v₀.note .message true)) hx)
  refine .andThen (.attempt sendMessage_ends) fun r => ?_
  cases r with
  | ok event => exact .ok fun _ h => h
  | error err =>
    cases err with
    | notJoined =>
      refine .andThen (hstep (.bestEffort (.matrix rfl))) fun _ => ?_
      refine .andThen (hstep (.matrix rfl)) fun _ => ?_
      refine Ends.post sendMessage_ends fun r w hr => ?_
      cases r with
      | ok _ => exact hr.trans (RoomView.note_note ..)
      | error _ => exact hr.trans (RoomView.note_note ..)
    | _ => exact .fail fun _ h => h

theorem processReply_ends : Ends (bridge cfg calls) {} t
    (fun w => w.roomView user thread = v₀) (processReply p email ghost body room)
    fun _ w => Untried v₀ (w.roomView user thread) := by
  have hstep : ∀ {β : Type} {x : Bridge β}, Does (fun c => c.roomless) x →
      Ends (bridge cfg calls) {} t (fun w => Untried v₀ (w.roomView user thread)) x
        fun _ w => Untried v₀ (w.roomView user thread) := fun hx => roomless_ends hx
  refine .andThenAlways (R := fun w => Untried v₀ (w.roomView user thread))
    (sendMessageAs_ends.post fun r w hr => ?_) (fun event => ?_) fun _ h => h
  · cases r with
    | ok _ => exact hr ▸ ⟨rfl, rfl⟩
    | error _ => exact hr ▸ ⟨rfl, rfl⟩
  · split
    · exact hstep (.andThen (.store rfl) fun _ => .andThen (.bestEffort (.store rfl)) fun _ =>
        handleAttachments_does.mono fun _ => AttachmentCmd.roomless)
    · exact hstep .ok

theorem saveThreadMapping_ends {event : EventId} {subject : String} :
    Ends (bridge cfg calls) {} t (fun w => Conveyed room v₀ (w.roomView user thread))
      (onStore (.saveThreadMappingAtomic thread event room subject))
      (onResult (fun _ w => MappedTo room v₀ (w.roomView user thread))
        fun _ w => ThreadEnding v₀ (w.roomView user thread)) := by
  refine .call fun w a r w' hw _ he => ?_
  have hexec : exec t (.mk (.store (.saveThreadMappingAtomic thread event room subject))) a w =
    some (r, w') := he
  have hlacks : ∀ n, (w'.roomView user thread).lacking n =
      if n = .thread then Need.thread.denied a else (w.roomView user thread).lacking n := by
    intro n
    cases n with
    | thread => exact lacks_exec hexec .thread
    | _ => exact lacks_exec hexec _
  have hfinished : a ≠ .failed → w'.store = (StoreCmd.run w.now []
      (.saveThreadMappingAtomic thread event room subject) w.store).2 →
      MappedTo room v₀ (w'.roomView user thread) := by
    intro ha hstore
    refine ⟨hw.registered, ?_, ?_, fun n => ?_⟩
    · show (w'.store.threadMapping.lookup thread).map _ = some room
      rw [hstore]
      show ((w.store.threadMapping.insert thread _).lookup thread).map _ = some room
      rw [AList.lookup_insert]
      rfl
    · have hghosts : w'.store.roomGhostMapping = w.store.roomGhostMapping := by rw [hstore]; rfl
      show OnlyNew room v₀ (w'.roomView user thread)
      rw [OnlyNew, World.roomView, hghosts]
      exact hw.new
    · rw [hlacks n]
      cases n with
      | room => exact hw.answered
      | ghost => exact hw.ghost
      | ownEmail => exact hw.ownEmail
      | message => exact hw.message
      | thread =>
        cases a with
        | failed => exact absurd rfl ha
        | _ => rfl
  rcases exec_store hexec with ⟨order, ha, rfl, hw'⟩ | ⟨rfl, rfl, hw'⟩ | ⟨⟨s, rfl⟩, rfl, hw'⟩
  · refine hfinished ?_ (by rw [hw']; rfl)
    rintro rfl
    rcases ha with ⟨ha, -⟩ | ha
    · cases ha
    · cases ha
  · refine .dangling ⟨?_, ?_, .inr ⟨.thread, hlacks .thread⟩⟩
    · rw [hw']
      exact hw.unmapped
    · exact Nat.lt_of_lt_of_eq hw.made (roomsMade_exec hexec).symm
  · exact .finished room (hfinished (by rintro ⟨⟩) (by rw [hw']))

theorem roomless_step {P : RoomView → Prop} {x : Bridge α} (hx : Does (fun c => c.roomless) x)
    (hP : ∀ v, P v → ThreadEnding v₀ v) :
    Ends (bridge cfg calls) {} t (fun w => P (w.roomView user thread)) x
      (onResult (fun _ w => P (w.roomView user thread)) fun _ w =>
        ThreadEnding v₀ (w.roomView user thread)) := by
  refine (roomless_ends hx).post fun r w hw => ?_
  cases r with
  | ok _ => exact hw
  | error _ => exact hP _ hw

theorem effort_ends {P Q : World → Prop} {F : Err → World → Prop} {x : Bridge α}
    (hx : Ends (bridge cfg calls) {} t P x fun _ => Q) :
    Ends (bridge cfg calls) {} t P (bestEffort x) (onResult (fun _ => Q) F) :=
  .bind hx fun _ => .pure fun _ h => h

theorem addressed_message {sender : UserId} {timestamp : Option Nat} :
    Ends (bridge cfg calls) {} t (fun w => Addressed room v₀ (w.roomView user thread))
      (sendMessageAs room body sender timestamp)
      (onResult (fun _ w => Conveyed room v₀ (w.roomView user thread))
        fun _ w => ThreadEnding v₀ (w.roomView user thread)) := by
  intro w r w' hw he
  have hsent : onResult (fun _ w' => w'.roomView user thread =
      (w.roomView user thread).note .message false) (fun _ w' => w'.roomView user thread =
        (w.roomView user thread).note .message true) r w' := sendMessageAs_ends w r w' rfl he
  cases r with
  | ok event =>
    show Conveyed room v₀ (w'.roomView user thread)
    rw [hsent]
    exact hw.conveyed
  | error err =>
    show ThreadEnding v₀ (w'.roomView user thread)
    rw [hsent]
    exact hw.denied .message

theorem createContactRoom_ends {address name : String} :
    Ends (bridge cfg calls) {} t
      (fun w => w.roomView user thread = v₀ ∧ v₀.room = none)
      (createContactRoom cfg user address name)
      (onResult (fun room w => Housed room v₀ (w.roomView user thread))
        fun _ w => ThreadEnding v₀ (w.roomView user thread)) := by
  refine .andThen (roomless_step (P := fun v => v = v₀ ∧ v₀.room = none) registerGhost_roomless
    fun v hv => .untried ⟨by rw [hv.1], by rw [hv.1]⟩) fun _ => ?_
  refine .andThen createRoomForContact_ends fun room => ?_
  refine .andThen saveRoomGhostMapping_ends fun _ => ?_
  refine .andThen (effort_ends (roomless_ends (.matrix rfl))) fun _ => ?_
  refine .andThen (.lift (roomless_ends
    (.letSome (.store rfl) fun _ => .bind (.matrix rfl) fun _ => .pure))) fun _ => ?_
  refine .andThen (effort_ends ensureRoomInEmailSpace_ends) fun _ => ?_
  exact .ok fun _ hw => hw

theorem createThreadRoom_ends : Ends (bridge cfg calls) {} t
    (fun w => w.roomView p.user thread = v₀ ∧ v₀.room = none)
    (createThreadRoom cfg p email ghost body thread emailId)
    fun _ w => ThreadEnding v₀ (w.roomView p.user thread) := by
  refine Ends.always_iff.mp ?_
  refine .andThen createContactRoom_ends fun room => ?_
  refine .andThen (effort_ends (roomless_ends (.matrix rfl))) fun _ => ?_
  refine .andThen userEmail_ends fun _ => ?_
  refine .andThen (effort_ends (roomless_ends (.matrix rfl))) fun _ => ?_
  refine .andThen addressed_message fun event => ?_
  refine .andThen saveThreadMapping_ends fun _ => ?_
  have hlast : ∀ {β : Type} {x : Bridge β}, Does (fun c => c.roomless) x →
      Ends (bridge cfg calls) {} t (fun w => MappedTo room v₀ (w.roomView p.user thread)) x
        (onResult (fun _ w => MappedTo room v₀ (w.roomView p.user thread))
          fun _ w => ThreadEnding v₀ (w.roomView p.user thread)) := fun hx =>
    roomless_step (P := MappedTo room v₀) hx fun v hv => .finished room hv
  refine .andThen (hlast (.store rfl)) fun _ => ?_
  refine (hlast (handleAttachments_does.mono fun _ => AttachmentCmd.roomless)).post fun r w hr => ?_
  cases r with
  | ok _ => exact .finished room hr
  | error _ => exact hr

theorem processNewThread_ends (hthread : email.threadId = some thread)
    (hid : email.id = some emailId) : Ends (bridge cfg calls) {} t
    (fun w => w.roomView p.user thread = v₀) (processNewThread cfg p email ghost body)
    fun _ w => ThreadEnding v₀ (w.roomView p.user thread) := by
  have huntried : ∀ v, v = v₀ → ThreadEnding v₀ v := by
    rintro v rfl
    exact .untried ⟨rfl, rfl⟩
  have hreply : ∀ room, Ends (bridge cfg calls) {} t (fun w => w.roomView p.user thread = v₀)
      (processReply p email ghost body room) fun _ w =>
        ThreadEnding v₀ (w.roomView p.user thread) :=
    fun room => processReply_ends.post fun _ _ h => .untried h
  rw [processNewThread, hthread, hid]
  refine Ends.always_iff.mp ?_
  refine .andThen (roomless_step (P := (· = v₀)) awaitThreadLock_roomless huntried) fun room => ?_
  cases room with
  | some room => exact Ends.always_iff.mpr (hreply room)
  | none =>
    refine Ends.always_iff.mpr (.bind
      (Q := fun _ w => ThreadEnding v₀ (w.roomView p.user thread)) ?_ fun r => ?_)
    · have hlookup : Ends (bridge cfg calls) {} t (fun w => w.roomView p.user thread = v₀)
          (onStore (.getThreadInfo thread))
          (onResult (fun row w => w.roomView p.user thread = v₀ ∧
              (w.roomView p.user thread).room = row.map (·.roomId))
            fun _ w => ThreadEnding v₀ (w.roomView p.user thread)) := by
        refine (getThreadInfo_ends (P := (· = v₀))).post fun r w hr => ?_
        cases r with
        | ok row => exact hr
        | error _ => exact huntried _ hr
      refine Ends.always_iff.mp (.andThen hlookup fun row => ?_)
      cases row with
      | some row =>
        exact Ends.always_iff.mpr ((hreply row.roomId).weaken (fun w hw => hw.1) fun _ _ h => h)
      | none =>
        refine Ends.always_iff.mpr (createThreadRoom_ends.weaken (fun w hw => ?_) fun _ _ h => h)
        obtain ⟨hview, hroom⟩ := hw
        exact ⟨hview, hview ▸ hroom⟩
    · exact roomless_ends (P := ThreadEnding v₀) (.bind (.task rfl) fun _ => .pure)

/-! ### What the next email of the thread finds -/

theorem noSecondRoom_of_mapped {row : ThreadRow}
    (h : w'.store.threadMapping.lookup thread = some row) :
    NoSecondRoom cfg calls t thread w' := by
  intro p email ghost body w₁ w₂ r hthread hstore he
  have hknown : (w₁.roomView p.user thread).room = some row.roomId := by
    rw [World.roomView, hstore]
    show (w'.store.threadMapping.lookup thread).map _ = _
    rw [h]
    rfl
  have hends : Ends (bridge cfg calls) {} t
      (fun w => w.roomView p.user thread = w₁.roomView p.user thread)
      (bridgeToRoom cfg p email thread ghost body) fun _ w =>
        Untried (w₁.roomView p.user thread) (w.roomView p.user thread) := by
    refine Ends.always_iff.mp (.andThen (Q := fun found w =>
      w.roomView p.user thread = w₁.roomView p.user thread ∧
        (w.roomView p.user thread).room = found.map (·.roomId)) ?_ fun found => ?_)
    · refine (getThreadInfo_ends (P := (· = w₁.roomView p.user thread))).post fun r w hr => ?_
      cases r with
      | ok found => exact hr
      | error _ => exact ⟨by rw [hr], by rw [hr]⟩
    · cases found with
      | some found =>
        exact Ends.always_iff.mpr (processReply_ends.weaken (fun w hw => hw.1) fun _ _ h => h)
      | none =>
        intro w r w' hw _
        obtain ⟨hview, hnone⟩ := hw
        rw [hview, hknown] at hnone
        cases hnone
  exact (hends w₁ r w₂ rfl he).made

theorem exists_fresh (l : List String) : ∃ s : String, ∀ x ∈ l, x.length < s.length := by
  induction l with
  | nil => exact ⟨"", fun x hx => by cases hx⟩
  | cons y l ih =>
    obtain ⟨s, hs⟩ := ih
    refine ⟨s ++ y ++ "a", fun x hx => ?_⟩
    rw [String.length_append, String.length_append]
    have hone : "a".length = 1 := rfl
    rcases List.mem_cons.mp hx with rfl | hx
    · omega
    · have := hs x hx
      omega

structure Roomless (thread : ThreadId) (k : Nat) (w : World) : Prop where
  lookup : w.store.threadMapping.lookup thread = none
  made : w.roomsMade = k

theorem getThreadInfo_can {k : Nat} (h : Roomless thread k w) :
    Can (bridge cfg calls) {} t (onStore (.getThreadInfo thread)) w fun r w' =>
      r = .ok none ∧ Roomless thread k w' ∧ w'.store = w.store := by
  refine may_perform .done trivial rfl ⟨?_, ⟨h.lookup, ?_⟩, rfl⟩
  · exact congrArg Except.ok h.lookup
  · exact (List.countP_cons_of_neg Bool.false_ne_true).trans h.made

theorem tryAcquire_can {k : Nat} (h : Roomless thread k w)
    (hlocks : w.store.roomCreationLocks = ∅) :
    Can (bridge cfg calls) {} t (onStore (.tryAcquireRoomCreationLock (.thread thread))) w
      fun r w' => r = .ok true ∧ Roomless thread k w' := by
  refine may_perform .done trivial rfl ⟨?_, ?_, ?_⟩
  · simp [StoreCmd.run, hlocks]
  · show (StoreCmd.run w.now [] _ w.store).2.threadMapping.lookup thread = none
    simp only [StoreCmd.run, hlocks]
    exact h.lookup
  · exact (List.countP_cons_of_neg Bool.false_ne_true).trans h.made

theorem createContactRoom_can {k : Nat} {user : UserId} {address name : String}
    (h : w.roomsMade = k) : Can (bridge cfg calls) {} t (createContactRoom cfg user address name) w
      fun r w' => (∃ e, r = .error e) ∧ w'.roomsMade = k + 1 := by
  obtain ⟨s, hs⟩ := exists_fresh w.issued
  have hfresh : s ∉ w.issued := fun h => Nat.lt_irrefl _ (hs s h)
  let wₛ : World := { w with
    trace :=
      ⟨t, .matrix (.ensureUserExists (emailToLocalpart cfg address)), .flag false⟩ :: w.trace }
  have hmade : Can (bridge cfg calls) {} t (onMatrix (.createRoomForContact name address user)) wₛ
      fun r w' => r = .error .matrix ∧ w'.roomsMade = k + 1 := by
    refine may_perform (.lost s) trivial (if_neg hfresh) ⟨rfl, ?_⟩
    show List.countP _ _ = _
    rw [List.countP_cons_of_pos rfl, ← h]
    exact congrArg (· + 1) (List.countP_cons_of_neg Bool.false_ne_true)
  refine .andThen (.andThen (may_perform (.flag false) trivial rfl (.ok (.andThen ?_))))
  refine hmade.mono fun r w' hr => ?_
  rw [hr.1]
  exact ⟨⟨_, rfl⟩, hr.2⟩

theorem processNewThread_can {k : Nat} (hthread : email.threadId = some thread)
    (hid : email.id = some emailId) (h : Roomless thread k w)
    (hlocks : w.store.roomCreationLocks = ∅) :
    Can (bridge cfg calls) {} t (processNewThread cfg p email ghost body) w
      fun _ w' => w'.roomsMade = k + 1 := by
  have hlock : Can (bridge cfg calls) {} t (awaitThreadLock thread) w fun r w' =>
      r = .ok none ∧ Roomless thread k w' := by
    refine .leave (.andThen ((getThreadInfo_can h).mono ?_))
    rintro r w₁ ⟨rfl, hw₁, hstore⟩
    refine .andThen ((tryAcquire_can hw₁ (by rw [hstore, hlocks])).mono ?_)
    rintro r w₂ ⟨rfl, hw₂⟩
    exact .ok ⟨none, rfl, rfl, hw₂⟩
  rw [processNewThread, hthread, hid]
  refine .andThen (hlock.mono ?_)
  rintro r w₁ ⟨rfl, hw₁⟩
  refine .bind (.andThen ((getThreadInfo_can hw₁).mono ?_))
  rintro r w₂ ⟨rfl, hw₂, -⟩
  refine .andThen ((createContactRoom_can hw₂.made).mono ?_)
  rintro r w₃ ⟨⟨e, rfl⟩, hw₃⟩
  refine .bind (may_perform .done trivial rfl (.pure ?_))
  exact (List.countP_cons_of_neg Bool.false_ne_true).trans hw₃

/-- The same email tried again may be given a room once more, if its thread has none. -/
theorem secondRoom_possible (hthread : email.threadId = some thread) (hid : email.id = some emailId)
    (hnone : w'.store.threadMapping.lookup thread = none) :
      ¬NoSecondRoom cfg calls t thread w' := by
  intro hspared
  let w₁ : World := { w' with store := { w'.store with roomCreationLocks := ∅ } }
  have hcan : Can (bridge cfg calls) {} t (bridgeToRoom cfg ⟨"", ""⟩ email thread ⟨"", ""⟩
      ⟨"", none, .notice⟩) w₁ fun _ w => w.roomsMade = w₁.roomsMade + 1 := by
    refine .andThen ((getThreadInfo_can (w := w₁) ⟨hnone, rfl⟩).mono ?_)
    rintro r w₂ ⟨rfl, hw₂, hstore⟩
    exact processNewThread_can hthread hid hw₂ (by rw [hstore])
  obtain ⟨r, w₂, he, hmade⟩ := hcan
  have hsame := hspared ⟨"", ""⟩ email ⟨"", ""⟩ ⟨"", none, .notice⟩ w₁ w₂ r hthread rfl he
  omega

theorem ThreadEnding.atomic_iff (hthread : email.threadId = some thread)
    (hid : email.id = some emailId)
    (h : ThreadEnding (w.roomView p.user thread) (w'.roomView p.user thread)) :
    Atomic cfg calls t email w w' ↔ ¬Stranded p w w' := by
  cases h with
  | untried h =>
    have hmade : w'.roomsMade = w.roomsMade := h.made
    have hghosts : w'.store.roomGhostMapping = w.store.roomGhostMapping := h.ghosts
    refine iff_of_true ⟨fun room hroom => .inl (by rw [← hghosts]; exact hroom), ?_⟩ ?_
    · intro _ _ hlt
      omega
    · intro hstranded
      have hlt := hstranded.made
      omega
  | dangling h =>
    have hnone : w'.store.threadMapping.lookup thread = none := Option.map_eq_none_iff.mp h.unmapped
    refine iff_of_false (fun hatomic => ?_) (fun hstranded => hstranded ⟨h.made, h.stopped⟩)
    exact secondRoom_possible hthread hid hnone (hatomic.2 thread hthread h.made)
  | finished room h =>
    obtain ⟨row, hrow, hroom⟩ := Option.map_eq_some_iff.mp h.points
    refine iff_of_true ⟨fun x hx => ?_, fun thread' hthread' _ => ?_⟩ ?_
    · rcases h.new x hx with rfl | hold
      · exact .inr ⟨thread, row, hrow, hroom⟩
      · exact .inl hold
    · obtain rfl := Option.some.inj (hthread.symm.trans hthread')
      exact noSecondRoom_of_mapped hrow
    · rintro ⟨-, hknown | ⟨n, hlacks⟩⟩
      · exact Bool.false_ne_true (hknown.symm.trans h.registered)
      · exact Bool.false_ne_true ((h.met n).symm.trans hlacks)

theorem atomic_refl : Atomic cfg calls t email w w ↔ ¬Stranded p w w := by
  refine iff_of_true ⟨fun _ hroom => .inl hroom, fun _ _ hlt => ?_⟩ ?_
  · exact absurd hlt (Nat.lt_irrefl _)
  · exact fun hstranded => Nat.lt_irrefl _ hstranded.made

end

/-- The call is atomic unless the room was made and the bridge then refused, or not told, what
the conversation needs. -/
theorem processNewThread_atomic_iff (cfg : Config) (calls : Nat → Call) (t : Nat) (p : Poller)
    (email : Email) (ghost : GhostUser) (body : EmailBody) (w : World) (r : Except Err Unit)
    (w' : World)
    (h : Eval (bridge cfg calls) {} t (processNewThread cfg p email ghost body) w r w') :
    Atomic cfg calls t email w w' ↔ ¬Stranded p w w' := by
  cases hthread : email.threadId with
  | none =>
    rw [processNewThread, hthread] at h
    obtain ⟨-, rfl⟩ := Eval.pure_iff.mp h
    exact atomic_refl
  | some thread =>
    cases hid : email.id with
    | none =>
      rw [processNewThread, hthread, hid] at h
      obtain ⟨-, rfl⟩ := Eval.pure_iff.mp h
      exact atomic_refl
    | some emailId =>
      exact (processNewThread_ends hthread hid w r w' rfl h).atomic_iff hthread hid

def firstMail : Email where
  id := some "e"
  threadId := some "T"

/-- Alice is registered, and nothing has been bridged for her. -/
def unbridged : World where
  store :=
    { users := (∅ : Sql.Table _ _).insert "@alice:localhost" ⟨"alice", "token", "https://mail"⟩ }

def bridgeFirst : Bridge Unit :=
  processNewThread {} ⟨"@alice:localhost", "A"⟩ firstMail ⟨"bob@example.org",
    "@_jmap_bob:localhost"⟩
    ⟨"hello", none, .email "e"⟩

/-- The ghost cannot be registered, and nothing is left behind. -/
theorem atomic_unregistered : ∃ w', Eval (bridge {} fun _ => .worker) {} 0 bridgeFirst unbridged
      (.error .matrix) w' ∧ Atomic {} (fun _ => .worker) 0 firstMail unbridged w' := by
  have hends : (replay (bridge {} fun _ => .worker) 0
      [none, some .done, some .done, some .done, some .failed,
        some .done] bridgeFirst unbridged).map
        (fun q => (q.1, q.2.roomsMade)) = some (.error .matrix, 0) := by
    decide +kernel
  obtain ⟨⟨r, w'⟩, hreplay, hresult⟩ := Option.map_eq_some_iff.mp hends
  obtain ⟨rfl, hmade⟩ := Prod.mk.inj hresult
  have heval : Eval (bridge {} fun _ => .worker) {} 0 bridgeFirst unbridged (.error .matrix) w' :=
    eval_of_replay (replayMeets_of_forall (fun _ _ _ => trivial) _ _ _) hreplay
  refine ⟨w', heval, (processNewThread_atomic_iff _ _ _ _ _ _ _ _ _ _ heval).mpr ?_⟩
  intro hstranded
  exact Nat.not_lt_zero _ (hmade ▸ hstranded.made)

/-- The message cannot be sent once the room is there, and the room stays behind. -/
theorem unsent_message_strands : ∃ w', Eval (bridge {} fun _ => .worker) {} 0 bridgeFirst unbridged
      (.error .matrix) w' ∧ ¬Atomic {} (fun _ => .worker) 0 firstMail unbridged w' := by
  have hends : (replay (bridge {} fun _ => .worker) 0
      [none, some .done, some .done, some .done, some (.flag false), some (.id "!r"), some .done,
        some .done, some .done, none, some .failed, some .done, some .done, some .done,
        some .failed,
        some .done] bridgeFirst unbridged).map
        (fun q => (q.1, (q.2.store.roomGhostMapping.lookup "!r").isSome,
          q.2.store.threadMapping.entries)) = some (.error .matrix, true, []) := by
    decide +kernel
  obtain ⟨⟨r, w'⟩, hreplay, hresult⟩ := Option.map_eq_some_iff.mp hends
  obtain ⟨rfl, hstore⟩ := Prod.mk.inj hresult
  obtain ⟨hroom, hthreads⟩ := Prod.mk.inj hstore
  refine ⟨w', eval_of_replay (replayMeets_of_forall (fun _ _ _ => trivial) _ _ _) hreplay, ?_⟩
  rintro ⟨hpaired, -⟩
  rcases hpaired "!r" hroom with hold | ⟨thread, row, hrow, -⟩
  · cases hold
  · have hempty : w'.store.threadMapping = ∅ := AList.ext hthreads
    rw [hempty] at hrow
    cases hrow

end JmapBridge
