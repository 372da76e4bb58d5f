import JmapBridge.Model.Provision
import JmapBridge.Effect.Triple

/-! Who edits a bridged email. A room is made for one contact, in whose name its emails are
edited, while an email is posted in the name of whoever it is from. -/

namespace JmapBridge

open Effect Sql

structure Post where
  room : RoomId
  author : UserId
  event : EventId
deriving DecidableEq

/-- The event of an email that the homeserver has taken, whether or not it says so. -/
def Record.post (r : Record) : Option Post :=
  match r.cmd with
  | .matrix (.sendAsGhost room author (.message body) _) =>
    match body.origin, r.answer with
    | .email _, .id event => some ⟨room, author, event⟩
    | .email _, .lost event => some ⟨room, author, event⟩
    | _, _ => none
  | _ => none

structure Edit where
  room : RoomId
  editor : UserId
  target : EventId
deriving DecidableEq

def Record.edit (r : Record) : Option Edit :=
  match r.cmd with
  | .matrix (.sendAsGhost room editor (.edit target _ _) _) => some ⟨room, editor, target⟩
  | _ => none

/-- Whoever edits a bridged email in its room is its author. -/
def EditsByAuthor (trace : List Record) : Prop :=
  ∀ e ∈ trace.filterMap Record.edit, ∀ p ∈ trace.filterMap Record.post,
    p.room = e.room → p.event = e.target → e.editor = p.author

instance (trace : List Record) : Decidable (EditsByAuthor trace) :=
  inferInstanceAs (Decidable (∀ e ∈ trace.filterMap Record.edit,
    ∀ p ∈ trace.filterMap Record.post, p.room = e.room → p.event = e.target → e.editor = p.author))

def Record.founding (room : RoomId) (r : Record) : Option String :=
  match r.cmd with
  | .matrix (.createRoomForContact _ contact _) =>
    if r.answer = .id room then some contact else none
  | _ => none

/-- The contact a room was made for: in this run, or before it. -/
def World.contact (s : Store) (room : RoomId) (w : World) : Option String :=
  (w.trace.findSome? (Record.founding room)).or
    ((s.roomGhostMapping.lookup room).map (·.ghostEmail))

/-- A new room has an id that no room had before. -/
def World.unknown (s : Store) (room : RoomId) (w : World) : Bool :=
  (w.contact s room).isNone && (w.trace.filterMap Record.post).all (·.room != room)

/-- An email that the homeserver takes is from the contact of the room it is posted in. -/
def fromContactStep (cfg : Config) (s : Store) (r : Record) (w : World) : Bool :=
  r.post.all (fun p => (w.contact s p.room).all fun contact =>
    cfg.ghostUserId contact == p.author) &&
    match r.cmd, r.answer with
    | .matrix (.createRoomForContact _ _ _), .id room => w.unknown s room
    | _, _ => true

def fromContact (cfg : Config) (s : Store) : Discipline Op World Answer Env where
  step t _ o a w := fromContactStep cfg s ⟨t, o.cmd, a⟩ w

instance decidableFromContact (cfg : Config) (s : Store) (e : Event Answer Env)
    (q : Pool Op World) :
    Decidable ((fromContact cfg s).meets e q) :=
  @Discipline.decidableMeets Op World Answer Env (fromContact cfg s) (fun _ _ => instDecidableTrue)
    (fun t _ o a w => inferInstanceAs (Decidable (fromContactStep cfg s ⟨t, o.cmd, a⟩ w = true)))
    (fun _ _ => instDecidableTrue) (fun _ _ => instDecidableTrue) e q

/-- Rooms keep the contact they were made for, and their emails are posted and edited in its
name. -/
structure Casting (cfg : Config) (s : Store) (w : World) : Prop where
  mapped : ∀ room row, w.store.roomGhostMapping.lookup room = some row →
    w.contact s room = some row.ghostEmail
  posted : ∀ p ∈ w.trace.filterMap Record.post, ∀ contact, w.contact s p.room = some contact →
    p.author = cfg.ghostUserId contact
  edited : ∀ e ∈ w.trace.filterMap Record.edit, ∃ contact, w.contact s e.room = some contact ∧
    e.editor = cfg.ghostUserId contact

def ContactsStay (s : Store) (w w' : World) : Prop :=
  ∀ room contact, w.contact s room = some contact → w'.contact s room = some contact

theorem Casting.edits {cfg : Config} {s : Store} {w : World} (h : Casting cfg s w) :
    EditsByAuthor w.trace := by
  intro e he p hp hroom _
  obtain ⟨contact, hcontact, heditor⟩ := h.edited e he
  rw [heditor, h.posted p hp contact (hroom ▸ hcontact)]

def castContract (cfg : Config) (s : Store) : Contract World where
  inv := Casting cfg s
  rely _ := ContactsStay s
  refl _ _ := fun _ _ h => h
  trans h h' := fun room contact hc => h' room contact (h room contact hc)

/-! What the commands do. -/

section

variable {cfg : Config} {calls : Nat → Call} {s : Store} {t : Nat} {w w' : World}
  {room : RoomId} {contact : String} {α : Type}

/-- The commands of a task that may know the contact of one room. -/
def Cmd.inCast (cfg : Config) (known : Option (RoomId × String)) : Cmd → Bool
  | store (.saveRoomGhostMapping room contact _) => known == some (room, contact)
  | matrix (.sendAsGhost room editor (.edit _ _ _) _) =>
    known.any fun k => k.1 == room && cfg.ghostUserId k.2 == editor
  | _ => true

def World.knows (s : Store) (known : Option (RoomId × String)) (w : World) : Prop :=
  ∀ k ∈ known, w.contact s k.1 = some k.2

theorem contact_cons {r : Record} (htrace : w'.trace = r :: w.trace) (room : RoomId) :
    w'.contact s room = (r.founding room).or (w.contact s room) := by
  rw [World.contact, htrace, List.findSome?_cons]
  cases r.founding room with
  | none => rfl
  | some _ => rfl

theorem founding_some {r : Record} (h : r.founding room = some contact) :
    (∃ name user, r.cmd = .matrix (.createRoomForContact name contact user)) ∧
      r.answer = .id room := by
  unfold Record.founding at h
  split at h
  case h_1 name found user heq =>
    split at h
    case isTrue ha =>
      obtain rfl := Option.some.inj h
      exact ⟨⟨name, user, heq⟩, ha⟩
    case isFalse => cases h
  case h_2 => cases h

theorem unknown_of_founding {r : Record} (hd : fromContactStep cfg s r w)
    (h : r.founding room = some contact) : w.unknown s room := by
  obtain ⟨⟨name, user, hcmd⟩, ha⟩ := founding_some h
  simp only [fromContactStep, hcmd, ha, Bool.and_eq_true] at hd
  exact hd.2

theorem contactsStay_cons {r : Record} (hd : fromContactStep cfg s r w)
    (htrace : w'.trace = r :: w.trace) : ContactsStay s w w' := by
  intro room contact hc
  rw [contact_cons htrace]
  cases hf : r.founding room with
  | none => exact hc
  | some found =>
    have hnew := unknown_of_founding hd hf
    simp only [World.unknown, hc, Option.isNone_some, Bool.false_and] at hnew
    cases hnew

theorem referring_cases {β : Type} (store : Store) (user : UserId) (b : β) (store' : Store) :
    (store.referring user b store').2 = store' ∨ (store.referring user b store').2 = store := by
  unfold Store.referring
  split
  · exact .inl rfl
  · exact .inr rfl

theorem ghosts_run {c : StoreCmd} {now : Nat} {order : List Nat} {store : Store} {row : GhostRow}
    (h : (c.run now order store).2.roomGhostMapping.lookup room = some row) :
    store.roomGhostMapping.lookup room = some row ∨
      ∃ user, c = .saveRoomGhostMapping room row.ghostEmail user := by
  have hreferring : ∀ {β : Type} {user : UserId} {b : β} {store' : Store},
      (store.referring user b store').2.roomGhostMapping.lookup room = some row →
      store'.roomGhostMapping = store.roomGhostMapping →
      store.roomGhostMapping.lookup room = some row := by
    intro β user b store' h hsame
    rcases referring_cases store user b store' with heq | heq
    · rwa [heq, hsame] at h
    · rwa [heq] at h
  cases c with
  | saveRoomGhostMapping room' contact user =>
    simp only [StoreCmd.run] at h
    rcases referring_cases store user () { store with
      roomGhostMapping := store.roomGhostMapping.insert room'
        { ghostEmail := contact, matrixUserId := user } } with heq | heq
    · rw [heq] at h
      by_cases hroom : room = room'
      · subst hroom
        obtain rfl := Option.some.inj ((AList.lookup_insert _).symm.trans h)
        exact .inr ⟨user, rfl⟩
      · exact .inl ((AList.lookup_insert_ne hroom).symm.trans h)
    · rw [heq] at h
      exact .inl h
  | deleteRoomGhostMapping room' =>
    simp only [StoreCmd.run] at h
    by_cases hroom : room = room'
    · subst hroom
      rw [AList.lookup_erase] at h
      cases h
    · rw [AList.lookup_erase_ne hroom] at h
      exact .inl h
  | saveJmapState => exact .inl (hreferring h rfl)
  | addToOutboundQueue => exact .inl (hreferring h rfl)
  | tryAcquireRoomCreationLock key =>
    simp only [StoreCmd.run] at h
    split at h
    · exact .inl h
    · exact .inl h
  | _ => exact .inl h

theorem ghosts_exec {c : Cmd} {a : Answer} {b : c.Ans} {row : GhostRow}
    (he : exec t (.mk c) a w = some (b, w'))
    (h : w'.store.roomGhostMapping.lookup room = some row) :
    w.store.roomGhostMapping.lookup room = some row ∨
      ∃ user, c = .store (.saveRoomGhostMapping room row.ghostEmail user) := by
  cases c with
  | store c =>
    rcases exec_store he with ⟨order, -, -, rfl⟩ | ⟨-, -, rfl⟩ | ⟨-, -, rfl⟩
    · exact (ghosts_run h).imp_right fun ⟨user, hc⟩ => ⟨user, congrArg Cmd.store hc⟩
    · exact .inl h
    · exact (ghosts_run h).imp_right fun ⟨user, hc⟩ => ⟨user, congrArg Cmd.store hc⟩
  | matrix c =>
    obtain ⟨⟨issued, rfl⟩, -⟩ := exec_matrix he
    exact .inl h
  | jmap account c =>
    obtain ⟨mail, rfl⟩ := exec_jmap he
    exact .inl h
  | task c =>
    obtain ⟨-, -, rfl⟩ := exec_task he
    cases c <;> exact .inl h

/-- A task that knows the contact of a room may give it its ghost and edit its emails. -/
theorem casting_exec {known : Option (RoomId × String)} {c : Cmd} {a : Answer} {b : c.Ans}
    (hc : c.inCast cfg known) (hw : Casting cfg s w) (hknows : w.knows s known)
    (hd : fromContactStep cfg s ⟨t, c, a⟩ w) (he : exec t (.mk c) a w = some (b, w')) :
    Casting cfg s w' ∧ ContactsStay s w w' := by
  have htrace : w'.trace = ⟨t, c, a⟩ :: w.trace := exec_trace he
  have hstay : ContactsStay s w w' := contactsStay_cons hd htrace
  refine ⟨⟨fun room row hrow => ?_, fun p hp contact hcontact => ?_, fun e hedit => ?_⟩, hstay⟩
  · rcases ghosts_exec he hrow with hrow | ⟨user, rfl⟩
    · exact hstay room _ (hw.mapped room row hrow)
    · have hk : known = some (room, row.ghostEmail) := by simpa [Cmd.inCast] using hc
      exact hstay room _ (hknows _ hk)
  · rw [htrace, List.filterMap_cons] at hp
    have hold : ∀ p ∈ w.trace.filterMap Record.post, ∀ contact,
        w'.contact s p.room = some contact → p.author = cfg.ghostUserId contact := by
      intro p hp contact hcontact
      rw [contact_cons htrace] at hcontact
      cases hf : Record.founding p.room ⟨t, c, a⟩ with
      | none =>
        rw [hf] at hcontact
        exact hw.posted p hp contact hcontact
      | some found =>
        have hnew := unknown_of_founding hd hf
        have hnone := (Bool.and_eq_true_iff.mp hnew).2
        exact absurd (List.all_eq_true.mp hnone p hp) (by simp)
    cases hpost : Record.post ⟨t, c, a⟩ with
    | none =>
      rw [hpost] at hp
      exact hold p hp contact hcontact
    | some p' =>
      rw [hpost] at hp
      rcases List.mem_cons.mp hp with rfl | hp
      · have hfounds : Record.founding p.room ⟨t, c, a⟩ = none := by
          cases hf : Record.founding p.room ⟨t, c, a⟩ with
          | none => rfl
          | some found =>
            obtain ⟨⟨name, user, rfl⟩, -⟩ := founding_some hf
            cases hpost
        rw [contact_cons htrace, hfounds] at hcontact
        have hauthor := (Bool.and_eq_true_iff.mp hd).1
        rw [hpost] at hauthor
        have hcontact : w.contact s p.room = some contact := hcontact
        simp only [Option.all_some, hcontact] at hauthor
        exact (eq_of_beq hauthor).symm
      · exact hold p hp contact hcontact
  · rw [htrace, List.filterMap_cons] at hedit
    have hold : ∀ e ∈ w.trace.filterMap Record.edit, ∃ contact,
        w'.contact s e.room = some contact ∧ e.editor = cfg.ghostUserId contact := by
      intro e he
      obtain ⟨contact, hcontact, heditor⟩ := hw.edited e he
      exact ⟨contact, hstay _ _ hcontact, heditor⟩
    cases hnew : Record.edit ⟨t, c, a⟩ with
    | none =>
      rw [hnew] at hedit
      exact hold e hedit
    | some e' =>
      rw [hnew] at hedit
      rcases List.mem_cons.mp hedit with rfl | hedit
      · unfold Record.edit at hnew
        split at hnew
        case h_1 room editor target body html stamp heq =>
          obtain rfl := Option.some.inj hnew
          have heq : c = .matrix (.sendAsGhost room editor (.edit target body html) stamp) := heq
          rw [heq] at hc
          obtain ⟨k, hk, hmatch⟩ := (Option.any_eq_true ..).mp hc
          obtain ⟨hroom, heditor⟩ := Bool.and_eq_true_iff.mp hmatch
          obtain rfl := eq_of_beq hroom
          exact ⟨k.2, hstay _ _ (hknows k hk), (eq_of_beq heditor).symm⟩
        case h_2 => cases hnew
      · exact hold e hedit

theorem knows_stable {known : Option (RoomId × String)} :
    Stable (castContract cfg s) t (World.knows s known) :=
  fun _ _ hw hr _ k hk => hr k.1 k.2 (hw k hk)

theorem cast_keeps {known : Option (RoomId × String)} {c : Cmd} (hc : c.inCast cfg known) :
    Keeps (bridge cfg calls) (fromContact cfg s) (castContract cfg s) t (World.knows s known)
      c.Ans (.mk c) := by
  intro w a b w' hw hi hd he
  have he : exec t (.mk c) a w = some (b, w') := he
  obtain ⟨hinv, hstay⟩ := casting_exec hc hi hw hd he
  exact ⟨hinv, fun _ _ => hstay, fun k hk => hstay k.1 k.2 (hw k hk)⟩

/-! The programs. -/

abbrev CastTriple (cfg : Config) (calls : Nat → Call) (s : Store) (t : Nat) (P : World → Prop)
    (x : Prog Op α) (Q : α → World → Prop) : Prop :=
  Triple (bridge cfg calls) (fromContact cfg s) (castContract cfg s) t P x Q

/-- What a task knows it still knows after the program. -/
def InCast (cfg : Config) (calls : Nat → Call) (s : Store) (t : Nat)
    (known : Option (RoomId × String)) (α : Type) (x : Prog Op α) : Prop :=
  CastTriple cfg calls s t (World.knows s known) x fun _ => World.knows s known

theorem inCast_closed (cfg : Config) (calls : Nat → Call) (s : Store) (t : Nat)
    (known : Option (RoomId × String)) :
    Prog.Closed (fun _ o => o.cmd.inCast cfg known) (InCast cfg calls s t known) :=
  (Triple.closed knows_stable).mono fun _ o hc => by
    obtain ⟨c⟩ := o
    exact cast_keeps hc

theorem InCast.does {known : Option (RoomId × String)} {x : Prog Op α}
    (hx : Does (fun c => c.inCast cfg known) x) : InCast cfg calls s t known α x :=
  (inCast_closed cfg calls s t known).of_only hx

theorem knows_none (s : Store) (w : World) : w.knows s none := nofun

theorem InCast.of_triple {x : Prog Op α} {Q : α → World → Prop}
    (hx : CastTriple cfg calls s t (World.knows s none) x Q) : InCast cfg calls s t none α x :=
  .post hx fun _ w _ _ => knows_none s w

theorem Cmd.bland.inCast {c : Cmd} (h : c.bland) (known : Option (RoomId × String)) :
    c.inCast cfg known := by
  unfold Cmd.inCast
  split
  · cases h
  · cases h
  · rfl

theorem Cmd.errand.inCast {c : Cmd} (h : c.errand) (known : Option (RoomId × String)) :
    c.inCast cfg known := by
  unfold Cmd.inCast
  split
  · cases h
  · cases h
  · rfl

theorem bland_inCast {known : Option (RoomId × String)} {x : Prog Op α} (hx : Bland x) :
    InCast cfg calls s t known α x := .does (hx.mono fun _ h => Cmd.bland.inCast h known)

/-- What an answer tells about the contact of a room. -/
def told (s : Store) (room : RoomId) : Except Err (Option String) → World → Prop
  | .ok (some contact) => World.knows s (some (room, contact))
  | _ => World.knows s none

theorem told_stable {r : Except Err (Option String)} :
    Stable (castContract cfg s) t (told s room r) := by
  unfold told
  split
  · exact knows_stable
  · exact knows_stable

theorem getGhostEmailByRoom_cast : CastTriple cfg calls s t (World.knows s none)
    (onStore (.getGhostEmailByRoom room)) (told s room) := by
  refine .call knows_stable (fun w a b w' hi hw hd he => ?_) fun r => told_stable
  have he : exec t (.mk (.store (.getGhostEmailByRoom room))) a w = some (b, w') := he
  obtain ⟨hinv, hstay⟩ := casting_exec rfl hi hw hd he
  refine ⟨hinv, fun _ _ => hstay, ?_⟩
  have hi : Casting cfg s w := hi
  match b with
  | .ok (some contact) =>
    rcases exec_store he with ⟨order, -, hb, -⟩ | ⟨-, hb, -⟩ | ⟨-, hb, -⟩
    · obtain ⟨row, hrow, rfl⟩ := Option.map_eq_some_iff.mp (Except.ok.inj hb).symm
      rintro k hk
      obtain rfl := Option.some.inj hk
      exact hstay room _ (hi.mapped room row hrow)
    · cases hb
    · cases hb
  | .ok none => exact knows_none s w'
  | .error _ => exact knows_none s w'

theorem createRoomForContact_cast {name contact : String} {user : UserId} :
    CastTriple cfg calls s t (World.knows s none)
      (onMatrix (.createRoomForContact name contact user)) (post
        (fun room => World.knows s (some (room, contact))) fun _ => World.knows s none) := by
  refine .call knows_stable (fun w a b w' hi hw hd he => ?_) fun r => ?_
  · have he : exec t (.mk (.matrix (.createRoomForContact name contact user))) a w =
        some (b, w') := he
    obtain ⟨hinv, hstay⟩ := casting_exec rfl hi hw hd he
    refine ⟨hinv, fun _ _ => hstay, ?_⟩
    match b with
    | .error _ => exact knows_none s w'
    | .ok room =>
      have ha : a = .id room := by
        have hvalue := (exec_matrix he).2 room rfl
        cases a with
        | id id => exact congrArg Answer.id (Option.some.inj hvalue)
        | _ => cases hvalue
      rintro k hk
      obtain rfl := Option.some.inj hk
      rw [contact_cons (exec_trace he), ha]
      simp [Record.founding]
  · cases r with
    | ok room => exact knows_stable
    | error _ => exact knows_stable

theorem ensureEmailSpace_cast {known : Option (RoomId × String)} {user : UserId} :
    InCast cfg calls s t known _ (ensureEmailSpace user) := by
  refine .does (.loop fun _ => .andThen (.store rfl) fun space => ?_)
  split
  · exact .ok
  · refine .andThen (.store rfl) fun acquired => ?_
    split
    · refine .andThen (.guarded rfl (.andThen (.store rfl) fun space => ?_)) fun _ => .ok
      split
      · exact .ok
      · refine .andThen (createEmailSpace_bland.mono fun _ h => Cmd.bland.inCast h known)
          fun _ => ?_
        exact .andThen (.store rfl) fun _ => .ok
    · exact .andThen (.lift (.task rfl)) fun _ => .ok

theorem createContactRoom_cast {user : UserId} {email name : String} :
    InCast cfg calls s t none _ (createContactRoom cfg user email name) := by
  refine (inCast_closed cfg calls s t none).andThen (bland_inCast registerGhost_bland) fun _ => ?_
  refine .of_triple (Q := fun _ _ => True) (.bind createRoomForContact_cast fun r => ?_)
  cases r with
  | error _ => exact .pure knows_stable fun _ _ _ => trivial
  | ok room =>
    have hclosed := inCast_closed cfg calls s t (some (room, email))
    have hsave : (Cmd.store (.saveRoomGhostMapping room email user)).inCast cfg
        (some (room, email)) := by simp [Cmd.inCast]
    have hrest : InCast cfg calls s t (some (room, email)) _ (Act.andThen
        (onStore (.saveRoomGhostMapping room email user)) fun _ => Act.andThen
        (bestEffort (onMatrix (.joinRoomAs room (cfg.ghostUserId email)))) fun _ => Act.andThen
        (Act.lift (joinRealUser user room)) fun _ => Act.andThen
        (bestEffort (ensureRoomInEmailSpace user room)) fun _ => Act.ok room) := by
      refine hclosed.andThen (hclosed.call hsave) fun _ => ?_
      refine hclosed.andThen (hclosed.bind (hclosed.call rfl) fun _ => hclosed.pure _) fun _ => ?_
      refine hclosed.andThen (hclosed.lift (bland_inCast joinRealUser_bland)) fun _ => ?_
      refine hclosed.andThen (hclosed.bind ?_ fun _ => hclosed.pure _) fun _ => hclosed.pure _
      exact hclosed.andThen ensureEmailSpace_cast fun _ => bland_inCast addRoomToSpace_bland
    exact .post hrest fun _ _ _ _ => trivial

theorem processNewThread_cast {p : Poller} {email : Email} {ghost : GhostUser} {body : EmailBody} :
    InCast cfg calls s t none _ (processNewThread cfg p email ghost body) := by
  have hclosed := inCast_closed cfg calls s t none
  rw [processNewThread]
  split
  case h_2 => exact hclosed.pure _
  have hlock : ∀ thread, InCast cfg calls s t none _ (awaitThreadLock thread) := by
    intro thread
    refine .does (.loop fun _ => .andThen (.store rfl) fun row => ?_)
    split
    · exact .ok
    · refine .andThen (.store rfl) fun acquired => ?_
      split
      · exact .ok
      · exact .andThen (.lift (.task rfl)) fun _ => .ok
  refine hclosed.andThen (hlock _) fun room => ?_
  split
  · exact bland_inCast processReply_bland
  · refine hclosed.bind ?_ fun _ => hclosed.bind (hclosed.call rfl) fun _ => hclosed.pure _
    refine hclosed.andThen (hclosed.call rfl) fun row => ?_
    split
    · exact bland_inCast processReply_bland
    · refine hclosed.andThen createContactRoom_cast fun room => ?_
      refine hclosed.andThen (hclosed.bind (hclosed.call rfl) fun _ => hclosed.pure _) fun _ => ?_
      refine hclosed.andThen (hclosed.call rfl) fun own => ?_
      refine hclosed.andThen (hclosed.bind (hclosed.call rfl) fun _ => hclosed.pure _) fun _ => ?_
      refine hclosed.andThen (bland_inCast sendMessageAs_bland) fun event => ?_
      refine hclosed.andThen (hclosed.call rfl) fun _ => ?_
      exact hclosed.andThen (hclosed.call rfl) fun _ => bland_inCast handleAttachments_bland

theorem loadImagesOf_inCast {account : Account} {email : EmailId} {target : EventId} :
    Does (fun c => c.inCast cfg (some (room, contact)))
      (loadImagesOf cfg account email room target contact) := by
  have hedit : ∀ plain html, (Cmd.matrix (.sendAsGhost room (cfg.ghostUserId contact)
      (.edit target plain html) none)).inCast cfg (some (room, contact)) := by simp [Cmd.inCast]
  refine .andThen (.jmap rfl) fun bodies => ?_
  split
  · refine .andThen (.lift (fetchImages_remark.talk.mono fun _ h =>
      Cmd.errand.inCast (Cmd.talk.errand h) _)) fun loaded => ?_
    split
    · exact .ok
    · exact .andThen (sendAsGhostJoining_does (hedit _ _) rfl rfl) fun _ => .ok
  · exact .ok

theorem handleLoadImages_cast {sender : UserId} {target : EventId} :
    InCast cfg calls s t none _ (handleLoadImages cfg sender room target) := by
  have hclosed := inCast_closed cfg calls s t none
  rw [handleLoadImages]
  split
  · exact hclosed.pure _
  · refine hclosed.andThen (hclosed.call rfl) fun email => ?_
    cases email with
    | none => exact hclosed.pure _
    | some email =>
      refine .of_triple (Q := fun _ _ => True) (.bind getGhostEmailByRoom_cast fun r => ?_)
      rcases r with err | (_ | contact)
      · exact .pure told_stable fun _ _ _ => trivial
      · exact .pure told_stable fun _ _ _ => trivial
      · have hknown := inCast_closed cfg calls s t (some (room, contact))
        refine .post (hknown.andThen (hknown.lift (hknown.call rfl)) fun client => ?_)
          fun _ _ _ _ => trivial
        cases client with
        | none => exact hknown.pure _
        | some account => exact .does loadImagesOf_inCast

theorem program_cast : InCast cfg calls s t none _ ((calls t).program cfg) := by
  have hbland : Prog.Closed (fun _ o => o.cmd.bland) (InCast cfg calls s t none) :=
    (inCast_closed cfg calls s t none).mono fun _ _ h => Cmd.bland.inCast h none
  have herrand : Prog.Closed (fun _ o => o.cmd.errand) (InCast cfg calls s t none) :=
    (inCast_closed cfg calls s t none).mono fun _ _ h => Cmd.errand.inCast h none
  have hsubmit : ∀ account b, InCast cfg calls s t none _ (submit account b) := fun account b =>
    submit_closed (upkeep_closed (chore_closed herrand)) fun _ =>
      (inCast_closed cfg calls s t none).call rfl
  exact program_closed hbland (fun _ => ensureEmailSpace_cast)
    (fun _ _ _ _ => processNewThread_cast)
    (serves_closed herrand hsubmit fun _ _ _ => handleLoadImages_cast)

theorem cast_upholds (cfg : Config) (calls : Nat → Call) (s : Store) :
    Upholds (bridge cfg calls) (fromContact cfg s) (castContract cfg s) where
  start := by
    intro t w hi _ _
    exact Prog.wp_mono (fun _ _ _ _ => trivial) (program_cast w hi (knows_none s w))
  env := by
    intro e w w' hi _ he
    have hi : Casting cfg s w := hi
    obtain ⟨htrace, users, locks, hstore⟩ := env_store he
    have hcontact : ∀ room, w'.contact s room = w.contact s room := fun room => by
      rw [World.contact, htrace, World.contact]
    refine ⟨⟨fun room row hrow => ?_, fun p hp contact hc => ?_, fun e hedit => ?_⟩,
      fun _ room contact hc => (hcontact room).trans hc⟩
    · rw [hstore] at hrow
      exact (hcontact room).trans (hi.mapped room row hrow)
    · rw [htrace] at hp
      exact hi.posted p hp contact ((hcontact _).symm.trans hc)
    · rw [htrace] at hedit
      obtain ⟨contact, hc, heditor⟩ := hi.edited e hedit
      exact ⟨contact, (hcontact _).trans hc, heditor⟩
  cancel _ _ hi _ := ⟨⟨hi.mapped, hi.posted, hi.edited⟩, fun _ _ _ _ h => h, trivial⟩

/-- In every run in which each email is from the contact of the room it is posted in, whoever
edits an email is its author. -/
theorem edits_by_author {w : World} (hw : w.trace = []) {es : List (Event Answer Env)}
    {q : Pool Op World} (hrun : (bridge cfg calls).run es (Pool.boot w) = some q)
    (hD : (bridge cfg calls).Admits (fromContact cfg w.store).meets es (Pool.boot w)) :
    EditsByAuthor q.world.trace := by
  have hcontact : ∀ room, w.contact w.store room =
      (w.store.roomGhostMapping.lookup room).map (·.ghostEmail) := fun room => by
    rw [World.contact, hw, List.findSome?_nil, Option.none_or]
  have hinit : Casting cfg w.store w := by
    refine ⟨fun room row hrow => ?_, fun p hp => ?_, fun e he => ?_⟩
    · rw [hcontact, hrow]
      rfl
    · rw [hw] at hp
      cases hp
    · rw [hw] at he
      cases he
  have hcast : Casting cfg w.store q.world :=
    (cast_upholds cfg calls w.store).inv_of_run hinit (fun _ => trivial) hrun hD
  exact hcast.edits

end

def imageConfig : Config where
  level := fun _ => some .user
  remoteImages := fun _ => ["https://x/1.png"]

/-- The thread has a room, which was made for Bob. -/
def imageWorld : World where
  clients := (∅ : Table _ _).insert "@a:localhost" "a@x"
  store :=
    { users := (∅ : Table _ _).insert "@a:localhost" ⟨"a@x", "token", "url"⟩
      jmapState := (∅ : Table _ _).insert ("@a:localhost", .changes) "s0"
      threadMapping := (∅ : Table _ _).insert "T" ⟨"$1", "!r", some "$1"⟩
      roomGhostMapping := (∅ : Table _ _).insert "!r" ⟨"b@y", none, "@a:localhost"⟩ }

/-- A poll, and the images of an email being loaded. -/
def imageCalls (t : Nat) : Call :=
  if t = 0 then .poll ⟨"@a:localhost", "a@x"⟩
  else .detached (.loadImages "@a:localhost" "!r" "$2")

/-- The poll bridges an email of the thread, and then its images are loaded. -/
def imagesLoaded (sender : String) : List (Event Answer Env) :=
  ([.start 0, .step 0 .done, .tau 0,
    .step 0 (.reply (.changes { newState := "s1", created := ["e2"] })),
      .step 0 (.reply (.emails
        [{ id := some "e2", threadId := some "T", fromAddrs := some [⟨none, sender⟩] }]))] :
      List (Event Answer Env)) ++ List.replicate 3 (.step 0 .done) ++
    ([.step 0 (.flag false), .step 0 .done, .step 0 (.id "$2"), .step 0 .done,
      .start 1] : List (Event Answer Env)) ++ List.replicate 3 (.step 1 .done) ++
    ([.step 1 (.reply (.bodies [(some "<img>", "")])), .step 1 (.id "mxc://1"),
      .step 1 (.id "$3")] : List (Event Answer Env))

/-- The email is from Bob. -/
theorem edits_by_author_bob : ∃ q,
    (bridge imageConfig imageCalls).run (imagesLoaded "b@y") (Pool.boot imageWorld) = some q ∧
      EditsByAuthor q.world.trace := by
  have hends : ((bridge imageConfig imageCalls).run (imagesLoaded "b@y")
      (Pool.boot imageWorld)).isSome := by decide +kernel
  obtain ⟨q, hq⟩ := Option.isSome_iff_exists.mp hends
  exact ⟨q, hq, edits_by_author rfl hq (by decide +kernel)⟩

/-- The email is from Carol, and is edited in the name of Bob. -/
theorem edited_by_another :
    ((bridge imageConfig imageCalls).run (imagesLoaded "c@z") (Pool.boot imageWorld)).map
      (fun q => decide (EditsByAuthor q.world.trace)) = some false := by
  decide +kernel

end JmapBridge
