import JmapBridge.Effect.Eval
import JmapBridge.Model.Exec
import JmapBridge.Model.Inbound

/-! The latest email of a thread. The pointer of the thread holds an event, which the query
of the thread's room resolves to an email through the message mapping. -/

namespace JmapBridge

open Effect Sql

/-- The event that the record makes the latest of the thread. -/
def Record.points (thread : ThreadId) (r : Record) : Option EventId :=
  match r.cmd, r.answer with
  | _, .failed => none
  | .store (.saveThreadMappingAtomic t root _ _), _ => if t = thread then some root else none
  | .store (.updateThreadLatestEvent t latest), _ => if t = thread then some latest else none
  | _, _ => none

/-- The event that the database refuses to make the latest of the thread. -/
def Record.refuses (thread : ThreadId) (r : Record) : Option EventId :=
  match r.cmd, r.answer with
  | .store (.updateThreadLatestEvent t latest), .failed => if t = thread then some latest else none
  | _, _ => none

/-- The event of the message made from the email. -/
def Record.posts (e : EmailId) (r : Record) : Option EventId :=
  match r.cmd, r.answer with
  | .matrix (.sendAsGhost _ _ (.message body) _), .id event =>
    if body.origin = .email e then some event else none
  | _, _ => none

/-- The event of an attachment. -/
def Record.attaches (r : Record) : Option EventId :=
  match r.cmd, r.answer with
  | .matrix (.sendAsGhost _ _ (.file _ _ _) _), .id event => some event
  | _, _ => none

/-- The database refuses no update of the latest event to that of the email's own message, and
carries out none to that of an attachment. -/
def OwnLatest (thread : ThreadId) (e : EmailId) (l : List Record) : Prop :=
  (∀ event, (∃ r ∈ l, r.posts e = some event) → ∀ r ∈ l, r.refuses thread ≠ some event) ∧
    ∀ event, (∃ r ∈ l, r.attaches = some event) → ∀ r ∈ l, r.points thread ≠ some event

/-- The room of the thread is shared with another one, whose latest event is an email. -/
def Store.crossed (s : Store) (thread : ThreadId) : Prop :=
  ∃ other row x event, other ≠ thread ∧ s.threadMapping.lookup other = some row ∧
    s.boundTo thread = some row.roomId ∧ row.latestEventId = some event ∧
    s.messageMapping.lookup x = some event

/-- The ids in the mappings were given out by the homeserver. -/
structure World.Known (w : World) : Prop where
  room : ∀ thread row, w.store.threadMapping.lookup thread = some row → row.roomId ∈ w.issued
  latest : ∀ thread row event, w.store.threadMapping.lookup thread = some row →
    row.latestEventId = some event → event ∈ w.issued
  message : ∀ e event, w.store.messageMapping.lookup e = some event → event ∈ w.issued

/-- An email that was bridged, the world before and what was done meanwhile. -/
structure BridgedEmail where
  id : EmailId
  before : World
  records : List Record

/-- Emails of the thread are bridged one after another, the newest first. In between
anything may happen that leaves the mappings alone. -/
inductive Bridges (cfg : Config) (calls : Nat → Call) (thread : ThreadId) (w : World) :
    List BridgedEmail → World → Prop
  | none : Bridges cfg calls thread w [] w
  | elsewhere {l : List BridgedEmail} {w₁ w₂ : World} : Bridges cfg calls thread w l w₁ →
      w₂.store.threadMapping = w₁.store.threadMapping →
      w₂.store.messageMapping = w₁.store.messageMapping → w₁.issued ⊆ w₂.issued →
      Bridges cfg calls thread w l w₂
  | email {l : List BridgedEmail} {w₁ w₂ : World} {p : Poller} {t : Nat} {email : Email}
      {e : EmailId} {new : List Record} : Bridges cfg calls thread w l w₁ →
      email.id = some e → email.threadId = some thread → w₁.store.mapped e = false →
      Eval (bridge cfg calls) {} t (processEmail cfg p email) w₁ (.ok ()) w₂ →
      (w₂.store.messageMapping.lookup e).isSome → w₂.trace = new ++ w₁.trace →
      Bridges cfg calls thread w (⟨e, w₁, new⟩ :: l) w₂

/-! What the programs do to the mappings. -/

/-- The commands that record no event and send no message. An attachment may be sent. -/
def Cmd.offLatest : Cmd → Bool
  | store (.saveThreadMappingAtomic _ _ _ _) => false
  | store (.updateThreadLatestEvent _ _) => false
  | store (.deleteThreadMappings _) => false
  | store (.saveMessageMapping _ _) => false
  | matrix (.sendAsGhost _ _ (.message _) _) => false
  | _ => true

/-- Commands that leave the mapping of the email alone, and write of the thread's row the
pointer only, with events of attachments. -/
structure Follows (thread : ThreadId) (e : EmailId) (new : List Record) (w w' : World) : Prop where
  trace : w'.trace = new ++ w.trace
  issued : w.issued ⊆ w'.issued
  messages : w'.store.messageMapping = w.store.messageMapping
  others : ∀ other, other ≠ thread →
    w'.store.threadMapping.lookup other = w.store.threadMapping.lookup other
  row : w'.store.threadMapping.lookup thread =
    (w.store.threadMapping.lookup thread).map fun row => { row with
      latestEventId := (new.findSome? (Record.points thread)).or row.latestEventId }
  unposted : ∀ r ∈ new, r.posts e = none
  attached : ∀ r ∈ new, ∀ event, r.attaches = some event → event ∉ w.issued ∧ event ∈ w'.issued
  pointed : ∀ r ∈ new, ∀ event, r.points thread = some event →
    event ∈ w'.issued ∧ ∃ r' ∈ new, r'.attaches = some event
  refused : ∀ r ∈ new, ∀ event, r.refuses thread = some event → ∃ r' ∈ new, r'.attaches = some event

/-- Follows, with nothing recorded. -/
structure Silent (thread : ThreadId) (e : EmailId) (new : List Record) (w w' : World) : Prop
    extends Follows thread e new w w' where
  unpointed : ∀ r ∈ new, r.points thread = none
  unrefused : ∀ r ∈ new, r.refuses thread = none

section

variable {cfg : Config} {calls : Nat → Call} {p : Poller} {t : Nat} {thread : ThreadId}
  {e : EmailId} {w w₁ w₂ w' : World} {new new' : List Record} {α : Type}

theorem findSome_points_none (h : ∀ r ∈ new, r.points thread = none) :
    new.findSome? (Record.points thread) = none := List.findSome?_eq_none_iff.mpr h

theorem Follows.trans (h : Follows thread e new w w₁) (h' : Follows thread e new' w₁ w₂) :
    Follows thread e (new' ++ new) w w₂ where
  trace := by rw [h'.trace, h.trace, List.append_assoc]
  issued := fun s hs => h'.issued (h.issued hs)
  messages := h'.messages.trans h.messages
  others other hne := (h'.others other hne).trans (h.others other hne)
  row := by
    rw [h'.row, h.row, List.findSome?_append, Option.map_map]
    congr 1
    funext row
    simp [Option.or_assoc]
  unposted r hr := (List.mem_append.mp hr).elim (h'.unposted r) (h.unposted r)
  attached r hr event he := by
    rcases List.mem_append.mp hr with hr | hr
    · obtain ⟨hfresh, hknown⟩ := h'.attached r hr event he
      exact ⟨fun hold => hfresh (h.issued hold), hknown⟩
    · obtain ⟨hfresh, hknown⟩ := h.attached r hr event he
      exact ⟨hfresh, h'.issued hknown⟩
  pointed r hr event he := by
    rcases List.mem_append.mp hr with hr | hr
    · obtain ⟨hissued, r', hr', hfile⟩ := h'.pointed r hr event he
      exact ⟨hissued, r', List.mem_append_left _ hr', hfile⟩
    · obtain ⟨hissued, r', hr', hfile⟩ := h.pointed r hr event he
      exact ⟨h'.issued hissued, r', List.mem_append_right _ hr', hfile⟩
  refused r hr event he := by
    rcases List.mem_append.mp hr with hr | hr
    · obtain ⟨r', hr', hfile⟩ := h'.refused r hr event he
      exact ⟨r', List.mem_append_left _ hr', hfile⟩
    · obtain ⟨r', hr', hfile⟩ := h.refused r hr event he
      exact ⟨r', List.mem_append_right _ hr', hfile⟩

theorem Silent.trans (h : Silent thread e new w w₁) (h' : Silent thread e new' w₁ w₂) :
    Silent thread e (new' ++ new) w w₂ :=
  ⟨h.toFollows.trans h'.toFollows,
    fun r hr => (List.mem_append.mp hr).elim (h'.unpointed r) (h.unpointed r),
    fun r hr => (List.mem_append.mp hr).elim (h'.unrefused r) (h.unrefused r)⟩

/-- What points nowhere and posts nothing is silent, where it leaves the mappings alone. -/
theorem Silent.of_frame (htrace : w'.trace = new ++ w.trace) (hissued : w.issued ⊆ w'.issued)
    (hmessages : w'.store.messageMapping = w.store.messageMapping)
    (hthreads : w'.store.threadMapping = w.store.threadMapping)
    (hnew : ∀ r ∈ new, r.points thread = none ∧ r.posts e = none ∧ r.refuses thread = none)
    (hattached : ∀ r ∈ new, ∀ event, r.attaches = some event →
      event ∉ w.issued ∧ event ∈ w'.issued) :
    Silent thread e new w w' := by
  have hunpointed : ∀ r ∈ new, r.points thread = none := fun r hr => (hnew r hr).1
  have hunrefused : ∀ r ∈ new, r.refuses thread = none := fun r hr => (hnew r hr).2.2
  refine ⟨⟨htrace, hissued, hmessages, fun _ _ => by rw [hthreads], ?_,
    fun r hr => (hnew r hr).2.1, hattached, ?_, ?_⟩, hunpointed, hunrefused⟩
  · rw [hthreads, findSome_points_none hunpointed]
    simp
  · intro r hr event he
    rw [hunpointed r hr] at he
    cases he
  · intro r hr event he
    rw [hunrefused r hr] at he
    cases he

theorem Silent.refl : Silent thread e [] w w :=
  .of_frame rfl (fun _ h => h) rfl rfl (by simp) (by simp)

/-! Commands and programs that are silent. -/

theorem records_of_offLatest {c : Cmd} {a : Answer} (hc : c.offLatest) :
    Record.points thread ⟨t, c, a⟩ = none ∧ Record.posts e ⟨t, c, a⟩ = none ∧
      Record.refuses thread ⟨t, c, a⟩ = none := by
  refine ⟨?_, ?_, ?_⟩
  · unfold Record.points
    split <;> simp_all [Cmd.offLatest]
  · unfold Record.posts
    split <;> simp_all [Cmd.offLatest]
  · unfold Record.refuses
    split <;> simp_all [Cmd.offLatest]

theorem mappings_run {c : StoreCmd} (hc : (Cmd.store c).offLatest) (now : Nat) (order : List Nat)
    (s : Store) : (c.run now order s).2.threadMapping = s.threadMapping ∧
      (c.run now order s).2.messageMapping = s.messageMapping := by
  have refers : ∀ {α : Type} {u : UserId} {b : α} {s' : Store}, s'.threadMapping = s.threadMapping →
      s'.messageMapping = s.messageMapping →
      (s.referring u b s').2.threadMapping = s.threadMapping ∧
        (s.referring u b s').2.messageMapping = s.messageMapping := by
    intro α u b s' hthreads hmessages
    unfold Store.referring
    split
    · exact ⟨hthreads, hmessages⟩
    · exact ⟨rfl, rfl⟩
  cases c with
  | saveThreadMappingAtomic => cases hc
  | updateThreadLatestEvent => cases hc
  | deleteThreadMappings => cases hc
  | saveMessageMapping => cases hc
  | saveJmapState => exact refers rfl rfl
  | saveRoomGhostMapping => exact refers rfl rfl
  | addToOutboundQueue => exact refers rfl rfl
  | tryAcquireRoomCreationLock key =>
    simp only [StoreCmd.run]
    split <;> exact ⟨rfl, rfl⟩
  | _ => exact ⟨rfl, rfl⟩

theorem attaches_exec {c : Cmd} {a : Answer} {b : c.Ans} {event : EventId}
    (h : exec t (.mk c) a w = some (b, w')) (ha : Record.attaches ⟨t, c, a⟩ = some event) :
    event ∉ w.issued ∧ event ∈ w'.issued := by
  unfold Record.attaches at ha
  split at ha
  · next heq hanswer =>
    obtain rfl := Option.some.inj ha
    obtain rfl : c = _ := heq
    obtain rfl : a = _ := hanswer
    obtain ⟨hfresh, hissued⟩ := exec_issues h (.inl rfl)
    refine ⟨hfresh, ?_⟩
    rw [hissued]
    exact List.mem_cons_self
  · cases ha

theorem silent_exec {c : Cmd} {a : Answer} {b : c.Ans} (hc : c.offLatest)
    (h : exec t (.mk c) a w = some (b, w')) : Silent thread e [⟨t, c, a⟩] w w' := by
  have hstore : w'.store.threadMapping = w.store.threadMapping ∧
      w'.store.messageMapping = w.store.messageMapping := by
    cases c with
    | store c =>
      rcases exec_store h with ⟨order, -, -, rfl⟩ | ⟨-, -, rfl⟩ | ⟨-, -, rfl⟩
      · exact mappings_run hc _ _ _
      · exact ⟨rfl, rfl⟩
      · exact mappings_run hc _ _ _
    | matrix c =>
      obtain ⟨⟨issued, rfl⟩, -⟩ := exec_matrix h
      exact ⟨rfl, rfl⟩
    | jmap account c =>
      obtain ⟨mail, rfl⟩ := exec_jmap h
      exact ⟨rfl, rfl⟩
    | task c =>
      obtain ⟨-, -, rfl⟩ := exec_task h
      cases c <;> exact ⟨rfl, rfl⟩
  refine .of_frame (exec_trace h) (issued_exec h) hstore.2 hstore.1 (fun r hr => ?_)
    fun r hr => ?_
  · obtain rfl := List.mem_singleton.mp hr
    exact records_of_offLatest hc
  · obtain rfl := List.mem_singleton.mp hr
    exact fun event => attaches_exec h

variable {D : Discipline Op World Answer Env}

theorem silent_eval {x : Prog Op α} {a : α} (hx : Does (fun c => c.offLatest) x)
    (h : Eval (bridge cfg calls) D t x w a w') : ∃ new, Silent thread e new w w' := by
  refine h.only (P := fun w' => ∃ new, Silent thread e new w w')
    (fun β o c w₁ b w₂ ho _ he hw => ?_) hx ⟨[], .refl⟩
  obtain ⟨cmd⟩ := o
  obtain ⟨new, hnew⟩ := hw
  exact ⟨_, hnew.trans (silent_exec ho he)⟩

theorem RoomCmd.offLatest {user : UserId} {c : Cmd} (h : RoomCmd user c) : c.offLatest := by
  cases h <;> rfl

theorem ReadStateCmd.offLatest {user : UserId} {email : Option EmailId} {c : Cmd}
    (h : ReadStateCmd user email c) :
    c.offLatest := by
  cases h <;> rfl

/-! Sending. -/

/-- The commands that bring a ghost into a room. -/
def Cmd.invites : Cmd → Bool
  | matrix (.inviteToRoom _ _) => true
  | matrix (.joinRoomAs _ _) => true
  | _ => false

/-- Sends `x`, the only answer with an id being `event`. -/
def Record.sends (x : Content) (event : EventId) (r : Record) : Prop :=
  ∃ room sender ts, r.cmd = .matrix (.sendAsGhost room sender x ts) ∧
    ∀ s, r.answer = .id s → s = event

/-- A message was sent, and its event is new. -/
structure Sent (x : Content) (event : EventId) (new : List Record) (w w' : World) : Prop where
  trace : w'.trace = new ++ w.trace
  store : w'.store = w.store
  issued : w.issued ⊆ w'.issued
  fresh : event ∉ w.issued
  known : event ∈ w'.issued
  records : ∀ r ∈ new, r.cmd.invites ∨ r.sends x event
  sent : ∃ r ∈ new, r.sends x event ∧ r.answer = .id event

theorem send_exec {room : RoomId} {sender : UserId} {x : Content} {ts : Option Nat} {a : Answer}
    {b : Except Err EventId} (h : exec t (.mk (.matrix (.sendAsGhost room sender x ts))) a w =
      some (b, w')) :
    (∃ event, b = .ok event ∧
      Sent x event [⟨t, .matrix (.sendAsGhost room sender x ts), a⟩] w w') ∨
    ∃ err, b = .error err ∧ w'.store = w.store ∧ ∀ s, a ≠ .id s := by
  rcases exec_send h with ⟨event, rfl, rfl⟩ | ⟨ha, err, rfl⟩ | ⟨event, rfl, rfl⟩
  · refine .inl ⟨event, rfl, ?_⟩
    have hrecord : Record.sends x event ⟨t, .matrix (.sendAsGhost room sender x ts), .id event⟩ :=
      ⟨room, sender, ts, rfl, fun s hs => by cases hs; rfl⟩
    obtain ⟨hfresh, hissued⟩ := exec_issues h (.inl rfl)
    obtain ⟨⟨issued, rfl⟩, -⟩ := exec_matrix h
    obtain rfl : issued = event :: w.issued := hissued
    exact ⟨rfl, rfl, fun _ hs => List.mem_cons_of_mem _ hs, hfresh, List.mem_cons_self,
      fun r hr => .inr (List.mem_singleton.mp hr ▸ hrecord),
      ⟨_, List.mem_singleton_self _, hrecord, rfl⟩⟩
  · refine .inr ⟨err, rfl, ?_, ?_⟩
    · obtain ⟨⟨issued, rfl⟩, -⟩ := exec_matrix h
      rfl
    · rintro s rfl
      rcases ha with ha | ha <;> cases ha
  · refine .inr ⟨_, rfl, ?_, by rintro s ⟨⟩⟩
    obtain ⟨⟨issued, rfl⟩, -⟩ := exec_matrix h
    rfl

theorem Sent.after {x : Content} {event : EventId} (h : Sent x event new' w₁ w')
    (htrace : w₁.trace = new ++ w.trace) (hstore : w₁.store = w.store)
    (hissued : w.issued ⊆ w₁.issued)
    (hnew : ∀ r ∈ new, r.cmd.invites ∨ r.sends x event) : Sent x event (new' ++ new) w w' where
  trace := by rw [h.trace, htrace, List.append_assoc]
  store := h.store.trans hstore
  issued := fun s hs => h.issued (hissued hs)
  fresh := fun hs => h.fresh (hissued hs)
  known := h.known
  records r hr := (List.mem_append.mp hr).elim (h.records r) (hnew r)
  sent := by
    obtain ⟨r, hr, hsent⟩ := h.sent
    exact ⟨r, List.mem_append_left _ hr, hsent⟩

/-- A ghost is brought into a room. -/
structure Asked (new : List Record) (w w' : World) : Prop where
  trace : w'.trace = new ++ w.trace
  store : w'.store = w.store
  issued : w.issued ⊆ w'.issued
  records : ∀ r ∈ new, r.cmd.invites

theorem Asked.trans (h : Asked new w w₁) (h' : Asked new' w₁ w₂) : Asked (new' ++ new) w w₂ where
  trace := by rw [h'.trace, h.trace, List.append_assoc]
  store := h'.store.trans h.store
  issued := fun s hs => h'.issued (h.issued hs)
  records r hr := (List.mem_append.mp hr).elim (h'.records r) (h.records r)

theorem asked_exec {c : Cmd} {a : Answer} {b : c.Ans} (hc : c.invites)
    (h : exec t (.mk c) a w = some (b, w')) : Asked [⟨t, c, a⟩] w w' := by
  refine ⟨exec_trace h, ?_, issued_exec h, fun r hr => List.mem_singleton.mp hr ▸ hc⟩
  cases c with
  | matrix m =>
    obtain ⟨⟨issued, rfl⟩, -⟩ := exec_matrix h
    rfl
  | _ => cases hc

theorem asked_eval {x : Prog Op α} {a : α} (hx : Does (fun c => c.invites) x)
    (h : Eval (bridge cfg calls) D t x w a w') : ∃ new, Asked new w w' := by
  refine h.only (P := fun w' => ∃ new, Asked new w w') (fun β o c w₁ b w₂ ho _ he hw => ?_) hx
    ⟨[], rfl, rfl, fun _ hs => hs, by simp⟩
  obtain ⟨cmd⟩ := o
  obtain ⟨new, hnew⟩ := hw
  exact ⟨_, hnew.trans (asked_exec ho he)⟩

theorem sendAsGhostJoining_eval {room : RoomId} {sender : UserId} {x : Content} {ts : Option Nat}
    {event : EventId}
    (h : Eval (bridge cfg calls) D t (sendAsGhostJoining room sender x ts) w (.ok event) w') :
    ∃ new, Sent x event new w w' := by
  obtain ⟨r, w₁, hfirst, hrest⟩ := Eval.andThen_ok h
  obtain ⟨r', hsend, hr⟩ := Eval.attempt_iff.mp hfirst
  obtain rfl := Except.ok.inj hr
  obtain ⟨a, -, he⟩ := Eval.call_iff.mp hsend
  have he : exec t (.mk (.matrix (.sendAsGhost room sender x ts))) a w = some (r, w₁) := he
  rcases send_exec he with ⟨event', rfl, hsent⟩ | ⟨err, rfl, hstore, hnone⟩
  · obtain ⟨hevent, rfl⟩ := Eval.ok_iff.mp hrest
    obtain rfl := Except.ok.inj hevent
    exact ⟨_, hsent⟩
  · cases err with
    | notJoined =>
      -- the ghost is invited and joined, and what counts is the second attempt
      obtain ⟨_, w₂, hinvite, hrest⟩ := Eval.andThen_ok hrest
      obtain ⟨_, w₃, hjoin, hsecond⟩ := Eval.andThen_ok hrest
      obtain ⟨invited, hinvited⟩ := asked_eval (.bestEffort (.matrix rfl)) hinvite
      obtain ⟨joined, hjoined⟩ := asked_eval (.matrix rfl) hjoin
      obtain ⟨a', -, he'⟩ := Eval.call_iff.mp hsecond
      have he' : exec t (.mk (.matrix (.sendAsGhost room sender x ts))) a' w₃ =
        some (.ok event, w') := he'
      rcases send_exec he' with ⟨_, hevent, hsent⟩ | ⟨_, hevent, -⟩
      case inr => cases hevent
      obtain rfl := Except.ok.inj hevent
      have hbetween := hinvited.trans hjoined
      have htrace : w₃.trace = joined ++ invited ++
          [⟨t, .matrix (.sendAsGhost room sender x ts), a⟩] ++ w.trace := by
        rw [hbetween.trace, exec_trace he, List.append_assoc _ [_]]
        rfl
      refine ⟨_, hsent.after htrace ?_ ?_ ?_⟩
      · exact hbetween.store.trans hstore
      · exact fun s hs => hbetween.issued (issued_exec he hs)
      · intro r hr
        rcases List.mem_append.mp hr with hr | hr
        · exact .inl (hbetween.records r hr)
        · obtain rfl := List.mem_singleton.mp hr
          exact .inr ⟨room, sender, ts, rfl, fun s hs => absurd hs (hnone s)⟩
    | _ =>
      obtain ⟨hevent, -⟩ := Eval.fail_iff.mp hrest
      cases hevent

/-! Attachments. -/

theorem AttachmentCmd.offLatest {room : RoomId} {c : Cmd} (h : AttachmentCmd p room c)
    (hlatest : ∀ thread event, c ≠ .store (.updateThreadLatestEvent thread event)) :
    c.offLatest := by
  cases h with
  | latest thread event => exact absurd rfl (hlatest thread event)
  | _ => rfl

section

variable {room : RoomId} {sender : UserId} {ts : Option Nat} {part : EmailBodyPart}

theorem sendFileAs_offLatest {url name mime : String} :
    Does (fun c => c.offLatest) (sendFileAs room url name mime sender ts) :=
  sendAsGhostJoining_does rfl rfl rfl

theorem bridgeAttachment_offLatest :
    Does (fun c => c.offLatest) (bridgeAttachment p part room sender ts) := by
  refine .andThen .ofOption fun _ => ?_
  split
  · exact .fail
  · exact .andThen (.store rfl) fun _ => .andThen .ofOption fun _ => .andThen (.matrix rfl) fun _ =>
      .andThen (.matrix rfl) fun _ => sendFileAs_offLatest

theorem Sent.attached {url name mime : String} {event : EventId}
    (h : Sent (.file url name mime) event new w w') : ∃ r ∈ new, r.attaches = some event := by
  obtain ⟨r, hr, ⟨room, sender, ts, hcmd, -⟩, hanswer⟩ := h.sent
  exact ⟨r, hr, by simp [Record.attaches, hcmd, hanswer]⟩

theorem bridgeAttachment_eval {event : EventId}
    (h : Eval (bridge cfg calls) D t (bridgeAttachment p part room sender ts) w (.ok event) w') :
    ∃ new, Silent thread e new w w' ∧ event ∈ w'.issued ∧
      ∃ r ∈ new, r.attaches = some event := by
  have hprefix : ∃ url name mime w₁, (∃ new, Silent thread e new w w₁) ∧
      Eval (bridge cfg calls) D t (sendFileAs room url name mime sender ts) w₁ (.ok event) w' := by
    obtain ⟨blob, w₁, hblob, h⟩ := Eval.andThen_ok h
    obtain ⟨_, hblob⟩ : ∃ new, Silent thread e new w w₁ := silent_eval .ofOption hblob
    split at h
    · cases (Eval.fail_iff.mp h).1
    · rcases Eval.andThen_iff.mp h with ⟨user, w₂, huser, h⟩ | ⟨_, -, hr⟩
      case inr => cases hr
      obtain ⟨_, huser⟩ : ∃ new, Silent thread e new w₁ w₂ := silent_eval (.store rfl) huser
      obtain ⟨user', w₃, hsome, h⟩ := Eval.andThen_ok h
      obtain ⟨_, hsome⟩ : ∃ new, Silent thread e new w₂ w₃ := silent_eval .ofOption hsome
      obtain ⟨_, w₄, hdown, h⟩ := Eval.andThen_ok h
      obtain ⟨_, hdown⟩ : ∃ new, Silent thread e new w₃ w₄ := silent_eval (.matrix rfl) hdown
      obtain ⟨url, w₅, hup, h⟩ := Eval.andThen_ok h
      obtain ⟨_, hup⟩ : ∃ new, Silent thread e new w₄ w₅ := silent_eval (.matrix rfl) hup
      exact ⟨_, _, _, w₅, ⟨_, (((hblob.trans huser).trans hsome).trans hdown).trans hup⟩, h⟩
  obtain ⟨url, name, mime, w₁, ⟨new, hnew⟩, hsend⟩ := hprefix
  obtain ⟨sent, hsent⟩ := sendAsGhostJoining_eval hsend
  obtain ⟨new', hnew'⟩ : ∃ new, Silent thread e new w₁ w' := silent_eval sendFileAs_offLatest hsend
  have hsame : sent = new' := List.append_cancel_right (hsent.trace.symm.trans hnew'.trace)
  subst hsame
  obtain ⟨r, hr, hattached⟩ := hsent.attached
  exact ⟨_, hnew.trans hnew', hsent.known, r, List.mem_append_left _ hr, hattached⟩

theorem points_update {t' : ThreadId} {a : Answer} {event : EventId} (ha : a ≠ .failed) :
    Record.points thread ⟨t, .store (.updateThreadLatestEvent t' event), a⟩ =
      if t' = thread then some event else none := by
  cases a with
  | failed => exact absurd rfl ha
  | _ => rfl

theorem refuses_done {t' : ThreadId} {a : Answer} {event : EventId} (ha : a ≠ .failed) :
    Record.refuses thread ⟨t, .store (.updateThreadLatestEvent t' event), a⟩ = none := by
  cases a with
  | failed => exact absurd rfl ha
  | _ => rfl

theorem refuses_update {t' : ThreadId} {a : Answer} {event x : EventId}
    (h : Record.refuses thread ⟨t, .store (.updateThreadLatestEvent t' event), a⟩ = some x) :
    x = event := by
  cases a with
  | failed =>
    simp only [Record.refuses] at h
    split at h
    · exact (Option.some.inj h).symm
    · cases h
  | _ => cases h

theorem update_exec {event : EventId} {a : Answer} {b : Except Err Unit}
    (h : exec t (.mk (.store (.updateThreadLatestEvent thread event))) a w = some (b, w')) :
    w'.issued = w.issued ∧ w'.store.messageMapping = w.store.messageMapping ∧
    (∀ other, other ≠ thread →
      w'.store.threadMapping.lookup other = w.store.threadMapping.lookup other) ∧
    w'.store.threadMapping.lookup thread =
      (w.store.threadMapping.lookup thread).map fun row => { row with
        latestEventId := (Record.points thread
          ⟨t, .store (.updateThreadLatestEvent thread event), a⟩).or row.latestEventId } := by
  have hcommit : a ≠ .failed →
      ∀ order, ((StoreCmd.updateThreadLatestEvent thread event).run w.now order
        w.store).2.threadMapping.lookup thread =
      (w.store.threadMapping.lookup thread).map fun row => { row with
        latestEventId := (Record.points thread
          ⟨t, .store (.updateThreadLatestEvent thread event), a⟩).or row.latestEventId } := by
    intro ha order
    rw [points_update ha, if_pos rfl]
    exact Table.lookup_modify_self ..
  have hothers : ∀ order other, other ≠ thread →
      ((StoreCmd.updateThreadLatestEvent thread event).run w.now order
        w.store).2.threadMapping.lookup other = w.store.threadMapping.lookup other :=
    fun order other hne => Table.lookup_modify_ne hne ..
  rcases exec_store h with ⟨order, ha, -, rfl⟩ | ⟨rfl, -, rfl⟩ | ⟨⟨s, rfl⟩, -, rfl⟩
  · have hdone : a ≠ .failed := by rcases ha with ⟨rfl, -⟩ | rfl <;> simp
    exact ⟨rfl, rfl, hothers order, hcommit hdone order⟩
  · refine ⟨rfl, rfl, fun _ _ => rfl, ?_⟩
    have hnone : Record.points thread
        ⟨t, .store (.updateThreadLatestEvent thread event), .failed⟩ = none := rfl
    simp [hnone]
  · exact ⟨rfl, rfl, hothers [], hcommit (by simp) []⟩

end

theorem update_follows {event : EventId} {a : Answer} {b : Except Err Unit}
    (h : exec t (.mk (.store (.updateThreadLatestEvent thread event))) a w₁ = some (b, w'))
    (hnew : Silent thread e new w w₁) (hevent : event ∈ w₁.issued)
    (hattached : ∃ r ∈ new, r.attaches = some event) :
    Follows thread e (⟨t, .store (.updateThreadLatestEvent thread event), a⟩ :: new) w w' := by
  obtain ⟨hissued, hmessages, hothers, hrow⟩ := update_exec h
  have hpoints : ∀ x, Record.points thread ⟨t, .store (.updateThreadLatestEvent thread event), a⟩ =
      some x → x = event := by
    intro x hx
    by_cases ha : a = .failed
    · subst ha
      cases hx
    · rw [points_update ha, if_pos rfl] at hx
      exact (Option.some.inj hx).symm
  have hrefuses :
      ∀ x, Record.refuses thread ⟨t, .store (.updateThreadLatestEvent thread event), a⟩ =
      some x → x = event := fun x hx => refuses_update hx
  refine ⟨?_, ?_, hmessages.trans hnew.messages, fun other hne =>
    (hothers other hne).trans (hnew.others other hne), ?_, ?_, ?_, ?_, ?_⟩
  · rw [exec_trace h, hnew.trace, List.cons_append]
  · rw [hissued]
    exact hnew.issued
  · have hkept : w₁.store.threadMapping.lookup thread = w.store.threadMapping.lookup thread := by
      rw [hnew.row, findSome_points_none hnew.unpointed]
      simp
    rw [hrow, hkept, List.findSome?_cons, findSome_points_none hnew.unpointed]
    cases Record.points thread ⟨t, .store (.updateThreadLatestEvent thread event), a⟩ <;> rfl
  · intro r hr
    rcases List.mem_cons.mp hr with rfl | hr
    · rfl
    · exact hnew.unposted r hr
  · intro r hr x hx
    rcases List.mem_cons.mp hr with rfl | hr
    · cases hx
    · rw [hissued]
      exact hnew.attached r hr x hx
  · intro r hr x hx
    rcases List.mem_cons.mp hr with rfl | hr
    · obtain rfl := hpoints x hx
      obtain ⟨r', hr', hfile⟩ := hattached
      exact ⟨hissued ▸ hevent, r', List.mem_cons_of_mem _ hr', hfile⟩
    · rw [hnew.unpointed r hr] at hx
      cases hx
  · intro r hr x hx
    rcases List.mem_cons.mp hr with rfl | hr
    · obtain rfl := hrefuses x hx
      obtain ⟨r', hr', hfile⟩ := hattached
      exact ⟨r', List.mem_cons_of_mem _ hr', hfile⟩
    · rw [hnew.unrefused r hr] at hx
      cases hx

theorem handleAttachments_eval {email : Email} {room : RoomId} {sender : UserId}
    {ts : Option Nat} {r : Except Err Unit} (hthread : email.threadId = some thread)
    (h : Eval (bridge cfg calls) D t (handleAttachments p email room sender ts) w r w') :
    ∃ new, Follows thread e new w w' := by
  refine Eval.actForEach_induct (J := fun w' => ∃ new, Follows thread e new w w')
    (fun part w₁ r w₂ hw hpart => ?_) h ⟨[], Silent.refl.toFollows⟩
  obtain ⟨old, hold⟩ := hw
  rcases Eval.andThen_iff.mp hpart with ⟨sent, w₃, hsent, hpart⟩ | ⟨err, hsent, -⟩
  · obtain ⟨sent', hsent, hr⟩ := Eval.attempt_iff.mp hsent
    obtain rfl := Except.ok.inj hr
    rw [hthread] at hpart
    cases sent with
    | ok event =>
      obtain ⟨new, hnew, hevent, hattached⟩ : ∃ new, Silent thread e new w₁ w₃ ∧
          event ∈ w₃.issued ∧ ∃ r ∈ new, r.attaches = some event := bridgeAttachment_eval hsent
      obtain ⟨b, w₄, hcall, hr⟩ := Eval.bind_iff.mp hpart
      obtain ⟨-, rfl⟩ := Eval.pure_iff.mp hr
      obtain ⟨a, -, he⟩ := Eval.call_iff.mp hcall
      have he : exec t (.mk (.store (.updateThreadLatestEvent thread event))) a w₃ =
        some (b, w₂) := he
      exact ⟨_, hold.trans (update_follows he hnew hevent hattached)⟩
    | error err =>
      obtain ⟨-, rfl⟩ := Eval.ok_iff.mp hpart
      obtain ⟨new, hnew⟩ : ∃ new, Silent thread e new w₁ w₂ :=
        silent_eval bridgeAttachment_offLatest hsent
      exact ⟨_, hold.trans hnew.toFollows⟩
  · obtain ⟨_, -, hr⟩ := Eval.attempt_iff.mp hsent
    cases hr

/-! The email's own message. -/

/-- The thread has the room: it had it before, or nobody did. -/
def Store.roomFor (s : Store) (thread : ThreadId) (room : RoomId) : Prop :=
  s.boundTo thread = some room ∨ s.threadMapping.lookup thread = none ∧
    ∀ other row, s.threadMapping.lookup other = some row → row.roomId ≠ room

/-- The email is mapped to the event of its own message, and the thread has a room. -/
structure Noted (thread : ThreadId) (e : EmailId) (event : EventId) (new : List Record)
    (w w' : World) : Prop where
  trace : w'.trace = new ++ w.trace
  issued : w.issued ⊆ w'.issued
  fresh : event ∉ w.issued
  known : event ∈ w'.issued
  posted : ∀ r ∈ new, ∀ x, r.posts e = some x → x = event
  messages : w'.store.messageMapping = w.store.messageMapping.insert e event
  others : ∀ other, other ≠ thread →
    w'.store.threadMapping.lookup other = w.store.threadMapping.lookup other
  pointed : ∀ r ∈ new, ∀ x, r.points thread = some x → x ∉ w.issued ∧ x ∈ w'.issued
  row : ∃ row, w'.store.threadMapping.lookup thread = some row ∧ row.roomId ∈ w'.issued ∧
    (∀ x, row.latestEventId = some x → x ∈ w'.issued) ∧
    (row.latestEventId = some event ↔ OwnLatest thread e new) ∧ w.store.roomFor thread row.roomId

/-- Records that neither post the email nor point to what was recorded before, nor refuse its
event. -/
theorem ownLatest_append (hposts : ∀ r ∈ new', r.posts e = none)
    (hpoints : ∀ r ∈ new', r.points thread = none)
    (hattached : ∀ r ∈ new', ∀ x, r.attaches = some x → ∀ r ∈ new, r.points thread ≠ some x)
    (hrefuses : ∀ r ∈ new', ∀ x, (∃ r ∈ new, r.posts e = some x) → r.refuses thread ≠ some x) :
    (OwnLatest thread e (new' ++ new) ↔ OwnLatest thread e new) ∧
      (OwnLatest thread e (new ++ new') ↔ OwnLatest thread e new) := by
  have hiff : ∀ l : List Record, (∀ r, r ∈ l ↔ r ∈ new' ∨ r ∈ new) →
      (OwnLatest thread e l ↔ OwnLatest thread e new) := by
    intro l hl
    have hpost :
        ∀ event, (∃ r ∈ l, r.posts e = some event) ↔ ∃ r ∈ new, r.posts e = some event := by
      intro event
      constructor
      · rintro ⟨r, hr, hp⟩
        rcases (hl r).mp hr with hr | hr
        · rw [hposts r hr] at hp
          cases hp
        · exact ⟨r, hr, hp⟩
      · rintro ⟨r, hr, hp⟩
        exact ⟨r, (hl r).mpr (.inr hr), hp⟩
    refine and_congr ⟨fun h event hp r hr => ?_, fun h event hp r hr => ?_⟩
      ⟨fun h event hfile r hr hp => ?_, fun h event hfile r hr hp => ?_⟩
    · exact h event ((hpost event).mpr hp) r ((hl r).mpr (.inr hr))
    · rcases (hl r).mp hr with hr | hr
      · exact hrefuses r hr event ((hpost event).mp hp)
      · exact h event ((hpost event).mp hp) r hr
    · obtain ⟨f, hf, hfile⟩ := hfile
      exact h event ⟨f, (hl f).mpr (.inr hf), hfile⟩ r ((hl r).mpr (.inr hr)) hp
    · obtain ⟨f, hf, hfile⟩ := hfile
      have hr' : r ∈ new := by
        rcases (hl r).mp hr with hr | hr
        · rw [hpoints r hr] at hp
          cases hp
        · exact hr
      rcases (hl f).mp hf with hf | hf
      · exact hattached f hf event hfile r hr' hp
      · exact h event ⟨f, hf, hfile⟩ r hr' hp
  exact ⟨hiff _ fun r => List.mem_append, hiff _ fun r => by rw [List.mem_append, or_comm]⟩

theorem Noted.after {event : EventId} (h' : Noted thread e event new' w₁ w')
    (h : Silent thread e new w w₁) : Noted thread e event (new' ++ new) w w' := by
  have hthread : w₁.store.threadMapping.lookup thread = w.store.threadMapping.lookup thread := by
    rw [h.row, findSome_points_none h.unpointed]
    simp
  obtain ⟨row, hrow, hroom, hlatest, hiff, hold⟩ := h'.row
  refine ⟨by rw [h'.trace, h.trace, List.append_assoc], fun s hs => h'.issued (h.issued hs),
    fun hs => h'.fresh (h.issued hs), h'.known, ?_, by rw [h'.messages, h.messages],
    fun other hne => (h'.others other hne).trans (h.others other hne), ?_,
    row, hrow, hroom, hlatest, ?_, ?_⟩
  · intro r hr x hx
    rcases List.mem_append.mp hr with hr | hr
    · exact h'.posted r hr x hx
    · rw [h.unposted r hr] at hx
      cases hx
  · intro r hr x hx
    rcases List.mem_append.mp hr with hr | hr
    · obtain ⟨hfresh, hknown⟩ := h'.pointed r hr x hx
      exact ⟨fun hs => hfresh (h.issued hs), hknown⟩
    · rw [h.unpointed r hr] at hx
      cases hx
  · refine hiff.trans (ownLatest_append h.unposted h.unpointed ?_ ?_).2.symm
    · intro r hr x hx r' hr' hp
      exact (h'.pointed r' hr' x hp).1 (h.attached r hr x hx).2
    · intro r hr x _ hx
      rw [h.unrefused r hr] at hx
      cases hx
  · have hlookup :
        ∀ other, w₁.store.threadMapping.lookup other = w.store.threadMapping.lookup other := by
      intro other
      by_cases hne : other = thread
      · rw [hne, hthread]
      · exact h.others other hne
    simpa only [Store.roomFor, Store.boundTo, hlookup] using hold

/-- What follows the email's own message: attachments that become the latest, or none. -/
theorem Noted.before {event : EventId} (h : Noted thread e event new w w₁)
    (h' : Follows thread e new' w₁ w') : Noted thread e event (new' ++ new) w w' := by
  obtain ⟨row, hrow, hroom, hlatest, hiff, hold⟩ := h.row
  have hrow' := h'.row
  rw [hrow, Option.map_some] at hrow'
  refine ⟨by rw [h'.trace, h.trace, List.append_assoc], fun s hs => h'.issued (h.issued hs),
    h.fresh, h'.issued h.known, ?_, by rw [h'.messages, h.messages],
    fun other hne => (h'.others other hne).trans (h.others other hne), ?_,
    _, hrow', h'.issued hroom, ?_, ?_, hold⟩
  · intro r hr x hx
    rcases List.mem_append.mp hr with hr | hr
    · rw [h'.unposted r hr] at hx
      cases hx
    · exact h.posted r hr x hx
  · intro r hr x hx
    rcases List.mem_append.mp hr with hr | hr
    · obtain ⟨hknown, f, hf, hfile⟩ := h'.pointed r hr x hx
      exact ⟨fun hs => (h'.attached f hf x hfile).1 (h.issued hs), hknown⟩
    · obtain ⟨hfresh, hknown⟩ := h.pointed r hr x hx
      exact ⟨hfresh, h'.issued hknown⟩
  · intro x hx
    rcases Option.or_eq_some_iff.mp hx with hx | ⟨-, hx⟩
    · obtain ⟨r, hr, hp⟩ := List.exists_of_findSome?_eq_some hx
      exact (h'.pointed r hr x hp).1
    · exact h'.issued (hlatest x hx)
  · by_cases hnone : ∀ r ∈ new', r.points thread = none
    · rw [findSome_points_none hnone, Option.none_or]
      refine hiff.trans (ownLatest_append h'.unposted hnone ?_ ?_).1.symm
      · intro r hr x hx r' hr' hp
        exact (h'.attached r hr x hx).1 (h.pointed r' hr' x hp).2
      · rintro r hr x ⟨r', hr', hp⟩ hx
        obtain ⟨f, hf, hfile⟩ := h'.refused r hr x hx
        obtain rfl := h.posted r' hr' x hp
        exact (h'.attached f hf x hfile).1 h.known
    · -- the newest attachment recorded is the latest, and no message is
      obtain ⟨x, hx⟩ : ∃ x, new'.findSome? (Record.points thread) = some x := by
        refine Option.ne_none_iff_exists'.mp fun hall => hnone ?_
        exact List.findSome?_eq_none_iff.mp hall
      obtain ⟨r, hr, hp⟩ := List.exists_of_findSome?_eq_some hx
      obtain ⟨-, f, hf, hfile⟩ := h'.pointed r hr x hp
      have hne : x ≠ event := by
        rintro rfl
        exact (h'.attached f hf x hfile).1 h.known
      rw [hx, Option.some_or]
      constructor
      · intro heq
        exact absurd (Option.some.inj heq) hne
      · intro hown
        exact absurd hp (hown.2 x ⟨f, List.mem_append_left _ hf, hfile⟩ r
          (List.mem_append_left _ hr))

theorem records_of_invites {r : Record} (h : r.cmd.invites) :
    r.points thread = none ∧ r.posts e = none ∧ r.attaches = none ∧ r.refuses thread = none := by
  unfold Cmd.invites at h
  refine ⟨?_, ?_, ?_, ?_⟩
  · unfold Record.points
    split <;> simp_all
  · unfold Record.posts
    split <;> simp_all
  · unfold Record.attaches
    split <;> simp_all
  · unfold Record.refuses
    split <;> simp_all

theorem Sent.message {body : EmailBody} {event : EventId} (thread : ThreadId)
    (h : Sent (.message body) event new w w') (ho : body.origin = .email e) :
    (∀ r ∈ new, r.points thread = none ∧ r.attaches = none ∧ r.refuses thread = none ∧
      ∀ x, r.posts e = some x → x = event) ∧ ∃ r ∈ new, r.posts e = some event := by
  constructor
  · intro r hr
    rcases h.records r hr with hinvites | ⟨room, sender, ts, hcmd, hanswer⟩
    · obtain ⟨hpoints, hposts, hattaches, hrefuses⟩ : r.points thread = none ∧ r.posts e = none ∧
          r.attaches = none ∧ r.refuses thread = none := records_of_invites hinvites
      refine ⟨hpoints, hattaches, hrefuses, fun x hx => ?_⟩
      rw [hposts] at hx
      cases hx
    · obtain ⟨task, cmd, answer⟩ := r
      obtain rfl : cmd = _ := hcmd
      refine ⟨by cases answer <;> rfl, by cases answer <;> rfl, by cases answer <;> rfl,
        fun x hx => ?_⟩
      cases answer with
      | id s =>
        simp only [Record.posts, ho, if_true] at hx
        exact (Option.some.inj hx).symm.trans (hanswer s rfl)
      | _ => cases hx
  · obtain ⟨r, hr, ⟨room, sender, ts, hcmd, -⟩, hanswer⟩ := h.sent
    exact ⟨r, hr, by simp [Record.posts, hcmd, hanswer, ho]⟩

theorem Noted.of_sent {body : EmailBody} {event : EventId} {row : ThreadRow}
    (hsent : Sent (.message body) event new w w₁) (ho : body.origin = .email e)
    (htrace : w'.trace = new' ++ w₁.trace) (hissued : w'.issued = w₁.issued)
    (hmessages : w'.store.messageMapping = w₁.store.messageMapping.insert e event)
    (hothers : ∀ other, other ≠ thread →
      w'.store.threadMapping.lookup other = w₁.store.threadMapping.lookup other)
    (hnew : ∀ r ∈ new', r.posts e = none ∧ r.attaches = none ∧
      ∀ x, r.points thread = some x → x = event)
    (hrow : w'.store.threadMapping.lookup thread = some row) (hroom : row.roomId ∈ w₁.issued)
    (hlatest : row.latestEventId = some event ∧ (∀ r ∈ new', r.refuses thread = none) ∨
      (∀ x, row.latestEventId = some x → x ∈ w.issued) ∧
        ∃ r ∈ new', r.refuses thread = some event)
    (hold : w.store.roomFor thread row.roomId) : Noted thread e event (new' ++ new) w w' := by
  obtain ⟨hrecords, r₀, hr₀, hpost⟩ := hsent.message thread ho
  have hpoints : ∀ r ∈ new' ++ new, ∀ x, r.points thread = some x → r ∈ new' ∧ x = event := by
    intro r hr x hx
    rcases List.mem_append.mp hr with hr | hr
    · exact ⟨hr, (hnew r hr).2.2 x hx⟩
    · rw [(hrecords r hr).1] at hx
      cases hx
  have hattaches : ∀ r ∈ new' ++ new, r.attaches = none := by
    intro r hr
    rcases List.mem_append.mp hr with hr | hr
    · exact (hnew r hr).2.1
    · exact (hrecords r hr).2.1
  have hposts : ∀ r ∈ new' ++ new, ∀ x, r.posts e = some x → x = event := by
    intro r hr x hx
    rcases List.mem_append.mp hr with hr | hr
    · rw [(hnew r hr).1] at hx
      cases hx
    · exact (hrecords r hr).2.2.2 x hx
  refine ⟨by rw [htrace, hsent.trace, List.append_assoc], ?_, hsent.fresh, hissued ▸ hsent.known,
    hposts, by rw [hmessages, hsent.store],
    fun other hne => by rw [hothers other hne, hsent.store], ?_,
    row, hrow, hissued ▸ hroom, ?_, ?_, hold⟩
  · rw [hissued]
    exact hsent.issued
  · intro r hr x hx
    obtain ⟨-, rfl⟩ := hpoints r hr x hx
    exact ⟨hsent.fresh, hissued ▸ hsent.known⟩
  · intro x hx
    rw [hissued]
    rcases hlatest with ⟨hown, -⟩ | ⟨hkept, -⟩
    · rw [hown] at hx
      obtain rfl := Option.some.inj hx
      exact hsent.known
    · exact hsent.issued (hkept x hx)
  · rcases hlatest with ⟨hown, hnone⟩ | ⟨hkept, r, hr, hrefused⟩
    · refine iff_of_true hown ⟨fun x hx r hr heq => ?_, ?_⟩
      · rcases List.mem_append.mp hr with hr | hr
        · rw [hnone r hr] at heq
          cases heq
        · rw [(hrecords r hr).2.2.1] at heq
          cases heq
      · rintro x ⟨f, hf, hfile⟩
        rw [hattaches f hf] at hfile
        cases hfile
    · refine iff_of_false (fun heq => hsent.fresh (hkept event heq)) fun hown => ?_
      exact hown.1 event ⟨r₀, List.mem_append_right _ hr₀,
        hpost⟩ r (List.mem_append_left _ hr) hrefused

theorem saveMessage_exec {event : EventId} {a : Answer}
    (h : exec t (.mk (.store (.saveMessageMapping e event))) a w = some (.ok (), w')) :
    w'.issued = w.issued ∧ w'.store.threadMapping = w.store.threadMapping ∧
      w'.store.messageMapping = w.store.messageMapping.insert e event := by
  rcases exec_store h with ⟨order, -, -, rfl⟩ | ⟨-, hb, -⟩ | ⟨-, hb, -⟩
  · exact ⟨rfl, rfl, rfl⟩
  · cases hb
  · cases hb

theorem saveThread_done {event : EventId} {room : RoomId} {subject : String} {a : Answer}
    (h : exec t (.mk (.store (.saveThreadMappingAtomic thread event room subject))) a w =
      some (.ok (), w')) :
    a ≠ .failed ∧ w'.issued = w.issued ∧ w'.store.messageMapping = w.store.messageMapping ∧
      w'.store.threadMapping = w.store.threadMapping.insert thread ⟨event, room, some event⟩ := by
  rcases exec_store h with ⟨order, ha, -, rfl⟩ | ⟨-, hb, -⟩ | ⟨-, hb, -⟩
  · exact ⟨by rcases ha with ⟨rfl, -⟩ | rfl <;> simp, rfl, rfl, rfl⟩
  · cases hb
  · cases hb

section

variable {email : Email} {ghost : GhostUser} {body : EmailBody}

theorem processReply_eval {room : RoomId} {row : ThreadRow} (hknown : w.Known)
    (ho : body.origin = .email e) (hid : email.id = some e) (hthread : email.threadId = some thread)
    (hrow : w.store.threadMapping.lookup thread = some row)
    (h : Eval (bridge cfg calls) D t (processReply p email ghost body room) w (.ok ()) w') :
    ∃ event new, Noted thread e event new w w' := by
  obtain ⟨event, w₁, hsend, h⟩ := Eval.andThen_ok h
  obtain ⟨sent, hsent⟩ := sendAsGhostJoining_eval hsend
  rw [hid, hthread] at h
  obtain ⟨_, w₂, hsave, h⟩ := Eval.andThen_ok h
  obtain ⟨a, -, he⟩ := Eval.call_iff.mp hsave
  have he : exec t (.mk (.store (.saveMessageMapping e event))) a w₁ = some (.ok (), w₂) := he
  obtain ⟨hissued, hthreads, hmessages⟩ := saveMessage_exec he
  obtain ⟨_, w₃, hupdate, hattach⟩ := Eval.andThen_ok h
  obtain ⟨b, w₄, hcall, hr⟩ := Eval.bind_iff.mp hupdate
  obtain ⟨-, rfl⟩ := Eval.pure_iff.mp hr
  obtain ⟨a', -, he'⟩ := Eval.call_iff.mp hcall
  have he' :
      exec t (.mk (.store (.updateThreadLatestEvent thread event))) a' w₂ = some (b, w₃) := he'
  obtain ⟨hissued', hmessages', hothers, hlatest⟩ := update_exec he'
  obtain ⟨new, hnew⟩ := handleAttachments_eval (e := e) hthread hattach
  rw [hthreads, hsent.store, hrow, Option.map_some] at hlatest
  have htrace : w₃.trace = [⟨t, .store (.updateThreadLatestEvent thread event), a'⟩,
      ⟨t, .store (.saveMessageMapping e event), a⟩] ++ w₁.trace := by
    rw [exec_trace he', exec_trace he]
    rfl
  have hsaved : Record.points thread ⟨t, .store (.saveMessageMapping e event), a⟩ = none := by
    cases a <;> rfl
  obtain ⟨own, hnoted⟩ : ∃ own, Noted thread e event own w w₃ := by
    refine ⟨_, Noted.of_sent hsent ho htrace (hissued'.trans hissued) (hmessages'.trans hmessages)
      (fun other hne => (hothers other hne).trans (by rw [hthreads])) ?_ hlatest
      (hsent.issued (hknown.room thread row hrow)) ?_ (.inl (by rw [Store.boundTo, hrow]; rfl))⟩
    · intro r hr
      rcases List.mem_cons.mp hr with rfl | hr
      · refine ⟨rfl, rfl, fun x hx => ?_⟩
        by_cases ha : a' = .failed
        · subst ha
          cases hx
        · rw [points_update ha, if_pos rfl] at hx
          exact (Option.some.inj hx).symm
      · obtain rfl := List.mem_singleton.mp hr
        refine ⟨rfl, rfl, fun x hx => ?_⟩
        rw [hsaved] at hx
        cases hx
    · by_cases ha : a' = .failed
      · -- the update is best effort, and the pointer stays where it was
        subst ha
        exact .inr ⟨fun x hx => hknown.latest thread row x hrow hx, _, List.mem_cons_self,
          by simp [Record.refuses]⟩
      · have hp : Record.points thread ⟨t, .store (.updateThreadLatestEvent thread event), a'⟩ =
            some event := (points_update ha).trans (if_pos rfl)
        refine .inl ⟨by rw [hp]; rfl, fun r hr => ?_⟩
        rcases List.mem_cons.mp hr with rfl | hr
        · exact refuses_done ha
        · obtain rfl := List.mem_singleton.mp hr
          rfl
  exact ⟨event, _, hnoted.before hnew⟩

theorem create_exec {name address : String} {user : UserId} {room : RoomId} {a : Answer}
    (h : exec t (.mk (.matrix (.createRoomForContact name address user))) a w =
      some (.ok room, w')) : room ∉ w.issued ∧ room ∈ w'.issued := by
  have hvalue := (exec_matrix h).2 room rfl
  cases a with
  | id s =>
    cases hvalue
    obtain ⟨hfresh, hissued⟩ := exec_issues h (.inl rfl)
    refine ⟨hfresh, ?_⟩
    rw [hissued]
    exact List.mem_cons_self
  | _ => cases hvalue

theorem createContactRoom_eval {user : UserId} {address name : String} {room : RoomId}
    (h : Eval (bridge cfg calls) D t (createContactRoom cfg user address name) w (.ok room) w') :
    (∃ new, Silent thread e new w w') ∧ room ∉ w.issued ∧ room ∈ w'.issued := by
  have hissued : ∀ {α : Type} {x : Prog Op α} {a : α} {w w' : World},
      Does (RoomCmd user) x → Eval (bridge cfg calls) D t x w a w' → w.issued ⊆ w'.issued := by
    intro α x a w w' hx h
    obtain ⟨new, hnew⟩ : ∃ new, Silent thread e new w w' :=
      silent_eval (hx.mono fun _ => RoomCmd.offLatest) h
    exact hnew.issued
  refine ⟨silent_eval (createContactRoom_rooms.mono fun _ => RoomCmd.offLatest) h, ?_⟩
  obtain ⟨_, w₁, hghost, h⟩ := Eval.andThen_ok h
  obtain ⟨room', w₂, hcreate, h⟩ := Eval.andThen_ok h
  obtain ⟨a, -, he⟩ := Eval.call_iff.mp hcreate
  have he : exec t (.mk (.matrix (.createRoomForContact name address user))) a w₁ =
    some (.ok room', w₂) := he
  obtain ⟨hfresh, hmade⟩ := create_exec he
  obtain ⟨_, w₃, hsave, h⟩ := Eval.andThen_ok h
  obtain ⟨_, w₄, hjoin, h⟩ := Eval.andThen_ok h
  obtain ⟨_, w₅, huser, h⟩ := Eval.andThen_ok h
  obtain ⟨_, w₆, hspace, h⟩ := Eval.andThen_ok h
  obtain ⟨hroom, rfl⟩ := Eval.ok_iff.mp h
  obtain rfl := Except.ok.inj hroom
  refine ⟨fun hs => hfresh (hissued registerGhost_rooms hghost hs), ?_⟩
  have hsaved := hissued (.store (.saveGhost ..)) hsave hmade
  have hjoined := hissued (.bestEffort (.matrix (.join ..))) hjoin hsaved
  have hpuppet := hissued (.lift joinRealUser_rooms) huser hjoined
  exact hissued
    (.bestEffort (ensureRoomInEmailSpace_space.mono fun _ => SpaceCmd.rooms)) hspace hpuppet

theorem createThreadRoom_eval (hknown : w.Known) (ho : body.origin = .email e)
    (hthread : email.threadId = some thread) (hrow : w.store.threadMapping.lookup thread = none)
    (h : Eval (bridge cfg calls) D t (createThreadRoom cfg p email ghost body thread e) w
      (.ok ()) w') : ∃ event new, Noted thread e event new w w' := by
  obtain ⟨room, w₁, hcreate, h⟩ := Eval.andThen_ok h
  obtain ⟨⟨new₁, hnew₁⟩, hfresh, hmade⟩ : (∃ new, Silent thread e new w w₁) ∧
      room ∉ w.issued ∧ room ∈ w₁.issued := createContactRoom_eval hcreate
  obtain ⟨_, w₂, hname, h⟩ := Eval.andThen_ok h
  obtain ⟨new₂, hnew₂⟩ : ∃ new, Silent thread e new w₁ w₂ :=
    silent_eval (.bestEffort (.matrix rfl)) hname
  obtain ⟨own, w₃, hown, h⟩ := Eval.andThen_ok h
  obtain ⟨new₃, hnew₃⟩ : ∃ new, Silent thread e new w₂ w₃ := silent_eval (.store rfl) hown
  obtain ⟨_, w₄, htopic, h⟩ := Eval.andThen_ok h
  obtain ⟨new₄, hnew₄⟩ : ∃ new, Silent thread e new w₃ w₄ :=
    silent_eval (.bestEffort (.matrix rfl)) htopic
  have hbefore := ((hnew₁.trans hnew₂).trans hnew₃).trans hnew₄
  obtain ⟨event, w₅, hsend, h⟩ := Eval.andThen_ok h
  obtain ⟨sent, hsent⟩ := sendAsGhostJoining_eval hsend
  obtain ⟨_, w₆, hbind, h⟩ := Eval.andThen_ok h
  obtain ⟨a, -, he⟩ := Eval.call_iff.mp hbind
  have he : exec t (.mk (.store (.saveThreadMappingAtomic thread event room
    (email.subject.getD noSubject)))) a w₅ = some (.ok (), w₆) := he
  obtain ⟨ha, hissued, hmessages, hthreads⟩ := saveThread_done he
  obtain ⟨_, w₇, hsave, hattach⟩ := Eval.andThen_ok h
  obtain ⟨a', -, he'⟩ := Eval.call_iff.mp hsave
  have he' : exec t (.mk (.store (.saveMessageMapping e event))) a' w₆ = some (.ok (), w₇) := he'
  obtain ⟨hissued', hthreads', hmessages'⟩ := saveMessage_exec he'
  obtain ⟨new, hnew⟩ := handleAttachments_eval (e := e) hthread hattach
  have htrace : w₇.trace = [⟨t, .store (.saveMessageMapping e event), a'⟩,
      ⟨t, .store (.saveThreadMappingAtomic thread event room (email.subject.getD noSubject)), a⟩] ++
        w₅.trace := by
    rw [exec_trace he', exec_trace he]
    rfl
  have hsaved : Record.points thread ⟨t, .store (.saveMessageMapping e event), a'⟩ = none := by
    cases a' <;> rfl
  have hbound : Record.points thread ⟨t, .store (.saveThreadMappingAtomic thread event room
      (email.subject.getD noSubject)), a⟩ = some event := by
    cases a with
    | failed => exact absurd rfl ha
    | _ => simp [Record.points]
  have hrow₄ :
      ∀ other, w₄.store.threadMapping.lookup other = w.store.threadMapping.lookup other := by
    intro other
    by_cases hne : other = thread
    · rw [hne, hbefore.row, hrow]
      rfl
    · exact hbefore.others other hne
  have hold : w₄.store.roomFor thread room := by
    refine .inr ⟨(hrow₄ thread).trans hrow, fun other row hlookup => ?_⟩
    rintro rfl
    exact hfresh (hknown.room other row (hrow₄ other ▸ hlookup))
  obtain ⟨own, hnoted⟩ : ∃ own, Noted thread e event own w₄ w₇ := by
    have hrow₇ : w₇.store.threadMapping.lookup thread = some ⟨event, room, some event⟩ := by
      rw [hthreads', hthreads, AList.lookup_insert]
    refine ⟨_, Noted.of_sent hsent ho htrace
      (hissued'.trans hissued) (by rw [hmessages', hmessages]) (fun other hne => ?_) ?_ hrow₇ ?_
      (.inl ⟨rfl, fun r hr => ?_⟩) hold⟩
    · rw [hthreads', hthreads, AList.lookup_insert_ne hne]
    · intro r hr
      rcases List.mem_cons.mp hr with rfl | hr
      · refine ⟨rfl, rfl, fun x hx => ?_⟩
        rw [hsaved] at hx
        cases hx
      · obtain rfl := List.mem_singleton.mp hr
        refine ⟨rfl, rfl, fun x hx => ?_⟩
        rw [hbound] at hx
        exact (Option.some.inj hx).symm
    · exact hsent.issued (hnew₄.issued (hnew₃.issued (hnew₂.issued hmade)))
    · rcases List.mem_cons.mp hr with rfl | hr
      · rfl
      · obtain rfl := List.mem_singleton.mp hr
        rfl
  exact ⟨event, _, (hnoted.before hnew).after hbefore⟩

theorem getThreadInfo_eval {r : Except Err (Option ThreadRow)}
    (h : Eval (bridge cfg calls) D t (onStore (.getThreadInfo thread)) w r w') :
    (∃ new, Silent thread e new w w') ∧
      ∀ row, r = .ok row → w'.store.threadMapping.lookup thread = row := by
  refine ⟨silent_eval (.store rfl) h, ?_⟩
  obtain ⟨a, -, he⟩ := Eval.call_iff.mp h
  have he : exec t (.mk (.store (.getThreadInfo thread))) a w = some (r, w') := he
  rintro row rfl
  rcases exec_store he with ⟨order, -, hb, rfl⟩ | ⟨-, hb, -⟩ | ⟨-, hb, -⟩
  · exact (Except.ok.inj hb).symm
  · cases hb
  · cases hb

theorem awaitThreadLock_eval {r : Except Err (Option RoomId)}
    (h : Eval (bridge cfg calls) D t (awaitThreadLock thread) w r w') :
    (∃ new, Silent thread e new w w') ∧ ∀ room, r = .ok (some room) →
      ∃ row, w'.store.threadMapping.lookup thread = some row := by
  refine Eval.actLoop_induct (J := fun _ w' => ∃ new, Silent thread e new w w')
    (R := fun r w' => (∃ new, Silent thread e new w w') ∧ ∀ room, r = .ok (some room) →
      ∃ row, w'.store.threadMapping.lookup thread = some row)
    (fun _ w₁ o w₂ hw hturn => ?_) h ⟨[], .refl⟩
  obtain ⟨old, hold⟩ := hw
  rcases Eval.andThen_iff.mp hturn with ⟨row, w₃, hinfo, hrest⟩ | ⟨err, hinfo, rfl⟩
  case inr =>
    obtain ⟨⟨new, hnew⟩, -⟩ := getThreadInfo_eval (e := e) hinfo
    exact ⟨⟨_, hold.trans hnew⟩, by rintro _ ⟨⟩⟩
  obtain ⟨⟨new, hnew⟩, hlookup⟩ := getThreadInfo_eval (e := e) hinfo
  have hfound := hold.trans hnew
  cases row with
  | some row =>
    obtain ⟨rfl, rfl⟩ := Eval.ok_iff.mp hrest
    exact ⟨⟨_, hfound⟩, fun _ _ => ⟨row, hlookup (some row) rfl⟩⟩
  | none =>
    rcases Eval.andThen_iff.mp hrest with ⟨b, w₄, hlock, hrest⟩ | ⟨err, hlock, rfl⟩
    case inr =>
      obtain ⟨new', hnew'⟩ : ∃ new, Silent thread e new w₃ w₂ := silent_eval (.store rfl) hlock
      exact ⟨⟨_, hfound.trans hnew'⟩, by rintro _ ⟨⟩⟩
    obtain ⟨new', hnew'⟩ : ∃ new, Silent thread e new w₃ w₄ := silent_eval (.store rfl) hlock
    have hlocked := hfound.trans hnew'
    cases b with
    | true =>
      obtain ⟨rfl, rfl⟩ := Eval.ok_iff.mp hrest
      exact ⟨⟨_, hlocked⟩, by rintro _ ⟨⟩⟩
    | false =>
      rcases Eval.andThen_iff.mp hrest with ⟨_, w₅, hsleep, hrest⟩ | ⟨err, hsleep, rfl⟩
      case inr =>
        obtain ⟨_, -, hr⟩ := Eval.lift_iff.mp hsleep
        cases hr
      obtain ⟨new'', hnew''⟩ : ∃ new, Silent thread e new w₄ w₅ :=
        silent_eval (.lift (.task rfl)) hsleep
      obtain ⟨rfl, rfl⟩ := Eval.ok_iff.mp hrest
      exact ⟨_, hlocked.trans hnew''⟩

theorem World.Known.silent (hknown : w.Known) (h : Silent thread e new w w') : w'.Known := by
  have hthread :
      ∀ other, w'.store.threadMapping.lookup other = w.store.threadMapping.lookup other := by
    intro other
    by_cases hne : other = thread
    · rw [hne, h.row, findSome_points_none h.unpointed]
      simp
    · exact h.others other hne
  refine ⟨fun other row hrow => ?_, fun other row event hrow hlatest => ?_, fun x event hx => ?_⟩
  · exact h.issued (hknown.room other row (hthread other ▸ hrow))
  · exact h.issued (hknown.latest other row event (hthread other ▸ hrow) hlatest)
  · exact h.issued (hknown.message x event (h.messages ▸ hx))

theorem guarded_eval (thread : ThreadId) (e : EmailId) {key : LockKey} {x : Bridge α}
    {r : Except Err α}
    (h : Eval (bridge cfg calls) D t (guarded key x) w r w') :
    ∃ w₁, Eval (bridge cfg calls) D t x w r w₁ ∧ ∃ new, Silent thread e new w₁ w' := by
  obtain ⟨r', w₁, hx, hrest⟩ := Eval.bind_iff.mp h
  obtain ⟨_, w₂, hdrop, hr⟩ := Eval.bind_iff.mp hrest
  obtain ⟨rfl, rfl⟩ := Eval.pure_iff.mp hr
  exact ⟨w₁, hx, silent_eval (.task rfl) hdrop⟩

theorem processNewThread_eval (hknown : w.Known) (ho : body.origin = .email e)
    (hid : email.id = some e) (hthread : email.threadId = some thread)
    (h : Eval (bridge cfg calls) D t (processNewThread cfg p email ghost body) w (.ok ()) w') :
    ∃ event new, Noted thread e event new w w' := by
  rw [processNewThread, hid, hthread] at h
  obtain ⟨room, w₁, hlock, h⟩ := Eval.andThen_ok h
  obtain ⟨⟨new₁, hnew₁⟩, hroom⟩ := awaitThreadLock_eval (e := e) hlock
  have hknown₁ := hknown.silent hnew₁
  cases room with
  | some room =>
    obtain ⟨row, hrow⟩ := hroom room rfl
    obtain ⟨event, new, hnoted⟩ := processReply_eval hknown₁ ho hid hthread hrow h
    exact ⟨event, _, hnoted.after hnew₁⟩
  | none =>
    obtain ⟨w₂, h, hguard⟩ := guarded_eval thread e h
    obtain ⟨new₃, hnew₃⟩ := hguard
    obtain ⟨row, w₃, hinfo, h⟩ := Eval.andThen_ok h
    obtain ⟨⟨new₂, hnew₂⟩, hlookup⟩ := getThreadInfo_eval (e := e) hinfo
    have hknown₃ := hknown₁.silent hnew₂
    have hnoted : ∃ event new, Noted thread e event new w₃ w₂ := by
      cases row with
      | some row => exact processReply_eval hknown₃ ho hid hthread (hlookup (some row) rfl) h
      | none => exact createThreadRoom_eval hknown₃ ho hthread (hlookup none rfl) h
    obtain ⟨event, new, hnoted⟩ := hnoted
    exact ⟨event, _, ((hnoted.before hnew₃.toFollows).after hnew₂).after hnew₁⟩

theorem bridgeToRoom_eval (hknown : w.Known) (ho : body.origin = .email e)
    (hid : email.id = some e) (hthread : email.threadId = some thread)
    (h : Eval (bridge cfg calls) D t (bridgeToRoom cfg p email thread ghost body) w (.ok ()) w') :
    ∃ event new, Noted thread e event new w w' := by
  obtain ⟨row, w₁, hinfo, h⟩ := Eval.andThen_ok h
  obtain ⟨⟨new₁, hnew₁⟩, hlookup⟩ := getThreadInfo_eval (e := e) hinfo
  have hknown₁ := hknown.silent hnew₁
  have hnoted : ∃ event new, Noted thread e event new w₁ w' := by
    cases row with
    | some row => exact processReply_eval hknown₁ ho hid hthread (hlookup (some row) rfl) h
    | none => exact processNewThread_eval hknown₁ ho hid hthread h
  obtain ⟨event, new, hnoted⟩ := hnoted
  exact ⟨event, _, hnoted.after hnew₁⟩

theorem resolveGhost_offLatest : Does (fun c => c.offLatest) (resolveGhost cfg email) := by
  have hrooms : Does (RoomCmd "") (resolveGhost cfg email) :=
    .andThen registerGhost_rooms fun _ => .ok
  exact hrooms.mono fun _ => RoomCmd.offLatest

theorem syncReadState_offLatest : Does (fun c => c.offLatest) (syncReadState p email) :=
  syncReadState_does.mono fun _ => ReadStateCmd.offLatest

theorem bridgeEmail_eval (hknown : w.Known) (hid : email.id = some e)
    (hthread : email.threadId = some thread)
    (h : Eval (bridge cfg calls) D t (bridgeEmail cfg p email e) w (.ok ()) w') :
    (∃ new, Silent thread e new w w') ∨ ∃ event new, Noted thread e event new w w' := by
  obtain ⟨own, w₁, hown, h⟩ := Eval.andThen_ok h
  obtain ⟨new₁, hnew₁⟩ : ∃ new, Silent thread e new w w₁ := silent_eval (.store rfl) hown
  split at h
  · obtain ⟨new₂, hnew₂⟩ : ∃ new, Silent thread e new w₁ w' := silent_eval (.lift (.task rfl)) h
    exact .inl ⟨_, hnew₁.trans hnew₂⟩
  · rw [hthread] at h
    obtain ⟨threadId, w₂, hsome, hrest⟩ := Eval.andThen_ok h
    obtain ⟨heq, rfl⟩ := Eval.ok_iff.mp hsome
    obtain rfl := Except.ok.inj heq
    obtain ⟨ghost, w₃, hghost, hrest⟩ := Eval.andThen_ok hrest
    obtain ⟨new₂, hnew₂⟩ : ∃ new, Silent threadId e new w₂ w₃ :=
      silent_eval resolveGhost_offLatest hghost
    obtain ⟨_, w₄, hroom, hrest⟩ := Eval.andThen_ok hrest
    obtain ⟨event, new, hnoted⟩ := bridgeToRoom_eval ((hknown.silent hnew₁).silent hnew₂)
      (fromEmail_origin hid) hid hthread hroom
    obtain ⟨new₃, hnew₃⟩ : ∃ new, Silent threadId e new w₄ w' :=
      silent_eval (.lift syncReadState_offLatest) hrest
    exact .inr ⟨event, _, ((hnoted.before hnew₃.toFollows).after hnew₂).after hnew₁⟩

theorem processEmail_eval (hknown : w.Known) (hid : email.id = some e)
    (hthread : email.threadId = some thread) (hunmapped : w.store.mapped e = false)
    (hmapped : (w'.store.messageMapping.lookup e).isSome)
    (h : Eval (bridge cfg calls) D t (processEmail cfg p email) w (.ok ()) w') :
    ∃ event new, Noted thread e event new w w' := by
  have hnotSilent : ¬ ∃ new, Silent thread e new w w' := by
    rintro ⟨new, hnew⟩
    rw [hnew.messages] at hmapped
    simp [Store.mapped, hmapped] at hunmapped
  obtain ⟨_, w₁, henter, h⟩ := Eval.bind_iff.mp h
  obtain ⟨new₁, hnew₁⟩ : ∃ new, Silent thread e new w w₁ := silent_eval (.task rfl) henter
  obtain ⟨r, w₂, h, hrest⟩ := Eval.bind_iff.mp h
  obtain ⟨_, w₃, hleave, hr⟩ := Eval.bind_iff.mp hrest
  obtain ⟨rfl, rfl⟩ := Eval.pure_iff.mp hr
  obtain ⟨new₃, hnew₃⟩ : ∃ new, Silent thread e new w₂ w' := silent_eval (.task rfl) hleave
  rw [hid] at h
  obtain ⟨emailId, w₄, hsome, hbody⟩ := Eval.andThen_ok h
  obtain ⟨heq, rfl⟩ := Eval.ok_iff.mp hsome
  obtain rfl := Except.ok.inj heq
  obtain ⟨b, w₅, hmessage, hbody⟩ := Eval.andThen_ok hbody
  obtain ⟨new₂, hnew₂⟩ : ∃ new, Silent thread emailId new w₄ w₅ := silent_eval (.store rfl) hmessage
  have hbefore := hnew₁.trans hnew₂
  cases b with
  | true =>
    obtain ⟨new₄, hnew₄⟩ : ∃ new, Silent thread emailId new w₅ w₂ :=
      silent_eval (.lift syncReadState_offLatest) hbody
    exact absurd ⟨_, (hbefore.trans hnew₄).trans hnew₃⟩ hnotSilent
  | false =>
    rcases bridgeEmail_eval ((hknown.silent hnew₁).silent hnew₂) hid hthread hbody with
      ⟨new₄, hnew₄⟩ | ⟨event, new₄, hnoted⟩
    · exact absurd ⟨_, (hbefore.trans hnew₄).trans hnew₃⟩ hnotSilent
    · exact ⟨event, _, (hnoted.before hnew₃.toFollows).after hbefore⟩

end

/-! The query. -/

theorem mem_latestEmailIds {s : Store} {room : RoomId} {x : EmailId} :
    x ∈ s.latestEmailIds room ↔ ∃ other row event, s.threadMapping.lookup other = some row ∧
      row.roomId = room ∧ row.latestEventId = some event ∧
      s.messageMapping.lookup x = some event := by
  simp only [Store.latestEmailIds, List.mem_flatMap, List.mem_filter, List.mem_map, beq_iff_eq]
  constructor
  · rintro ⟨⟨other, row⟩, ⟨hrow, hroom⟩, ⟨y, event⟩, ⟨hmap, hlatest⟩, rfl⟩
    exact ⟨other, row, event, AList.mem_lookup_iff.mpr hrow, hroom, hlatest,
      AList.mem_lookup_iff.mpr hmap⟩
  · rintro ⟨other, row, event, hrow, hroom, hlatest, hmap⟩
    exact ⟨⟨other, row⟩, ⟨AList.mem_lookup_iff.mp hrow, hroom⟩, ⟨x, event⟩,
      ⟨AList.mem_lookup_iff.mp hmap, hlatest⟩, rfl⟩

/-- The query of the room returns the email, whichever row it comes to first. -/
def Store.finds (s : Store) (room : RoomId) (e : EmailId) : Prop :=
  ∀ now order, ((StoreCmd.getLatestEmailIdByRoom room).run now order s).1 = .ok (some e)

theorem mem_of_choice {l : List EmailId} {i : Nat} {x : EmailId} (h : l[i]?.or l.head? = some x) :
    x ∈ l := by
  rcases Option.or_eq_some_iff.mp h with hi | ⟨-, hhead⟩
  · exact List.mem_of_getElem? hi
  · exact List.mem_of_mem_head? hhead

theorem finds_iff_mem {s : Store} {room : RoomId} : s.finds room e ↔
    e ∈ s.latestEmailIds room ∧ ∀ x ∈ s.latestEmailIds room, x = e := by
  constructor
  · intro h
    refine ⟨mem_of_choice (Except.ok.inj (h 0 [])), fun x hx => ?_⟩
    obtain ⟨i, hi⟩ := List.mem_iff_getElem?.mp hx
    have hx := Except.ok.inj (h 0 [i])
    simp only [List.headD_cons, hi, Option.some_or] at hx
    exact Option.some.inj hx
  · rintro ⟨hmem, hall⟩ now order
    cases hl : (s.latestEmailIds room)[order.headD 0]?.or (s.latestEmailIds room).head? with
    | none =>
      obtain ⟨-, hhead⟩ := Option.or_eq_none_iff.mp hl
      rw [List.head?_eq_none_iff.mp hhead] at hmem
      cases hmem
    | some x =>
      obtain rfl := hall x (mem_of_choice hl)
      exact congrArg Except.ok hl

/-- The query of the room finds the email exactly if its own message is the latest of the
thread and no other thread of the room has an email as its latest. -/
theorem Noted.finds_iff {event : EventId} (h : Noted thread e event new w w')
    (hknown : w.Known) (hunmapped : w.store.messageMapping.lookup e = none) :
    ∃ room, w'.store.boundTo thread = some room ∧
      (w'.store.finds room e ↔ OwnLatest thread e new ∧ ¬ w.store.crossed thread) := by
  obtain ⟨row, hrow, -, -, hiff, hroom⟩ := h.row
  refine ⟨row.roomId, by rw [Store.boundTo, hrow]; rfl, ?_⟩
  have hmessage : ∀ x m, w'.store.messageMapping.lookup x = some m ↔
      x = e ∧ m = event ∨ x ≠ e ∧ w.store.messageMapping.lookup x = some m := by
    intro x m
    rw [h.messages]
    by_cases hx : x = e
    · subst hx
      simp [AList.lookup_insert, eq_comm]
    · simp [AList.lookup_insert_ne hx, hx]
  -- the email is found through the row of its own thread
  have hmem : e ∈ w'.store.latestEmailIds row.roomId ↔ row.latestEventId = some event := by
    rw [mem_latestEmailIds]
    constructor
    · rintro ⟨other, row', m, hrow', -, hlatest, hmap⟩
      obtain ⟨-, rfl⟩ := ((hmessage e m).mp hmap).resolve_right fun hne => hne.1 rfl
      by_cases hother : other = thread
      · rw [hother, hrow] at hrow'
        rwa [Option.some.inj hrow']
      · rw [h.others other hother] at hrow'
        exact absurd (hknown.latest other row' m hrow' hlatest) h.fresh
    · intro hlatest
      exact ⟨thread, row, event, hrow, rfl, hlatest, (hmessage e event).mpr (.inl ⟨rfl, rfl⟩)⟩
  -- and another email is found only through another thread
  have hothers : row.latestEventId = some event →
      ((∀ x ∈ w'.store.latestEmailIds row.roomId, x = e) ↔ ¬ w.store.crossed thread) := by
    intro hown
    constructor
    · rintro hall ⟨other, row', x, m, hother, hrow', hbound, hlatest, hmap⟩
      have hsame : row'.roomId = row.roomId := by
        rcases hroom with hbound' | ⟨hnone, -⟩
        · exact Option.some.inj (hbound.symm.trans hbound')
        · rw [Store.boundTo, hnone] at hbound
          cases hbound
      have hxe : x ≠ e := by
        rintro rfl
        rw [hunmapped] at hmap
        cases hmap
      refine hxe (hall x (mem_latestEmailIds.mpr ⟨other, row', m, ?_, hsame, hlatest, ?_⟩))
      · rw [h.others other hother, hrow']
      · exact (hmessage x m).mpr (.inr ⟨hxe, hmap⟩)
    · intro hcrossed x hx
      obtain ⟨other, row', m, hrow', hsame, hlatest, hmap⟩ := mem_latestEmailIds.mp hx
      rcases (hmessage x m).mp hmap with ⟨hxe, -⟩ | ⟨-, hmap⟩
      · exact hxe
      · by_cases hother : other = thread
        · rw [hother, hrow] at hrow'
          obtain rfl := Option.some.inj hrow'
          obtain rfl := Option.some.inj (hown.symm.trans hlatest)
          exact absurd (hknown.message x event hmap) h.fresh
        · rw [h.others other hother] at hrow'
          rcases hroom with hbound | ⟨-, hempty⟩
          · exact absurd ⟨other, row', x, m, hother, hrow', hsame ▸ hbound, hlatest, hmap⟩ hcrossed
          · exact absurd hsame (hempty other row' hrow')
  rw [finds_iff_mem, hmem, ← hiff]
  constructor
  · rintro ⟨hown, hall⟩
    exact ⟨hown, (hothers hown).mp hall⟩
  · rintro ⟨hown, hcrossed⟩
    exact ⟨hown, (hothers hown).mpr hcrossed⟩

/-! Runs. -/

theorem World.Known.noted {event : EventId} (hknown : w.Known)
    (h : Noted thread e event new w w') : w'.Known := by
  obtain ⟨row, hrow, hroom, hlatest, -, -⟩ := h.row
  refine ⟨fun other row' hrow' => ?_, fun other row' m hrow' hm => ?_, fun x m hx => ?_⟩
  · by_cases hother : other = thread
    · rw [hother, hrow] at hrow'
      rwa [← Option.some.inj hrow']
    · rw [h.others other hother] at hrow'
      exact h.issued (hknown.room other row' hrow')
  · by_cases hother : other = thread
    · rw [hother, hrow] at hrow'
      obtain rfl := Option.some.inj hrow'
      exact hlatest m hm
    · rw [h.others other hother] at hrow'
      exact h.issued (hknown.latest other row' m hrow' hm)
  · rw [h.messages] at hx
    by_cases hxe : x = e
    · rw [hxe, AList.lookup_insert] at hx
      obtain rfl := Option.some.inj hx
      exact h.known
    · rw [AList.lookup_insert_ne hxe] at hx
      exact h.issued (hknown.message x m hx)

theorem unmapped_lookup {s : Store} (h : s.mapped e = false) :
    s.messageMapping.lookup e = none := by
  cases hlookup : s.messageMapping.lookup e with
  | none => rfl
  | some event => simp [Store.mapped, hlookup] at h

theorem Bridges.known {l : List BridgedEmail} (hw : w.Known)
    (h : Bridges cfg calls thread w l w') : w'.Known := by
  induction h with
  | none => exact hw
  | @elsewhere l w₁ w₂ _ hthreads hmessages hissued ih =>
    refine ⟨fun other row hrow => ?_, fun other row m hrow hm => ?_, fun x m hx => ?_⟩
    · exact hissued (ih.room other row (hthreads ▸ hrow))
    · exact hissued (ih.latest other row m (hthreads ▸ hrow) hm)
    · exact hissued (ih.message x m (hmessages ▸ hx))
  | email _ hid hthread hunmapped heval hmapped _ ih =>
    obtain ⟨event, new, hnoted⟩ := processEmail_eval ih hid hthread hunmapped hmapped heval
    exact ih.noted hnoted

/-- After any emails of the thread were bridged, the query of its room returns the last of
them exactly if, while that one was bridged, the database refused no update of the pointer to
its message and carried out none to an attachment, and no other thread of the room has an email
as its latest. -/
theorem latest_email_iff {cfg : Config} {calls : Nat → Call} {thread : ThreadId} {w w' : World}
    {last : BridgedEmail} {l : List BridgedEmail} (hw : w.Known)
    (h : Bridges cfg calls thread w (last :: l) w') :
    ∃ room, w'.store.boundTo thread = some room ∧ (w'.store.finds room last.id ↔
      OwnLatest thread last.id last.records ∧ ¬ last.before.store.crossed thread) := by
  generalize hl : last :: l = emails at h
  induction h with
  | none => cases hl
  | elsewhere _ hthreads hmessages _ ih =>
    obtain ⟨room, hroom, hiff⟩ := ih hl
    refine ⟨room, by rw [Store.boundTo, hthreads]; exact hroom, Iff.trans ?_ hiff⟩
    simp only [finds_iff_mem, Store.latestEmailIds, hthreads, hmessages]
  | email hbefore hid hthread hunmapped heval hmapped htrace _ =>
    obtain ⟨rfl, rfl⟩ := List.cons.inj hl
    have hknown := hbefore.known hw
    obtain ⟨event, new, hnoted⟩ := processEmail_eval hknown hid hthread hunmapped hmapped heval
    obtain rfl := List.append_cancel_right (hnoted.trace.symm.trans htrace)
    exact hnoted.finds_iff hknown (unmapped_lookup hunmapped)

end

def signedUp : World where
  store :=
    { users := (∅ : Table _ _).insert "@a:localhost" ⟨"a", "token", "url"⟩
      jmapState := (∅ : Table _ _).insert ("@a:localhost", .emailSpaceRoom) "!s" }

theorem signedUp_known : signedUp.Known := by
  constructor <;> intros <;> contradiction

/-- An email of the thread, with attachments of these names. -/
def mailed (e : EmailId) (names : List String) : Email where
  id := some e
  threadId := some "T"
  fromAddrs := some [⟨none, "bob@x"⟩]
  attachments := some (names.map fun name => { blobId := some name, name := some name })

def bridging (e : EmailId) (names : List String) : Bridge Unit :=
  processEmail {} ⟨"@a:localhost", "a"⟩ (mailed e names)

/-- The world that the answers lead to. -/
def World.answering (w : World) (cs : List (Option Answer)) (x : Bridge Unit) : World :=
  ((replay (bridge {} fun _ => .worker) 0 cs x w).map Prod.snd).getD w

/-- What was done since the first world. -/
def World.since (w w' : World) : List Record := w'.trace.take (w'.trace.length - w.trace.length)

theorem Bridges.answered {l : List BridgedEmail} {w w₁ : World} {cs : List (Option Answer)}
    {e : EmailId} {names : List String} (h : Bridges {} (fun _ => .worker) "T" w l w₁)
    (hunmapped : w₁.store.mapped e = false)
    (hok : (replay (bridge {} fun _ => .worker) 0 cs (bridging e names) w₁).map
      (fun r => r.1.toOption) = some (some ()))
    (hmapped : ((w₁.answering cs (bridging e names)).store.messageMapping.lookup e).isSome)
    (htrace : (w₁.answering cs (bridging e names)).trace =
      w₁.since (w₁.answering cs (bridging e names)) ++ w₁.trace) :
    Bridges {} (fun _ => .worker) "T" w
      (⟨e, w₁, w₁.since (w₁.answering cs (bridging e names))⟩ :: l)
      (w₁.answering cs (bridging e names)) := by
  obtain ⟨⟨b | b, w₂⟩, hreplay, hb⟩ := Option.map_eq_some_iff.mp hok
  · cases hb
  · obtain rfl : b = () := Option.some.inj hb
    have hafter : w₁.answering cs (bridging e names) = w₂ := by
      rw [World.answering, hreplay]
      rfl
    rw [hafter] at hmapped htrace ⊢
    exact h.email rfl rfl hunmapped
      (eval_of_replay (replayMeets_of_forall (fun _ _ _ => trivial) _ _ _) hreplay) hmapped htrace

/-- The email is taken up, and its sender has a ghost. -/
def takesUp : List (Option Answer) := [some .done, some .done, some .done, some (.flag false)]

/-- The read state is looked up, and the span is left. -/
def finishes : List (Option Answer) := [some .done, some .done]

/-- The thread gets the room `!r` and the message `$1`, and the attachments follow. -/
def opensThread (attachments : List (Option Answer)) : List (Option Answer) :=
  takesUp ++ (some .done :: none :: List.replicate 3 (some .done) : List (Option Answer)) ++
    ([some (.flag false), some (.id "!r"), some .done, some .done, some .done,
      none] : List (Option Answer)) ++ List.replicate 6 (some .done) ++
    ([some (.id "$1"), some .done, some .done] : List (Option Answer)) ++ attachments ++
    (some .done :: finishes : List (Option Answer))

/-- An attachment gets the event `$2`, which is recorded. -/
def attachesPhoto : List (Option Answer) :=
  [some .done, some .done, some (.id "mxc"), some (.id "$2"), some .done]

/-- A reply with the event `$3`. -/
def replies : List (Option Answer) :=
  takesUp ++ ([some .done, some (.id "$3"), some .done, some .done] : List (Option Answer)) ++
  finishes

/-- Two emails without attachments, of which the second is the latest. -/
theorem latest_email_iff_two :
    ∃ last l w', Bridges {} (fun _ => .worker) "T" signedUp (last :: l) w' ∧
    last.id = "e2" ∧ ∃ room, w'.store.boundTo "T" = some room ∧ (w'.store.finds room last.id ↔
      OwnLatest "T" last.id last.records ∧ ¬ last.before.store.crossed "T") := by
  let w₁ := signedUp.answering (opensThread []) (bridging "e1" [])
  have hfirst :
      Bridges {} (fun _ => .worker) "T" signedUp [⟨"e1", signedUp, signedUp.since w₁⟩] w₁ :=
    Bridges.none.answered (by decide +kernel) (by decide +kernel) (by decide +kernel)
      (by decide +kernel)
  let w₂ := w₁.answering replies (bridging "e2" [])
  have hsecond : Bridges {} (fun _ => .worker) "T" signedUp
      [⟨"e2", w₁, w₁.since w₂⟩, ⟨"e1", signedUp, signedUp.since w₁⟩] w₂ :=
    hfirst.answered (by decide +kernel)
    (by decide +kernel) (by decide +kernel) (by decide +kernel)
  exact ⟨_, _, _, hsecond, rfl, latest_email_iff signedUp_known hsecond⟩

/-- The attachment of the only email is recorded as the latest, and no email has its event. -/
theorem attachment_hides_email : signedUp.Known ∧ ∃ last w',
    Bridges {} (fun _ => .worker) "T" signedUp [last] w' ∧ last.id = "e1" ∧
      w'.store.boundTo "T" = some "!r" ∧
      ((StoreCmd.getLatestEmailIdByRoom "!r").run w'.now [] w'.store).1 = .ok none := by
  let w₁ := signedUp.answering (opensThread attachesPhoto) (bridging "e1" ["photo"])
  have hfirst :
      Bridges {} (fun _ => .worker) "T" signedUp [⟨"e1", signedUp, signedUp.since w₁⟩] w₁ :=
    Bridges.none.answered (by decide +kernel) (by decide +kernel) (by decide +kernel)
    (by decide +kernel)
  exact ⟨signedUp_known, _, _, hfirst, rfl, by decide +kernel, by decide +kernel⟩

end JmapBridge
