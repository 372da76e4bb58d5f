import JmapBridge.Model.Frames
import JmapBridge.Model.Messages

/-! What becomes of the messages of a user in a conversation room: a row of the queue, a
command, or a notice about the message. -/

namespace JmapBridge

open Effect Sql

def runGhostCommand (cfg : Config) (e : QueuedEvent) (relation : Option Relation) :
    GhostCommand → Bridge Unit
  | .showImages => handleShowImages cfg e.user e.room relation
  | .deleteRoom => handleThreadAction cfg e.user e.room .trash
  | .spam => handleThreadAction cfg e.user e.room .junk

/-- The homeserver has put a notice about the message into its room. -/
def Record.notices (e : QueuedEvent) (r : Record) : Bool :=
  match r.cmd, r.answer with
  | .matrix (.sendAsGhost room _ (.message body) _), .id _ =>
    room == e.room && body.origin == .answer e.event
  | .matrix (.sendAsGhost room _ (.message body) _), .lost _ =>
    room == e.room && body.origin == .answer e.event
  | _, _ => false

/-- The homeserver turns a notice about the message away, or the bot that wants to join the room
for it. -/
def Record.withholds (e : QueuedEvent) (r : Record) : Bool :=
  match r.cmd, r.answer with
  | .matrix (.sendAsGhost room _ (.message body) _), .failed =>
    room == e.room && body.origin == .answer e.event
  | .matrix (.sendAsGhost room _ (.message body) _), .notJoined =>
    room == e.room && body.origin == .answer e.event
  | .matrix (.joinRoomAs room _), a => room == e.room && a != .done
  | _, _ => false

/-- The media of a message is taken over by the mail server. -/
def Record.uploads (r : Record) : Bool :=
  match r.cmd, r.answer with
  | .jmap _ (.uploadMatrixMedia _), .reply _ => true
  | _, _ => false

/-- A message that is no edit, of a user who may use the bridge and is logged in, in a room that
is a conversation. -/
structure RoomMessage.Sent (cfg : Config) (m : RoomMessage) (w : World) : Prop where
  notBridge : isBridgeUser m.sender = false
  permitted : (cfg.level m.sender).isSome
  noEdit : ∀ target newBody, m.relation ≠ some (.replacement target newBody)
  ghost : (w.store.roomGhostMapping.lookup m.room).isSome
  user : w.store.hasUser m.sender
  session : (w.clients.lookup m.sender).isSome
  fresh : w.store.outboundQueue.lookup w.store.nextOutboundId = none

/-- The row of the message is new. -/
def Enqueued (e : QueuedEvent) (w w' : World) : Prop :=
  ∃ id row, w.store.outboundQueue.lookup id = none ∧ w'.store.outboundQueue.lookup id = some row ∧
    row.eventId = e.event

/-- What came of the message in a run with these records. -/
inductive Heard (cfg : Config) (calls : Nat → Call) (t : Nat) (m : RoomMessage) (w : World)
    (l : List Record) (w' : World) : Prop
  | queued (hrow : Enqueued m.queued w w')
  | commanded (body : String) (cmd : GhostCommand) (w₁ : World) (r : Except Err Unit)
      (hmsgtype : m.msgtype = .text body) (hparse : parseGhostCommand cfg body = some cmd)
      (hsame : SameState w w₁)
      (hrun : Eval (bridge cfg calls) storeWorks t (runGhostCommand cfg m.queued m.relation cmd) w₁
        r w')
  | noticed (hnotice : ∃ x ∈ l, x.notices m.queued)

section

variable {cfg : Config} {calls : Nat → Call} {maxSize : Account → Nat} {t : Nat} {m : RoomMessage}
  {e : QueuedEvent} {w₀ w w' : World} {b : Bool} {α : Type} {a : Answer}

/-! The run up to the insert. -/

def Cmd.speaks : Cmd → Bool
  | matrix _ => true
  | _ => false

/-- The records since then hold an upload if and only if `b`. -/
def Uploading (w₀ : World) (b : Bool) (w : World) : Prop :=
  ∃ l, w.trace = l ++ w₀.trace ∧ l.any Record.uploads = b

/-- The homeserver has not been spoken to since. -/
def Unspoken (w₀ w : World) : Prop :=
  ∃ l, w.trace = l ++ w₀.trace ∧ l.all (fun r => !r.cmd.speaks) = true

structure Hearing (w₀ : World) (b : Bool) (w : World) : Prop extends SameState w₀ w where
  trail : Uploading w₀ b w
  silent : Unspoken w₀ w

structure EnqueuedSince (e : QueuedEvent) (w₀ : World) (b : Bool) (w : World) : Prop where
  row : Enqueued e w₀ w
  trail : Uploading w₀ b w

theorem Uploading.step {c : Cmd} {r : c.Ans} (h : Uploading w₀ b w)
    (he : exec t (.mk c) a w = some (r, w')) :
    Uploading w₀ ((⟨t, c, a⟩ : Record).uploads || b) w' := by
  obtain ⟨l, hl, hb⟩ := h
  exact ⟨⟨t, c, a⟩ :: l, by rw [exec_trace he, hl, List.cons_append], by rw [List.any_cons, hb]⟩

def Cmd.uploadsMedia : Cmd → Bool
  | jmap _ (.uploadMatrixMedia _) => true
  | _ => false

theorem not_uploads_of {r : Record} (h : r.cmd.uploadsMedia = false) : r.uploads = false := by
  obtain ⟨task, c, a⟩ := r
  cases c with
  | jmap account c => cases c <;> first | rfl | cases h
  | _ => rfl

theorem Unspoken.step {c : Cmd} {r : c.Ans} (h : Unspoken w₀ w) (hc : c.speaks = false)
    (he : exec t (.mk c) a w = some (r, w')) : Unspoken w₀ w' := by
  obtain ⟨l, hl, hall⟩ := h
  exact ⟨⟨t, c, a⟩ :: l, by rw [exec_trace he, hl, List.cons_append], by simp [hc, hall]⟩

/-- The commands of the handlers that upload nothing and say nothing. -/
def Cmd.idles (c : Cmd) : Bool := c.reads && !c.uploadsMedia && !c.speaks

theorem Does.hearing {x : Prog Op α} (hx : Does (fun c => c.idles) x) :
    Ends (bridge cfg calls) storeWorks t (Hearing w₀ b) x fun _ => Hearing w₀ b := by
  refine .only (φ := fun _ o => o.cmd.idles) (fun β o a w r w' ho _ he hw => ?_) hx
  obtain ⟨c⟩ := o
  have he : exec t (.mk c) a w = some (r, w') := he
  obtain ⟨⟨hreads, hidle⟩, hsilent⟩ :
    (c.reads = true ∧ c.uploadsMedia = false) ∧ c.speaks = false := by
    simpa [Op.cmd, Cmd.idles] using ho
  have huploads : (⟨t, c, a⟩ : Record).uploads = false := not_uploads_of hidle
  refine ⟨hw.toSameState.trans (exec_reads hreads he), ?_, hw.silent.step hsilent he⟩
  have htrail := hw.trail.step he
  rwa [huploads, Bool.false_or] at htrail

/-! The lookups do not fail while the store works. -/

/-- No error comes of the program. -/
def Succeeds (cfg : Config) (calls : Nat → Call) (t : Nat) (x : Bridge α) : Prop :=
  Ends (bridge cfg calls) storeWorks t (fun _ => True) x
    (onResult (fun _ _ => True) fun _ _ => False)

theorem lookup_succeeds {c : StoreCmd} (hc : ∀ s, ∃ v, c.Finds s v) :
    Succeeds cfg calls t (onStore c) := by
  refine .call fun w a r w' _ hd he => ?_
  have he : exec t (.mk (.store c)) a w = some (r, w') := he
  obtain ⟨order, rfl, -⟩ := exec_carriedOut hd he
  obtain ⟨v, hv⟩ := hc w.store
  rw [hv]
  trivial

theorem Succeeds.attempt {x : Bridge α} :
    Succeeds cfg calls t (Act.attempt x : Bridge (Except Err α)) :=
  Ends.attempt (R := fun _ _ => True) fun _ _ _ _ _ => trivial

theorem Succeeds.andThen {β : Type} {x : Bridge α} {f : α → Bridge β} (hx : Succeeds cfg calls t x)
    (hf : ∀ a, Succeeds cfg calls t (f a)) : Succeeds cfg calls t (x.andThen f) :=
  Ends.andThen hx hf

theorem Succeeds.ok {v : α} : Succeeds cfg calls t (Act.ok v : Bridge α) :=
  Ends.ok fun _ _ => trivial

theorem roomThreadContext_succeeds {room : RoomId} :
    Succeeds cfg calls t (roomThreadContext room) := by
  refine .andThen .attempt fun r => ?_
  split
  · exact .andThen .attempt fun _ =>
      .andThen (lookup_succeeds fun _ => ⟨_, fun _ _ => rfl⟩) fun _ => .ok
  · exact .ok

theorem eventThreadContext_succeeds {account : Account} {room : RoomId} {event : EventId}
    {parent : EmailId} : Succeeds cfg calls t (eventThreadContext account room event parent) := by
  refine .andThen .attempt fun r => ?_
  split
  · exact .andThen (lookup_succeeds fun _ => ⟨_, fun _ _ => rfl⟩) fun _ =>
      .andThen (lookup_succeeds fun _ => ⟨_, fun _ _ => rfl⟩) fun _ => .ok
  · refine .andThen .attempt fun r => ?_
    split
    · exact .andThen (lookup_succeeds fun _ => ⟨_, fun _ _ => rfl⟩) fun _ =>
        .andThen (lookup_succeeds fun _ => ⟨_, fun _ _ => rfl⟩) fun _ => .ok
    · exact roomThreadContext_succeeds

theorem resolveThreadContext_succeeds {account : Account} {room : RoomId}
    {relation : Option Relation} :
    Succeeds cfg calls t (resolveThreadContext account room relation) := by
  unfold resolveThreadContext
  split
  · exact roomThreadContext_succeeds
  · refine .andThen .attempt fun r => ?_
    split
    · exact eventThreadContext_succeeds
    · exact roomThreadContext_succeeds

/-! The insert. -/

theorem sendDelayFor_idles {user : UserId} : Does (fun c => c.idles) (sendDelayFor cfg user) :=
  .bind (.result (.store rfl)) fun _ => .pure

theorem insert_enqueues {body : String} {threadRoot : Option String}
    {files : Option (List AttachmentInfo)} {delay : Nat} (huser : w₀.store.hasUser e.user)
    (hfresh : w₀.store.outboundQueue.lookup w₀.store.nextOutboundId = none) :
    Ends (bridge cfg calls) storeWorks t (Hearing w₀ b) (onStore (.addToOutboundQueue e.user e.room
      e.event body none threadRoot files delay)) (onResult (fun _ => EnqueuedSince e w₀ b)
        fun _ => EnqueuedSince e w₀ b) := by
  refine .call fun w a r w' hw hd he => ?_
  have he : exec t (.mk (.store (.addToOutboundQueue e.user e.room e.event body none threadRoot
    files delay))) a w = some (r, w') := he
  have htrail := hw.trail.step he
  have hrow : EnqueuedSince e w₀ b w' := by
    refine ⟨?_, htrail⟩
    obtain ⟨order, -, hstore, -⟩ := exec_carriedOut hd he
    simp only [StoreCmd.run, Store.referring, hw.store, huser, if_true] at hstore
    have hnew := congrArg (fun s => s.outboundQueue.lookup w₀.store.nextOutboundId) hstore
    simp only [AList.lookup_insert] at hnew
    exact ⟨_, _, hfresh, hnew, rfl⟩
  cases r with
  | ok _ => exact hrow
  | error _ => exact hrow

theorem showHeld_idles {delay : Nat} :
    Does (fun c => c.offRows ∧ c.uploadsMedia = false) (showHeld cfg e delay) := by
  have hsend : ∀ {room : RoomId} {content : Content},
      Does (fun c => c.offRows ∧ c.uploadsMedia = false)
        (sendAsGhostJoining room cfg.botUserId content none) :=
    sendAsGhostJoining_does ⟨rfl, rfl⟩ ⟨rfl, rfl⟩ ⟨rfl, rfl⟩
  rw [showHeld]
  split
  · refine .bind (.bind hsend fun r => ?_) fun _ => .bind (.result (.store ⟨rfl, rfl⟩)) fun r => ?_
    · split
      · exact .bind (.result (.store ⟨rfl, rfl⟩)) fun _ => .pure
      · exact .pure
    · split
      · exact .pure
      · exact .bind (.bind hsend fun _ => .pure) fun _ =>
          .bind (.result (.store ⟨rfl, rfl⟩)) fun _ => .pure
  · exact .pure

theorem Does.enqueuedSince {x : Prog Op α}
    (hx : Does (fun c => c.offRows ∧ c.uploadsMedia = false) x) :
    Ends (bridge cfg calls) storeWorks t (EnqueuedSince e w₀ b) x fun _ =>
      EnqueuedSince e w₀ b := by
  refine .only (φ := fun _ o => o.cmd.offRows ∧ o.cmd.uploadsMedia = false)
    (fun β o a w r w' ho _ he hw => ?_) hx
  obtain ⟨c⟩ := o
  have he : exec t (.mk c) a w = some (r, w') := he
  have huploads : (⟨t, c, a⟩ : Record).uploads = false := not_uploads_of ho.2
  have hrows : w'.store.outboundQueue = w.store.outboundQueue := (sameQueue_exec ho.1 he).rows
  have htrail := hw.trail.step he
  rw [huploads, Bool.false_or] at htrail
  obtain ⟨id, row, hnone, hrow, hevent⟩ := hw.row
  exact ⟨⟨id, row, hnone, by rw [hrows, hrow], hevent⟩, htrail⟩

theorem enqueueHeldSend_since {body : String} {threadRoot : Option String}
    {files : Option (List AttachmentInfo)} (huser : w₀.store.hasUser e.user)
    (hfresh : w₀.store.outboundQueue.lookup w₀.store.nextOutboundId = none) :
    Ends (bridge cfg calls) storeWorks t (Hearing w₀ b)
      (enqueueHeldSend cfg e body threadRoot files)
      fun _ => EnqueuedSince e w₀ b := by
  refine .bind (.lift (F := fun _ _ => False) sendDelayFor_idles.hearing) fun delay => ?_
  cases delay with
  | error _ => exact .pure fun _ hw => hw.elim
  | ok delay =>
    refine .andThenAlways (R := EnqueuedSince e w₀ b) ?_ (fun _ => ?_) fun _ h => h
    · refine (insert_enqueues huser hfresh).post fun r w hw => ?_
      cases r with
      | ok _ => exact hw
      | error _ => exact hw
    · exact .liftAlways (Does.enqueuedSince showHeld_idles)

theorem roomThreadContext_idles {room : RoomId} :
    Does (fun c => c.idles) (roomThreadContext room) := by
  refine .andThen (.attempt (.store rfl)) fun r => ?_
  split
  · exact .andThen (.attempt (.store rfl)) fun _ => .andThen (.store rfl) fun _ => .ok
  · exact .ok

theorem eventThreadContext_idles {account : Account} {room : RoomId} {event : EventId}
    {parent : EmailId} :
      Does (fun c => c.idles) (eventThreadContext account room event parent) := by
  refine .andThen (.attempt (.store rfl)) fun r => ?_
  split
  · exact .andThen (.store rfl) fun _ => .andThen (.store rfl) fun _ => .ok
  · refine .andThen (.attempt (.jmap rfl)) fun r => ?_
    split
    · exact .andThen (.store rfl) fun _ => .andThen (.store rfl) fun _ => .ok
    · exact roomThreadContext_idles

theorem resolveThreadContext_idles {account : Account} {room : RoomId}
    {relation : Option Relation} :
    Does (fun c => c.idles) (resolveThreadContext account room relation) := by
  unfold resolveThreadContext
  split
  · exact roomThreadContext_idles
  · refine .andThen (.attempt (.store rfl)) fun r => ?_
    split
    · exact eventThreadContext_idles
    · exact roomThreadContext_idles

theorem resolveAndEnqueue {account : Account} {room : RoomId} {relation : Option Relation}
    {body : String} {files : Option (List AttachmentInfo)} (huser : w₀.store.hasUser e.user)
    (hfresh : w₀.store.outboundQueue.lookup w₀.store.nextOutboundId = none) :
    Ends (bridge cfg calls) storeWorks t (Hearing w₀ b)
      (Act.andThen (resolveThreadContext account room relation) fun context =>
        enqueueHeldSend cfg e body (context.map (·.encode)) files)
      fun _ => EnqueuedSince e w₀ b := by
  have hresolve : Ends (bridge cfg calls) storeWorks t (Hearing w₀ b)
      (resolveThreadContext account room relation)
      (onResult (fun _ => Hearing w₀ b) fun _ _ => False) := by
    refine Ends.weaken (resolveThreadContext_succeeds.and resolveThreadContext_idles.hearing)
      (fun w hw => ⟨trivial, hw⟩) fun r w hw => ?_
    cases r with
    | ok _ => exact hw.2
    | error _ => exact hw.1
  refine .bind hresolve fun r => ?_
  cases r with
  | error _ => exact .pure fun _ hw => hw.elim
  | ok context => exact enqueueHeldSend_since huser hfresh

theorem session_hearing {user : UserId} : Ends (bridge cfg calls) storeWorks t (Hearing w₀ b)
    (onTask (.getClient user)) fun client w => Hearing w₀ b w ∧
      client = w₀.clients.lookup user := by
  have hidle : Ends (bridge cfg calls) storeWorks t (Hearing w₀ b) (onTask (.getClient user))
      fun _ => Hearing w₀ b := Does.hearing (.task rfl)
  refine .call fun w a r w' hw hd he => ?_
  refine ⟨hidle w r w' hw (Eval.call_iff.mpr ⟨a, hd, he⟩), ?_⟩
  have he : exec t (.mk (.task (.getClient user))) a w = some (r, w') := he
  obtain ⟨-, rfl, -⟩ := exec_task he
  rw [← hw.clients]
  rfl

theorem queueText_since {body : String} {relation : Option Relation}
    (huser : w₀.store.hasUser e.user) (hsession : (w₀.clients.lookup e.user).isSome)
    (hfresh : w₀.store.outboundQueue.lookup w₀.store.nextOutboundId = none) :
    Ends (bridge cfg calls) storeWorks t (Hearing w₀ b) (queueText cfg e body relation)
      fun _ => EnqueuedSince e w₀ b := by
  have hsign : Does (fun c => c.idles) (appendUserSignature e.user body) := by
    refine .bind (.result (.store rfl)) fun r => ?_
    split
    · exact .pure
    · exact .pure
  refine .bind (.lift (F := fun _ _ => False) hsign.hearing) fun signed => ?_
  cases signed with
  | error _ => exact .pure fun _ hw => hw.elim
  | ok signed =>
    refine .bind (.lift (F := fun _ _ => False) session_hearing) fun client => ?_
    match client with
    | .error _ => exact .pure fun _ hw => hw.elim
    | .ok none =>
      intro w r w' hw _
      rw [← hw.2] at hsession
      cases hsession
    | .ok (some account) =>
      exact (resolveAndEnqueue huser hfresh).weaken (fun _ hw => hw.1) fun _ _ h => h

/-! Media. -/

/-- The media is taken over by the mail server, or the message is left with an error. -/
theorem uploadMatrixMedia_ends {account : Account} {msgtype : MessageType} :
    Ends (bridge cfg calls) storeWorks t (Hearing w₀ false)
      (uploadMatrixMedia maxSize account msgtype)
      (onResult (fun _ => Hearing w₀ true) fun _ => Hearing w₀ false) := by
  rcases uploadMatrixMedia_cases maxSize account msgtype with ⟨err, hprogram⟩ | ⟨uri, hprogram⟩
  · rw [hprogram]
    exact .fail fun _ hw => hw
  · rw [hprogram]
    refine .call fun w a r w' hw _ he => ?_
    have he : exec t (.mk (.jmap account (.uploadMatrixMedia uri))) a w = some (r, w') := he
    have hsame := hw.toSameState.trans (exec_reads rfl he)
    have hsilent := hw.silent.step rfl he
    have htrail := hw.trail.step he
    rw [Bool.or_false] at htrail
    rcases exec_reply he with ⟨reply, v, rfl, rfl, -⟩ | ⟨hreply, err, rfl⟩
    · exact ⟨hsame, htrail, hsilent⟩
    · have huploads :
          (⟨t, .jmap account (.uploadMatrixMedia uri), a⟩ : Record).uploads = false := by
        cases a with
        | reply r => exact absurd rfl (hreply r)
        | _ => rfl
      rw [huploads] at htrail
      exact ⟨hsame, htrail, hsilent⟩

/-- The notice about the message is not yet in the room, and nothing is uploaded. -/
structure Unanswered (e : QueuedEvent) (w₀ w : World) : Prop extends SameState w₀ w where
  trail : ∃ l, w.trace = l ++ w₀.trace ∧ l.any Record.uploads = false ∧
    l.any (Record.notices e) = false

/-- Nothing is uploaded, and the notice is in the room unless it was turned away last. -/
structure NoticedOrNot (e : QueuedEvent) (w₀ w : World) : Prop extends SameState w₀ w where
  trail : ∃ l, w.trace = l ++ w₀.trace ∧ l.any Record.uploads = false ∧
    l.any (Record.notices e) = !l.head?.any (Record.withholds e)

theorem Hearing.unanswered (h : Hearing w₀ false w) : Unanswered e w₀ w := by
  obtain ⟨l, hl, hall⟩ := h.silent
  obtain ⟨l', hl', huploads⟩ := h.trail
  obtain rfl := List.append_cancel_right (hl'.symm.trans hl)
  refine ⟨h.toSameState, l', hl, huploads, ?_⟩
  rw [List.any_eq_false]
  intro x hx hnotice
  have hsilent := List.all_eq_true.mp hall x hx
  obtain ⟨task, c, answer⟩ := x
  cases c with
  | matrix c => cases hsilent
  | _ => cases hnotice

theorem Unanswered.step {c : MatrixCmd} {r : Except Err c.Ans} (h : Unanswered e w₀ w)
    (hc : (⟨t, .matrix c, a⟩ : Record).notices e = false)
    (he : exec t (.mk (.matrix c)) a w = some (r, w')) : Unanswered e w₀ w' := by
  obtain ⟨l, hl, huploads, hnotices⟩ := h.trail
  refine ⟨h.toSameState.trans (exec_reads rfl he), ⟨t, .matrix c, a⟩ :: l, ?_, ?_, ?_⟩
  · rw [exec_trace he, hl, List.cons_append]
  · rw [List.any_cons, not_uploads_of rfl, huploads]
    rfl
  · rw [List.any_cons, hc, hnotices]
    rfl

theorem Unanswered.answered {c : MatrixCmd} {r : Except Err c.Ans} (h : Unanswered e w₀ w)
    (hc : (⟨t, .matrix c, a⟩ : Record).notices e = !(⟨t, .matrix c, a⟩ : Record).withholds e)
    (he : exec t (.mk (.matrix c)) a w = some (r, w')) : NoticedOrNot e w₀ w' := by
  obtain ⟨l, hl, huploads, hnotices⟩ := h.trail
  refine ⟨h.toSameState.trans (exec_reads rfl he), ⟨t, .matrix c, a⟩ :: l, ?_, ?_, ?_⟩
  · rw [exec_trace he, hl, List.cons_append]
  · rw [List.any_cons, not_uploads_of rfl, huploads]
    rfl
  · rw [List.any_cons, hc, hnotices, Bool.or_false]
    rfl

theorem notices_eq_not_withholds {sender : UserId} {msg : String} {r : Except Err EventId}
    (he : exec t (.mk (.matrix (.sendAsGhost e.room sender (.message ⟨msg, none, .answer e.event⟩)
      none))) a w = some (r, w')) :
    (⟨t, .matrix (.sendAsGhost e.room sender (.message ⟨msg, none, .answer e.event⟩) none), a⟩ :
      Record).notices e = !(⟨t, .matrix (.sendAsGhost e.room sender
        (.message ⟨msg, none, .answer e.event⟩) none), a⟩ : Record).withholds e := by
  rcases exec_send he with ⟨event, rfl, -⟩ | ⟨rfl | rfl, -⟩ | ⟨event, rfl, -⟩
  · simp [Record.notices, Record.withholds]
  · simp [Record.notices, Record.withholds]
  · simp [Record.notices, Record.withholds]
  · simp [Record.notices, Record.withholds]

theorem not_notices_of_notJoined {sender : UserId} {content : Content}
    (he : exec t (.mk (.matrix (.sendAsGhost e.room sender content none))) a w =
      some (.error .notJoined, w')) :
    (⟨t, .matrix (.sendAsGhost e.room sender content none), a⟩ : Record).notices e = false := by
  obtain rfl := exec_notJoined he
  cases content <;> rfl

theorem withholds_of_join {user : UserId} {err : Err}
    (he : exec t (.mk (.matrix (.joinRoomAs e.room user))) a w = some (.error err, w')) :
    (⟨t, .matrix (.joinRoomAs e.room user), a⟩ : Record).withholds e = true := by
  obtain ⟨w₁, hp, -⟩ := exec_mk he
  have hdone : a ≠ .done := by
    rintro rfl
    cases hp
  simp [Record.withholds, hdone]

/-- A bot that is not in the room joins it and tries once more; the last answer tells. -/
theorem answerMessage_ends {msg : String} :
    Ends (bridge cfg calls) storeWorks t (Unanswered e w₀) (answerMessage cfg e msg)
      fun _ => NoticedOrNot e w₀ := by
  have hsend : Ends (bridge cfg calls) storeWorks t (Unanswered e w₀)
      (onMatrix (.sendAsGhost e.room cfg.botUserId (.message ⟨msg, none, .answer e.event⟩) none))
      fun r w => NoticedOrNot e w₀ w ∧ (r = .error .notJoined → Unanswered e w₀ w) := by
    refine .call fun w a r w' hw _ he => ?_
    have he : exec t (.mk (.matrix (.sendAsGhost e.room cfg.botUserId
      (.message ⟨msg, none, .answer e.event⟩) none))) a w = some (r, w') := he
    refine ⟨hw.answered (notices_eq_not_withholds he) he, fun hr => ?_⟩
    rw [hr] at he
    exact hw.step (not_notices_of_notJoined he) he
  have hinvite : Ends (bridge cfg calls) storeWorks t (Unanswered e w₀)
      (bestEffort (onMatrix (.inviteToRoom e.room cfg.botUserId)))
      (onResult (fun _ => Unanswered e w₀) fun _ => NoticedOrNot e w₀) :=
    .bind (.call fun w a r w' hw _ he =>
      hw.step (c := .inviteToRoom e.room cfg.botUserId) rfl he) fun _ => .pure fun _ h => h
  have hjoin : Ends (bridge cfg calls) storeWorks t (Unanswered e w₀)
      (onMatrix (.joinRoomAs e.room cfg.botUserId))
      (onResult (fun _ => Unanswered e w₀) fun _ => NoticedOrNot e w₀) := by
    refine .call fun w a r w' hw _ he => ?_
    have he : exec t (.mk (.matrix (.joinRoomAs e.room cfg.botUserId))) a w = some (r, w') := he
    cases r with
    | ok _ => exact hw.step rfl he
    | error err =>
      refine hw.answered ?_ he
      rw [withholds_of_join he]
      rfl
  have hfirst : Ends (bridge cfg calls) storeWorks t (Unanswered e w₀)
      (Act.attempt (onMatrix (.sendAsGhost e.room cfg.botUserId
        (.message ⟨msg, none, .answer e.event⟩) none)))
      (onResult (fun r w => NoticedOrNot e w₀ w ∧ (r = .error .notJoined → Unanswered e w₀ w))
        fun _ => NoticedOrNot e w₀) := .attempt hsend
  have hjoining : Ends (bridge cfg calls) storeWorks t (Unanswered e w₀)
      (sendAsGhostJoining e.room cfg.botUserId (.message ⟨msg, none, .answer e.event⟩) none)
      (onResult (fun _ => NoticedOrNot e w₀) fun _ => NoticedOrNot e w₀) := by
    refine .andThen hfirst fun r => ?_
    split
    · exact .ok fun _ h => h.1
    · refine Ends.weaken (P := Unanswered e w₀) ?_ (fun _ h => h.2 rfl) fun _ _ h => h
      refine .andThen hinvite fun _ => .andThen hjoin fun _ => Ends.always_iff.mpr ?_
      exact hsend.post fun _ _ h => h.1
    · exact .fail fun _ h => h.1
  exact .bind (Ends.always_iff.mp hjoining) fun _ => .pure fun _ h => h

theorem handleGhostMedia_since {msgtype : MessageType} {relation : Option Relation}
    (huser : w₀.store.hasUser e.user) (hsession : (w₀.clients.lookup e.user).isSome)
    (hfresh : w₀.store.outboundQueue.lookup w₀.store.nextOutboundId = none) :
    Ends (bridge cfg calls) storeWorks t (Hearing w₀ false)
      (handleGhostMedia cfg maxSize e msgtype relation)
      fun _ w => EnqueuedSince e w₀ true w ∨ NoticedOrNot e w₀ w := by
  refine .bind (.lift (F := fun _ _ => False) session_hearing) fun client => ?_
  match client with
  | .error _ => exact .pure fun _ hw => hw.elim
  | .ok none =>
    intro w r w' hw _
    rw [← hw.2] at hsession
    cases hsession
  | .ok (some account) =>
    refine Ends.weaken ?_ (fun _ hw => hw.1) fun _ _ h => h
    refine .bind (.attempt (F := fun _ _ => False) uploadMatrixMedia_ends) fun r => ?_
    match r with
    | .error _ => exact .pure fun _ hw => hw.elim
    | .ok (.ok info) => exact (resolveAndEnqueue huser hfresh).post fun _ _ h => .inl h
    | .ok (.error err) =>
      have hlift : Ends (bridge cfg calls) storeWorks t (Hearing w₀ false)
          (Act.lift (answerMessage cfg e (uploadFailed (maxSize account))) : Bridge Unit)
          fun _ => NoticedOrNot e w₀ :=
        .liftAlways (answerMessage_ends.weaken (fun _ h => h.unanswered) fun _ _ h => h)
      exact .andThenAlways (R := NoticedOrNot e w₀) hlift (fun _ => .pure fun _ hw => .inr hw)
        fun _ hw => .inr hw

/-! The dispatch. -/

theorem routeMessage_ends {R : World → Prop}
    (hghost : (w₀.store.roomGhostMapping.lookup m.room).isSome)
    (h : Ends (bridge cfg calls) storeWorks t (Hearing w₀ false)
      (handleGhostMessageType cfg maxSize m)
      fun _ => R) :
    Ends (bridge cfg calls) storeWorks t (Hearing w₀ false) (routeMessage cfg maxSize m)
      fun _ => R := by
  have hlookup : Ends (bridge cfg calls) storeWorks t (Hearing w₀ false)
      (onStore (.getGhostEmailByRoom m.room)) fun r w =>
        Hearing w₀ false w ∧ ∃ email, r = .ok (some email) := by
    have hidle : Ends (bridge cfg calls) storeWorks t (Hearing w₀ false)
        (onStore (.getGhostEmailByRoom m.room)) fun _ => Hearing w₀ false :=
          Does.hearing (.store rfl)
    refine .call fun w a r w' hw hd he => ?_
    refine ⟨hidle w r w' hw (Eval.call_iff.mpr ⟨a, hd, he⟩), ?_⟩
    have he : exec t (.mk (.store (.getGhostEmailByRoom m.room))) a w = some (r, w') := he
    obtain ⟨order, rfl, -⟩ := exec_carriedOut hd he
    obtain ⟨ghost, hghost⟩ := Option.isSome_iff_exists.mp hghost
    exact ⟨ghost.ghostEmail, by simp [StoreCmd.run, hw.store, hghost]⟩
  refine .bind hlookup fun r => ?_
  rcases r with err | (_ | email)
  · rintro _ _ _ ⟨-, _, heq⟩ _
    cases heq
  · rintro _ _ _ ⟨-, _, heq⟩ _
    cases heq
  · refine Ends.weaken (P := Hearing w₀ false) ?_ (fun _ hw => hw.1) fun _ _ h => h
    refine .andThenAlways (.attemptAlways h) (fun handled => ?_) fun _ hw => hw
    cases handled with
    | ok _ => exact .pure fun _ hw => hw
    | error err =>
      simp only
      split
      · exact .pure fun _ hw => hw
      · exact .pure fun _ hw => hw

theorem handleRoomMessage_sent (hm : m.Sent cfg w) :
    handleRoomMessage cfg maxSize m =
      if m.msgtype.routed then routeMessage cfg maxSize m else Act.ok () := by
  unfold handleRoomMessage
  rw [hm.notBridge]
  have hnoEdit := hm.noEdit
  obtain ⟨sender, room, event, msgtype, relation⟩ := m
  match relation with
  | some (.replacement target newBody) => exact absurd rfl (hnoEdit target newBody)
  | none => cases msgtype <;> rfl
  | some (.reply _) => cases msgtype <;> rfl
  | some (.thread _) => cases msgtype <;> rfl

theorem routeMessage_eval {r : Except Err Unit}
    (hghost : (w.store.roomGhostMapping.lookup m.room).isSome)
    (h : Eval (bridge cfg calls) storeWorks t (routeMessage cfg maxSize m) w r w') :
    ∃ w₁ r₁, SameState w w₁ ∧
      Eval (bridge cfg calls) storeWorks t (handleGhostMessageType cfg maxSize m) w₁ r₁ w' := by
  obtain ⟨ghost, hghost⟩ := Option.isSome_iff_exists.mp hghost
  have hfound :
      ∀ {r w₁}, Eval (bridge cfg calls) storeWorks t (onStore (.getGhostEmailByRoom m.room))
      w r w₁ → SameState w w₁ ∧ r = .ok (some ghost.ghostEmail) := by
    intro r w₁ h
    obtain ⟨a, hd, he⟩ := Eval.call_iff.mp h
    have he : exec t (.mk (.store (.getGhostEmailByRoom m.room))) a w = some (r, w₁) := he
    refine ⟨exec_reads rfl he, ?_⟩
    obtain ⟨order, rfl, -⟩ := exec_carriedOut hd he
    simp [StoreCmd.run, hghost]
  rcases Eval.andThen_iff.mp h with ⟨found, w₁, hlookup, hrest⟩ | ⟨err, hlookup, -⟩
  · obtain ⟨hsame, heq⟩ := hfound hlookup
    obtain rfl := Except.ok.inj heq
    rcases Eval.andThen_iff.mp hrest with ⟨handled, w₂, hhandled, hlast⟩ | ⟨err, hhandled, -⟩
    · obtain ⟨r₁, hr₁, -⟩ := Eval.attempt_iff.mp hhandled
      refine ⟨w₁, r₁, hsame, ?_⟩
      have hpure : w' = w₂ := by
        cases handled with
        | ok _ => exact (Eval.pure_iff.mp hlast).2
        | error err =>
          simp only at hlast
          split at hlast
          · exact (Eval.pure_iff.mp hlast).2
          · exact (Eval.pure_iff.mp hlast).2
      rw [hpure]
      exact hr₁
    · obtain ⟨r₁, -, heq⟩ := Eval.attempt_iff.mp hhandled
      cases heq
  · cases (hfound hlookup).2

theorem handleGhostOutbound_command {body : String} {cmd : GhostCommand}
    {relation : Option Relation}
    (hparse : parseGhostCommand cfg body = some cmd) :
    handleGhostOutbound cfg e body relation = runGhostCommand cfg e relation cmd := by
  unfold handleGhostOutbound
  rw [hparse]
  cases cmd <;> rfl

theorem since_start : Hearing w false w := ⟨⟨rfl, rfl⟩, ⟨[], rfl, rfl⟩, [], rfl, rfl⟩

theorem not_enqueued_of (h : SameState w w') : ¬ Enqueued e w w' := by
  rintro ⟨id, row, hnone, hrow, -⟩
  rw [h.store, hnone] at hrow
  cases hrow

theorem NoticedOrNot.not_enqueued (h : NoticedOrNot e w w') : ¬ Enqueued e w w' :=
  not_enqueued_of h.toSameState

theorem NoticedOrNot.any {l : List Record} (h : NoticedOrNot e w w')
    (hl : w'.trace = l ++ w.trace) :
    (¬ ∃ x ∈ l, x.uploads) ∧
      ((∃ x ∈ l, x.notices e) ↔ ∀ x ∈ l.head?, x.withholds e = false) := by
  obtain ⟨l', hl', huploads, hnotices⟩ := h.trail
  obtain rfl := List.append_cancel_right (hl'.symm.trans hl)
  refine ⟨fun hx => ?_, ?_⟩
  · rw [List.any_eq_true.mpr hx] at huploads
    cases huploads
  · rw [← List.any_eq_true, hnotices]
    cases l'.head? with
    | none => simp
    | some x => simp

theorem Uploading.any {l : List Record} (h : Uploading w b w') (hl : w'.trace = l ++ w.trace) :
    (∃ x ∈ l, x.uploads) ↔ b = true := by
  obtain ⟨l', hl', rfl⟩ := h
  obtain rfl := List.append_cancel_right (hl'.symm.trans hl)
  exact List.any_eq_true.symm

/-- What the run of a message comes to, by the type of the message. -/
theorem text_heard {body : String} {l : List Record} {r : Except Err Unit} (hm : m.Sent cfg w)
    (hmsgtype : m.msgtype = .text body)
    (h : Eval (bridge cfg calls) storeWorks t (routeMessage cfg maxSize m) w r w') :
    Heard cfg calls t m w l w' := by
  have hhandler : handleGhostMessageType cfg maxSize m =
      handleGhostOutbound cfg m.queued body m.relation := by
    unfold handleGhostMessageType
    rw [hmsgtype]
  cases hparse : parseGhostCommand cfg body with
  | some cmd =>
    obtain ⟨w₁, r₁, hsame, hrun⟩ := routeMessage_eval hm.ghost h
    rw [hhandler, handleGhostOutbound_command hparse] at hrun
    exact .commanded body cmd w₁ r₁ hmsgtype hparse hsame hrun
  | none =>
    have hqueue : handleGhostOutbound cfg m.queued body m.relation =
        queueText cfg m.queued body m.relation := by
      unfold handleGhostOutbound
      rw [hparse]
    have hends : Ends (bridge cfg calls) storeWorks t (Hearing w false) (routeMessage cfg maxSize m)
        fun _ => EnqueuedSince m.queued w false := by
      refine routeMessage_ends hm.ghost ?_
      rw [hhandler, hqueue]
      exact queueText_since hm.user hm.session hm.fresh
    exact .queued (hends w r w' since_start h).row

theorem media_heard {media : MediaContent} {l : List Record} {r : Except Err Unit}
    (hm : m.Sent cfg w) (hrouted : m.msgtype.routed) (hmedia : m.msgtype.media = some media)
    (h : Eval (bridge cfg calls) storeWorks t (routeMessage cfg maxSize m) w r w')
    (hl : w'.trace = l ++ w.trace) :
    Heard cfg calls t m w l w' ↔
      (∃ x ∈ l, x.uploads) ∨ ∀ x ∈ l.head?, x.withholds m.queued = false := by
  have hends : Ends (bridge cfg calls) storeWorks t (Hearing w false) (routeMessage cfg maxSize m)
      fun _ w' => EnqueuedSince m.queued w true w' ∨ NoticedOrNot m.queued w w' := by
    refine routeMessage_ends hm.ghost ?_
    have hhandler : handleGhostMessageType cfg maxSize m =
        handleGhostMedia cfg maxSize m.queued m.msgtype m.relation := by
      unfold handleGhostMessageType
      match hmsgtype : m.msgtype, hrouted, hmedia with
      | .file _, _, _ => rfl
      | .image _, _, _ => rfl
    rw [hhandler]
    exact handleGhostMedia_since hm.user hm.session hm.fresh
  rcases hends w r w' since_start h with hqueued | hanswered
  · exact ⟨fun _ => .inl ((hqueued.trail.any hl).mpr rfl), fun _ => .queued hqueued.row⟩
  · obtain ⟨huploads, htold⟩ := hanswered.any hl
    constructor
    · intro hheard
      cases hheard with
      | queued hrow => exact absurd hrow hanswered.not_enqueued
      | commanded body cmd w₁ r₁ hmsgtype =>
        rw [hmsgtype] at hmedia
        cases hmedia
      | noticed hnotice => exact .inr (htold.mp hnotice)
    · rintro (hupload | hkept)
      · exact absurd hupload huploads
      · exact .noticed (htold.mpr hkept)

end

/-- A message is queued, run as a command or answered if and only if it is a text, a file or an
image, and media is uploaded or the homeserver does not turn the notice away. -/
theorem messages_heard_iff (cfg : Config) (calls : Nat → Call) (maxSize : Account → Nat) (w : World)
    (m : RoomMessage) (hm : m.Sent cfg w) (t : Nat) (r : Except Err Unit) (w' : World)
    (l : List Record) (hl : w'.trace = l ++ w.trace)
    (h : Eval (bridge cfg calls) storeWorks t (handleRoomMessage cfg maxSize m) w r w') :
    Heard cfg calls t m w l w' ↔ m.msgtype.routed ∧ (m.msgtype.media = none ∨
      (∃ x ∈ l, x.uploads) ∨ ∀ x ∈ l.head?, x.withholds m.queued = false) := by
  rw [handleRoomMessage_sent hm] at h
  cases hrouted : m.msgtype.routed with
  | false =>
    rw [hrouted] at h
    obtain ⟨rfl, rfl⟩ := Eval.pure_iff.mp h
    have hnil : l = [] := List.append_left_eq_self.mp hl.symm
    refine ⟨fun hheard => ?_, fun hcond => absurd hcond.1 (by simp)⟩
    cases hheard with
    | queued hrow => exact absurd hrow (not_enqueued_of since_start.toSameState)
    | commanded body cmd w₁ r₁ hmsgtype =>
      rw [hmsgtype] at hrouted
      cases hrouted
    | noticed hnotice =>
      obtain ⟨x, hx, -⟩ := hnotice
      rw [hnil] at hx
      cases hx
  | true =>
    rw [hrouted, if_pos rfl] at h
    cases hmedia : m.msgtype.media with
    | none =>
      refine ⟨fun _ => ⟨rfl, .inl rfl⟩, fun _ => ?_⟩
      match hmsgtype : m.msgtype, hrouted, hmedia with
      | .text body, _, _ => exact text_heard hm hmsgtype h
    | some media =>
      rw [media_heard hm hrouted hmedia h hl]
      simp

/-- Alice may use the bridge, is logged in, and has a conversation with Bob. -/
def chatWorld : World where
  clients := (∅ : Table _ _).insert "@a:localhost" "a@x"
  store :=
    { users := (∅ : Table _ _).insert "@a:localhost" ⟨"a@x", "token", "url"⟩
      roomGhostMapping := (∅ : Table _ _).insert "!r" ⟨"b@y", none, "@a:localhost"⟩ }

def openConfig : Config := { level := fun _ => some .user }

def chatMessage (msgtype : MessageType) : RoomMessage := ⟨"@a:localhost", "!r", "$m", msgtype, none⟩

theorem chatMessage_sent (msgtype : MessageType) :
    (chatMessage msgtype).Sent openConfig chatWorld where
  notBridge := by
    change isBridgeUser "@a:localhost" = false
    decide
  permitted := rfl
  noEdit := fun _ _ => by simp [chatMessage]
  ghost := rfl
  user := rfl
  session := rfl
  fresh := rfl

def imageMessage : RoomMessage := chatMessage (.image ⟨"i.png", .plain "mxc://i", none⟩)

/-- Her image is uploaded, and queued. -/
theorem messages_heard_image : ∃ r w', Eval (bridge openConfig fun _ => .worker) storeWorks 0
    (handleRoomMessage openConfig (fun _ => 0) imageMessage) chatWorld r w' ∧
    Heard openConfig (fun _ => .worker) 0 imageMessage chatWorld w'.trace w' := by
  let answers : List (Option Answer) := [some .done, some .done,
    some (.reply (.uploaded ⟨"b", "i.png", "image/png"⟩)), some .done, some .done, some .done]
  have hmeets : ReplayMeets (bridge openConfig fun _ => .worker) storeWorks 0 answers
      (result (handleRoomMessage openConfig (fun _ => 0) imageMessage)) chatWorld := by
        decide +kernel
  have hends : (replay (bridge openConfig fun _ => .worker) 0 answers
      (result (handleRoomMessage openConfig (fun _ => 0) imageMessage)) chatWorld).map
        (fun q => q.2.trace.any Record.uploads) = some true := by decide +kernel
  obtain ⟨⟨r, w'⟩, hreplay, huploads⟩ := Option.map_eq_some_iff.mp hends
  have h : Eval (bridge openConfig fun _ => .worker) storeWorks 0
    (handleRoomMessage openConfig (fun _ => 0) imageMessage) chatWorld r w' :=
    eval_of_replay hmeets hreplay
  refine ⟨r, w', h, (messages_heard_iff openConfig _ (fun _ => 0) chatWorld imageMessage
    (chatMessage_sent _) 0 r w' w'.trace (List.append_nil _).symm h).mpr ⟨rfl, .inr (.inl ?_)⟩⟩
  exact List.any_eq_true.mp huploads

/-- Her voice message vanishes. -/
theorem voice_message_vanishes : ¬ ∀ t r w' l, w'.trace = l ++ chatWorld.trace →
    Eval (bridge openConfig fun _ => .worker) storeWorks t
      (handleRoomMessage openConfig (fun _ => 0)
      (chatMessage (.audio ⟨"voice.ogg", .plain "mxc://v", none⟩))) chatWorld r w' →
    Heard openConfig (fun _ => .worker) t
      (chatMessage (.audio ⟨"voice.ogg", .plain "mxc://v", none⟩))
      chatWorld l w' := by
  intro hall
  have h := hall 0 (.ok ()) chatWorld [] rfl (by
    rw [handleRoomMessage_sent (chatMessage_sent _)]
    exact .pure)
  cases h with
  | queued hrow => exact absurd hrow (not_enqueued_of since_start.toSameState)
  | commanded body cmd w₁ r hmsgtype => cases hmsgtype
  | noticed hnotice =>
    obtain ⟨x, hx, -⟩ := hnotice
    cases hx

end JmapBridge
