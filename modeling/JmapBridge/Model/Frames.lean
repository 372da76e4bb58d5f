import JmapBridge.Effect.Ends
import JmapBridge.Model.Queue

/-! A program of the bridge with nobody else at work: what it leaves alone, and how it may
come to an end. -/

namespace JmapBridge

open Effect Sql

variable {cfg : Config} {calls : Nat → Call} {D : Discipline Op World Answer Env} {t : Nat}
  {w w' : World} {α : Type}

/-- The rows of the queue are the same. -/
structure SameQueue (w w' : World) : Prop where
  rows : w'.store.outboundQueue = w.store.outboundQueue
  next : w'.store.nextOutboundId = w.store.nextOutboundId

theorem SameQueue.refl : SameQueue w w := ⟨rfl, rfl⟩

theorem SameQueue.trans {w₁ w₂ : World} (h : SameQueue w w₁) (h' : SameQueue w₁ w₂) :
    SameQueue w w₂ := ⟨h'.rows.trans h.rows, h'.next.trans h.next⟩

theorem queue_of_offRows {c : StoreCmd} (hc : (Cmd.store c).offRows) (now : Nat) (order : List Nat)
    (s : Store) : (c.run now order s).2.outboundQueue = s.outboundQueue ∧
      (c.run now order s).2.nextOutboundId = s.nextOutboundId := by
  have refers : ∀ {β : Type} {u : UserId} {b : β} {s' : Store},
      s'.outboundQueue = s.outboundQueue ∧ s'.nextOutboundId = s.nextOutboundId →
      (s.referring u b s').2.outboundQueue = s.outboundQueue ∧
        (s.referring u b s').2.nextOutboundId = s.nextOutboundId := by
    intro β u b s' hs
    unfold Store.referring
    split
    · exact hs
    · exact ⟨rfl, rfl⟩
  cases c with
  | addToOutboundQueue => cases hc
  | cancelOutboundByEvent => cases hc
  | updateOutboundBodyByEvent => cases hc
  | updateRetryCount => cases hc
  | removeFromOutboundQueue => cases hc
  | clearOutboundQueue => cases hc
  | saveJmapState => exact refers ⟨rfl, rfl⟩
  | saveRoomGhostMapping => exact refers ⟨rfl, rfl⟩
  | tryAcquireRoomCreationLock key =>
    simp only [StoreCmd.run]
    split
    · exact ⟨rfl, rfl⟩
    · exact ⟨rfl, rfl⟩
  | _ => exact ⟨rfl, rfl⟩

theorem sameQueue_exec {c : Cmd} {a : Answer} {b : c.Ans} (hc : c.offRows)
    (h : exec t (.mk c) a w = some (b, w')) : SameQueue w w' := by
  rcases exec_run h with hstore | ⟨q, order, rfl, -, hstore⟩
  · exact ⟨by rw [hstore], by rw [hstore]⟩
  · have hq := queue_of_offRows hc w.now order w.store
    exact ⟨by rw [hstore, hq.1], by rw [hstore, hq.2]⟩

theorem OffRows.ends {w₀ : World} {x : Prog Op α} (hx : OffRows x) :
    Ends (bridge cfg calls) D t (SameQueue w₀) x fun _ => SameQueue w₀ := by
  refine .only (φ := fun _ o => o.cmd.offRows) (fun β o a w b w' ho _ he hw => ?_) hx
  obtain ⟨c⟩ := o
  exact hw.trans (sameQueue_exec ho he)

theorem OffQueue.ends {w₀ : World} {x : Prog Op α} (hx : OffQueue x) :
    Ends (bridge cfg calls) D t (SameQueue w₀) x fun _ => SameQueue w₀ :=
  OffRows.ends (hx.mono fun _ => Cmd.offQueue.offRows)

theorem OffQueue.keeps {P : World → Prop} (hP : ∀ w w', P w → SameQueue w w' → P w')
    {x : Prog Op α} (hx : OffQueue x) : Ends (bridge cfg calls) D t P x fun _ => P :=
  fun w r w' hw he => hP w w' hw (hx.ends w r w' .refl he)

theorem may_perform {c : Cmd} (a : Answer) {b : c.Ans} {w₁ : World} {Q : c.Ans → World → Prop}
    (hD : D.step t (.mk c) a w) (h : c.perform t a w = some (b, w₁))
    (hQ : Q b { w₁ with trace := ⟨t, c, a⟩ :: w₁.trace }) :
    Can (bridge cfg calls) D t (Prog.call (.mk c)) w Q := by
  refine .call (c := a) hD ?_ hQ
  change (c.perform t a w).map _ = _
  rw [h]
  rfl

theorem notify_can (hD : ∀ c a w, D.step t (.mk (.matrix c)) a w) (room : RoomId) (msg : String)
    {Q : Unit → World → Prop} (hQ : ∀ w', SameQueue w w' → Q () w') :
    Can (bridge cfg calls) D t (notify cfg room msg) w Q := by
  refine .bind (.andThen (.attempt (may_perform .failed (hD _ _ _) rfl ?_)))
  exact .fail (.pure (hQ _ ⟨rfl, rfl⟩))

/-! The statements, when the store works. -/

/-- Every statement is carried out, and its result comes back. -/
def Cmd.carriedOut : Cmd → Answer → Bool
  | store _, .done => true
  | store _, .rows _ => true
  | store _, _ => false
  | _, _ => true

def storeWorks : Discipline Op World Answer Env where
  step _ _ o a _ := o.cmd.carriedOut a

instance decidableStoreWorks (t : Nat) (β : Type) (o : Op β) (a : Answer) (w : World) :
    Decidable (storeWorks.step t o a w) := inferInstanceAs (Decidable (o.cmd.carriedOut a = true))

instance decidableStoreWorksMeets (ev : Event Answer Env) (q : Pool Op World) :
    Decidable (storeWorks.meets ev q) :=
  @Discipline.decidableMeets Op World Answer Env storeWorks (fun _ _ => instDecidableTrue) _
    (fun _ _ => instDecidableTrue) (fun _ _ => instDecidableTrue) ev q

theorem exec_carriedOut {c : StoreCmd} {a : Answer} {r : Except Err c.Ans}
    (hc : (Cmd.store c).carriedOut a) (h : exec t (.mk (.store c)) a w = some (r, w')) :
    ∃ order, r = (c.run w.now order w.store).1 ∧ w'.store = (c.run w.now order w.store).2 ∧
      w'.clients = w.clients ∧ w'.now = w.now := by
  rcases exec_store h with ⟨order, -, rfl, rfl⟩ | ⟨rfl, -, -⟩ | ⟨⟨s, rfl⟩, -, -⟩
  · exact ⟨order, rfl, rfl, rfl, rfl⟩
  · cases hc
  · cases hc

/-- The statements that only look something up. -/
def StoreCmd.Finds (c : StoreCmd) (s : Store) (v : c.Ans) : Prop :=
  ∀ now order, c.run now order s = (.ok v, s)

theorem find_ends {c : StoreCmd} {s : Store} {v : c.Ans} (hc : c.Finds s v) :
    Ends (bridge cfg calls) storeWorks t (fun w => w.store = s) (onStore c) fun r w' =>
      r = .ok v ∧ w'.store = s := by
  refine .call fun w a r w' hw hd he => ?_
  have he : exec t (.mk (.store c)) a w = some (r, w') := he
  obtain ⟨order, rfl, hstore, -⟩ := exec_carriedOut hd he
  rw [hw, hc] at hstore ⊢
  exact ⟨rfl, hstore⟩

/-- The store and the sessions are the same. -/
structure SameState (w w' : World) : Prop where
  store : w'.store = w.store
  clients : w'.clients = w.clients

theorem SameState.sameQueue (h : SameState w w') : SameQueue w w' :=
  ⟨by rw [h.store], by rw [h.store]⟩

theorem SameState.trans {w₁ w₂ : World} (h : SameState w w₁) (h' : SameState w₁ w₂) :
    SameState w w₂ := ⟨h'.store.trans h.store, h'.clients.trans h.clients⟩

/-- The commands of the message handlers that leave the store and the sessions alone. -/
def Cmd.reads : Cmd → Bool
  | store (.getGhostEmailByRoom _) => true
  | store (.getUserSignature _) => true
  | store (.getJmapState _ _) => true
  | store (.getEmailIdFromEventId _) => true
  | store (.getJmapThreadIdByRootEvent _) => true
  | store (.getLatestThreadInRoom _) => true
  | store (.getLastEmailIdByRoom _) => true
  | store (.getThreadSubject _) => true
  | store (.getThreadInfo _) => true
  | jmap _ _ => true
  | matrix _ => true
  | task (.getClient _) => true
  | _ => false

theorem exec_reads {c : Cmd} {a : Answer} {b : c.Ans} (hc : c.reads)
    (h : exec t (.mk c) a w = some (b, w')) : SameState w w' := by
  cases c with
  | store c =>
    have hread : ∀ order, (c.run w.now order w.store).2 = w.store := by
      intro order
      cases c <;> first | rfl | cases hc
    rcases exec_store h with ⟨order, -, -, rfl⟩ | ⟨-, -, rfl⟩ | ⟨-, -, rfl⟩
    · exact ⟨hread order, rfl⟩
    · exact ⟨rfl, rfl⟩
    · exact ⟨hread [], rfl⟩
  | matrix c =>
    obtain ⟨⟨issued, rfl⟩, -⟩ := exec_matrix h
    exact ⟨rfl, rfl⟩
  | jmap account c =>
    obtain ⟨mail, rfl⟩ := exec_jmap h
    exact ⟨rfl, rfl⟩
  | task c =>
    obtain ⟨-, -, rfl⟩ := exec_task h
    cases c with
    | getClient user => exact ⟨rfl, rfl⟩
    | _ => cases hc

theorem write_can {c : StoreCmd} {Q : Except Err c.Ans → World → Prop} (hc : (Cmd.store c).offRows)
    (hQ : ∀ r w', SameQueue w w' → Q r w') :
    Can (bridge cfg calls) storeWorks t (onStore c) w Q := by
  have hq := queue_of_offRows hc w.now [] w.store
  exact may_perform .done rfl rfl (hQ _ _ ⟨hq.1, hq.2⟩)

theorem find_can {c : StoreCmd} {v : c.Ans} {Q : Except Err c.Ans → World → Prop}
    (hc : c.Finds w.store v) (hQ : ∀ w', SameState w w' → Q (.ok v) w') :
    Can (bridge cfg calls) storeWorks t (onStore c) w Q := by
  refine may_perform .done rfl rfl ?_
  simp only [hc w.now []]
  exact hQ _ ⟨rfl, rfl⟩

/-! What is put into the queue. -/

/-- Every row was there before, or `Q` holds of it. -/
def Adds (Q : OutboundRow → Prop) (w w' : World) : Prop :=
  ∀ id row, w'.store.outboundQueue.lookup id = some row →
    w.store.outboundQueue.lookup id = some row ∨ Q row

variable {Q : OutboundRow → Prop} {e : QueuedEvent} {body : String} {threadRoot : Option String}
  {files : Option (List AttachmentInfo)}

theorem Adds.of_sameQueue (w₁ w₂ : World) (h : Adds Q w w₁) (hq : SameQueue w₁ w₂) : Adds Q w w₂ :=
  fun id row hrow => h id row (hq.rows ▸ hrow)

theorem SameQueue.adds (h : SameQueue w w') : Adds Q w w' := fun _ _ hrow => .inl (h.rows ▸ hrow)

/-- The row that `enqueue_held_send` inserts. -/
structure Queues (e : QueuedEvent) (body : String) (threadRoot : Option String)
    (files : Option (List AttachmentInfo)) (row : OutboundRow) : Prop where
  user : row.matrixUserId = e.user
  room : row.roomId = e.room
  event : row.eventId = e.event
  body : row.bodyText = body
  threadRoot : row.threadRootId = threadRoot
  attachments : row.attachments = files

theorem addToOutboundQueue_exec {delay : Nat} {a : Answer} {r : Except Err Unit}
    (h : exec t (.mk (.store (.addToOutboundQueue e.user e.room e.event body none threadRoot files
      delay))) a w = some (r, w')) : Adds (Queues e body threadRoot files) w w' := by
  rcases exec_run h with hstore | ⟨q, order, hq, -, hstore⟩
  · exact SameQueue.adds ⟨by rw [hstore], by rw [hstore]⟩
  · cases hq
    intro id row hrow
    rw [hstore] at hrow
    simp only [StoreCmd.run, Store.referring] at hrow
    split at hrow
    case isFalse => exact .inl hrow
    by_cases hid : id = w.store.nextOutboundId
    · subst hid
      rw [AList.lookup_insert] at hrow
      obtain rfl := Option.some.inj hrow
      exact .inr ⟨rfl, rfl, rfl, rfl, rfl, rfl⟩
    · rw [AList.lookup_insert_ne hid] at hrow
      exact .inl hrow

theorem enqueueHeldSend_adds {w₀ : World} : Ends (bridge cfg calls) D t (SameQueue w₀)
    (enqueueHeldSend cfg e body threadRoot files) fun _ =>
      Adds (Queues e body threadRoot files) w₀ := by
  have hdelay : Ends (bridge cfg calls) D t (SameQueue w₀) (Act.lift (sendDelayFor cfg e.user) :
      Bridge Nat) fun _ => SameQueue w₀ := .liftAlways sendDelayFor_remark.offQueue.ends
  refine .andThenAlways hdelay (fun delay => ?_) fun w hw => hw.adds
  refine .andThenAlways (R := Adds (Queues e body threadRoot files) w₀) (.call ?_) (fun _ => ?_)
    fun _ h => h
  · intro w a r w' hw _ he id row hrow
    have he : exec t (.mk (.store (.addToOutboundQueue e.user e.room e.event body none threadRoot
      files delay))) a w = some (r, w') := he
    rcases addToOutboundQueue_exec he id row hrow with hold | hnew
    · exact .inl (hw.rows ▸ hold)
    · exact .inr hnew
  · exact .liftAlways (showHeld_talk.offQueue.keeps Adds.of_sameQueue)

end JmapBridge
