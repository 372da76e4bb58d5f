import JmapBridge.Model.Queue

/-! Deliveries of transactions: the claims on them, which task holds each, and the commands
that concern claims and the rows that deliveries put into the queue. -/

namespace JmapBridge

open Effect Sql

def MatrixEvent.isMessage (e : EventId) : MatrixEvent → Bool
  | message _ _ event _ _ _ => event == e
  | _ => false

/-- The transaction is claimed. -/
def World.claimed (w : World) (x : TransactionId) : Bool :=
  (w.store.processedTransactions.lookup x).isSome

/-- How many times task `i` holds the transaction: once or never. -/
def World.holding (w : World) (i : Nat) (x : TransactionId) : Nat := w.deliveries.count (i, x)

/-- Task `t` holds the transaction. -/
def Holds (x : TransactionId) (t : Nat) (w : World) : Prop := w.holding t x = 1

def Unheld (x : TransactionId) (t : Nat) (w : World) : Prop := w.holding t x = 0

/-- The command may change who has claimed or who holds the transaction. -/
def Cmd.concerns (x : TransactionId) : Cmd → Bool
  | store (.claimTransaction y) => y == x
  | store (.unclaimTransaction y) => y == x
  | store .pruneTransactions => true
  | task (.respond y _) => y == x
  | _ => false

/-- The command puts a row of event `e` into the queue. -/
def Cmd.inserts (e : EventId) : Cmd → Bool
  | store (.addToOutboundQueue _ _ event _ _ _ _ _) => event == e
  | _ => false

/-- The commands of deliveries: of the ledger, and those that put rows into the queue. -/
def Cmd.delivers : Cmd → Bool
  | store (.addToOutboundQueue ..) => true
  | c => c.ledger

theorem Cmd.not_concerns {c : Cmd} (h : c.delivers = false) (x : TransactionId) :
    c.concerns x = false := by
  unfold Cmd.concerns
  split
  · cases h
  · cases h
  · cases h
  · cases h
  · rfl

theorem Cmd.inserts_not_concerns {c : Cmd} {e : EventId} (h : c.inserts e) (x : TransactionId) :
    c.concerns x = false := by
  unfold Cmd.inserts at h
  split at h
  · rfl
  · cases h

theorem Cmd.not_inserts {c : Cmd} (h : c.delivers = false) (e : EventId) : c.inserts e = false := by
  unfold Cmd.inserts
  split
  · cases h
  · rfl

theorem Cmd.offQueue.not_delivers {c : Cmd} (h : c.offQueue) : c.delivers = false := by
  unfold Cmd.delivers
  split
  · cases h
  · unfold Cmd.ledger
    split
    · cases h
    · cases h
    · cases h
    · cases h
    · rfl

section

variable {α : Type} {cfg : Config}

/-- No command of a delivery. -/
abbrev Undelivering (x : Prog Op α) : Prop := Does (fun c => c.delivers = false) x

theorem OffQueue.undelivering {x : Prog Op α} (h : OffQueue x) : Undelivering x :=
  h.mono fun _ => Cmd.offQueue.not_delivers

theorem Aside.undelivering {x : Prog Op α} (h : Aside x) : Undelivering x := h.offQueue.undelivering

theorem submit_undelivering {account : Account} {b : EmailBuilder} :
    Undelivering (submit account b) := by
  refine .andThen outgoingMailbox_remark.aside.undelivering fun mailbox => ?_
  refine .andThen (.lift primaryIdentity_remark.aside.undelivering) fun identity => ?_
  refine .andThen (.jmap rfl) fun reply => .andThen .ofOption fun email => ?_
  split
  · exact .ok
  · exact .fail

theorem replyToEmail_undelivering {account : Account} {thread : ThreadId} {b : EmailBuilder} :
    Undelivering (replyToEmail cfg account thread b) :=
  .andThen (.lift replyHeaders_remark.aside.undelivering) fun _ =>
    .andThen (.lift quotedBody_remark.aside.undelivering) fun _ => submit_undelivering

theorem sendQueued_undelivering {account : Account} {email : String} {msg : OutboundMessage} :
    Undelivering (sendQueued cfg account email msg) := by
  rw [sendQueued]
  split
  · exact .andThen (.attempt (.store rfl)) fun _ => .andThen (.lift (.task rfl)) fun _ =>
      .andThen replyToEmail_undelivering fun _ => .ok
  · exact .andThen (.attempt (.matrix rfl)) fun _ => .andThen (.lift (.task rfl)) fun _ =>
      .andThen submit_undelivering fun _ => mapComposedThread_aside.undelivering

theorem deliver_undelivering {account : Account} {email : String} {msg : OutboundMessage} :
    Undelivering (deliver cfg account email msg) := by
  refine .bind (.result sendQueued_undelivering) fun sent => ?_
  split
  · exact .bind (.result (.store rfl)) fun _ =>
      .bind markSubmitted_talk.aside.undelivering fun _ => .pure
  · exact .pure

theorem submitOne_undelivering {msg : OutboundMessage} : Undelivering (submitOne cfg msg) := by
  refine .bind (.task rfl) fun client => ?_
  split
  · exact .pure
  · refine .bind (.result (.store rfl)) fun ghost => ?_
    split
    · exact deliver_undelivering
    · exact .bind (.result (.store rfl)) fun _ => .pure
    · exact .pure

theorem handleUnresolved_undelivering {msg : OutboundMessage} :
    Undelivering (handleUnresolved cfg msg) := by
  have hnotice : Undelivering (sendMessage cfg msg.roomId deliveryFailure (.queued msg.id)) :=
    sendAsGhostJoining_does rfl rfl rfl
  rw [handleUnresolved]
  split
  · exact .bind (.result hnotice) fun _ => .bind (.result (.store rfl)) fun _ =>
      markFailed_talk.aside.undelivering
  · exact .bind (.result (.store rfl)) fun _ => .pure

theorem workOff_undelivering {msg : OutboundMessage} : Undelivering (workOff cfg msg) := by
  refine .bind submitOne_undelivering fun resolved => .bind ?_ fun _ => .task rfl
  split
  · exact .pure
  · exact handleUnresolved_undelivering

theorem retryRound_undelivering : Undelivering (retryRound cfg) := by
  refine .bind (.task rfl) fun _ => .bind (.result (.store rfl)) fun fetched => ?_
  split
  · exact Prog.only_closed.forEach _ fun _ _ => workOff_undelivering
  · exact .pure

theorem runRetryLoop_undelivering : Undelivering (runRetryLoop cfg) :=
  ⟨fun _ => Does.bind retryRound_undelivering fun _ => .pure, fun _ => trivial⟩

theorem handleRedaction_undelivering {room : RoomId} {redacted : EventId} :
    Undelivering (handleRedaction cfg room redacted) := by
  refine .bind (.result (.store rfl)) fun r => ?_
  split
  · exact notify_remark.aside.undelivering
  · exact .pure

theorem handleEdit_undelivering {room : RoomId} {target : EventId} {newBody : String} :
    Undelivering (handleEdit cfg room target newBody) := by
  refine .bind (.result (.store rfl)) fun r => ?_
  split
  · exact notify_remark.aside.undelivering
  · exact .pure

theorem handleEvent_does {φ : Cmd → Prop} (hφ : ∀ c, c.delivers = false → φ c) {ev : MatrixEvent}
    (hrow : ∀ c e, ev.isMessage e → c.inserts e → φ c) : Does φ (handleEvent cfg ev) := by
  have hrest : ∀ {α : Type} {p : Prog Op α}, Undelivering p → Does φ p := fun hp => hp.mono hφ
  unfold handleEvent
  split
  · exact hrest (.bestEffort handleRoomMember_offQueue.undelivering)
  · unfold handleMessageLike
    split
    · exact .ok
    · split
      · exact hrest (.lift handleReaction_remark.aside.undelivering)
      · exact .ok
      · exact hrest (.lift handleRedaction_undelivering)
      · exact hrest (.lift handleEdit_undelivering)
      · rename_i sender room event body media relation _ _ _
        refine handleMessage_enqueues.mono fun c hc => ?_
        unfold Cmd.enqueues at hc
        split at hc
        · simp only [Bool.and_eq_true, beq_iff_eq] at hc
          refine hrow _ event (by simp [MatrixEvent.isMessage]) ?_
          simp [Cmd.inserts, hc.2]
        · exact hφ _ (Cmd.offQueue.not_delivers hc)
      · exact .ok

theorem handleTransactions_does {φ : Cmd → Prop} {x : TransactionId} {txn : MatrixTransaction}
    (hφ : ∀ c, c.delivers = false → φ c)
    (hrow : ∀ ev ∈ txn.events, ∀ c e, ev.isMessage e → c.inserts e → φ c)
    (hclaim : φ (.store (.claimTransaction x))) (hunclaim : φ (.store (.unclaimTransaction x)))
    (hrespond : ∀ ok, φ (.task (.respond x ok))) : Does φ (handleTransactions cfg x txn) := by
  refine .bind (.result (.store hclaim)) fun claimed => ?_
  split
  · exact .task (hrespond true)
  · exact .task (hrespond false)
  · refine .bind (.result (.andThen ?_ fun _ => ?_)) fun processed => ?_
    · have hreceipts : OffQueue (Act.forEach (fun receipts => bestEffort (handleReceipt receipts))
          txn.ephemeral) := .forEach _ fun _ => .bestEffort handleReceipt_offQueue
      exact hreceipts.undelivering.mono hφ
    · exact Prog.only_closed.actForEach _ fun ev hev => handleEvent_does hφ (hrow ev hev)
    · unfold concludeTransaction
      split
      · exact .task (hrespond true)
      · split
        · exact .bind (.result (.store hunclaim)) fun _ => .task (hrespond false)
        · exact .task (hrespond true)

/-- The calls that are neither a delivery nor the pruning give no command of a delivery. -/
theorem program_undelivering {c : Call} (ht : ∀ txnId txn, c ≠ .transaction txnId txn)
    (hp : c ≠ .prune) : Undelivering (c.program cfg) := by
  cases c with
  | poll p => exact .bind poll_offQueue.undelivering fun _ => .pure
  | backfill p => exact runBackfillLoop_offQueue.undelivering
  | newThread p email ghost body =>
    have hnew : OffQueue (processNewThread cfg p email ghost body) :=
      inbound_offQueue (processNewThread_inbound (fun _ _ => trivial) fun _ _ => trivial)
    exact .bind hnew.undelivering fun _ => .pure
  | fileRoom user room =>
    have hfile : OffQueue (ensureRoomInEmailSpace user room) :=
      inbound_offQueue (p := ⟨user, ""⟩) ensureRoomInEmailSpace_inbound
    exact .bind hfile.undelivering fun _ => .pure
  | repairSpace user =>
    have hrepair : OffQueue (repairEmailSpace user) :=
      inbound_offQueue (p := ⟨user, ""⟩) repairEmailSpace_inbound
    exact .bind hrepair.undelivering fun _ => .pure
  | worker => exact runRetryLoop_undelivering
  | transaction txnId txn => exact absurd rfl (ht txnId txn)
  | detached task => exact .bind detached_offQueue.undelivering fun _ => .pure
  | prune => exact absurd rfl hp
  | logout user =>
    exact .bind (.andThen (.lift (.task rfl)) fun _ => .andThen (.store rfl) fun _ => .store rfl)
      fun _ => .pure

end

section

variable {t : Nat} {a : Answer} {w w' : World} {x : TransactionId} {e : EventId}

theorem run_unconcerned {c : StoreCmd} (hc : (Cmd.store c).concerns x = false) (now : Nat)
    (order : List Nat) (s : Store) :
    (c.run now order s).2.processedTransactions.lookup x = s.processedTransactions.lookup x := by
  have refers : ∀ {α : Type} {u : UserId} {b : α} {s' : Store},
      s'.processedTransactions = s.processedTransactions →
      (s.referring u b s').2.processedTransactions.lookup x =
        s.processedTransactions.lookup x := by
    intro α u b s' hs
    unfold Store.referring
    split
    · rw [hs]
    · rfl
  cases c with
  | saveJmapState => exact refers rfl
  | saveRoomGhostMapping => exact refers rfl
  | addToOutboundQueue => exact refers rfl
  | tryAcquireRoomCreationLock key =>
    simp only [StoreCmd.run]
    split <;> rfl
  | claimTransaction y =>
    have hne : x ≠ y := fun heq => by simp [Cmd.concerns, heq] at hc
    simp only [StoreCmd.run]
    split
    · rfl
    · exact AList.lookup_insert_ne hne
  | unclaimTransaction y =>
    have hne : x ≠ y := fun heq => by simp [Cmd.concerns, heq] at hc
    exact AList.lookup_erase_ne hne
  | pruneTransactions => cases hc
  | _ => rfl

theorem count_claimed {c : StoreCmd} (hc : (Cmd.store c).concerns x = false) (r : Except Err c.Ans)
    (i : Nat) : (c.claimed t r).count (i, x) = 0 := by
  cases c with
  | claimTransaction y =>
    have hyx : y ≠ x := by simpa [Cmd.concerns] using hc
    have hne : (t, y) ≠ (i, x) := fun heq => hyx (congrArg Prod.snd heq)
    unfold StoreCmd.claimed
    split
    · rename_i heq
      cases heq
      simp [hne]
    · rfl
  | _ => rfl

theorem count_unclaimed {c : StoreCmd} (hc : (Cmd.store c).concerns x = false)
    (l : List (Nat × TransactionId)) (i : Nat) :
      (c.unclaimed t l).count (i, x) = l.count (i, x) := by
  cases c with
  | unclaimTransaction y =>
    have hyx : y ≠ x := by simpa [Cmd.concerns] using hc
    have hne : (i, x) ≠ (t, y) := fun heq => hyx (congrArg Prod.snd heq).symm
    exact List.count_erase_of_ne hne
  | _ => rfl

theorem mem_deliveries {i : Nat} : (i, x) ∈ w.deliveries ↔ w.holding i x ≠ 0 := by
  rw [World.holding, Nat.ne_zero_iff_zero_lt, List.count_pos_iff]

theorem exec_unconcerned {c : Cmd} {b : c.Ans} (hc : c.concerns x = false)
    (h : exec t (.mk c) a w = some (b, w')) :
    w'.claimed x = w.claimed x ∧ ∀ i, w'.holding i x = w.holding i x := by
  cases c with
  | store c =>
    have hclaim : ∀ order, ((c.run w.now order w.store).2.processedTransactions.lookup x).isSome =
        w.claimed x := fun order => by rw [run_unconcerned hc, World.claimed]
    rcases exec_store h with ⟨order, -, -, rfl⟩ | ⟨-, -, rfl⟩ | ⟨-, -, rfl⟩
    · refine ⟨hclaim order, fun i => ?_⟩
      change (c.claimed t (c.run w.now order w.store).1 ++ c.unclaimed t w.deliveries).count
        (i, x) =
        w.deliveries.count (i, x)
      rw [List.count_append, count_claimed hc, count_unclaimed hc, Nat.zero_add]
    · exact ⟨rfl, fun _ => rfl⟩
    · exact ⟨hclaim [], fun i => count_unclaimed hc w.deliveries i⟩
  | matrix c =>
    obtain ⟨⟨issued, rfl⟩, -⟩ := exec_matrix h
    exact ⟨rfl, fun _ => rfl⟩
  | jmap account c =>
    obtain ⟨mail, rfl⟩ := exec_jmap h
    exact ⟨rfl, fun _ => rfl⟩
  | task c =>
    obtain ⟨-, -, rfl⟩ := exec_task h
    cases c with
    | respond y ok =>
      have hyx : y ≠ x := by simpa [Cmd.concerns] using hc
      have hne : ∀ i, (i, x) ≠ (t, y) := fun i heq => hyx (congrArg Prod.snd heq).symm
      exact ⟨rfl, fun i => List.count_erase_of_ne (hne i)⟩
    | _ => exact ⟨rfl, fun _ => rfl⟩

/-- A claim takes hold of the transaction, finds it taken, or ends in an error, which may hide
that the row was written. -/
theorem exec_claim {b : Except Err Bool}
    (h : exec t (.mk (.store (.claimTransaction x))) a w = some (b, w')) :
    w'.enqueued = w.enqueued ∧
    ((b = .ok true ∧ w.claimed x = false ∧ w'.claimed x ∧ w'.holding t x = w.holding t x + 1 ∧
        ∀ i, i ≠ t → w'.holding i x = w.holding i x) ∨
      (b = .ok false ∧ w.claimed x ∧ w'.claimed x ∧ ∀ i, w'.holding i x = w.holding i x) ∨
      (b = .error .sqlx ∧ w'.skipped = w.skipped ∧
        (a = .failed ∧ w'.claimed x = w.claimed x ∨ (∃ s, a = .lost s) ∧ w'.claimed x) ∧
        ∀ i, w'.holding i x = w.holding i x)) := by
  have hclaimed : ∀ order, ((StoreCmd.claimTransaction x).run w.now order w.store).2
      |>.processedTransactions.lookup x |>.isSome := by
    intro order
    simp only [StoreCmd.run]
    split
    · assumption
    · simp
  rcases exec_store h with ⟨order, -, rfl, rfl⟩ | ⟨rfl, rfl, rfl⟩ | ⟨hlost, rfl, rfl⟩
  · refine ⟨rfl, ?_⟩
    cases hc : w.claimed x with
    | false =>
      have hnone : (w.store.processedTransactions.lookup x).isNone := by
        simpa [World.claimed] using hc
      refine .inl ⟨by simp [StoreCmd.run, hnone], rfl, hclaimed order, ?_, fun i hi => ?_⟩
      · simp [World.holding, StoreCmd.run, StoreCmd.claimed, StoreCmd.unclaimed, hnone]
      · have hne : (t, x) ≠ (i, x) := fun heq => hi (congrArg Prod.fst heq).symm
        simp [World.holding, StoreCmd.run, StoreCmd.claimed, StoreCmd.unclaimed, hnone,
          hne]
    | true =>
      have hsome : (w.store.processedTransactions.lookup x).isNone = false := by
        simpa [World.claimed] using hc
      refine .inr (.inl ⟨by simp [StoreCmd.run, hsome], rfl, hclaimed order, fun i => ?_⟩)
      simp [World.holding, StoreCmd.run, StoreCmd.claimed, StoreCmd.unclaimed, hsome]
  · exact ⟨rfl, .inr (.inr ⟨rfl, rfl, .inl ⟨rfl, rfl⟩, fun _ => rfl⟩)⟩
  · exact ⟨rfl, .inr (.inr ⟨rfl, rfl, .inr ⟨hlost, hclaimed []⟩, fun _ => rfl⟩)⟩

theorem exec_unclaim {b : Except Err Unit}
    (h : exec t (.mk (.store (.unclaimTransaction x))) a w = some (b, w')) :
    w'.enqueued = w.enqueued ∧
    ((a = .failed ∧ w'.claimed x = w.claimed x ∧ ∀ i, w'.holding i x = w.holding i x) ∨
      (a ≠ .failed ∧ w'.claimed x = false ∧ w'.holding t x = w.holding t x - 1 ∧
        ∀ i, i ≠ t → w'.holding i x = w.holding i x)) := by
  have hgone : ∀ order, (((StoreCmd.unclaimTransaction x).run w.now order w.store).2
      |>.processedTransactions.lookup x |>.isSome) = false := by
    intro order
    simp [StoreCmd.run]
  have hself : (w.deliveries.erase (t, x)).count (t, x) = w.deliveries.count (t, x) - 1 :=
    List.count_erase_self
  have hother : ∀ i, i ≠ t → (w.deliveries.erase (t, x)).count (i, x) = w.deliveries.count (i, x) :=
    fun i hi => List.count_erase_of_ne fun heq => hi (congrArg Prod.fst heq)
  rcases exec_store h with ⟨order, ha, -, rfl⟩ | ⟨rfl, -, rfl⟩ | ⟨⟨s, rfl⟩, -, rfl⟩
  · have hne : a ≠ .failed := by
      rintro rfl
      rcases ha with ⟨ha, -⟩ | ha <;> cases ha
    exact ⟨rfl, .inr ⟨hne, hgone order, hself, hother⟩⟩
  · exact ⟨rfl, .inl ⟨rfl, rfl, fun _ => rfl⟩⟩
  · exact ⟨rfl, .inr ⟨(fun h => by cases h), hgone [], hself, hother⟩⟩

theorem exec_respond {ok : Bool} {b : Unit}
    (h : exec t (.mk (.task (.respond x ok))) a w = some (b, w')) :
    w'.enqueued = w.enqueued ∧ w'.claimed x = w.claimed x ∧
      w'.holding t x = w.holding t x - 1 ∧ ∀ i, i ≠ t → w'.holding i x = w.holding i x := by
  obtain ⟨-, -, rfl⟩ := exec_task h
  exact ⟨rfl, rfl, List.count_erase_self,
    fun i hi => List.count_erase_of_ne fun heq => hi (congrArg Prod.fst heq)⟩

theorem exec_prune {b : Except Err Unit}
    (h : exec t (.mk (.store .pruneTransactions)) a w = some (b, w')) :
    w'.enqueued = w.enqueued ∧ (w'.claimed x → w.claimed x) ∧
      ∀ i, w'.holding i x = w.holding i x := by
  have hkept : ∀ order, ((StoreCmd.pruneTransactions.run w.now order w.store).2
      |>.processedTransactions.lookup x |>.isSome) → w.claimed x := by
    intro order hsome
    obtain ⟨at', hat⟩ := Option.isSome_iff_exists.mp hsome
    exact Option.isSome_iff_exists.mpr ⟨at', (Sql.Table.lookup_of_lookup_deleteWhere hat).1⟩
  rcases exec_store h with ⟨order, -, -, rfl⟩ | ⟨-, -, rfl⟩ | ⟨-, -, rfl⟩
  · exact ⟨rfl, hkept order, fun _ => rfl⟩
  · exact ⟨rfl, fun h => h, fun _ => rfl⟩
  · exact ⟨rfl, hkept [], fun _ => rfl⟩

theorem exec_enqueued {c : Cmd} {b : c.Ans} (h : exec t (.mk c) a w = some (b, w')) :
    w'.enqueued = w.enqueued ∨ ∃ event, c.inserts event ∧ w'.enqueued = event :: w.enqueued := by
  cases c with
  | store c =>
    have hins : ∀ r : Except Err c.Ans, c.inserted r = [] ∨
        ∃ event, (Cmd.store c).inserts event ∧ c.inserted r = [event] := by
      intro r
      unfold StoreCmd.inserted
      split
      · exact .inr ⟨_, by simp [Cmd.inserts], rfl⟩
      · exact .inl rfl
    rcases exec_store h with ⟨order, -, -, rfl⟩ | ⟨-, -, rfl⟩ | ⟨-, -, rfl⟩
    · rcases hins (c.run w.now order w.store).1 with hr | ⟨event, hevent, hr⟩
      · exact .inl (by simp [hr])
      · exact .inr ⟨event, hevent, by simp [hr]⟩
    · exact .inl rfl
    · rcases hins (c.run w.now [] w.store).1 with hr | ⟨event, hevent, hr⟩
      · exact .inl (by simp [hr])
      · exact .inr ⟨event, hevent, by simp [hr]⟩
  | matrix c =>
    obtain ⟨⟨issued, rfl⟩, -⟩ := exec_matrix h
    exact .inl rfl
  | jmap account c =>
    obtain ⟨mail, rfl⟩ := exec_jmap h
    exact .inl rfl
  | task c =>
    obtain ⟨-, -, rfl⟩ := exec_task h
    cases c <;> exact .inl rfl

theorem exec_queued {user : UserId} {room : RoomId} {body : String} {html thread : Option String}
    {files : Option (List AttachmentInfo)} {delay : Nat} {v : Unit}
    (h : exec t (.mk (.store (.addToOutboundQueue user room e body html thread files delay))) a w =
      some (.ok v, w')) : e ∈ w'.enqueued := by
  rcases exec_store h with ⟨order, -, hb, rfl⟩ | ⟨-, hb, -⟩ | ⟨-, hb, -⟩
  · simp [← hb, StoreCmd.inserted]
  · cases hb
  · cases hb

theorem exec_skipped {c : Cmd} {b : c.Ans} (h : exec t (.mk c) a w = some (b, w')) :
    w'.skipped = w.skipped ∨ ∃ y, c = .store (.claimTransaction y) ∧
      w'.skipped = y :: w.skipped := by
  cases c with
  | store c =>
    have hskip : ∀ r : Except Err c.Ans, c.skipped r = [] ∨
        ∃ y, Cmd.store c = .store (.claimTransaction y) ∧ c.skipped r = [y] := by
      intro r
      unfold StoreCmd.skipped
      split
      · exact .inr ⟨_, rfl, rfl⟩
      · exact .inl rfl
    rcases exec_store h with ⟨order, -, -, rfl⟩ | ⟨-, -, rfl⟩ | ⟨-, -, rfl⟩
    · rcases hskip (c.run w.now order w.store).1 with hr | ⟨y, hc, hr⟩
      · exact .inl (by simp [hr])
      · exact .inr ⟨y, hc, by simp [hr]⟩
    · exact .inl rfl
    · exact .inl rfl
  | matrix c =>
    obtain ⟨⟨issued, rfl⟩, -⟩ := exec_matrix h
    exact .inl rfl
  | jmap account c =>
    obtain ⟨mail, rfl⟩ := exec_jmap h
    exact .inl rfl
  | task c =>
    obtain ⟨-, -, rfl⟩ := exec_task h
    cases c <;> exact .inl rfl

theorem exec_skips {w w' : World}
    (h : exec t (.mk (.store (.claimTransaction x))) a w = some (.ok false, w')) :
    x ∈ w'.skipped := by
  rcases exec_store h with ⟨order, -, hb, rfl⟩ | ⟨-, hb, -⟩ | ⟨-, hb, -⟩
  · simp [← hb, StoreCmd.skipped]
  · cases hb
  · cases hb

/-- What happens besides the tasks' steps leaves the claims and the deliveries alone. -/
structure Ledger (w w' : World) : Prop where
  claimed : ∀ x, w'.claimed x = w.claimed x
  holding : ∀ i x, w'.holding i x = w.holding i x
  skipped : w'.skipped = w.skipped
  enqueued : w'.enqueued = w.enqueued
  trace : w'.trace = w.trace

theorem env_ledger {ev : Env} (h : ev.perform w = some w') : Ledger w w' := by
  cases ev with
  | release key stored =>
    simp only [Env.perform] at h
    split at h
    · obtain rfl := Option.some.inj h
      exact ⟨fun _ => rfl, fun _ _ => rfl, rfl, rfl, rfl⟩
    · cases h
  | _ =>
    obtain rfl := Option.some.inj h
    exact ⟨fun _ => rfl, fun _ _ => rfl, rfl, rfl, rfl⟩

theorem drop_holding_self (t : Nat) (x : TransactionId) (w : World) :
    (drop t w).holding t x = 0 := by
  refine List.count_eq_zero.mpr fun hm => ?_
  simpa using (List.mem_filter.mp hm).2

theorem drop_holding_ne {i : Nat} (h : i ≠ t) (x : TransactionId) (w : World) :
    (drop t w).holding i x = w.holding i x := List.count_filter (by simpa using h)

end

end JmapBridge
