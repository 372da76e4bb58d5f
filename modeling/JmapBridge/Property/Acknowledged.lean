import JmapBridge.Property.Delivery
import JmapBridge.Property.QueueExit

/-! What the acknowledgement of a transaction promises: its outbound messages are dealt with,
or a running delivery still holds it. -/

namespace JmapBridge

open Effect

/-- The event of a message that is to become mail, when it is in a conversation room. -/
def MatrixEvent.outbound (cfg : Config) : MatrixEvent → Option EventId
  | message sender _ event body media relation =>
    match relation with
    | some (.replacement _ _) => none
    | _ =>
      if isBridgeUser sender || media.isNone && (parseGhostCommand cfg body).isSome then none
      else some event
  | _ => none

/-- The event whose author the command is an answer to. -/
def Cmd.answerTo : Cmd → Option EventId
  | matrix (.sendAsGhost _ _ (.message body) _) =>
    match body.origin with
    | .answer e => some e
    | _ => none
  | _ => none

def Record.answers (e : EventId) (r : Record) : Bool :=
  r.cmd.answerTo == some e && match r.answer with
    | .id _ => true
    | .lost _ => true
    | _ => false

/-- The room of the event was looked up and is no conversation. -/
def Record.elsewhere (e : EventId) (r : Record) : Bool :=
  r.cmd == .task (.log (.notInGhostRoom e))

/-- The event has been queued or answered, or it is no outbound mail. -/
def World.settled (w : World) (e : EventId) : Bool :=
  w.enqueued.contains e || w.trace.any fun r => r.answers e || r.elsewhere e

def World.handled (cfg : Config) (txn : MatrixTransaction) (w : World) : Bool :=
  txn.events.all fun ev => (ev.outbound cfg).all w.settled

/-- The homeserver is told that `x` is taken care of, or will be at its next delivery. -/
def World.pledged (w : World) (x : TransactionId) : Bool :=
  w.claimed x || w.skipped.contains x

/-- Nobody has to handle the transaction after task `t`. -/
def World.relieved (cfg : Config) (x : TransactionId) (txn : MatrixTransaction) (t : Nat)
    (w : World) : Bool :=
  w.handled cfg txn || w.deliveries.any fun d => d.2 == x && d.1 != t

/-- Every event whose author task `t` has tried to answer is settled. -/
def World.answered (w : World) (t : Nat) : Bool :=
  w.trace.all fun r => r.task != t || r.cmd.answerTo.all w.settled

/-- What has to be true where a command of task `t` may let go of `x`. -/
def Cmd.seesThrough (cfg : Config) (x : TransactionId) (txn : MatrixTransaction) (t : Nat)
    (c : Cmd) (a : Answer) (w : World) : Bool :=
  match c, a with
  | .store (.claimTransaction y), .lost _ => y != x || w.claimed x || w.relieved cfg x txn t
  | .store (.unclaimTransaction y), .failed => y != x || w.handled cfg txn
  | .store (.unclaimTransaction y), _ =>
    y != x || !w.skipped.contains x || w.relieved cfg x txn t
  | .task (.respond y true), _ => y != x || !w.deliveries.contains (t, x) || w.answered t
  | _, _ => true

/-- A delivery of `x` is not cut off, and does not let go of it with nobody to take over, once the
homeserver relies on it; the database does not refuse to release the claim of one that failed; and
the answers to the authors of its messages arrive. -/
def seenThrough (cfg : Config) (x : TransactionId) (txn : MatrixTransaction) :
    Discipline Op World Answer Env where
  step t _ o a w := o.cmd.seesThrough cfg x txn t a w
  cancel t w := w.deliveries.contains (t, x) → w.pledged x → w.relieved cfg x txn t

section

variable (cfg : Config) (x : TransactionId) (txn : MatrixTransaction)

instance decidableSeenThrough (ev : Event Answer Env) (q : Pool Op World) :
    Decidable ((seenThrough cfg x txn).meets ev q) :=
  @Discipline.decidableMeets Op World Answer Env (seenThrough cfg x txn)
    (fun _ _ => instDecidableTrue) (fun _ _ _ _ _ => instDecidableEqBool _ _)
    (fun t w => inferInstanceAs (Decidable (w.deliveries.contains (t, x) → w.pledged x →
      w.relieved cfg x txn t))) (fun _ _ => instDecidableTrue) ev q

/-- The bridge has answered 200 to a delivery of `x`. -/
def Record.acknowledges (r : Record) : Bool := r.cmd == .task (.respond x true)

structure AckInv (calls : Nat → Call) (w : World) : Prop where
  pledged : w.pledged x → w.handled cfg txn ∨ ∃ i, w.holding i x ≠ 0
  acked : w.trace.any (Record.acknowledges x) → w.handled cfg txn ∨ x ∈ w.skipped
  held : ∀ i, w.holding i x ≠ 0 → calls i = .transaction x txn

/-- What was done stays done. -/
structure Further (w w' : World) : Prop where
  trace : w.trace <:+ w'.trace
  enqueued : w.enqueued ⊆ w'.enqueued
  skipped : w.skipped ⊆ w'.skipped

theorem Further.trans {w₁ w₂ w₃ : World} (h : Further w₁ w₂) (h' : Further w₂ w₃) : Further w₁ w₃ :=
  ⟨h.trace.trans h'.trace, fun _ he => h'.enqueued (h.enqueued he),
    fun _ hs => h'.skipped (h.skipped hs)⟩

def ackContract (calls : Nat → Call) : Contract World where
  inv := AckInv cfg x txn calls
  rely t w w' := Further w w' ∧ w'.holding t x = w.holding t x
  idle t w := w.holding t x = 0
  idle_stable hw hr := hr.2.trans hw
  refl _ _ := ⟨⟨List.suffix_rfl, List.Subset.refl _, List.Subset.refl _⟩, rfl⟩
  trans hab hbc := ⟨hab.1.trans hbc.1, hbc.2.trans hab.2⟩

end

section

variable {cfg : Config} {calls : Nat → Call} {x : TransactionId} {txn : MatrixTransaction}
  {t : Nat} {w w' : World} {e : EventId} {α β : Type}

theorem Further.settled (h : Further w w') (hs : w.settled e) : w'.settled e := by
  simp only [World.settled, Bool.or_eq_true, List.contains_iff_mem, List.any_eq_true] at hs ⊢
  exact hs.imp (fun hm => h.enqueued hm) fun ⟨r, hr, hre⟩ => ⟨r, h.trace.subset hr, hre⟩

theorem handled_iff : w.handled cfg txn ↔
    ∀ ev ∈ txn.events, ∀ e ∈ ev.outbound cfg, w.settled e := by
  simp [World.handled, List.all_eq_true, Option.all_eq_true]

theorem Further.handled (h : Further w w') (hw : w.handled cfg txn) : w'.handled cfg txn :=
  handled_iff.mpr fun ev hev e he => h.settled (handled_iff.mp hw ev hev e he)

theorem exec_further {c : Cmd} {a : Answer} {b : c.Ans}
    (h : exec t (.mk c) a w = some (b, w')) : Further w w' := by
  refine ⟨?_, ?_, ?_⟩
  · rw [exec_trace h]
    exact List.suffix_cons _ _
  · rcases exec_enqueued h with heq | ⟨event, -, heq⟩
    · rw [heq]
      exact List.Subset.refl _
    · rw [heq]
      exact List.subset_cons_self _ _
  · rcases exec_skipped h with heq | ⟨y, -, heq⟩
    · rw [heq]
      exact List.Subset.refl _
    · rw [heq]
      exact List.subset_cons_self _ _

abbrev AckTriple (cfg : Config) (calls : Nat → Call) (x : TransactionId) (txn : MatrixTransaction)
    (t : Nat) (P : World → Prop) (p : Prog Op α) (Q : α → World → Prop) : Prop :=
  Triple (bridge cfg calls) (seenThrough cfg x txn) (ackContract cfg x txn calls) t P p Q

abbrev AckStep (cfg : Config) (calls : Nat → Call) (x : TransactionId) (txn : MatrixTransaction)
    (t : Nat) (P : World → Prop) (c : Cmd) (R : c.Ans → World → Prop) : Prop :=
  Step (bridge cfg calls) (seenThrough cfg x txn) (ackContract cfg x txn calls) t P (.mk c) R

/-- An assertion that stays while task `t` neither takes nor lets go of the transaction. -/
def Lasting (x : TransactionId) (t : Nat) (P : World → Prop) : Prop :=
  ∀ w w', Further w w' → w'.holding t x = w.holding t x → P w → P w'

theorem Lasting.stable {P : World → Prop} (h : Lasting x t P) :
    Stable (ackContract cfg x txn calls) t P :=
  fun w w' hw hr _ => h w w' hr.1 hr.2 hw

theorem Lasting.and {P Q : World → Prop} (hP : Lasting x t P) (hQ : Lasting x t Q) :
    Lasting x t fun w => P w ∧ Q w :=
  fun w w' hf hh h => ⟨hP w w' hf hh h.1, hQ w w' hf hh h.2⟩

theorem Holds.lasting : Lasting x t (Holds x t) := fun _ _ _ hh h => hh.trans h

theorem Unheld.lasting : Lasting x t (Unheld x t) := fun _ _ _ hh h => hh.trans h

theorem unconcerned_exec {c : Cmd} {a : Answer} {b : c.Ans} (hc : c.concerns x = false)
    (h : exec t (.mk c) a w = some (b, w')) (hi : AckInv cfg x txn calls w) :
    AckInv cfg x txn calls w' ∧ Further w w' ∧ ∀ i, w'.holding i x = w.holding i x := by
  obtain ⟨hclaimed, hholding⟩ := exec_unconcerned hc h
  have hfurther := exec_further h
  have hskipped : x ∈ w'.skipped → x ∈ w.skipped := by
    intro hm
    rcases exec_skipped h with heq | ⟨y, rfl, heq⟩
    · exact heq ▸ hm
    · rw [heq, List.mem_cons] at hm
      refine hm.resolve_left fun hxy => ?_
      simp [Cmd.concerns, hxy] at hc
  refine ⟨⟨fun hp => ?_, fun ha => ?_, fun i hne => hi.held i (hholding i ▸ hne)⟩, hfurther,
    hholding⟩
  · have hpledged : w.pledged x := by
      simp only [World.pledged, Bool.or_eq_true, List.contains_iff_mem] at hp ⊢
      exact hp.imp (fun hc => hclaimed ▸ hc) hskipped
    refine (hi.pledged hpledged).imp hfurther.handled fun hheld => ?_
    obtain ⟨i, hne⟩ := hheld
    exact ⟨i, (hholding i).symm ▸ hne⟩
  · rw [exec_trace h, List.any_cons, Bool.or_eq_true] at ha
    rcases ha with hack | ha
    · obtain rfl : c = .task (.respond x true) := eq_of_beq hack
      simp [Cmd.concerns] at hc
    · exact (hi.acked ha).imp hfurther.handled fun hm => hfurther.skipped hm

theorem unconcerned_step {c : Cmd} (hc : c.concerns x = false) {P : World → Prop}
    {R : c.Ans → World → Prop} (hP : Lasting x t P)
    (hR : ∀ w a b w', P w' → exec t (.mk c) a w = some (b, w') → R b w') :
    AckStep cfg calls x txn t P c R := by
  intro w a b w' hi hw _ hexec
  have he : exec t (.mk c) a w = some (b, w') := hexec
  obtain ⟨hinv, hfurther, hholding⟩ := unconcerned_exec hc he hi
  exact ⟨hinv, fun i _ => ⟨hfurther, hholding i⟩,
    hR w a b w' (hP w w' hfurther (hholding t) hw) he⟩

theorem unconcerned_triple {p : Prog Op α} (hp : Does (fun c => c.concerns x = false) p)
    {P : World → Prop} (hP : Lasting x t P) : AckTriple cfg calls x txn t P p fun _ => P := by
  refine .only hP.stable (Prog.Only.mono (fun β o h => ?_) hp)
  obtain ⟨c⟩ := o
  intro w a b w' hw hi hd he
  have hstep : AckStep cfg calls x txn t P c fun _ => P :=
    unconcerned_step h hP fun _ _ _ _ h _ => h
  exact hstep w a b w' hi hw hd he

theorem offQueue_ack {p : Prog Op α} (hp : OffQueue p) {P : World → Prop} (hP : Lasting x t P) :
    AckTriple cfg calls x txn t P p fun _ => P :=
  unconcerned_triple (hp.mono fun c hc => c.not_concerns (Cmd.offQueue.not_delivers hc) x) hP

/-- The event is settled, or its author's answer was on its way. -/
def Dealt (t : Nat) (e : EventId) (w : World) : Prop :=
  w.settled e ∨ ∃ r ∈ w.trace, r.task = t ∧ r.cmd.answerTo = some e

theorem Dealt.lasting : Lasting x t (Dealt t e) :=
  fun _ _ hf _ h => h.imp hf.settled fun ⟨r, hr, hre⟩ => ⟨r, hf.trace.subset hr, hre⟩

/-! One message. -/

theorem store_ack {c : StoreCmd} (hc : (Cmd.store c).concerns x = false) {P : World → Prop}
    (hP : Lasting x t P) :
    AckTriple cfg calls x txn t P (onStore c)
      (post (fun _ => P) fun err w => P w ∧ redeliverable err) := by
  refine .call hP.stable (unconcerned_step hc hP fun w a b w' hw he => ?_) fun r => ?_
  · cases b with
    | ok v => exact hw
    | error err => exact ⟨hw, exec_store_error he⟩
  · cases r with
    | ok v => exact hP.stable
    | error err => exact hP.stable.and (Stable.const _)

theorem answerMessage_ack {v : QueuedEvent} {msg : String} {P : World → Prop}
    (hP : Lasting x t P) :
    AckTriple cfg calls x txn t P (answerMessage cfg v msg)
      fun _ w => P w ∧ Dealt t v.event w := by
  have hdealt : Lasting x t fun w => P w ∧ Dealt t v.event w := hP.and Dealt.lasting
  have hsend : ∀ content, content = Content.message ⟨msg, none, .answer v.event⟩ →
      AckStep cfg calls x txn t P (.matrix (.sendAsGhost v.room cfg.botUserId content none))
        fun _ w => P w ∧ Dealt t v.event w := by
    rintro _ rfl
    refine unconcerned_step rfl hP fun w a b w' hw he => ⟨hw, .inr ?_⟩
    rw [exec_trace he]
    exact ⟨_, List.mem_cons_self, rfl, rfl⟩
  have hjoining : AckTriple cfg calls x txn t P
      (sendAsGhostJoining v.room cfg.botUserId (.message ⟨msg, none, .answer v.event⟩) none)
      (post (fun _ w => P w ∧ Dealt t v.event w) fun _ w => P w ∧ Dealt t v.event w) := by
    refine .andThen (.attempt (.call hP.stable (hsend _ rfl) fun _ => hdealt.stable)
      fun _ => hdealt.stable) (fun _ => hdealt.stable) fun r => ?_
    refine .post (unconcerned_triple ?_ hdealt) fun r _ _ h => by cases r <;> exact h
    split
    · exact .ok
    · exact .andThen (.bestEffort (.matrix rfl)) fun _ => .andThen (.matrix rfl) fun _ =>
        .matrix rfl
    · exact .fail
  refine .bind (.post hjoining fun r _ _ h => ?_) fun _ => .pure hdealt.stable fun _ _ h => h
  cases r <;> exact h

/-- What holds after an error that is redelivered. -/
def Redelivers (P : World → Prop) (err : Err) (w : World) : Prop := P w ∧ redeliverable err

theorem Redelivers.stable {P : World → Prop} (hP : Lasting x t P) (err : Err) :
    Stable (ackContract cfg x txn calls) t (Redelivers P err) :=
  hP.stable.and (Stable.const _)

theorem attempt_ack {p : Bridge α} (hp : OffQueue p) {P : World → Prop} (hP : Lasting x t P)
    {F : Err → World → Prop} :
    AckTriple cfg calls x txn t P (Act.attempt p) (post (fun _ => P) F) :=
  .attempt (offQueue_ack hp hP) fun _ => hP.stable

theorem lift_ack {p : Task α} (hp : OffQueue p) {P : World → Prop} (hP : Lasting x t P)
    {F : Err → World → Prop} :
    AckTriple cfg calls x txn t P (Act.lift p) (post (fun _ => P) F) :=
  .lift (offQueue_ack hp hP) fun _ => hP.stable

theorem roomThreadContext_ack {room : RoomId} {P : World → Prop} (hP : Lasting x t P) :
    AckTriple cfg calls x txn t P (roomThreadContext room)
      (post (fun _ => P) (Redelivers P)) := by
  refine .andThen (attempt_ack (.store rfl) hP) (Redelivers.stable hP) fun row => ?_
  split
  · refine .andThen (attempt_ack (.store rfl) hP) (Redelivers.stable hP) fun parent => ?_
    exact .andThen (store_ack rfl hP) (Redelivers.stable hP) fun _ =>
      .ok hP.stable fun _ _ h => h
  · exact .ok hP.stable fun _ _ h => h

theorem eventThreadContext_ack {account : Account} {room : RoomId} {event : EventId}
    {parent : EmailId} {P : World → Prop} (hP : Lasting x t P) :
    AckTriple cfg calls x txn t P (eventThreadContext account room event parent)
      (post (fun _ => P) (Redelivers P)) := by
  refine .andThen (attempt_ack (.store rfl) hP) (Redelivers.stable hP) fun known => ?_
  split
  · exact .andThen (store_ack rfl hP) (Redelivers.stable hP) fun _ =>
      .andThen (store_ack rfl hP) (Redelivers.stable hP) fun _ => .ok hP.stable fun _ _ h => h
  · refine .andThen (attempt_ack (.jmap rfl) hP) (Redelivers.stable hP) fun thread => ?_
    split
    · exact .andThen (store_ack rfl hP) (Redelivers.stable hP) fun _ =>
        .andThen (store_ack rfl hP) (Redelivers.stable hP) fun _ => .ok hP.stable fun _ _ h => h
    · exact roomThreadContext_ack hP

theorem resolveThreadContext_ack {account : Account} {room : RoomId} {relation : Option Relation}
    {P : World → Prop} (hP : Lasting x t P) :
    AckTriple cfg calls x txn t P (resolveThreadContext account room relation)
      (post (fun _ => P) (Redelivers P)) := by
  rw [resolveThreadContext]
  split
  · exact roomThreadContext_ack hP
  · refine .andThen (attempt_ack (.store rfl) hP) (Redelivers.stable hP) fun email => ?_
    split
    · exact eventThreadContext_ack hP
    · exact roomThreadContext_ack hP

theorem enqueueHeldSend_ack {v : QueuedEvent} {body : String} {threadRoot : Option String}
    {files : Option (List AttachmentInfo)} {P : World → Prop} (hP : Lasting x t P) :
    AckTriple cfg calls x txn t P (enqueueHeldSend cfg v body threadRoot files)
      (post (fun _ w => P w ∧ Dealt t v.event w) (Redelivers P)) := by
  have hdealt : Lasting x t fun w => P w ∧ Dealt t v.event w := hP.and Dealt.lasting
  refine .andThen (lift_ack sendDelayFor_remark.offQueue hP) (Redelivers.stable hP) fun delay => ?_
  refine .andThen (R := fun _ w => P w ∧ Dealt t v.event w) ?_ (Redelivers.stable hP) fun _ =>
    lift_ack showHeld_talk.offQueue hdealt
  refine .call hP.stable (unconcerned_step rfl hP fun w a b w' hw he => ?_) fun r => ?_
  · cases b with
    | ok _ =>
      refine ⟨hw, .inl ?_⟩
      have hqueued : v.event ∈ w'.enqueued := exec_queued he
      simp [World.settled, hqueued]
    | error err => exact ⟨hw, exec_store_error he⟩
  · cases r with
    | ok _ => exact hdealt.stable
    | error err => exact Redelivers.stable hP err

theorem queueText_ack {v : QueuedEvent} {body : String} {relation : Option Relation}
    {P : World → Prop} (hP : Lasting x t P) :
    AckTriple cfg calls x txn t P (queueText cfg v body relation)
      (post (fun _ w => P w ∧ Dealt t v.event w) (Redelivers P)) := by
  have hdealt : Lasting x t fun w => P w ∧ Dealt t v.event w := hP.and Dealt.lasting
  refine .andThen (lift_ack appendUserSignature_remark.offQueue hP) (Redelivers.stable hP)
    fun signed => ?_
  refine .andThen (lift_ack (.task rfl) hP) (Redelivers.stable hP) fun client => ?_
  split
  · exact .lift (answerMessage_ack hP) fun _ => hdealt.stable
  · exact .andThen (resolveThreadContext_ack hP) (Redelivers.stable hP) fun _ =>
      enqueueHeldSend_ack hP

theorem handleGhostMediaOutbound_ack {v : QueuedEvent} {media : String}
    {relation : Option Relation} {P : World → Prop} (hP : Lasting x t P) :
    AckTriple cfg calls x txn t P (handleGhostMediaOutbound cfg v media relation)
      (post (fun _ w => P w ∧ Dealt t v.event w)
        fun err w => P w ∧ (redeliverable err ∨ Dealt t v.event w)) := by
  have hdealt : Lasting x t fun w => P w ∧ Dealt t v.event w := hP.and Dealt.lasting
  have herr : ∀ err : Err, Stable (ackContract cfg x txn calls) t
      fun w => P w ∧ (redeliverable err ∨ Dealt t v.event w) :=
    fun err => hP.stable.and ((Stable.const _).or Dealt.lasting.stable)
  have hqueue : ∀ {γ : Type} {p : Bridge γ} {R : γ → World → Prop},
      AckTriple cfg calls x txn t P p (post R (Redelivers P)) →
      AckTriple cfg calls x txn t P p
        (post R fun err w => P w ∧ (redeliverable err ∨ Dealt t v.event w)) :=
    fun h => .weaken h (fun _ _ h => h) fun _ _ h => ⟨h.1, .inl h.2⟩
  refine .andThen (lift_ack (.task rfl) hP) herr fun client => ?_
  split
  · exact .lift (answerMessage_ack hP) fun _ => hdealt.stable
  · refine .andThen (attempt_ack (.jmap rfl) hP) herr fun uploaded => ?_
    split
    · exact .andThen (.lift (answerMessage_ack hP) fun _ => hdealt.stable) herr fun _ =>
        .fail hdealt.stable fun _ _ h => ⟨h.1, .inr h.2⟩
    · exact .andThen (hqueue (resolveThreadContext_ack hP)) herr fun _ =>
        hqueue (enqueueHeldSend_ack hP)

/-- The event is dealt with unless it is a command of a conversation. -/
def DealtUnless (t : Nat) (e : EventId) (command : Bool) (w : World) : Prop :=
  command = false → Dealt t e w

theorem DealtUnless.lasting {command : Bool} : Lasting x t (DealtUnless t e command) :=
  fun w w' hf hh h hc => Dealt.lasting w w' hf hh (h hc)

theorem routeGhostMessage_ack {v : QueuedEvent} {body : String} {media : Option String}
    {relation : Option Relation} {P : World → Prop} (hP : Lasting x t P) :
    AckTriple cfg calls x txn t P (routeGhostMessage cfg v body media relation)
      (post (fun _ w => P w ∧
        DealtUnless t v.event (media.isNone && (parseGhostCommand cfg body).isSome) w)
        (Redelivers P)) := by
  have hcommand : ∀ {p : Bridge Unit}, OffQueue p →
      AckTriple cfg calls x txn t P p fun r w => P w ∧
        (DealtUnless t v.event true w ∨ ∃ err, r = .error err ∧ redeliverable err) :=
    fun hp => .post (offQueue_ack hp hP) fun _ _ _ h => ⟨h, .inl fun hc => by cases hc⟩
  have htext : AckTriple cfg calls x txn t P (handleGhostOutbound cfg v body relation)
      fun r w => P w ∧ (DealtUnless t v.event (parseGhostCommand cfg body).isSome w ∨
        ∃ err, r = .error err ∧ redeliverable err) := by
    rw [handleGhostOutbound]
    split
    case h_1 heq => rw [heq]; exact hcommand handleShowImages_offQueue
    case h_2 heq => rw [heq]; exact hcommand handleThreadAction_offQueue
    case h_3 heq => rw [heq]; exact hcommand handleThreadAction_offQueue
    case h_4 heq =>
      refine .post (queueText_ack hP) fun r w _ h => ?_
      cases r with
      | ok _ => exact ⟨h.1, .inl fun _ => h.2⟩
      | error err => exact ⟨h.1, .inr ⟨err, rfl, h.2⟩⟩
  have hmedia : ∀ uri, AckTriple cfg calls x txn t P (handleGhostMediaOutbound cfg v uri relation)
      fun r w => P w ∧ (DealtUnless t v.event false w ∨
        ∃ err, r = .error err ∧ redeliverable err) := by
    intro uri
    refine .post (handleGhostMediaOutbound_ack hP) fun r w _ h => ?_
    cases r with
    | ok _ => exact ⟨h.1, .inl fun _ => h.2⟩
    | error err => exact ⟨h.1, h.2.symm.imp (fun hd _ => hd) fun hr => ⟨err, rfl, hr⟩⟩
  have hstable : ∀ r : Except Err Unit, Stable (ackContract cfg x txn calls) t fun w => P w ∧
      (DealtUnless t v.event (media.isNone && (parseGhostCommand cfg body).isSome) w ∨
        ∃ err, r = .error err ∧ redeliverable err) :=
    fun r => hP.stable.and (DealtUnless.lasting.stable.or (Stable.const _))
  refine .andThen (.attempt ?_ hstable) (Redelivers.stable hP) fun handled => ?_
  · cases media with
    | none => exact htext
    | some uri => exact hmedia uri
  cases handled with
  | ok _ =>
    refine .ok (hstable (.ok ())) fun w _ h => ⟨h.1, h.2.resolve_right ?_⟩
    rintro ⟨err, herr, -⟩
    cases herr
  | error err =>
    dsimp only
    split
    case isTrue hr => exact .fail (hstable (.error err)) fun w _ h => ⟨h.1, hr⟩
    case isFalse hr =>
      refine .ok (hstable (.error err)) fun w _ h => ⟨h.1, h.2.resolve_right ?_⟩
      rintro ⟨err', herr, hr'⟩
      cases herr
      exact hr hr'

theorem handleMessage_ack {v : QueuedEvent} {body : String} {media : Option String}
    {relation : Option Relation} {P : World → Prop} (hP : Lasting x t P) :
    AckTriple cfg calls x txn t P (handleMessage cfg v body media relation)
      (post (fun _ w => P w ∧
        DealtUnless t v.event (media.isNone && (parseGhostCommand cfg body).isSome) w)
        (Redelivers P)) := by
  have hdealt : Lasting x t fun w => P w ∧ Dealt t v.event w := hP.and Dealt.lasting
  refine .andThen (store_ack rfl hP) (Redelivers.stable hP) fun ghost => ?_
  split
  · exact routeGhostMessage_ack hP
  · have hlog : AckTriple cfg calls x txn t P (onTask (.log (.notInGhostRoom v.event)))
        fun _ w => P w ∧ Dealt t v.event w := by
      refine .call hP.stable (unconcerned_step rfl hP fun w a b w' hw he => ⟨hw, .inl ?_⟩)
        fun _ => hdealt.stable
      simp [World.settled, exec_trace he, Record.elsewhere]
    exact .weaken (.lift hlog fun _ => hdealt.stable) (fun _ _ h => ⟨h.1, fun _ => h.2⟩)
      fun _ _ h => h

/-- What an event owes its author. -/
def Through (cfg : Config) (t : Nat) (ev : MatrixEvent) (w : World) : Prop :=
  ∀ e ∈ ev.outbound cfg, Dealt t e w

theorem Through.lasting {ev : MatrixEvent} : Lasting x t (Through cfg t ev) :=
  fun w w' hf hh h e he => Dealt.lasting w w' hf hh (h e he)

theorem handleMessageLike_ack {ev : MatrixEvent} {P : World → Prop} (hP : Lasting x t P) :
    AckTriple cfg calls x txn t P (handleMessageLike cfg ev)
      (post (fun _ w => P w ∧ Through cfg t ev w) (Redelivers P)) := by
  have hnone : ∀ {p : Bridge Unit}, ev.outbound cfg = none →
      AckTriple cfg calls x txn t P p (post (fun _ => P) (Redelivers P)) →
      AckTriple cfg calls x txn t P p (post (fun _ w => P w ∧ Through cfg t ev w)
        (Redelivers P)) :=
    fun hev h => .weaken h (fun _ _ h => ⟨h, fun e he => by simp [hev] at he⟩) fun _ _ h => h
  have hlift : ∀ {p : Task Unit}, Undelivering p →
      AckTriple cfg calls x txn t P (Act.lift p) (post (fun _ => P) (Redelivers P)) :=
    fun hp => .lift (unconcerned_triple (hp.mono fun c hc => c.not_concerns hc x) hP)
      fun _ => hP.stable
  have hok : AckTriple cfg calls x txn t P (Act.ok () : Bridge Unit)
      (post (fun _ => P) (Redelivers P)) := .ok hP.stable fun _ _ h => h
  unfold handleMessageLike
  split
  case isTrue hbridge =>
    refine hnone ?_ hok
    cases ev with
    | message sender room event body media relation =>
      have hsender : isBridgeUser sender := hbridge
      simp only [MatrixEvent.outbound, hsender, Bool.true_or, if_true]
      split <;> rfl
    | _ => rfl
  case isFalse hbridge =>
    split
    · exact hnone rfl (hlift handleReaction_remark.aside.undelivering)
    · exact hnone rfl hok
    · exact hnone rfl (hlift handleRedaction_undelivering)
    · exact hnone rfl (hlift handleEdit_undelivering)
    · rename_i sender room event body media relation hedit
      refine .weaken (handleMessage_ack hP) (fun _ w h => ⟨h.1, fun e he => ?_⟩) fun _ _ h => h
      have hsender : isBridgeUser sender = false := eq_false_of_ne_true hbridge
      cases hcommand : media.isNone && (parseGhostCommand cfg body).isSome with
      | true =>
        simp [MatrixEvent.outbound, hsender, hcommand] at he
      | false =>
        obtain rfl : event = e := by
          simpa [MatrixEvent.outbound, hsender, hcommand] using he
        exact h.2 hcommand
    · exact hnone rfl hok

theorem handleEvent_ack {ev : MatrixEvent} {P : World → Prop} (hP : Lasting x t P) :
    AckTriple cfg calls x txn t P (handleEvent cfg ev)
      (post (fun _ w => P w ∧ Through cfg t ev w) (Redelivers P)) := by
  unfold handleEvent
  split
  · exact .bind (offQueue_ack handleRoomMember_offQueue hP) fun _ =>
      .pure hP.stable fun _ _ h => ⟨h, fun e he => by cases he⟩
  · exact handleMessageLike_ack hP

/-- The events of the transaction that are not among those left have gone through. -/
def LeftOf (cfg : Config) (txn : MatrixTransaction) (t : Nat) (P : World → Prop)
    (left : List MatrixEvent) (w : World) : Prop :=
  P w ∧ ∀ ev ∈ txn.events, ev ∈ left ∨ Through cfg t ev w

theorem LeftOf.lasting {P : World → Prop} (hP : Lasting x t P) {left : List MatrixEvent} :
    Lasting x t (LeftOf cfg txn t P left) :=
  fun w w' hf hh h => ⟨hP w w' hf hh h.1, fun ev hev =>
    (h.2 ev hev).imp id (Through.lasting w w' hf hh)⟩

theorem processTransaction_ack {P : World → Prop} (hP : Lasting x t P) :
    AckTriple cfg calls x txn t P (processTransaction cfg txn)
      (post (fun _ w => P w ∧ ∀ ev ∈ txn.events, Through cfg t ev w) (Redelivers P)) := by
  have hreceipt : ∀ receipts ∈ txn.ephemeral, AckTriple cfg calls x txn t P
      (bestEffort (handleReceipt receipts)) (post (fun _ => P) (Redelivers P)) :=
    fun _ _ => .bind (offQueue_ack handleReceipt_offQueue hP) fun _ =>
      .pure hP.stable fun _ _ h => h
  refine .andThen (.actForEach hP.stable (Redelivers.stable hP) _ hreceipt) (Redelivers.stable hP)
    fun _ => ?_
  refine .weaken (.pre (.actForEachLeft (J := LeftOf cfg txn t P) (LeftOf.lasting hP).stable
    (Redelivers.stable hP) (fun ev rest => ?_) txn.events) fun w _ h => ⟨h, fun _ => .inl⟩)
    (fun _ w h => ⟨h.1, fun ev hev => (h.2 ev hev).resolve_left List.not_mem_nil⟩) fun _ _ h => h
  refine .weaken (handleEvent_ack (LeftOf.lasting hP)) (fun _ w h => ⟨h.1.1, fun ev' hev' => ?_⟩)
    fun _ _ h => ⟨h.1.1, h.2⟩
  rcases h.1.2 ev' hev' with hmem | hthrough
  · rcases List.mem_cons.mp hmem with rfl | hrest
    · exact .inr h.2
    · exact .inl hrest
  · exact .inr hthrough

/-! The claim on the transaction. -/

theorem relieved_iff : w.relieved cfg x txn t ↔
    w.handled cfg txn ∨ ∃ i, i ≠ t ∧ w.holding i x ≠ 0 := by
  have hany : (w.deliveries.any fun d => d.2 == x && d.1 != t) = true ↔
      ∃ i, i ≠ t ∧ w.holding i x ≠ 0 := by
    simp only [List.any_eq_true, Bool.and_eq_true, beq_iff_eq, bne_iff_ne, ne_eq]
    refine ⟨?_, ?_⟩
    · rintro ⟨⟨i, y⟩, hm, rfl, hne⟩
      exact ⟨i, hne, mem_deliveries.mp hm⟩
    · rintro ⟨i, hne, hm⟩
      exact ⟨(i, x), mem_deliveries.mpr hm, rfl, hne⟩
  rw [World.relieved, Bool.or_eq_true, hany]

theorem pledged_iff : w.pledged x ↔ w.claimed x ∨ x ∈ w.skipped := by
  simp [World.pledged]

theorem ledger_exec {c : Cmd} {a : Answer} {b : c.Ans} (he : exec t (.mk c) a w = some (b, w'))
    (hi : AckInv cfg x txn calls w) (hothers : ∀ i, i ≠ t → w'.holding i x = w.holding i x)
    (hself : w'.holding t x ≠ 0 → calls t = .transaction x txn)
    (hpledged : w'.pledged x → w'.handled cfg txn ∨ ∃ i, w'.holding i x ≠ 0)
    (hack : c = .task (.respond x true) → w'.handled cfg txn ∨ x ∈ w'.skipped) :
    AckInv cfg x txn calls w' ∧ ∀ i, i ≠ t → (ackContract cfg x txn calls).rely i w w' := by
  have hfurther := exec_further he
  refine ⟨⟨hpledged, fun ha => ?_, fun i hne => ?_⟩, fun i hit => ⟨hfurther, hothers i hit⟩⟩
  · rw [exec_trace he, List.any_cons, Bool.or_eq_true] at ha
    rcases ha with hnow | ha
    · exact hack (eq_of_beq hnow)
    · exact (hi.acked ha).imp hfurther.handled fun hm => hfurther.skipped hm
  · by_cases hit : i = t
    · rw [hit] at hne ⊢
      exact hself hne
    · exact hi.held i (hothers i hit ▸ hne)

theorem kept_exec (hi : AckInv cfg x txn calls w) (hf : Further w w')
    (hsame : ∀ i, w'.holding i x = w.holding i x) (hp : w.pledged x) :
    w'.handled cfg txn ∨ ∃ i, w'.holding i x ≠ 0 :=
  (hi.pledged hp).imp hf.handled fun ⟨i, hne⟩ => ⟨i, (hsame i).symm ▸ hne⟩

theorem skipped_same {c : Cmd} {a : Answer} {b : c.Ans} (hc : ∀ y, c ≠ .store (.claimTransaction y))
    (he : exec t (.mk c) a w = some (b, w')) : w'.skipped = w.skipped :=
  (exec_skipped he).resolve_right fun ⟨y, h, _⟩ => hc y h

def Claimed (x : TransactionId) (t : Nat) : Except Err Bool → World → Prop
  | .ok true => Holds x t
  | .ok false => fun w => Unheld x t w ∧ x ∈ w.skipped
  | .error _ => Unheld x t

theorem claim_ack (ht : calls t = .transaction x txn) :
    AckStep cfg calls x txn t (Unheld x t) (.store (.claimTransaction x)) (Claimed x t) := by
  intro w a b w' hi hw hd hexec
  have he : exec t (.mk _) a w = some (b, w') := hexec
  have hfurther := exec_further he
  obtain ⟨-, hcase⟩ := exec_claim he
  rcases hcase with ⟨rfl, -, -, hself, hothers⟩ | ⟨rfl, hclaimed, -, hsame⟩ |
    ⟨rfl, hskipped, hclaimed, hsame⟩
  · have hone : w'.holding t x = 1 := by rw [hself, hw]
    have hinv := ledger_exec he hi hothers (fun _ => ht)
      (fun _ => .inr ⟨t, by rw [hone]; exact Nat.one_ne_zero⟩) fun h => by cases h
    exact ⟨hinv.1, hinv.2, hone⟩
  · have hinv := ledger_exec he hi (fun i _ => hsame i) (fun _ => ht)
      (fun _ => kept_exec hi hfurther hsame (pledged_iff.mpr (.inl hclaimed))) fun h => by cases h
    exact ⟨hinv.1, hinv.2, (hsame t).trans hw, exec_skips he⟩
  · have hkept : w'.pledged x → w'.handled cfg txn ∨ ∃ i, w'.holding i x ≠ 0 := by
      intro hp
      by_cases hbefore : w.pledged x
      · exact kept_exec hi hfurther hsame hbefore
      · obtain ⟨hunclaimed, hunskipped⟩ := not_or.mp fun h => hbefore (pledged_iff.mpr h)
        rcases hclaimed with ⟨-, hclaim⟩ | ⟨⟨s, rfl⟩, -⟩
        · rw [pledged_iff, hclaim, hskipped] at hp
          exact absurd hp (not_or.mpr ⟨hunclaimed, hunskipped⟩)
        · have hrelieved : w.relieved cfg x txn t := by
            simpa [seenThrough, Op.cmd, Cmd.seesThrough, hunclaimed] using hd
          exact (relieved_iff.mp hrelieved).imp hfurther.handled
            fun ⟨i, _, hne⟩ => ⟨i, (hsame i).symm ▸ hne⟩
    have hinv := ledger_exec he hi (fun i _ => hsame i) (fun _ => ht) hkept fun h => by cases h
    exact ⟨hinv.1, hinv.2, (hsame t).trans hw⟩

/-- The task has let go of the transaction, or there is nothing left to do for it. -/
def HandedBack (cfg : Config) (x : TransactionId) (txn : MatrixTransaction) (t : Nat) (w : World) :
    Prop :=
  Holds x t w ∧ w.handled cfg txn ∨ Unheld x t w

theorem HandedBack.lasting : Lasting x t (HandedBack cfg x txn t) := fun w w' hf hh h =>
  h.imp (fun ⟨hw, hhandled⟩ => ⟨Holds.lasting w w' hf hh hw, hf.handled hhandled⟩)
    (Unheld.lasting w w' hf hh)

theorem unclaim_ack (ht : calls t = .transaction x txn) :
    AckStep cfg calls x txn t (Holds x t) (.store (.unclaimTransaction x))
      fun _ => HandedBack cfg x txn t := by
  intro w a b w' hi hw hd hexec
  have he : exec t (.mk _) a w = some (b, w') := hexec
  have hfurther := exec_further he
  have hskipped := skipped_same (fun y h => by cases h) he
  obtain ⟨-, ⟨hanswer, hclaimed, hsame⟩ | ⟨hanswer, hgone, hself, hothers⟩⟩ := exec_unclaim he
  · have hkept : w'.pledged x → w'.handled cfg txn ∨ ∃ i, w'.holding i x ≠ 0 := fun hp =>
      kept_exec hi hfurther hsame (by rwa [pledged_iff, hclaimed, hskipped, ← pledged_iff] at hp)
    have hinv := ledger_exec he hi (fun i _ => hsame i) (fun _ => ht) hkept fun h => by cases h
    have hhandled : w.handled cfg txn := by
      subst hanswer
      simpa [seenThrough, Op.cmd, Cmd.seesThrough] using hd
    exact ⟨hinv.1, hinv.2, .inl ⟨(hsame t).trans hw, hfurther.handled hhandled⟩⟩
  · have hkept : w'.pledged x → w'.handled cfg txn ∨ ∃ i, w'.holding i x ≠ 0 := by
      intro hp
      have hmem : x ∈ w.skipped := by
        rw [pledged_iff, hgone, hskipped] at hp
        exact hp.resolve_left Bool.false_ne_true
      have hrelieved : w.relieved cfg x txn t := by
        cases a with
        | failed => exact absurd rfl hanswer
        | _ => simpa [seenThrough, Op.cmd, Cmd.seesThrough, hmem] using hd
      exact (relieved_iff.mp hrelieved).imp hfurther.handled
        fun ⟨i, hit, hne⟩ => ⟨i, (hothers i hit).symm ▸ hne⟩
    have hinv := ledger_exec he hi hothers (fun _ => ht) hkept fun h => by cases h
    exact ⟨hinv.1, hinv.2, .inr (by rw [Unheld, hself, hw])⟩

theorem respond_exec {ok : Bool} {a : Answer} {b : Unit}
    (he : exec t (.mk (.task (.respond x ok))) a w = some (b, w'))
    (hi : AckInv cfg x txn calls w) (hle : w.holding t x ≤ 1)
    (hheld : w.holding t x = 1 → w.pledged x → w.relieved cfg x txn t)
    (hack : ok = true → w.handled cfg txn ∨ x ∈ w.skipped) :
    AckInv cfg x txn calls w' ∧
      (∀ i, i ≠ t → (ackContract cfg x txn calls).rely i w w') ∧ Unheld x t w' := by
  have hfurther := exec_further he
  have hskipped := skipped_same (fun y h => by cases h) he
  obtain ⟨-, hclaimed, hself, hothers⟩ := exec_respond he
  have hzero : w'.holding t x = 0 := by omega
  have hkept : w'.pledged x → w'.handled cfg txn ∨ ∃ i, w'.holding i x ≠ 0 := by
    intro hp
    rw [pledged_iff, hclaimed, hskipped, ← pledged_iff] at hp
    have hrelieved : w.handled cfg txn ∨ ∃ i, i ≠ t ∧ w.holding i x ≠ 0 := by
      by_cases hone : w.holding t x = 1
      · exact relieved_iff.mp (hheld hone hp)
      · refine (hi.pledged hp).imp id fun ⟨i, hne⟩ => ⟨i, ?_, hne⟩
        rintro rfl
        omega
    exact hrelieved.imp hfurther.handled fun ⟨i, hit, hne⟩ => ⟨i, (hothers i hit).symm ▸ hne⟩
  have hinv := ledger_exec he hi hothers (fun hne => absurd hzero hne) hkept fun h => by
    cases h
    exact (hack rfl).imp hfurther.handled fun hm => hfurther.skipped hm
  exact ⟨hinv.1, hinv.2, hzero⟩

theorem respond_handled :
    AckStep cfg calls x txn t (fun w => Holds x t w ∧ ∀ ev ∈ txn.events, Through cfg t ev w)
      (.task (.respond x true)) fun _ => Unheld x t := by
  intro w a b w' hi hw hd hexec
  have he : exec t (.mk _) a w = some (b, w') := hexec
  have hmem : (t, x) ∈ w.deliveries := mem_deliveries.mpr (by rw [hw.1]; exact Nat.one_ne_zero)
  have hanswered : w.answered t := by
    simpa [seenThrough, Op.cmd, Cmd.seesThrough, hmem] using hd
  have hhandled : w.handled cfg txn := by
    refine handled_iff.mpr fun ev hev e hout => ?_
    rcases hw.2 ev hev e hout with hsettled | ⟨r, hr, htask, htries⟩
    · exact hsettled
    · have hr' := List.all_eq_true.mp hanswered r hr
      simpa [htask, htries] using hr'
  exact respond_exec he hi hw.1.le (fun _ _ => relieved_iff.mpr (.inl hhandled))
    fun _ => .inl hhandled

theorem respond_skipped :
    AckStep cfg calls x txn t (fun w => Unheld x t w ∧ x ∈ w.skipped)
      (.task (.respond x true)) fun _ => Unheld x t := by
  intro w a b w' hi hw _ hexec
  have he : exec t (.mk _) a w = some (b, w') := hexec
  have hzero : w.holding t x = 0 := hw.1
  exact respond_exec he hi (by omega) (fun hone => by omega) fun _ => .inr hw.2

theorem respond_failed :
    AckStep cfg calls x txn t (HandedBack cfg x txn t) (.task (.respond x false))
      fun _ => Unheld x t := by
  intro w a b w' hi hw _ hexec
  have he : exec t (.mk _) a w = some (b, w') := hexec
  rcases hw with ⟨hw, hhandled⟩ | hw
  · exact respond_exec he hi hw.le (fun _ _ => relieved_iff.mpr (.inl hhandled)) fun h => by cases h
  · have hzero : w.holding t x = 0 := hw
    exact respond_exec he hi (by omega) (fun hone => by omega) fun h => by cases h

theorem prune_ack :
    AckStep cfg calls x txn t (Unheld x t) (.store .pruneTransactions) fun _ => Unheld x t := by
  intro w a b w' hi hw _ hexec
  have he : exec t (.mk _) a w = some (b, w') := hexec
  have hfurther := exec_further he
  have hskipped := skipped_same (fun y h => by cases h) he
  obtain ⟨-, hclaimed, hsame⟩ := exec_prune (x := x) he
  have hzero : w'.holding t x = 0 := (hsame t).trans hw
  have hkept : w'.pledged x → w'.handled cfg txn ∨ ∃ i, w'.holding i x ≠ 0 := by
    intro hp
    rw [pledged_iff, hskipped] at hp
    exact kept_exec hi hfurther hsame (pledged_iff.mpr (hp.imp_left hclaimed))
  have hinv := ledger_exec he hi (fun i _ => hsame i) (fun hne => absurd hzero hne) hkept
    fun h => by cases h
  exact ⟨hinv.1, hinv.2, hzero⟩

/-! The calls. -/

theorem handleTransactions_ack (ht : calls t = .transaction x txn) :
    AckTriple cfg calls x txn t (Unheld x t) (handleTransactions cfg x txn)
      fun _ => Unheld x t := by
  have hfailed : AckTriple cfg calls x txn t (HandedBack cfg x txn t) (onTask (.respond x false))
      fun _ => Unheld x t :=
    .call HandedBack.lasting.stable respond_failed fun _ => Unheld.lasting.stable
  have hskipped : Lasting x t fun w => Unheld x t w ∧ x ∈ w.skipped :=
    Unheld.lasting.and fun _ _ hf _ hm => hf.skipped hm
  have hthrough : Lasting x t fun w => Holds x t w ∧ ∀ ev ∈ txn.events, Through cfg t ev w :=
    Holds.lasting.and fun w w' hf hh h ev hev => Through.lasting w w' hf hh (h ev hev)
  have hclaimed : ∀ r, Stable (ackContract cfg x txn calls) t (Claimed x t r) := by
    intro r
    rcases r with err | (_ | _)
    · exact Unheld.lasting.stable
    · exact hskipped.stable
    · exact Holds.lasting.stable
  refine .bind (.call Unheld.lasting.stable (claim_ack ht) hclaimed) fun claimed => ?_
  match claimed with
  | .ok false => exact .call hskipped.stable respond_skipped fun _ => Unheld.lasting.stable
  | .error _ => exact .pre hfailed fun _ _ h => .inr h
  | .ok true =>
    refine .bind (processTransaction_ack Holds.lasting) fun processed => ?_
    cases processed with
    | ok _ => exact .call hthrough.stable respond_handled fun _ => Unheld.lasting.stable
    | error err =>
      have hends : redeliverable err → AckTriple cfg calls x txn t (Holds x t)
          (concludeTransaction x (.error err)) fun _ => Unheld x t := by
        intro hr
        simp only [concludeTransaction, hr, if_true]
        exact .bind (.call Holds.lasting.stable (unclaim_ack ht) fun _ =>
          HandedBack.lasting.stable) fun _ => hfailed
      intro w hi h
      exact hends h.2 w hi h.1

theorem handleTransactions_unconcerned {y : TransactionId} {other : MatrixTransaction}
    (hne : y ≠ x) : Does (fun c => c.concerns x = false) (handleTransactions cfg y other) :=
  handleTransactions_does (fun c hc => c.not_concerns hc x)
    (fun _ _ c e _ hc => c.inserts_not_concerns hc x) (by simp [Cmd.concerns, hne])
    (by simp [Cmd.concerns, hne]) fun _ => by simp [Cmd.concerns, hne]

theorem runPruning_ack :
    AckTriple cfg calls x txn t (Unheld x t) runPruning fun _ => Unheld x t := by
  have hround : AckTriple cfg calls x txn t (Unheld x t) pruneRound fun _ => Unheld x t :=
    .bind (.call Unheld.lasting.stable prune_ack fun _ => Unheld.lasting.stable) fun _ =>
      unconcerned_triple (.task rfl) Unheld.lasting
  refine .loop (J := fun _ => Unheld x t) (R := fun _ => Unheld x t) (fun _ => ?_) fun _ =>
    .pure Unheld.lasting.stable fun _ _ h => h
  exact .bind hround fun _ => .pure Unheld.lasting.stable fun _ _ h => h

end

theorem ack_upholds {cfg : Config} {calls : Nat → Call} {x : TransactionId}
    {txn : MatrixTransaction}
    (hx : ∀ t other, calls t = .transaction x other → other = txn) :
    Upholds (bridge cfg calls) (seenThrough cfg x txn) (ackContract cfg x txn calls) where
  start := by
    intro t w hi hidle _
    have hprog : AckTriple cfg calls x txn t (Unheld x t) ((calls t).program cfg)
        fun _ => Unheld x t := by
      by_cases hprune : calls t = .prune
      · rw [hprune]
        exact runPruning_ack
      · by_cases htxn : ∃ y other, calls t = .transaction y other
        · obtain ⟨y, other, hcall⟩ := htxn
          by_cases hy : y = x
          · subst hy
            obtain rfl := hx t other hcall
            have hdelivery : AckTriple cfg calls y other t (Unheld y t)
                (handleTransactions cfg y other) fun _ => Unheld y t :=
              handleTransactions_ack hcall
            rw [hcall]
            exact hdelivery
          · rw [hcall]
            exact unconcerned_triple (handleTransactions_unconcerned hy) Unheld.lasting
        · have hquiet : Undelivering ((calls t).program cfg) :=
            program_undelivering (fun y other h => htxn ⟨y, other, h⟩) hprune
          exact unconcerned_triple (hquiet.mono fun c hc => c.not_concerns hc x) Unheld.lasting
    exact hprog w hi hidle
  env := by
    intro ev w w' hi _ h
    have hsame : Ledger w w' := env_ledger h
    have hfurther : Further w w' := ⟨hsame.trace ▸ List.suffix_rfl,
      hsame.enqueued ▸ List.Subset.refl _, hsame.skipped ▸ List.Subset.refl _⟩
    refine ⟨⟨fun hp => ?_, fun ha => ?_, fun i hne => hi.held i (hsame.holding i x ▸ hne)⟩,
      fun i => ⟨hfurther, hsame.holding i x⟩⟩
    · rw [pledged_iff, hsame.claimed, hsame.skipped, ← pledged_iff] at hp
      exact kept_exec hi hfurther (fun i => hsame.holding i x) hp
    · rw [hsame.trace] at ha
      exact (hi.acked ha).imp hfurther.handled fun hm => hfurther.skipped hm
  cancel := by
    intro t w hi hd
    have hothers : ∀ i, i ≠ t → (drop t w).holding i x = w.holding i x :=
      fun i hit => drop_holding_ne hit x w
    have hfurther : Further w (drop t w) :=
      ⟨List.suffix_rfl, List.Subset.refl _, List.Subset.refl _⟩
    have hzero := drop_holding_self t x w
    refine ⟨⟨fun hp => ?_, fun ha => hi.acked ha, fun i hne => ?_⟩,
      fun i hit => ⟨hfurther, hothers i hit⟩, hzero⟩
    · have hrelieved : w.handled cfg txn ∨ ∃ i, i ≠ t ∧ w.holding i x ≠ 0 := by
        by_cases hheld : w.holding t x = 0
        · refine (hi.pledged hp).imp id fun ⟨i, hne⟩ => ⟨i, ?_, hne⟩
          rintro rfl
          exact hne hheld
        · exact relieved_iff.mp (hd (List.contains_iff_mem.mpr (mem_deliveries.mpr hheld)) hp)
      exact hrelieved.imp hfurther.handled fun ⟨i, hit, hne⟩ => ⟨i, (hothers i hit).symm ▸ hne⟩
    · by_cases hit : i = t
      · exact absurd hzero (hit ▸ hne)
      · exact hi.held i (hothers i hit ▸ hne)

/-- In every run in which deliveries are seen through: once the bridge has answered 200 to a
delivery of the transaction, its messages are dealt with, or a running delivery holds it. -/
theorem acknowledged_is_handled {cfg : Config} {calls : Nat → Call} {x : TransactionId}
    {txn : MatrixTransaction} (hx : ∀ t other, calls t = .transaction x other → other = txn)
    {w : World} (hclaims : w.claimed x = false) (hdeliveries : w.deliveries = [])
    (hskipped : w.skipped = []) (htrace : w.trace = []) {es : List (Event Answer Env)}
    {q : Pool Op World} (hrun : (bridge cfg calls).run es (Pool.boot w) = some q)
    (hD : (bridge cfg calls).Admits (seenThrough cfg x txn).meets es (Pool.boot w))
    (hack : q.world.trace.any (Record.acknowledges x)) :
    q.world.handled cfg txn ∨
      ∃ t p, q.tasks t = some p ∧ calls t = .transaction x txn ∧ (t, x) ∈ q.world.deliveries := by
  have hfree : ∀ i, w.holding i x = 0 := fun i => by rw [World.holding, hdeliveries]; rfl
  have hinv : AckInv cfg x txn calls w := by
    refine ⟨fun hp => ?_, fun ha => ?_, fun i hne => absurd (hfree i) hne⟩
    · simp [World.pledged, hclaims, hskipped] at hp
    · simp [htrace] at ha
  obtain ⟨hend, -, hidle⟩ := (ack_upholds hx).poolInv_of_run
    (Upholds.poolInv_boot hinv hfree) hrun hD
  have hpledged : q.world.handled cfg txn ∨ ∃ i, q.world.holding i x ≠ 0 := by
    rcases hend.acked hack with hhandled | hmem
    · exact .inl hhandled
    · exact hend.pledged (pledged_iff.mpr (.inr hmem))
  refine hpledged.imp id fun hheld => ?_
  obtain ⟨t, hne⟩ := hheld
  cases ht : q.tasks t with
  | none => exact absurd (hidle t ht) hne
  | some p => exact ⟨t, p, ht, hend.held t hne, mem_deliveries.mpr hne⟩

/-- One message, delivered by tasks 0 and 1. -/
def hello : MatrixTransaction where
  events := [.message "@a:localhost" "!r" "$m" "hello" none none]

def deliveredTwice : Nat → Call
  | 0 => .transaction "1" hello
  | 1 => .transaction "1" hello
  | _ => .prune

theorem deliveredTwice_same (t : Nat) (other : MatrixTransaction)
    (h : deliveredTwice t = .transaction "1" other) : other = hello := by
  match t, h with
  | 0, h => exact (Call.transaction.inj h).2.symm
  | 1, h => exact (Call.transaction.inj h).2.symm

/-- Task 1 finds the transaction claimed and answers 200. -/
def skippedBy : List (Event Answer Env) :=
  [.start 1, .step 1 .done, .step 1 .done, .tau 1]

theorem acknowledged_is_handled_skipped : ∃ q,
    (bridge {} deliveredTwice).run ([.start 0, .step 0 .done] ++ skippedBy)
      (Pool.boot mailRoom) = some q ∧ q.world.trace.any (Record.acknowledges "1") ∧
      (q.world.handled {} hello ∨ ∃ t p, q.tasks t = some p ∧
        deliveredTwice t = .transaction "1" hello ∧ (t, "1") ∈ q.world.deliveries) := by
  have hends : ((bridge {} deliveredTwice).run ([.start 0, .step 0 .done] ++ skippedBy)
      (Pool.boot mailRoom)).map (fun q => q.world.trace.any (Record.acknowledges "1")) =
        some true := by decide +kernel
  have hadmits : (bridge {} deliveredTwice).Admits (seenThrough {} "1" hello).meets
      ([.start 0, .step 0 .done] ++ skippedBy) (Pool.boot mailRoom) := by decide +kernel
  obtain ⟨q, hq, hack⟩ := Option.map_eq_some_iff.mp hends
  exact ⟨q, hq, hack, acknowledged_is_handled deliveredTwice_same rfl rfl rfl rfl hq hadmits hack⟩

/-- The bridge stops after it has claimed the transaction: the next delivery is acknowledged,
and nothing is left that would handle it. -/
theorem acknowledged_after_crash :
    ((bridge {} deliveredTwice).run ([.start 0, .step 0 .done, .cancel 0] ++ skippedBy)
      (Pool.boot mailRoom)).map (fun q => (q.world.trace.any (Record.acknowledges "1"),
        q.world.handled {} hello, (q.tasks 0).isNone && (q.tasks 1).isNone,
        q.world.deliveries)) = some (true, false, true, []) := by
  decide +kernel

end JmapBridge
