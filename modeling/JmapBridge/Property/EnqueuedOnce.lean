import JmapBridge.Property.Delivery
import JmapBridge.Property.QueueExit

/-! A message of a transaction is put into the queue once, however often the transaction is
delivered, as long as no delivery comes after that and finds the claim gone. -/

namespace JmapBridge

open Effect

/-- The message `e` occurs in transaction `x` only, and there once. -/
structure OccursIn (calls : Nat → Call) (e : EventId) (x : TransactionId) : Prop where
  only : ∀ t y txn, calls t = .transaction y txn → txn.events.any (·.isMessage e) → y = x
  once : ∀ t txn, calls t = .transaction x txn → txn.events.countP (·.isMessage e) ≤ 1

/-- The claim on `x` may go with the command: it is given up, or old claims are pruned. -/
def Record.reopens (x : TransactionId) (r : Record) : Bool :=
  match r.cmd with
  | .store (.unclaimTransaction y) => y == x && r.answer != .failed
  | .store .pruneTransactions => r.answer != .failed
  | _ => false

def World.reopened (w : World) (x : TransactionId) : Bool := w.trace.any (Record.reopens x)

/-- A further delivery of `x` that finds the claim gone comes before a row of `e` has been put into
the queue, and not while another delivery is under way. -/
def Cmd.claimsInTime (e : EventId) (x : TransactionId) (c : Cmd) (w : World) : Bool :=
  match c with
  | .store (.claimTransaction y) => y != x || !w.reopened x || w.claimed x ||
      !w.enqueued.contains e && w.deliveries.all (·.2 != x)
  | _ => true

def claimedInTime (e : EventId) (x : TransactionId) : Discipline Op World Answer Env where
  step _ _ o _ w := o.cmd.claimsInTime e x w

section

variable (e : EventId) (x : TransactionId)

instance decidableClaimedInTime (ev : Event Answer Env) (q : Pool Op World) :
    Decidable ((claimedInTime e x).meets ev q) :=
  @Discipline.decidableMeets Op World Answer Env (claimedInTime e x)
    (fun _ _ => instDecidableTrue) (fun _ _ _ _ _ => instDecidableEqBool _ _)
    (fun _ _ => instDecidableTrue) (fun _ _ => instDecidableTrue) ev q

structure OnceInv (w : World) : Prop where
  once : w.enqueued.count e ≤ 1
  unclaimed : w.claimed x = false → w.reopened x = false →
    e ∉ w.enqueued ∧ ∀ i, w.holding i x = 0
  single : ∀ i, w.holding i x ≤ 1
  one : ∀ i j, w.holding i x ≠ 0 → w.holding j x ≠ 0 → i = j

/-- Nobody else takes or gives up what task `t` holds, or queues `e` meanwhile. -/
structure OnceRely (t : Nat) (w w' : World) : Prop where
  holding : w'.holding t x = w.holding t x
  unqueued : w.holding t x ≠ 0 → e ∉ w.enqueued → e ∉ w'.enqueued

def onceContract : Contract World where
  inv := OnceInv e x
  rely := OnceRely e x
  idle t w := w.holding t x = 0
  idle_stable hw hr := hr.holding.trans hw
  refl := fun _ _ => ⟨rfl, fun _ h => h⟩
  trans := fun hab hbc => ⟨hbc.holding.trans hab.holding, fun hw he =>
    hbc.unqueued (hab.holding ▸ hw) (hab.unqueued hw he)⟩

end

section

variable {cfg : Config} {calls : Nat → Call} {e : EventId} {x : TransactionId} {t : Nat}
  {w w' : World} {α β : Type}

abbrev OnceTriple (cfg : Config) (calls : Nat → Call) (e : EventId) (x : TransactionId) (t : Nat)
    (P : World → Prop) (p : Prog Op α) (Q : α → World → Prop) : Prop :=
  Triple (bridge cfg calls) (claimedInTime e x) (onceContract e x) t P p Q

abbrev OnceStep (cfg : Config) (calls : Nat → Call) (e : EventId) (x : TransactionId) (t : Nat)
    (P : World → Prop) (c : Cmd) (R : c.Ans → World → Prop) : Prop :=
  Step (bridge cfg calls) (claimedInTime e x) (onceContract e x) t P (.mk c) R

/-- Task `t` holds the transaction, and `e` is not queued as long as it is among `events`. -/
def Owes (e : EventId) (x : TransactionId) (t : Nat) (events : List MatrixEvent)
    (w : World) : Prop :=
  w.holding t x = 1 ∧ (events.any (·.isMessage e) → e ∉ w.enqueued)

/-- An assertion about what task `t` holds and, while it holds it, about `e`. -/
def Local (e : EventId) (x : TransactionId) (t : Nat) (P : World → Prop) : Prop :=
  ∀ w w', OnceRely e x t w w' → P w → P w'

theorem Local.stable {P : World → Prop} (h : Local e x t P) : Stable (onceContract e x) t P :=
  fun w w' hw hr _ => h w w' hr hw

theorem Holds.local : Local e x t (Holds x t) := fun _ _ hr h => hr.holding.trans h

theorem Unheld.local : Local e x t (Unheld x t) := fun _ _ hr h => hr.holding.trans h

theorem Owes.local {events : List MatrixEvent} : Local e x t (Owes e x t events) := by
  intro w w' hr h
  have hheld : w.holding t x ≠ 0 := by
    rw [h.1]
    exact Nat.one_ne_zero
  exact ⟨hr.holding.trans h.1, fun hany => hr.unqueued hheld (h.2 hany)⟩

theorem Owes.holds {events : List MatrixEvent} (h : Owes e x t events w) : Holds x t w := h.1

/-- A command that neither concerns the transaction nor queues `e`. -/
def Cmd.quiet (e : EventId) (x : TransactionId) (c : Cmd) : Prop :=
  c.concerns x = false ∧ c.inserts e = false

theorem Cmd.not_delivers.quiet {c : Cmd} (h : c.delivers = false) : c.quiet e x :=
  ⟨c.not_concerns h x, c.not_inserts h e⟩

theorem Cmd.inserts.quiet {c : Cmd} {event : EventId} (h : c.inserts event) (hne : event ≠ e) :
    c.quiet e x := by
  unfold Cmd.inserts at h
  split at h
  · rw [beq_iff_eq] at h
    exact ⟨rfl, by simp [Cmd.inserts, h, hne]⟩
  · cases h

theorem Cmd.offQueue.quiet {c : Cmd} (h : c.offQueue) : c.quiet e x :=
  Cmd.not_delivers.quiet (Cmd.offQueue.not_delivers h)

theorem count_exec {c : Cmd} {a : Answer} {b : c.Ans} (hc : c.inserts e = false)
    (h : exec t (.mk c) a w = some (b, w')) : w'.enqueued.count e = w.enqueued.count e := by
  rcases exec_enqueued h with heq | ⟨event, hevent, heq⟩
  · rw [heq]
  · have hne : event ≠ e := by
      rintro rfl
      rw [hc] at hevent
      cases hevent
    rw [heq, List.count_cons_of_ne hne]

theorem reopened_before {c : Cmd} {a : Answer} {b : c.Ans} (h : exec t (.mk c) a w = some (b, w'))
    (ho : w'.reopened x = false) : w.reopened x = false := by
  rw [World.reopened, exec_trace h, List.any_cons, Bool.or_eq_false_iff] at ho
  exact ho.2

theorem mem_iff_count (l : List EventId) : e ∈ l ↔ l.count e ≠ 0 := by
  rw [Nat.ne_zero_iff_zero_lt, List.count_pos_iff]

/-- Where nothing of the contract changes, the invariant and every assertion are kept. -/
theorem undisturbed_step {c : Cmd} (hc : c.quiet e x) {P : World → Prop} {R : c.Ans → World → Prop}
    (hP : Local e x t P)
    (hR : ∀ w a b w', OnceInv e x w → P w' → exec t (.mk c) a w = some (b, w') → R b w') :
    OnceStep cfg calls e x t P c R := by
  intro w a b w' hi hw _ hexec
  have he : exec t (.mk c) a w = some (b, w') := hexec
  obtain ⟨hclaimed, hholding⟩ := exec_unconcerned hc.1 he
  have hcount := count_exec hc.2 he
  have hmem : e ∈ w'.enqueued ↔ e ∈ w.enqueued := by rw [mem_iff_count, mem_iff_count, hcount]
  have hrely : ∀ i, OnceRely e x i w w' := fun i => ⟨hholding i, fun _ hn hm => hn (hmem.mp hm)⟩
  refine ⟨⟨?_, fun hc ho => ?_, fun i => ?_, fun i j hi' hj => ?_⟩,
    fun i _ => hrely i, hR w a b w' hi (hP w w' (hrely t) hw) he⟩
  · rw [hcount]
    exact hi.once
  · obtain ⟨hunqueued, hnobody⟩ := hi.unclaimed (hclaimed ▸ hc) (reopened_before he ho)
    exact ⟨fun hm => hunqueued (hmem.mp hm), fun i => (hholding i).trans (hnobody i)⟩
  · rw [hholding]
    exact hi.single i
  · exact hi.one i j (hholding i ▸ hi') (hholding j ▸ hj)

theorem undisturbed_triple {p : Prog Op α} (hp : Does (fun c => c.quiet e x) p) {P : World → Prop}
    (hP : Local e x t P) : OnceTriple cfg calls e x t P p fun _ => P := by
  refine .only hP.stable (Prog.Only.mono (fun β o h => ?_) hp)
  obtain ⟨c⟩ := o
  intro w a b w' hw hi hd he
  have hstep : OnceStep cfg calls e x t P c fun _ => P :=
    undisturbed_step h hP fun _ _ _ _ _ h _ => h
  exact hstep w a b w' hi hw hd he

theorem offQueue_once {p : Prog Op α} (hp : OffQueue p) {P : World → Prop} (hP : Local e x t P) :
    OnceTriple cfg calls e x t P p fun _ => P :=
  undisturbed_triple (hp.mono fun _ => Cmd.offQueue.quiet) hP

theorem insert_step {user : UserId} {room : RoomId} {body : String} {html thread : Option String}
    {files : Option (List AttachmentInfo)} {delay : Nat} {events : List MatrixEvent}
    (hany : events.any (·.isMessage e)) :
    OnceStep cfg calls e x t (Owes e x t events)
      (.store (.addToOutboundQueue user room e body html thread files delay))
      fun _ => Holds x t := by
  intro w a b w' hi hw _ hexec
  have he : exec t (.mk _) a w = some (b, w') := hexec
  obtain ⟨hclaimed, hholding⟩ := exec_unconcerned (x := x) rfl he
  have hheld : w.holding t x ≠ 0 := by
    rw [hw.1]
    exact Nat.one_ne_zero
  have hzero : w.enqueued.count e = 0 := List.count_eq_zero.mpr (hw.2 hany)
  have hcount : w'.enqueued.count e ≤ 1 := by
    rcases exec_enqueued he with heq | ⟨event, -, heq⟩
    · rw [heq, hzero]
      exact Nat.zero_le 1
    · rw [heq, List.count_cons, hzero]
      split <;> omega
  refine ⟨⟨hcount, fun hc ho => ?_, fun i => ?_, fun i j hi' hj => ?_⟩,
    fun i hit => ⟨hholding i, fun hne => ?_⟩, (hholding t).trans hw.1⟩
  · exact absurd ((hi.unclaimed (hclaimed ▸ hc) (reopened_before he ho)).2 t) hheld
  · rw [hholding]
    exact hi.single i
  · exact hi.one i j (hholding i ▸ hi') (hholding j ▸ hj)
  · exact absurd (hi.one i t hne hheld) hit

theorem ledger_inv (hi : OnceInv e x w) (henq : w'.enqueued = w.enqueued)
    (hothers : ∀ i, i ≠ t → w'.holding i x = w.holding i x)
    (hunclaimed : w'.claimed x = false → w'.reopened x = false →
      e ∉ w.enqueued ∧ ∀ i, w'.holding i x = 0)
    (hself : w'.holding t x ≤ 1)
    (hone : w'.holding t x ≠ 0 → ∀ i, i ≠ t → w.holding i x = 0) :
    OnceInv e x w' ∧ ∀ i, i ≠ t → OnceRely e x i w w' := by
  refine ⟨⟨?_, fun hc ho => ?_, fun i => ?_, fun i j hi' hj => ?_⟩, fun i hit =>
    ⟨hothers i hit, fun _ hn => henq ▸ hn⟩⟩
  · rw [henq]
    exact hi.once
  · rw [henq]
    exact hunclaimed hc ho
  · by_cases hit : i = t
    · exact hit ▸ hself
    · rw [hothers i hit]
      exact hi.single i
  · by_cases hit : i = t
    · by_cases hjt : j = t
      · rw [hit, hjt]
      · rw [hothers j hjt] at hj
        exact absurd (hone (hit ▸ hi') j hjt) hj
    · rw [hothers i hit] at hi'
      by_cases hjt : j = t
      · exact absurd (hone (hjt ▸ hj) i hit) hi'
      · exact hi.one i j hi' (hothers j hjt ▸ hj)

theorem OnceInv.free (hi : OnceInv e x w) (hc : w.claimed x = false)
    (hd : (Cmd.store (.claimTransaction x)).claimsInTime e x w) :
    e ∉ w.enqueued ∧ ∀ i, w.holding i x = 0 := by
  cases ho : w.reopened x with
  | false => exact hi.unclaimed hc ho
  | true =>
    have hfree : e ∉ w.enqueued ∧ ∀ d ∈ w.deliveries, d.2 ≠ x := by
      simpa [Cmd.claimsInTime, hc, ho] using hd
    refine ⟨hfree.1, fun i => ?_⟩
    by_cases hne : w.holding i x = 0
    · exact hne
    · exact absurd rfl (hfree.2 (i, x) (mem_deliveries.mpr hne))

theorem claim_step :
    OnceStep cfg calls e x t (Unheld x t) (.store (.claimTransaction x))
      fun r w => if r = .ok true then Holds x t w ∧ e ∉ w.enqueued else Unheld x t w := by
  intro w a b w' hi hw hd hexec
  have he : exec t (.mk _) a w = some (b, w') := hexec
  obtain ⟨henq, hcase⟩ := exec_claim he
  rcases hcase with ⟨hb, hfree, hclaimed, hself, hothers⟩ | ⟨hb, -, hclaimed, hsame⟩ |
    ⟨hb, -, hclaimed, hsame⟩
  · obtain ⟨hunqueued, hnobody⟩ := hi.free hfree hd
    have hone : w'.holding t x = 1 := by rw [hself, hnobody t]
    have hinv := ledger_inv hi henq hothers (fun hc => by simp [hclaimed] at hc) hone.le
      fun _ i _ => hnobody i
    exact ⟨hinv.1, hinv.2, (if_pos hb).mpr ⟨hone, henq ▸ hunqueued⟩⟩
  · have hzero : w'.holding t x = 0 := (hsame t).trans hw
    have hinv := ledger_inv (t := t) hi henq (fun i _ => hsame i)
      (fun hc => by simp [hclaimed] at hc) (by omega) fun hne => absurd hzero hne
    exact ⟨hinv.1, hinv.2, (if_neg (by simp [hb])).mpr hzero⟩
  · have hzero : w'.holding t x = 0 := (hsame t).trans hw
    have hstill : w'.claimed x = false → w'.reopened x = false →
        e ∉ w.enqueued ∧ ∀ i, w'.holding i x = 0 := by
      intro hc ho
      rcases hclaimed with ⟨-, hclaimed⟩ | ⟨-, hclaimed⟩
      · obtain ⟨hunqueued, hnobody⟩ := hi.unclaimed (hclaimed ▸ hc) (reopened_before he ho)
        exact ⟨hunqueued, fun i => (hsame i).trans (hnobody i)⟩
      · simp [hclaimed] at hc
    have hinv := ledger_inv (t := t) hi henq (fun i _ => hsame i) hstill (by omega)
      fun hne => absurd hzero hne
    exact ⟨hinv.1, hinv.2, (if_neg (by simp [hb])).mpr hzero⟩

theorem unclaim_step :
    OnceStep cfg calls e x t (Holds x t) (.store (.unclaimTransaction x))
      fun _ w => Holds x t w ∨ Unheld x t w := by
  intro w a b w' hi hw _ hexec
  have he : exec t (.mk _) a w = some (b, w') := hexec
  have hheld : w.holding t x ≠ 0 := by
    rw [hw]
    exact Nat.one_ne_zero
  have halone : ∀ i, i ≠ t → w.holding i x = 0 := fun i hit => by
    by_cases hne : w.holding i x = 0
    · exact hne
    · exact absurd (hi.one i t hne hheld) hit
  obtain ⟨henq, ⟨-, hclaimed, hsame⟩ | ⟨ha, -, hself, hothers⟩⟩ := exec_unclaim he
  · have hone : w'.holding t x = 1 := (hsame t).trans hw
    have hinv := ledger_inv hi henq (fun i _ => hsame i) (fun hc ho => ?_) hone.le fun _ => halone
    · exact ⟨hinv.1, hinv.2, .inl hone⟩
    · exact absurd ((hi.unclaimed (hclaimed ▸ hc) (reopened_before he ho)).2 t) hheld
  · have hzero : w'.holding t x = 0 := by rw [hself, hw]
    have hreopened : w'.reopened x := by
      simp [World.reopened, exec_trace he, Record.reopens, ha]
    have hinv := ledger_inv hi henq hothers (fun _ ho => by simp [hreopened] at ho) (by omega)
      fun _ => halone
    exact ⟨hinv.1, hinv.2, .inr hzero⟩

theorem respond_step {ok : Bool} {P : World → Prop} (hP : ∀ w, P w → w.holding t x ≤ 1) :
    OnceStep cfg calls e x t P (.task (.respond x ok)) fun _ => Unheld x t := by
  intro w a b w' hi hw _ hexec
  have he : exec t (.mk _) a w = some (b, w') := hexec
  obtain ⟨henq, hclaimed, hself, hothers⟩ := exec_respond he
  have hle := hP w hw
  have hzero : w'.holding t x = 0 := by omega
  have hinv := ledger_inv hi henq hothers (fun hc ho => ?_) (by omega) fun hne => absurd hzero hne
  · exact ⟨hinv.1, hinv.2, hzero⟩
  · obtain ⟨hunqueued, hnobody⟩ := hi.unclaimed (hclaimed ▸ hc) (reopened_before he ho)
    refine ⟨hunqueued, fun i => ?_⟩
    by_cases hit : i = t
    · rw [hit, hzero]
    · rw [hothers i hit, hnobody i]

theorem prune_step :
    OnceStep cfg calls e x t (Unheld x t) (.store .pruneTransactions) fun _ => Unheld x t := by
  intro w a b w' hi hw _ hexec
  have he : exec t (.mk _) a w = some (b, w') := hexec
  obtain ⟨henq, -, hsame⟩ := exec_prune (x := x) he
  have hzero : w'.holding t x = 0 := (hsame t).trans hw
  have hinv := ledger_inv (t := t) hi henq (fun i _ => hsame i) (fun hc ho => ?_) (by omega)
    fun hne => absurd hzero hne
  · exact ⟨hinv.1, hinv.2, hzero⟩
  · have hclaimed : w'.claimed x = w.claimed x := by
      rcases exec_store he with ⟨order, ha, -, -⟩ | ⟨-, -, rfl⟩ | ⟨⟨s, rfl⟩, -, -⟩
      · have hne : a ≠ .failed := by rcases ha with ⟨rfl, -⟩ | rfl <;> rintro ⟨⟩
        simp [World.reopened, exec_trace he, Record.reopens, hne] at ho
      · rfl
      · simp [World.reopened, exec_trace he, Record.reopens] at ho
    obtain ⟨hunqueued, hnobody⟩ := hi.unclaimed (hclaimed ▸ hc) (reopened_before he ho)
    exact ⟨hunqueued, fun i => (hsame i).trans (hnobody i)⟩

/-! One delivery. -/

theorem enqueueHeldSend_once {v : QueuedEvent} (hv : v.event = e) {body : String}
    {threadRoot : Option String} {files : Option (List AttachmentInfo)}
    {events : List MatrixEvent} (hany : events.any (·.isMessage e)) :
    OnceTriple cfg calls e x t (Owes e x t events) (enqueueHeldSend cfg v body threadRoot files)
      (post (fun _ => Holds x t) fun _ => Holds x t) := by
  subst hv
  refine .andThen (.lift (offQueue_once sendDelayFor_remark.offQueue Owes.local) fun _ =>
    Owes.local.stable) (fun _ => Holds.local.stable) fun delay => ?_
  refine .andThen (R := fun _ => Holds x t) ?_ (fun _ => Holds.local.stable) fun _ =>
    .lift (offQueue_once showHeld_talk.offQueue Holds.local) fun _ => Holds.local.stable
  exact .post (.call Owes.local.stable (insert_step hany) fun _ => Holds.local.stable)
    fun r _ _ h => by cases r <;> exact h

theorem keeps_holding {p : Bridge α} {events : List MatrixEvent} (hp : OffQueue p) :
    OnceTriple cfg calls e x t (Owes e x t events) p
      (post (fun _ => Owes e x t events) fun _ => Holds x t) := by
  refine .post (offQueue_once hp Owes.local) fun r _ _ h => ?_
  cases r with
  | ok a => exact h
  | error err => exact h.holds

theorem ends_holding {p : Bridge α} {events : List MatrixEvent} (hp : OffQueue p) :
    OnceTriple cfg calls e x t (Owes e x t events) p
      (post (fun _ => Holds x t) fun _ => Holds x t) :=
  .weaken (keeps_holding hp) (fun _ _ h => h.holds) fun _ _ h => h

theorem queueText_once {v : QueuedEvent} (hv : v.event = e) {body : String}
    {relation : Option Relation} {events : List MatrixEvent} (hany : events.any (·.isMessage e)) :
    OnceTriple cfg calls e x t (Owes e x t events) (queueText cfg v body relation)
      (post (fun _ => Holds x t) fun _ => Holds x t) := by
  have hstable : ∀ _ : Err, Stable (onceContract e x) t (Holds x t) := fun _ => Holds.local.stable
  refine .andThen (keeps_holding (.lift appendUserSignature_remark.offQueue)) hstable
    fun signed => ?_
  refine .andThen (keeps_holding (.lift (.task rfl))) hstable fun client => ?_
  split
  · exact ends_holding (.lift answerMessage_remark.offQueue)
  · exact .andThen (keeps_holding resolveThreadContext_remark.offQueue) hstable fun _ =>
      enqueueHeldSend_once hv hany

theorem handleGhostOutbound_once {v : QueuedEvent} (hv : v.event = e) {body : String}
    {relation : Option Relation} {events : List MatrixEvent} (hany : events.any (·.isMessage e)) :
    OnceTriple cfg calls e x t (Owes e x t events) (handleGhostOutbound cfg v body relation)
      (post (fun _ => Holds x t) fun _ => Holds x t) := by
  rw [handleGhostOutbound]
  split
  · exact ends_holding handleShowImages_offQueue
  · exact ends_holding handleThreadAction_offQueue
  · exact ends_holding handleThreadAction_offQueue
  · exact queueText_once hv hany

theorem handleGhostMediaOutbound_once {v : QueuedEvent} (hv : v.event = e) {media : String}
    {relation : Option Relation} {events : List MatrixEvent} (hany : events.any (·.isMessage e)) :
    OnceTriple cfg calls e x t (Owes e x t events) (handleGhostMediaOutbound cfg v media relation)
      (post (fun _ => Holds x t) fun _ => Holds x t) := by
  have hstable : ∀ _ : Err, Stable (onceContract e x) t (Holds x t) := fun _ => Holds.local.stable
  refine .andThen (keeps_holding (.lift (.task rfl))) hstable fun client => ?_
  split
  · exact ends_holding (.lift answerMessage_remark.offQueue)
  · refine .andThen (keeps_holding (.attempt (.jmap rfl))) hstable fun uploaded => ?_
    split
    · exact ends_holding (.andThen (.lift answerMessage_remark.offQueue) fun _ => .fail)
    · exact .andThen (keeps_holding resolveThreadContext_remark.offQueue) hstable fun _ =>
        enqueueHeldSend_once hv hany

theorem routeGhostMessage_once {v : QueuedEvent} (hv : v.event = e) {body : String}
    {media : Option String} {relation : Option Relation} {events : List MatrixEvent}
    (hany : events.any (·.isMessage e)) :
    OnceTriple cfg calls e x t (Owes e x t events) (routeGhostMessage cfg v body media relation)
      (post (fun _ => Holds x t) fun _ => Holds x t) := by
  have hholds : ∀ (r : Except Err Unit) (w : World),
      post (fun _ => Holds x t) (fun _ => Holds x t) r w → Holds x t w :=
    fun r _ h => by cases r <;> exact h
  refine .andThen (.attempt (.post ?_ fun r w _ => hholds r w)
    fun _ => Holds.local.stable) (fun _ => Holds.local.stable) fun handled => ?_
  · cases media with
    | none => exact handleGhostOutbound_once hv hany
    | some uri => exact handleGhostMediaOutbound_once hv hany
  · split
    · split
      · exact .fail Holds.local.stable fun _ _ h => h
      · exact .ok Holds.local.stable fun _ _ h => h
    · exact .ok Holds.local.stable fun _ _ h => h

theorem handleMessage_once {v : QueuedEvent} (hv : v.event = e) {body : String}
    {media : Option String} {relation : Option Relation} {events : List MatrixEvent}
    (hany : events.any (·.isMessage e)) :
    OnceTriple cfg calls e x t (Owes e x t events) (handleMessage cfg v body media relation)
      (post (fun _ => Holds x t) fun _ => Holds x t) := by
  refine .andThen (keeps_holding (.store rfl)) (fun _ => Holds.local.stable) fun ghost => ?_
  split
  · exact routeGhostMessage_once hv hany
  · exact ends_holding (.lift (.task rfl))

theorem handleEvent_quiet {ev : MatrixEvent} (hev : ev.isMessage e = false) :
    Does (fun c => c.quiet e x) (handleEvent cfg ev) :=
  handleEvent_does (fun _ => Cmd.not_delivers.quiet) fun _ _ hevent hc =>
    Cmd.inserts.quiet hc fun heq => by rw [heq, hev] at hevent; cases hevent

theorem handleEvent_message {sender : UserId} {room : RoomId} {body : String}
    {media : Option String} {relation : Option Relation} {events : List MatrixEvent}
    (hany : events.any (·.isMessage e)) :
    OnceTriple cfg calls e x t (Owes e x t events)
      (handleEvent cfg (.message sender room e body media relation))
      (post (fun _ => Holds x t) fun _ => Holds x t) := by
  have hdone : OnceTriple cfg calls e x t (Owes e x t events) (Act.ok () : Bridge Unit)
      (post (fun _ => Holds x t) fun _ => Holds x t) := .ok Owes.local.stable fun _ _ h => h.holds
  change OnceTriple cfg calls e x t _ (handleMessageLike cfg _) _
  unfold handleMessageLike
  split
  · exact hdone
  · split
    case h_5 heq =>
      cases heq
      exact handleMessage_once (v := ⟨sender, room, e⟩) rfl hany
    case h_4 heq =>
      cases heq
      refine .post (undisturbed_triple (.lift (handleEdit_undelivering.mono
        fun _ => Cmd.not_delivers.quiet)) Owes.local) fun r _ _ h => ?_
      cases r <;> exact h.holds
    all_goals first | exact hdone | (rename_i heq; cases heq)

/-- The events still to come hold the message at most once, and it is due if they do. -/
def Due (e : EventId) (x : TransactionId) (t : Nat) (events : List MatrixEvent)
    (w : World) : Prop :=
  events.countP (·.isMessage e) ≤ 1 ∧ Owes e x t events w

theorem Due.local {events : List MatrixEvent} : Local e x t (Due e x t events) :=
  fun w w' hr h => ⟨h.1, Owes.local w w' hr h.2⟩

theorem handleEvent_once (ev : MatrixEvent) (events : List MatrixEvent) :
    OnceTriple cfg calls e x t (Due e x t (ev :: events)) (handleEvent cfg ev)
      (post (fun _ => Due e x t events) fun _ => Holds x t) := by
  by_cases hev : ev.isMessage e
  · have hany : (ev :: events).any (·.isMessage e) := by simp [hev]
    obtain ⟨sender, room, body, media, relation, rfl⟩ : ∃ sender room body media relation,
        ev = .message sender room e body media relation := by
      cases ev with
      | message sender room event body media relation =>
        obtain rfl : event = e := eq_of_beq hev
        exact ⟨_, _, _, _, _, rfl⟩
      | _ => cases hev
    have hcounted : OnceTriple cfg calls e x t
        (Due e x t (.message sender room e body media relation :: events))
        (handleEvent cfg (.message sender room e body media relation))
        (post (fun _ w => (MatrixEvent.message sender room e body media relation ::
          events).countP (·.isMessage e) ≤ 1 → Due e x t events w) fun _ => Holds x t) := by
      refine .weaken (.pre (handleEvent_message hany) fun _ _ h => h.2) (fun _ w h hone => ?_)
        fun _ _ h => h
      have hnone : events.countP (·.isMessage e) = 0 := by
        simp only [List.countP_cons, hev, if_true] at hone
        omega
      refine ⟨by omega, h, fun hmore => ?_⟩
      obtain ⟨ev', hmem, hev'⟩ := List.any_eq_true.mp hmore
      exact absurd hev' (List.countP_eq_zero.mp hnone ev' hmem)
    intro w hi hw
    exact Prog.wp_mono (fun r w' _ h => by
      cases r with
      | ok a => exact h hw.1
      | error err => exact h) (hcounted w hi hw)
  · have hquiet : OnceTriple cfg calls e x t (Due e x t (ev :: events)) (handleEvent cfg ev)
        fun _ => Due e x t (ev :: events) :=
      undisturbed_triple (handleEvent_quiet (eq_false_of_ne_true hev)) Due.local
    refine .post hquiet fun r w _ h => ?_
    have hcount : events.countP (·.isMessage e) ≤ 1 := by
      have := h.1
      rwa [List.countP_cons_of_neg hev] at this
    cases r with
    | ok a => exact ⟨hcount, h.2.1, fun hmore => h.2.2 (by simp [hmore])⟩
    | error err => exact h.2.holds

theorem processTransaction_once {txn : MatrixTransaction} :
    OnceTriple cfg calls e x t (Due e x t txn.events) (processTransaction cfg txn)
      (post (fun _ => Holds x t) fun _ => Holds x t) := by
  have hreceipts : OnceTriple cfg calls e x t (Due e x t txn.events)
      (Act.forEach (fun receipts => bestEffort (handleReceipt receipts)) txn.ephemeral)
      (post (fun _ => Due e x t txn.events) fun _ => Holds x t) := by
    refine .post (offQueue_once (.forEach _ fun _ => .bestEffort handleReceipt_offQueue) Due.local)
      fun r _ _ h => ?_
    cases r with
    | ok a => exact h
    | error err => exact h.2.holds
  refine .andThen hreceipts (fun _ => Holds.local.stable) fun _ => ?_
  exact .weaken (.actForEachLeft Due.local.stable (fun _ => Holds.local.stable) handleEvent_once _)
    (fun _ _ h => h.2.holds) fun _ _ h => h

theorem handleTransactions_once {txn : MatrixTransaction}
    (hone : txn.events.countP (·.isMessage e) ≤ 1) :
    OnceTriple cfg calls e x t (Unheld x t) (handleTransactions cfg x txn) fun _ => Unheld x t := by
  have hle : ∀ w, Holds x t w ∨ Unheld x t w → w.holding t x ≤ 1 := by
    rintro w (h | h)
    · exact h.le
    · exact h.le.trans (Nat.zero_le 1)
  have hlocal : Local e x t fun w => Holds x t w ∨ Unheld x t w :=
    fun w w' hr h => h.imp (Holds.local w w' hr) (Unheld.local w w' hr)
  have hrespond : ∀ (ok : Bool) {P : World → Prop}, Local e x t P →
      (∀ w, P w → Holds x t w ∨ Unheld x t w) →
      OnceTriple cfg calls e x t P (onTask (.respond x ok)) fun _ => Unheld x t :=
    fun ok P hP h => .call hP.stable (respond_step fun w hw => hle w (h w hw))
      fun _ => Unheld.local.stable
  have hclaimed : ∀ r : Except Err Bool, Local e x t fun w =>
      if r = .ok true then Holds x t w ∧ e ∉ w.enqueued else Unheld x t w := by
    intro r w w' hr h
    split at h
    case isTrue hb =>
      have hne : w.holding t x ≠ 0 := by
        rw [h.1]
        exact Nat.one_ne_zero
      exact (if_pos hb).mpr ⟨Holds.local w w' hr h.1, hr.unqueued hne h.2⟩
    case isFalse hb => exact (if_neg hb).mpr (Unheld.local w w' hr h)
  refine .bind (.call Unheld.local.stable claim_step fun r => (hclaimed r).stable) fun claimed => ?_
  match claimed with
  | .ok false =>
    exact .pre (hrespond true Unheld.local fun _ h => .inr h) fun _ _ h => (if_neg (by simp)).mp h
  | .error _ =>
    exact .pre (hrespond false Unheld.local fun _ h => .inr h) fun _ _ h => (if_neg (by simp)).mp h
  | .ok true =>
    have hdelivered : OnceTriple cfg calls e x t (Due e x t txn.events)
        (Prog.bind (result (processTransaction cfg txn)) (concludeTransaction x))
        fun _ => Unheld x t := by
      refine .bind (R := fun _ => Holds x t) ?_ fun processed => ?_
      · exact .post processTransaction_once fun r _ _ h => by cases r <;> exact h
      · unfold concludeTransaction
        split
        · exact hrespond true Holds.local fun _ h => .inl h
        · split
          · refine .bind (.call Holds.local.stable unclaim_step fun _ => hlocal.stable) fun _ => ?_
            exact hrespond false hlocal fun _ h => h
          · exact hrespond true Holds.local fun _ h => .inl h
    refine .pre hdelivered fun w _ h => ?_
    have hheld : Holds x t w ∧ e ∉ w.enqueued := (if_pos rfl).mp h
    exact ⟨hone, hheld.1, fun _ => hheld.2⟩

theorem handleTransactions_quiet {y : TransactionId} {txn : MatrixTransaction} (hne : y ≠ x)
    (hevents : ∀ ev ∈ txn.events, ev.isMessage e = false) :
    Does (fun c => c.quiet e x) (handleTransactions cfg y txn) :=
  handleTransactions_does (fun _ => Cmd.not_delivers.quiet)
    (fun ev hev _ _ hevent hc => Cmd.inserts.quiet hc fun heq => by
      rw [heq, hevents ev hev] at hevent; cases hevent)
    ⟨by simp [Cmd.concerns, hne], rfl⟩ ⟨by simp [Cmd.concerns, hne], rfl⟩
    fun _ => ⟨by simp [Cmd.concerns, hne], rfl⟩

theorem runPruning_once :
    OnceTriple cfg calls e x t (Unheld x t) runPruning fun _ => Unheld x t := by
  have hprune : OnceTriple cfg calls e x t (Unheld x t) (onStore .pruneTransactions)
      fun _ => Unheld x t := .call Unheld.local.stable prune_step fun _ => Unheld.local.stable
  have hround : OnceTriple cfg calls e x t (Unheld x t) pruneRound fun _ => Unheld x t :=
    .bind hprune fun _ => undisturbed_triple (.task ⟨rfl, rfl⟩) Unheld.local
  refine .loop (J := fun _ => Unheld x t) (R := fun _ => Unheld x t) (fun _ => ?_) fun _ =>
    .pure Unheld.local.stable fun _ _ h => h
  exact .bind hround fun _ => .pure Unheld.local.stable fun _ _ h => h

end

theorem once_upholds {cfg : Config} {calls : Nat → Call} {e : EventId} {x : TransactionId}
    (hx : OccursIn calls e x) :
    Upholds (bridge cfg calls) (claimedInTime e x) (onceContract e x) where
  start := by
    intro t w hi hidle _
    have hprog : OnceTriple cfg calls e x t (Unheld x t) ((calls t).program cfg)
        fun _ => Unheld x t := by
      by_cases hprune : calls t = .prune
      · rw [hprune]
        exact runPruning_once
      · by_cases htxn : ∃ y txn, calls t = .transaction y txn
        · obtain ⟨y, txn, hcall⟩ := htxn
          rw [hcall]
          by_cases hy : y = x
          · subst hy
            exact handleTransactions_once (hx.once t txn hcall)
          · refine undisturbed_triple (handleTransactions_quiet hy fun ev hev => ?_) Unheld.local
            by_contra hmsg
            exact hy (hx.only t y txn hcall
              (List.any_eq_true.mpr ⟨ev, hev, eq_true_of_ne_false hmsg⟩))
        · have hquiet : Undelivering ((calls t).program cfg) :=
            program_undelivering (fun y txn h => htxn ⟨y, txn, h⟩) hprune
          exact undisturbed_triple (hquiet.mono fun _ => Cmd.not_delivers.quiet)
            Unheld.local
    exact hprog w hi hidle
  env := by
    intro ev w w' hi _ h
    have hsame : Ledger w w' := env_ledger h
    refine ⟨⟨hsame.enqueued ▸ hi.once, fun hc ho => ?_, fun i => ?_, fun i j hi' hj => ?_⟩,
      fun i => ⟨hsame.holding i x, fun _ hn => hsame.enqueued ▸ hn⟩⟩
    · rw [World.reopened, hsame.trace] at ho
      obtain ⟨hunqueued, hnobody⟩ := hi.unclaimed (hsame.claimed x ▸ hc) ho
      exact ⟨hsame.enqueued ▸ hunqueued, fun i => (hsame.holding i x).trans (hnobody i)⟩
    · rw [hsame.holding]
      exact hi.single i
    · exact hi.one i j (hsame.holding i x ▸ hi') (hsame.holding j x ▸ hj)
  cancel := by
    intro t w hi _
    have hself := drop_holding_self t x w
    have hothers : ∀ i, i ≠ t → (drop t w).holding i x = w.holding i x :=
      fun i hit => drop_holding_ne hit x w
    have hle : ∀ i, (drop t w).holding i x ≤ w.holding i x := fun i => by
      by_cases hit : i = t
      · rw [hit, hself]
        exact Nat.zero_le _
      · exact (hothers i hit).le
    have hpos : ∀ i, (drop t w).holding i x ≠ 0 → w.holding i x ≠ 0 := fun i hne => by
      have := hle i
      omega
    refine ⟨⟨hi.once, fun hc ho => ?_, fun i => (hle i).trans (hi.single i),
      fun i j hi' hj => hi.one i j (hpos i hi') (hpos j hj)⟩,
      fun i hit => ⟨hothers i hit, fun _ hn => hn⟩, hself⟩
    obtain ⟨hunqueued, hnobody⟩ := hi.unclaimed hc ho
    exact ⟨hunqueued, fun i => Nat.le_zero.mp ((hle i).trans (hnobody i).le)⟩

/-- In every run in which no delivery finds the claim gone after a row of the message has been put
into the queue, or while another delivery holds the transaction, at most one row is. -/
theorem enqueued_at_most_once {cfg : Config} {calls : Nat → Call} {e : EventId}
    {x : TransactionId} (hx : OccursIn calls e x) {w : World} (henq : w.enqueued = [])
    (hdeliveries : w.deliveries = []) {es : List (Event Answer Env)} {q : Pool Op World}
    (hrun : (bridge cfg calls).run es (Pool.boot w) = some q)
    (hD : (bridge cfg calls).Admits (claimedInTime e x).meets es (Pool.boot w)) :
    q.world.enqueued.count e ≤ 1 := by
  have hfree : ∀ i, w.holding i x = 0 := fun i => by rw [World.holding, hdeliveries]; rfl
  have hinv : OnceInv e x w := by
    exact ⟨by simp [henq], fun _ _ => ⟨by simp [henq], hfree⟩, fun i => by simp [hfree i],
      fun i _ hne => absurd (hfree i) hne⟩
  exact ((once_upholds hx).inv_of_run hinv hfree hrun hD).once

/-- Two messages in one transaction, delivered by tasks 0 and 1. -/
def twoMessages : MatrixTransaction where
  events := [.message "@a:localhost" "!r" "$m" "hello" none none,
    .message "@a:localhost" "!r" "$n" "bye" none none]

def delivered : Nat → Call
  | 0 => .transaction "1" twoMessages
  | 1 => .transaction "1" twoMessages
  | _ => .prune

theorem delivered_occursIn : OccursIn delivered "$m" "1" where
  only := by
    intro t y txn h _
    match t, h with
    | 0, h => exact (Call.transaction.inj h).1.symm
    | 1, h => exact (Call.transaction.inj h).1.symm
  once := by
    intro t txn h
    match t, h with
    | 0, h =>
      rw [← (Call.transaction.inj h).2]
      decide
    | 1, h =>
      rw [← (Call.transaction.inj h).2]
      decide

/-- Task 1 delivers the transaction and queues both messages. -/
def redelivery : List (Event Answer Env) :=
  (.start 1 :: List.replicate 14 (.step 1 .done) : List (Event Answer Env)) ++
    ([.tau 1] : List (Event Answer Env))

/-- The room of the first message cannot be looked up: the claim is released. -/
def failedAtOnce : List (Event Answer Env) :=
  [.start 0, .step 0 .done, .step 0 .failed, .step 0 .done, .step 0 .done, .tau 0]

/-- The first message is queued, and the room of the second cannot be looked up. -/
def failedBetween : List (Event Answer Env) :=
  (.start 0 :: List.replicate 7 (.step 0 .done) : List (Event Answer Env)) ++
    ([.step 0 .failed, .step 0 .done, .step 0 .done, .tau 0] : List (Event Answer Env))

theorem enqueued_at_most_once_redelivered : ∃ q,
    (bridge {} delivered).run (failedAtOnce ++ redelivery) (Pool.boot mailRoom) = some q ∧
      q.world.enqueued = ["$n", "$m"] ∧ q.world.enqueued.count "$m" ≤ 1 := by
  have hends : ((bridge {} delivered).run (failedAtOnce ++ redelivery) (Pool.boot mailRoom)).map
      (fun q => q.world.enqueued) = some ["$n", "$m"] := by decide +kernel
  have hadmits : (bridge {} delivered).Admits (claimedInTime "$m" "1").meets
      (failedAtOnce ++ redelivery) (Pool.boot mailRoom) := by decide +kernel
  obtain ⟨q, hq, henq⟩ := Option.map_eq_some_iff.mp hends
  exact ⟨q, hq, henq, enqueued_at_most_once delivered_occursIn rfl rfl hq hadmits⟩

/-- A delivery that fails after it has queued the first message: the next queues it again. -/
theorem redelivery_enqueues_again : OccursIn delivered "$m" "1" ∧
    ((bridge {} delivered).run (failedBetween ++ redelivery) (Pool.boot mailRoom)).map
      (fun q => q.world.enqueued.count "$m") = some 2 := by
  refine ⟨delivered_occursIn, ?_⟩
  decide +kernel

end JmapBridge
