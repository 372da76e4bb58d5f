import JmapBridge.Property.QueueExit

/-! What the worker may do more than once. An attempt gives the mail server one batch at
most, and a message whose row was removed is never attempted again. -/

namespace JmapBridge

open Effect

/-- An attempt on row `id` begins to send. -/
def Record.attempts (id : Nat) (r : Record) : Bool :=
  match r.cmd with
  | .task (.log (.sending m)) => m.id == id
  | _ => false

def Record.batches (id : Nat) (r : Record) : Bool :=
  match r.cmd with
  | .jmap _ (.submitBatch draft) => draft.source.id == id
  | _ => false

/-- What the mail server made of a batch, whether or not the bridge was told. -/
def Answer.batchReply : Answer → Option BatchReply
  | reply (.batch b) => some b
  | lostReply (.batch b) => some b
  | _ => none

/-- A copy of the message is created in the account's mailbox. -/
def Record.creates (id : Nat) (r : Record) : Bool :=
  r.batches id && r.answer.batchReply.any (·.created.isSome)

/-- A submission of the message is accepted. -/
def Record.accepts (id : Nat) (r : Record) : Bool :=
  r.batches id && r.answer.batchReply.any (·.submitted)

def Record.removesRow (id : Nat) (r : Record) : Bool :=
  r.answer != .failed &&
    match r.cmd with
    | .store (.removeFromOutboundQueue i) => i == id
    | _ => false

theorem removesRow_iff {id : Nat} {r : Record} :
    r.removesRow id ↔ r.answer ≠ .failed ∧ r.cmd = .store (.removeFromOutboundQueue id) := by
  simp only [Record.removesRow, Bool.and_eq_true]
  refine and_congr (by simp) ⟨fun h => ?_, fun h => by simp [h]⟩
  split at h
  case h_1 i hc => rw [hc, eq_of_beq h]
  case h_2 => cases h

/-- An attempt on row `id` has begun, and no batch was given in it. -/
def attemptOpen (id : Nat) : List Record → Bool
  | [] => false
  | r :: older =>
    if r.attempts id then true else if r.batches id then false else attemptOpen id older

def rowRemoved (id : Nat) (trace : List Record) : Bool := trace.any (·.removesRow id)

/-- Every batch of the row is the first of its attempt, and its removal is the end. -/
structure RetriedOnly (id : Nat) (trace : List Record) : Prop where
  batch : ∀ newer r older, trace = newer ++ r :: older → r.batches id →
    attemptOpen id older ∧ rowRemoved id older = false
  attempt : ∀ newer r older, trace = newer ++ r :: older → r.attempts id →
    rowRemoved id older = false

theorem rowRemoved_cons {id : Nat} {r : Record} (h : r.removesRow id = false)
    (older : List Record) : rowRemoved id (r :: older) = rowRemoved id older := by
  simp [rowRemoved, h]

theorem RetriedOnly.nil (id : Nat) : RetriedOnly id [] where
  batch newer r older h := by simp at h
  attempt newer r older h := by simp at h

theorem RetriedOnly.cons {id : Nat} {r : Record} {older : List Record} (h : RetriedOnly id older)
    (hb : r.batches id → attemptOpen id older ∧ rowRemoved id older = false)
    (ha : r.attempts id → rowRemoved id older = false) : RetriedOnly id (r :: older) where
  batch newer s rest he hs := by
    cases newer with
    | nil =>
      obtain ⟨rfl, rfl⟩ := List.cons.inj he
      exact hb hs
    | cons n newer => exact h.batch newer s rest (List.cons.inj he).2 hs
  attempt newer s rest he hs := by
    cases newer with
    | nil =>
      obtain ⟨rfl, rfl⟩ := List.cons.inj he
      exact ha hs
    | cons n newer => exact h.attempt newer s rest (List.cons.inj he).2 hs

theorem RetriedOnly.tail {id : Nat} {r : Record} {older : List Record}
    (h : RetriedOnly id (r :: older)) : RetriedOnly id older where
  batch newer s rest he := h.batch (r :: newer) s rest (by rw [he, List.cons_append])
  attempt newer s rest he := h.attempt (r :: newer) s rest (by rw [he, List.cons_append])

theorem attempts_not_batches {id : Nat} {r : Record} (h : r.attempts id) :
    r.batches id = false := by
  unfold Record.attempts at h
  split at h
  case h_1 m hc => simp [Record.batches, hc]
  case h_2 => cases h

theorem batches_le_attempts {id : Nat} {trace : List Record} (h : RetriedOnly id trace) :
    trace.countP (·.batches id) + (if attemptOpen id trace then 1 else 0) ≤
      trace.countP (·.attempts id) := by
  induction trace with
  | nil => simp [attemptOpen]
  | cons r older ih =>
    have hle := ih h.tail
    simp only [List.countP_cons, attemptOpen]
    by_cases ha : r.attempts id
    · have hb := attempts_not_batches ha
      simp only [ha, hb, if_true, Bool.false_eq_true, if_false]
      split at hle
      · omega
      · omega
    · by_cases hb : r.batches id
      · obtain ⟨hopen, -⟩ := h.batch [] r older rfl hb
        simp only [hopen, if_true] at hle
        simp [ha, hb]
        omega
      · simp only [ha, hb, Bool.false_eq_true, if_false]
        omega

theorem countP_le_attempts {id : Nat} {trace : List Record} (h : RetriedOnly id trace)
    {p : Record → Bool} (hp : ∀ r, p r → r.batches id) :
    trace.countP p ≤ trace.countP (·.attempts id) := by
  have hle := batches_le_attempts h
  have hmono : trace.countP p ≤ trace.countP (·.batches id) :=
    List.countP_mono_left fun r _ hr => hp r hr
  omega

structure ResendInv (w : World) : Prop where
  trace : ∀ id, RetriedOnly id w.trace
  rows : ∀ id row, w.store.outboundQueue.lookup id = some row →
    id < w.store.nextOutboundId ∧ rowRemoved id w.trace = false
  removed : ∀ id, rowRemoved id w.trace → id < w.store.nextOutboundId

def resendContract (calls : Nat → Call) : Contract World where
  inv := ResendInv
  rely := fun t w w' => w.store.nextOutboundId ≤ w'.store.nextOutboundId ∧
    (calls t = .worker → ∀ id, attemptOpen id w'.trace = attemptOpen id w.trace ∧
      rowRemoved id w'.trace = rowRemoved id w.trace)
  refl := fun _ _ => ⟨Nat.le_refl _, fun _ _ => ⟨rfl, rfl⟩⟩
  trans := fun hab hbc => ⟨hab.1.trans hbc.1, fun ht id =>
    ⟨(hbc.2 ht id).1.trans (hab.2 ht id).1, (hbc.2 ht id).2.trans (hab.2 ht id).2⟩⟩

section

variable {cfg : Config} {calls : Nat → Call} {t : Nat} {w w' : World} {α β : Type}

theorem next_exec {c : Cmd} {x : Answer} {b : c.Ans} (h : exec t (.mk c) x w = some (b, w')) :
    w.store.nextOutboundId ≤ w'.store.nextOutboundId := by
  rcases exec_run h with hs | ⟨q, order, rfl, -, hs⟩
  · rw [hs]
  · rw [hs]
    exact (queue_run q w.now order w.store).next

/-- A row in the queue after a step was there before or is new, and was not just removed. -/
theorem row_exec {c : Cmd} {x : Answer} {b : c.Ans} (h : exec t (.mk c) x w = some (b, w'))
    {id : Nat} {row' : OutboundRow} (hrow' : w'.store.outboundQueue.lookup id = some row') :
    ((∃ row, w.store.outboundQueue.lookup id = some row) ∨
      id = w.store.nextOutboundId ∧ id < w'.store.nextOutboundId) ∧
      (⟨t, c, x⟩ : Record).removesRow id = false := by
  rcases exec_run h with hs | ⟨q, order, rfl, hx, hs⟩
  · refine ⟨.inl ⟨row', hs ▸ hrow'⟩, ?_⟩
    cases hr : (⟨t, c, x⟩ : Record).removesRow id with
    | false => rfl
    | true =>
      obtain ⟨hx, hc⟩ := removesRow_iff.mp hr
      have hc : c = .store (.removeFromOutboundQueue id) := hc
      subst hc
      rcases exec_store h with ⟨order, -, -, rfl⟩ | ⟨rfl, -⟩ | ⟨-, -, rfl⟩
      · simp [StoreCmd.run] at hrow'
      · exact absurd rfl hx
      · simp [StoreCmd.run] at hrow'
  · have hq := queue_run q w.now order w.store
    rw [← hs] at hq
    refine ⟨?_, ?_⟩
    · rcases hq.row id row' hrow' with ⟨row, hrow, -⟩ | ⟨hid, hlt, -⟩
      · exact .inl ⟨row, hrow⟩
      · exact .inr ⟨hid, hlt⟩
    · cases q with
      | removeFromOutboundQueue i =>
        by_cases hi : i = id
        · subst hi
          rw [hs] at hrow'
          simp [StoreCmd.run] at hrow'
        · simp [Record.removesRow, hi]
      | _ => simp [Record.removesRow]

theorem resend_exec {c : Cmd} {x : Answer} {b : c.Ans} (h : exec t (.mk c) x w = some (b, w'))
    (hi : ResendInv w)
    (hb : ∀ id, (⟨t, c, x⟩ : Record).batches id →
      attemptOpen id w.trace ∧ rowRemoved id w.trace = false)
    (ha : ∀ id, (⟨t, c, x⟩ : Record).attempts id → rowRemoved id w.trace = false)
    (hr : ∀ id, (⟨t, c, x⟩ : Record).removesRow id → id < w.store.nextOutboundId) :
    ResendInv w' := by
  have htrace := exec_trace h
  have hnext := next_exec h
  refine ⟨fun id => ?_, fun id row' hrow' => ?_, fun id hrem => ?_⟩
  · rw [htrace]
    exact (hi.trace id).cons (hb id) (ha id)
  · obtain ⟨hold, hkept⟩ := row_exec h hrow'
    have hrem : rowRemoved id w'.trace = rowRemoved id w.trace := by
      rw [htrace, rowRemoved_cons hkept]
    rw [hrem]
    rcases hold with ⟨row, hrow⟩ | ⟨hid, hlt⟩
    · obtain ⟨hlt, hnot⟩ := hi.rows id row hrow
      exact ⟨by omega, hnot⟩
    · refine ⟨hlt, ?_⟩
      cases hc : rowRemoved id w.trace with
      | false => rfl
      | true =>
        have := hi.removed id hc
        omega
  · rw [htrace] at hrem
    simp only [rowRemoved, List.any_cons, Bool.or_eq_true] at hrem
    rcases hrem with hnow | hold
    · exact Nat.lt_of_lt_of_le (hr id hnow) hnext
    · exact Nat.lt_of_lt_of_le (hi.removed id hold) hnext

theorem batches_workers {c : Cmd} {x : Answer} {id : Nat} (h : (⟨t, c, x⟩ : Record).batches id) :
    c.workers := by
  unfold Record.batches at h
  split at h
  case h_1 account draft heq =>
    have hc : c = .jmap account (.submitBatch draft) := heq
    rw [hc]
    rfl
  case h_2 => cases h

theorem attempts_workers {c : Cmd} {x : Answer} {id : Nat} (h : (⟨t, c, x⟩ : Record).attempts id) :
    c.workers := by
  unfold Record.attempts at h
  split at h
  case h_1 m heq =>
    have hc : c = .task (.log (.sending m)) := heq
    rw [hc]
    rfl
  case h_2 => cases h

theorem removesRow_workers {c : Cmd} {x : Answer} {id : Nat}
    (h : (⟨t, c, x⟩ : Record).removesRow id) : c.workers := by
  have hc : c = .store (.removeFromOutboundQueue id) := (removesRow_iff.mp h).2
  rw [hc]
  rfl

theorem notWorking_exec {c : Cmd} {x : Answer} {b : c.Ans} (hc : c.workers = false)
    (h : exec t (.mk c) x w = some (b, w')) (hi : ResendInv w) :
    ResendInv w' ∧ ∀ i, (resendContract calls).rely i w w' := by
  have hb : ∀ id, (⟨t, c, x⟩ : Record).batches id = false := fun id =>
    Bool.eq_false_iff.mpr fun hr => by rw [batches_workers hr] at hc; cases hc
  have ha : ∀ id, (⟨t, c, x⟩ : Record).attempts id = false := fun id =>
    Bool.eq_false_iff.mpr fun hr => by rw [attempts_workers hr] at hc; cases hc
  have hr : ∀ id, (⟨t, c, x⟩ : Record).removesRow id = false := fun id =>
    Bool.eq_false_iff.mpr fun hr => by rw [removesRow_workers hr] at hc; cases hc
  refine ⟨resend_exec h hi (fun id hx => ?_) (fun id hx => ?_) (fun id hx => ?_),
    fun i => ⟨next_exec h, fun _ id => ⟨?_, ?_⟩⟩⟩
  · rw [hb id] at hx
    cases hx
  · rw [ha id] at hx
    cases hx
  · rw [hr id] at hx
    cases hx
  · rw [exec_trace h]
    simp [attemptOpen, ha id, hb id]
  · rw [exec_trace h, rowRemoved_cons (hr id)]

theorem env_sameRecords {ev : Env} (h : ev.perform w = some w') : w'.trace = w.trace ∧
    w'.store.outboundQueue = w.store.outboundQueue ∧
      w'.store.nextOutboundId = w.store.nextOutboundId := by
  cases ev with
  | release key stored =>
    simp only [Env.perform] at h
    split at h
    · obtain rfl := Option.some.inj h
      exact ⟨rfl, rfl, rfl⟩
    · cases h
  | _ =>
    obtain rfl := Option.some.inj h
    exact ⟨rfl, rfl, rfl⟩

abbrev ResendStep (cfg : Config) (calls : Nat → Call) (t : Nat) (P : World → Prop) (c : Cmd)
    (R : c.Ans → World → Prop) : Prop :=
  Step (bridge cfg calls) {} (resendContract calls) t P (.mk c) R

theorem notWorking_step {c : Cmd} (hc : c.workers = false) {P : World → Prop}
    {R : c.Ans → World → Prop} (hP : Stable (resendContract calls) t P)
    (hR : ∀ w x b w', ResendInv w → P w' → exec t (.mk c) x w = some (b, w') → R b w') :
    ResendStep cfg calls t P c R := by
  intro w x b w' hi hw _ he
  obtain ⟨hi', hrely⟩ : ResendInv w' ∧ ∀ i, (resendContract calls).rely i w w' :=
    notWorking_exec hc he hi
  exact ⟨hi', fun i _ => hrely i, hR w x b w' hi (hP w w' hw (hrely t) hi') he⟩

theorem notWorking_keeps {P : World → Prop} (hP : Stable (resendContract calls) t P) {o : Op β}
    (hc : o.cmd.workers = false) :
    Keeps (bridge cfg calls) {} (resendContract calls) t P β o := by
  obtain ⟨c⟩ := o
  intro w x b w' hw hi hd he
  have hstep : ResendStep cfg calls t P c fun _ => P :=
    notWorking_step hc hP fun _ _ _ _ _ h _ => h
  exact hstep w x b w' hi hw hd he

/-- The messages a worker still has before it: distinct rows that were not removed. -/
def Unspent (l : List OutboundMessage) (w : World) : Prop :=
  (l.map (·.id)).Nodup ∧
    ∀ m ∈ l, m.id < w.store.nextOutboundId ∧ rowRemoved m.id w.trace = false

def Trying (s : Stage) (m : OutboundMessage) (rest : List OutboundMessage) (w : World) : Prop :=
  match s with
  | .begun => Unspent (m :: rest) w ∧ attemptOpen m.id w.trace
  | .ended => Unspent rest w
  | _ => Unspent (m :: rest) w

theorem Unspent.stable (ht : calls t = .worker) {l : List OutboundMessage} :
    Stable (resendContract calls) t (Unspent l) := by
  intro w w' h hr _
  refine ⟨h.1, fun m hm => ?_⟩
  obtain ⟨hlt, hnot⟩ := h.2 m hm
  exact ⟨Nat.lt_of_lt_of_le hlt hr.1, (hr.2 ht m.id).2.trans hnot⟩

theorem Trying.stable (ht : calls t = .worker) {s : Stage} {m : OutboundMessage}
    {rest : List OutboundMessage} : Stable (resendContract calls) t (Trying s m rest) := by
  have hunspent : ∀ l, Stable (resendContract calls) t (Unspent l) := fun l => Unspent.stable ht
  cases s with
  | begun =>
    intro w w' h hr hi
    exact ⟨hunspent _ w w' h.1 hr hi, (hr.2 ht m.id).1.trans h.2⟩
  | ended => exact hunspent rest
  | _ => exact hunspent (m :: rest)

theorem Unspent.tail {m : OutboundMessage} {rest : List OutboundMessage}
    (h : Unspent (m :: rest) w) :
    Unspent rest w :=
  ⟨(List.nodup_cons.mp h.1).2, fun n hn => h.2 n (List.mem_cons_of_mem _ hn)⟩

/-- The step of a worker: the others do not look at its records. -/
theorem worker_step (hone : OneWorker calls) (ht : calls t = .worker) {c : Cmd} {P : World → Prop}
    {R : c.Ans → World → Prop}
    (hb : ∀ w x id, P w → (⟨t, c, x⟩ : Record).batches id →
      attemptOpen id w.trace ∧ rowRemoved id w.trace = false)
    (ha : ∀ w x id, P w → (⟨t, c, x⟩ : Record).attempts id → rowRemoved id w.trace = false)
    (hr : ∀ w x id, P w → (⟨t, c, x⟩ : Record).removesRow id → id < w.store.nextOutboundId)
    (hR : ∀ w x b w', P w → exec t (.mk c) x w = some (b, w') → R b w') :
    ResendStep cfg calls t P c R := by
  intro w x b w' hi hw _ hexec
  have he : exec t (.mk c) x w = some (b, w') := hexec
  refine ⟨resend_exec he hi (fun id => hb w x id hw) (fun id => ha w x id hw)
    (fun id => hr w x id hw), fun i hit => ⟨next_exec he, fun hi id => ?_⟩, hR w x b w' hw he⟩
  exact absurd (hone t i ht hi) hit

theorem Unspent.exec {c : Cmd} {x : Answer} {b : c.Ans} (h : exec t (.mk c) x w = some (b, w'))
    {l : List OutboundMessage} (hl : Unspent l w)
    (hr : ∀ m ∈ l, (⟨t, c, x⟩ : Record).removesRow m.id = false) : Unspent l w' := by
  refine ⟨hl.1, fun m hm => ?_⟩
  obtain ⟨hlt, hnot⟩ := hl.2 m hm
  refine ⟨Nat.lt_of_lt_of_le hlt (next_exec h), ?_⟩
  rw [exec_trace h, rowRemoved_cons (hr m hm), hnot]

theorem fresh_fetch (ht : calls t = .worker) :
    ResendStep cfg calls t (Unspent []) (.store .getPendingOutbound)
      (post Unspent fun _ => Unspent []) := by
  refine notWorking_step rfl (Unspent.stable ht) fun w x b w' hi hw he => ?_
  have htrace := exec_trace he
  rcases exec_store he with ⟨order, -, rfl, hw'⟩ | ⟨-, rfl, -⟩ | ⟨-, rfl, -⟩
  · refine ⟨pendingChoice_nodup _ _ _, fun m hm => ?_⟩
    obtain ⟨row, hrow, -⟩ := mem_pendingChoice hm
    obtain ⟨hlt, hnot⟩ := hi.rows m.id row hrow
    refine ⟨Nat.lt_of_lt_of_le hlt (next_exec he), ?_⟩
    rw [htrace, rowRemoved_cons (by simp [Record.removesRow]), hnot]
  · exact hw
  · exact hw

theorem begin_fresh (hone : OneWorker calls) (ht : calls t = .worker) {m : OutboundMessage}
    {rest : List OutboundMessage} :
    ResendStep cfg calls t (Unspent (m :: rest)) (.task (.log (.sending m)))
      fun _ => Trying .begun m rest := by
  refine worker_step hone ht (fun w x id _ h => ?_) (fun w x id hw h => ?_) (fun w x id _ h => ?_)
    fun w x b w' hw he => ?_
  · cases h
  · obtain rfl : m.id = id := eq_of_beq h
    exact (hw.2 m List.mem_cons_self).2
  · simp [Record.removesRow] at h
  · refine ⟨hw.exec he fun _ _ => by simp [Record.removesRow], ?_⟩
    rw [exec_trace he]
    simp [attemptOpen, Record.attempts]

theorem submit_fresh (hone : OneWorker calls) (ht : calls t = .worker) {m : OutboundMessage}
    {rest : List OutboundMessage} {account : Account} {draft : Draft} (hsource : draft.source = m) :
    ResendStep cfg calls t (Trying .begun m rest) (.jmap account (.submitBatch draft))
      fun _ => Unspent (m :: rest) := by
  refine worker_step hone ht (fun w x id hw h => ?_) (fun w x id _ h => ?_) (fun w x id _ h => ?_)
    fun w x b w' hw he => ?_
  · obtain rfl : draft.source.id = id := eq_of_beq h
    rw [hsource]
    exact ⟨hw.2, (hw.1.2 m List.mem_cons_self).2⟩
  · cases h
  · simp [Record.removesRow] at h
  · exact hw.1.exec he fun _ _ => by simp [Record.removesRow]

theorem remove_fresh (hone : OneWorker calls) (ht : calls t = .worker) {m : OutboundMessage}
    {rest : List OutboundMessage} :
    ResendStep cfg calls t (Unspent (m :: rest)) (.store (.removeFromOutboundQueue m.id))
      fun _ => Unspent rest := by
  refine worker_step hone ht (fun w x id _ h => ?_) (fun w x id _ h => ?_) (fun w x id hw h => ?_)
    fun w x b w' hw he => ?_
  · cases h
  · cases h
  · have hid : m.id = id := by simpa using (removesRow_iff.mp h).2
    exact hid ▸ (hw.2 m List.mem_cons_self).1
  · have hne : ∀ n ∈ rest, n.id ≠ m.id := by
      intro n hn heq
      exact (List.nodup_cons.mp hw.1).1 (List.mem_map.mpr ⟨n, hn, heq⟩)
    exact hw.tail.exec he fun n hn => by simp [Record.removesRow, (hne n hn).symm]

theorem trying_fresh {s : Stage} {m : OutboundMessage} {rest : List OutboundMessage}
    (hs : s ≠ .ended) (h : Trying s m rest w) : Unspent (m :: rest) w := by
  cases s with
  | begun => exact h.1
  | ended => exact absurd rfl hs
  | _ => exact h

theorem fresh_trying {s : Stage} {m : OutboundMessage} {rest : List OutboundMessage}
    (hs : s ≠ .begun) (h : Unspent (m :: rest) w) : Trying s m rest w := by
  cases s with
  | begun => exact absurd rfl hs
  | ended => exact h.tail
  | _ => exact h

theorem worker_resends (hone : OneWorker calls) (ht : calls t = .worker) :
    Working (bridge cfg calls) {} (resendContract calls) t cfg (Unspent []) Unspent Trying where
  stable_idle := Unspent.stable ht
  stable_todo := Unspent.stable ht
  stable := Trying.stable ht
  sleep _ := notWorking_keeps (Unspent.stable ht) rfl
  client _ _ := notWorking_keeps (Unspent.stable ht) rfl
  ready _ _ _ _ hc :=
    notWorking_keeps (Unspent.stable ht) (not_workers_of_offQueue (Cmd.aside.offQueue hc))
  aside _ _ _ _ _ hc :=
    notWorking_keeps (Trying.stable ht) (not_workers_of_offQueue (Cmd.aside.offQueue hc))
  unbegun _ _ _ h := h
  unsent _ _ _ h := h.1
  idle_of_todo _ h := h
  fetch := fresh_fetch ht
  ghost _ _ := notWorking_step rfl (Unspent.stable ht) fun _ _ _ _ _ h _ => ⟨h, fun _ => h⟩
  begin _ _ := begin_fresh hone ht
  submit _ _ _ _ hsource _ := (submit_fresh hone ht hsource).post fun r w _ h => by
    refine fresh_trying ?_ h
    unfold Stage.ofReply
    split <;> simp
  notice _ _ s hs _ := by
    refine notWorking_step rfl (Trying.stable ht) fun _ _ _ _ _ h _ => ?_
    rcases hs with rfl | rfl
    · exact h
    · exact h
  remove s _ _ hs := by
    intro w x b w' hi hw hd he
    have hne : s ≠ .ended := by
      rintro rfl
      exact hs
    exact remove_fresh hone ht w x b w' hi (trying_fresh hne hw) hd he
  retry _ _ := notWorking_step rfl (Trying.stable ht) fun _ _ _ _ _ h _ => Unspent.tail h
  drop _ _ := notWorking_step rfl (Trying.stable ht) fun _ _ _ _ _ h _ => h

end

theorem resend_upholds {cfg : Config} {calls : Nat → Call} (hone : OneWorker calls) :
    Upholds (bridge cfg calls) {} (resendContract calls) where
  start := by
    intro t w hi _ _
    by_cases ht : calls t = .worker
    · have hunspent : Unspent [] w := ⟨List.nodup_nil, fun m hm => by cases hm⟩
      have hworks : Working (bridge cfg calls) {} (resendContract calls) t cfg (Unspent []) Unspent
          Trying := worker_resends hone ht
      have hprog := hworks.runRetryLoop_triple w hi hunspent
      change Prog.wp _ _ _ t ((calls t).program cfg) _ w
      rw [ht]
      exact Prog.wp_mono (fun _ _ _ _ => trivial) hprog
    · have hkeep : Triple (bridge cfg calls) {} (resendContract calls) t (fun _ => True)
          ((calls t).program cfg) fun _ _ => True :=
        .only (Stable.const True) (Prog.Only.mono
          (fun _ _ h => notWorking_keeps (Stable.const True) h) (program_notWorking ht))
      exact hkeep w hi trivial
  env := by
    intro ev w w' hi _ h
    obtain ⟨htrace, hqueue, hnext⟩ := env_sameRecords h
    refine ⟨⟨fun id => htrace ▸ hi.trace id, fun id row hrow => ?_, fun id hrem => ?_⟩, fun i =>
      ⟨by rw [hnext], fun _ id => ⟨by rw [htrace], by rw [htrace]⟩⟩⟩
    · rw [hnext, htrace]
      exact hi.rows id row (hqueue ▸ hrow)
    · rw [hnext]
      exact hi.removed id (htrace ▸ hrem)
  cancel := fun t w hi _ =>
    ⟨⟨hi.trace, hi.rows, hi.removed⟩, fun i _ => ⟨Nat.le_refl _, fun _ _ => ⟨rfl, rfl⟩⟩, trivial⟩

/-! What comes after a confirmed attempt: the removal of the row is at least tried. -/

/-- An attempt on row `id` was confirmed, and its removal has not been tried since. -/
def awaitsRemoval (id : Nat) : List Record → Bool
  | [] => false
  | r :: older =>
    if r.confirms id then true
    else if r.cmd = .store (.removeFromOutboundQueue id) then false else awaitsRemoval id older

/-- No attempt on the row begins while its removal is awaited. -/
def RemovesFirst (id : Nat) (trace : List Record) : Prop :=
  ∀ newer r older, trace = newer ++ r :: older → r.attempts id → awaitsRemoval id older = false

theorem RemovesFirst.cons {id : Nat} {r : Record} {older : List Record} (h : RemovesFirst id older)
    (ha : r.attempts id → awaitsRemoval id older = false) : RemovesFirst id (r :: older) := by
  intro newer s rest he hs
  cases newer with
  | nil =>
    obtain ⟨rfl, rfl⟩ := List.cons.inj he
    exact ha hs
  | cons n newer => exact h newer s rest (List.cons.inj he).2 hs

/-- The worker is not stopped between the confirmation of row `id` and its removal. -/
def finishesRow (calls : Nat → Call) (id : Nat) : Discipline Op World Answer Env where
  cancel t w := calls t = .worker → awaitsRemoval id w.trace = false

def removalContract (calls : Nat → Call) (id : Nat) : Contract World where
  inv w := RemovesFirst id w.trace
  rely t w w' := calls t = .worker → awaitsRemoval id w'.trace = awaitsRemoval id w.trace
  idle t w := calls t = .worker → awaitsRemoval id w.trace = false
  idle_stable h hr ht := (hr ht).trans (h ht)
  refl _ _ _ := rfl
  trans hab hbc ht := (hbc ht).trans (hab ht)

section

variable {cfg : Config} {calls : Nat → Call} {t id : Nat} {w w' : World} {α β : Type}

theorem confirms_batches {r : Record} (h : r.confirms id) : r.batches id := by
  unfold Record.confirms at h
  split at h
  case h_1 draft e hc ha => simpa [Record.batches, hc] using h
  case h_2 => cases h

theorem awaitsRemoval_cons {r : Record} {older : List Record} (hc : r.confirms id = false)
    (hr : r.cmd ≠ .store (.removeFromOutboundQueue id)) :
    awaitsRemoval id (r :: older) = awaitsRemoval id older := by
  simp [awaitsRemoval, hc, hr]

theorem awaits_notWorking {c : Cmd} {x : Answer} {b : c.Ans} (hc : c.workers = false)
    (h : exec t (.mk c) x w = some (b, w')) :
    awaitsRemoval id w'.trace = awaitsRemoval id w.trace := by
  rw [exec_trace h]
  refine awaitsRemoval_cons ?_ ?_
  · refine Bool.eq_false_iff.mpr fun hr => ?_
    rw [batches_workers (confirms_batches hr)] at hc
    cases hc
  · rintro rfl
    cases hc

theorem removesFirst_exec {c : Cmd} {x : Answer} {b : c.Ans} (h : exec t (.mk c) x w = some (b, w'))
    (hi : RemovesFirst id w.trace)
    (ha : (⟨t, c, x⟩ : Record).attempts id → awaitsRemoval id w.trace = false) :
    RemovesFirst id w'.trace := by
  rw [exec_trace h]
  exact hi.cons ha

/-- Only a confirmed attempt on the row itself leaves its removal to be awaited. -/
def RemovalDue (id : Nat) (s : Stage) (m : OutboundMessage) (w : World) : Prop :=
  awaitsRemoval id w.trace = true → s = .confirmed ∧ m.id = id

abbrev RemovalStep (cfg : Config) (calls : Nat → Call) (id t : Nat) (P : World → Prop) (c : Cmd)
    (R : c.Ans → World → Prop) : Prop :=
  Step (bridge cfg calls) (finishesRow calls id) (removalContract calls id) t P (.mk c) R

/-- What a worker is sure of before an attempt: nothing is awaited. -/
def Square (id : Nat) (w : World) : Prop := awaitsRemoval id w.trace = false

theorem Square.stable (ht : calls t = .worker) :
    Stable (removalContract calls id) t (Square id) := fun _ _ h hr _ => (hr ht).trans h

theorem RemovalDue.stable (ht : calls t = .worker) {s : Stage} {m : OutboundMessage} :
    Stable (removalContract calls id) t (RemovalDue id s m) :=
  fun _ _ h hr _ hw => h ((hr ht).symm.trans hw)

theorem Square.due {s : Stage} {m : OutboundMessage} (h : Square id w) : RemovalDue id s m w :=
  fun hw => absurd (hw.symm.trans h) (by simp)

theorem RemovalDue.square {s : Stage} {m : OutboundMessage} (h : RemovalDue id s m w)
    (hs : s ≠ .confirmed) :
    Square id w :=
  Bool.eq_false_iff.mpr fun hw => hs (h hw).1

theorem removal_notWorking {c : Cmd} (hc : c.workers = false) {P : World → Prop}
    {R : c.Ans → World → Prop} (hP : Stable (removalContract calls id) t P)
    (hR : ∀ b w', P w' → R b w') : RemovalStep cfg calls id t P c R := by
  intro w x b w' hi hw _ hexec
  have he : exec t (.mk c) x w = some (b, w') := hexec
  have hsame : awaitsRemoval id w'.trace = awaitsRemoval id w.trace := awaits_notWorking hc he
  have hi' : RemovesFirst id w'.trace := removesFirst_exec he hi fun ha => by
    rw [attempts_workers ha] at hc
    cases hc
  exact ⟨hi', fun i _ _ => hsame, hR b w' (hP w w' hw (fun _ => hsame) hi')⟩

theorem removal_keeps {P : World → Prop} (hP : Stable (removalContract calls id) t P) {o : Op β}
    (hc : o.cmd.workers = false) :
    Keeps (bridge cfg calls) (finishesRow calls id) (removalContract calls id) t P β o := by
  obtain ⟨c⟩ := o
  intro w x b w' hw hi hd he
  have hstep : RemovalStep cfg calls id t P c fun _ => P :=
    removal_notWorking hc hP fun _ _ h => h
  exact hstep w x b w' hi hw hd he

/-- A step of the one worker. -/
theorem workerRemoval_step (hone : OneWorker calls) (ht : calls t = .worker) {c : Cmd}
    {P : World → Prop}
    {R : c.Ans → World → Prop}
    (ha : ∀ w x, P w → (⟨t, c, x⟩ : Record).attempts id → awaitsRemoval id w.trace = false)
    (hR : ∀ w x b w', P w → exec t (.mk c) x w = some (b, w') → R b w') :
    RemovalStep cfg calls id t P c R := by
  intro w x b w' hi hw _ hexec
  have he : exec t (.mk c) x w = some (b, w') := hexec
  exact ⟨removesFirst_exec he hi (ha w x hw),
    fun i hit hi => absurd (hone t i ht hi) hit, hR w x b w' hw he⟩

theorem begin_square (hone : OneWorker calls) (ht : calls t = .worker) {m : OutboundMessage} :
    RemovalStep cfg calls id t (Square id) (.task (.log (.sending m))) fun _ =>
      RemovalDue id .begun m := by
  refine workerRemoval_step hone ht (fun w x hw _ => hw) fun w x b w' hw he => Square.due ?_
  have hsame : awaitsRemoval id w'.trace = awaitsRemoval id w.trace := by
    rw [exec_trace he]
    exact awaitsRemoval_cons rfl (by simp)
  exact hsame.trans hw

theorem submit_due (hone : OneWorker calls) (ht : calls t = .worker) {m : OutboundMessage}
    {account : Account} {draft : Draft} (hsource : draft.source = m) :
    RemovalStep cfg calls id t (RemovalDue id .begun m) (.jmap account (.submitBatch draft))
      fun r => RemovalDue id (.ofReply r) m := by
  refine workerRemoval_step hone ht (fun w x _ h => by cases h) fun w x b w' hw he => ?_
  have hsquare : Square id w := hw.square (by simp)
  intro hawaits
  rw [exec_trace he] at hawaits
  cases hconfirms : (⟨t, .jmap account (.submitBatch draft), x⟩ : Record).confirms id with
  | false =>
    rw [awaitsRemoval_cons hconfirms (by simp), hsquare] at hawaits
    cases hawaits
  | true =>
    have hid : draft.source.id = id := eq_of_beq (confirms_batches hconfirms)
    refine ⟨?_, hsource ▸ hid⟩
    unfold Record.confirms at hconfirms
    split at hconfirms
    case h_1 _ email hc hx =>
      have hx : x = .reply (.batch ⟨some email, true⟩) := hx
      subst hx
      rcases exec_reply he with ⟨reply, v, hreply, rfl, hv⟩ | ⟨hnone, -⟩
      · obtain rfl := Answer.reply.inj hreply
        obtain rfl := Option.some.inj hv
        rfl
      · exact absurd rfl (hnone _)
    case h_2 => cases hconfirms

theorem remove_due (hone : OneWorker calls) (ht : calls t = .worker) {s : Stage}
    {m : OutboundMessage} : RemovalStep cfg calls id t (RemovalDue id s m)
      (.store (.removeFromOutboundQueue m.id)) fun _ => Square id := by
  refine workerRemoval_step hone ht (fun w x _ h => by cases h) fun w x b w' hw he => ?_
  have hnot : (⟨t, .store (.removeFromOutboundQueue m.id), x⟩ : Record).confirms id = false := rfl
  change awaitsRemoval id w'.trace = false
  rw [exec_trace he]
  by_cases hid : m.id = id
  · rw [awaitsRemoval, hnot]
    simp [hid]
  · rw [awaitsRemoval_cons hnot (by simpa using hid)]
    exact Bool.eq_false_iff.mpr fun hawaits => hid (hw hawaits).2

theorem worker_removes (hone : OneWorker calls) (ht : calls t = .worker) :
    Working (bridge cfg calls) (finishesRow calls id) (removalContract calls id) t cfg (Square id)
      (fun _ => Square id) fun s m _ => RemovalDue id s m where
  stable_idle := Square.stable ht
  stable_todo := Square.stable ht
  stable := RemovalDue.stable ht
  sleep _ := removal_keeps (Square.stable ht) rfl
  client _ _ := removal_keeps (Square.stable ht) rfl
  ready _ _ _ _ hc :=
    removal_keeps (Square.stable ht) (not_workers_of_offQueue (Cmd.aside.offQueue hc))
  aside _ _ _ _ _ hc :=
    removal_keeps (RemovalDue.stable ht) (not_workers_of_offQueue (Cmd.aside.offQueue hc))
  unbegun _ _ _ h := h.due
  unsent _ _ _ h := (h.square (by simp)).due
  idle_of_todo _ h := h
  fetch := removal_notWorking rfl (Square.stable ht) fun b w h => by
    cases b with
    | ok _ => exact h
    | error _ => exact h
  ghost _ _ := removal_notWorking rfl (Square.stable ht) fun _ _ h => ⟨h, fun _ => h.due⟩
  begin _ _ := begin_square hone ht
  submit _ _ _ _ hsource _ := submit_due hone ht hsource
  notice _ _ s hs _ := by
    refine removal_notWorking rfl (RemovalDue.stable ht) fun _ _ h => Square.due (h.square ?_)
    rcases hs with rfl | rfl
    · simp
    · simp
  remove s _ _ _ := (remove_due hone ht).post fun _ _ _ h => h.due
  retry _ _ := removal_notWorking rfl (RemovalDue.stable ht) fun _ _ h => (h.square (by simp)).due
  drop _ _ := removal_notWorking rfl (RemovalDue.stable ht) fun _ _ h => h.square (by simp)

end

theorem removal_upholds {cfg : Config} {calls : Nat → Call} (hone : OneWorker calls) (id : Nat) :
    Upholds (bridge cfg calls) (finishesRow calls id) (removalContract calls id) where
  start := by
    intro t w hi hidle _
    by_cases ht : calls t = .worker
    · have hworks :
          Working (bridge cfg calls) (finishesRow calls id) (removalContract calls id) t cfg
          (Square id) (fun _ => Square id) fun s m _ => RemovalDue id s m := worker_removes hone ht
      have hprog := hworks.runRetryLoop_triple w hi (hidle ht)
      change Prog.wp _ _ _ t ((calls t).program cfg) _ w
      rw [ht]
      exact Prog.wp_mono (fun _ _ _ h _ => h) hprog
    · have hkeep : Triple (bridge cfg calls) (finishesRow calls id) (removalContract calls id) t
          (fun _ => True) ((calls t).program cfg) fun _ _ => True :=
        .only (Stable.const True) (Prog.Only.mono
          (fun _ _ h => removal_keeps (Stable.const True) h) (program_notWorking ht))
      exact Prog.wp_mono (fun _ _ _ _ h => absurd h ht) (hkeep w hi trivial)
  env := by
    intro ev w w' hi _ h
    have htrace : w'.trace = w.trace := (env_sameRecords h).1
    have hi' : RemovesFirst id w'.trace := htrace ▸ hi
    exact ⟨hi', fun i _ => by rw [htrace]⟩
  cancel := fun t w hi hd => ⟨hi, fun i _ _ => rfl, hd⟩

/-- In every run with one worker, copies and accepted submissions of a row are no more than
its attempts, of which each has its own batch, and there is none after its removal. Unless the
worker is stopped in between, its removal has been tried before any attempt that follows a
confirmed one. -/
theorem duplicates_only_by_retry {cfg : Config} {calls : Nat → Call} (hone : OneWorker calls)
    {w : World} (hw : w.store.outboundQueue = ∅) (htrace : w.trace = [])
    {es : List (Event Answer Env)} {q : Pool Op World}
    (hrun : (bridge cfg calls).run es (Pool.boot w) = some q) (id : Nat) :
    q.world.trace.countP (·.creates id) ≤ q.world.trace.countP (·.attempts id) ∧
      q.world.trace.countP (·.accepts id) ≤ q.world.trace.countP (·.attempts id) ∧
      RetriedOnly id q.world.trace ∧
      ((bridge cfg calls).Admits (finishesRow calls id).meets es (Pool.boot w) →
        RemovesFirst id q.world.trace) := by
  have hinv : ResendInv w := by
    refine ⟨fun id => htrace ▸ .nil id, fun id row h => ?_, fun id h => ?_⟩
    · simp [hw] at h
    · simp [rowRemoved, htrace] at h
  have hend : ResendInv q.world :=
    (resend_upholds hone).inv_of_run hinv (fun _ => trivial) hrun (System.admits_free es _)
  refine ⟨countP_le_attempts (hend.trace id) fun r hr => ?_,
    countP_le_attempts (hend.trace id) fun r hr => ?_, hend.trace id, fun hadmits => ?_⟩
  · exact (Bool.and_eq_true _ _ ▸ hr).1
  · exact (Bool.and_eq_true _ _ ▸ hr).1
  · have hfresh : (removalContract calls id).inv w := by
      intro newer r older h
      simp [htrace] at h
    have hidle : ∀ t, (removalContract calls id).idle t w := fun t _ => by rw [htrace]; rfl
    exact (removal_upholds hone id).inv_of_run hfresh hidle hrun hadmits

theorem oneMessage_oneWorker : OneWorker oneMessage := by
  have hworker : ∀ t, oneMessage t = .worker → t = 1 := by
    intro t h
    match t, h with
    | 1, _ => rfl
  intro t i ht hi
  rw [hworker t ht, hworker i hi]

/-- An attempt in which the mail server answers the batch with `a`. -/
def answeredTry (a : Answer) : List (Event Answer Env) :=
  (.tau 1 :: List.replicate 4 (.step 1 .done) : List (Event Answer Env)) ++
    ([.step 1 .failed, .step 1 .done, .step 1 (.reply (.queried { ids := ["sent"] })),
      .step 1 .failed,
      .step 1 a] : List (Event Answer Env))

def answeredRun : List (Event Answer Env) :=
  enqueued ++ answeredTry (.reply (.batch ⟨some "e1", false⟩)) ++
    ([.step 1 .done, .step 1 .done, .env (.advance 20000)] : List (Event Answer Env)) ++
    answeredTry (.lostReply (.batch ⟨some "e2", true⟩)) ++
    ([.step 1 .done, .step 1 .done, .env (.advance 20000)] : List (Event Answer Env)) ++
    answeredTry (.reply (.batch ⟨some "e3", true⟩))

theorem answeredRun_finishes : (bridge {} oneMessage).Admits (finishesRow oneMessage 1).meets
    answeredRun (Pool.boot mailRoom) := by
  refine System.admits_of_mem _ (fun e he q => ?_) _
  cases e with
  | cancel t => simp [answeredRun, enqueued, answeredTry] at he
  | step t a =>
    simp only [Discipline.meets]
    split <;> trivial
  | _ => trivial

theorem duplicates_only_by_retry_answered : ∃ q,
    (bridge {} oneMessage).run answeredRun (Pool.boot mailRoom) = some q ∧
      q.world.trace.countP (·.creates 1) ≤ q.world.trace.countP (·.attempts 1) ∧
      q.world.trace.countP (·.accepts 1) ≤ q.world.trace.countP (·.attempts 1) ∧
      RetriedOnly 1 q.world.trace ∧ RemovesFirst 1 q.world.trace := by
  have hends : ((bridge {} oneMessage).run answeredRun (Pool.boot mailRoom)).isSome := by
    decide +kernel
  obtain ⟨q, hq⟩ := Option.isSome_iff_exists.mp hends
  obtain ⟨hcreates, haccepts, hretried, hremoves⟩ :=
    duplicates_only_by_retry oneMessage_oneWorker rfl rfl hq 1
  exact ⟨q, hq, hcreates, haccepts, hretried, hremoves answeredRun_finishes⟩

/-- A rejected submission and a lost reply: three copies and two submissions of one message. -/
theorem retries_duplicate : OneWorker oneMessage ∧
    ((bridge {} oneMessage).run answeredRun (Pool.boot mailRoom)).map (fun q =>
      (q.world.trace.countP (·.creates 1), q.world.trace.countP (·.accepts 1))) = some (3, 2) := by
  refine ⟨oneMessage_oneWorker, ?_⟩
  decide +kernel

end JmapBridge
