import JmapBridge.Property.QueueExit

/-! Redactions, edits and logout against the worker, which submits from the copies it has
fetched. What is neither queued nor fetched any more is not submitted. -/

namespace JmapBridge

open Effect

/-- A property of queued messages in terms of id, user, event and body. -/
abbrev MailPred := Nat → UserId → EventId → String → Prop

def OutboundMessage.Is (bad : MailPred) (m : OutboundMessage) : Prop :=
  bad m.id m.matrixUserId m.eventId m.bodyText

def Record.draft (r : Record) : Option Draft :=
  match r.cmd with
  | .jmap _ (.submitBatch draft) => some draft
  | _ => none

/-- No `bad` message with an id below `n` is queued, or fetched and waiting. -/
structure Untainted (n : Nat) (bad : MailPred) (w : World) : Prop where
  next : n ≤ w.store.nextOutboundId
  rows : ∀ id row, w.store.outboundQueue.lookup id = some row →
    ¬ bad id row.matrixUserId row.eventId row.bodyText
  waiting : ∀ s ∈ w.snapshot, ¬ s.2.Is bad

/-- The command makes no message `bad`. -/
def Cmd.Harmless (n : Nat) (bad : MailPred) : Cmd → Prop
  | store (.addToOutboundQueue user _ event body _ _ _ _) => ∀ id, n ≤ id → ¬ bad id user event body
  | store (.updateOutboundBodyByEvent event body) =>
    ∀ id user body', ¬ bad id user event body' → ¬ bad id user event body
  | _ => True

/-- What happens between two states: as long as nothing makes a message `bad`, none is
submitted from a clean state, and every submission carries the body of its message. -/
def Since (w w' : World) : Prop :=
  ∃ newer, w'.trace = newer ++ w.trace ∧
    (∀ r ∈ newer, ∀ d, r.draft = some d → Carries d.source.bodyText d.body) ∧
    ∀ n bad, Untainted n bad w →
      ((∀ r ∈ newer, r.cmd.Harmless n bad) → Untainted n bad w') ∧
      ∀ later r mid, newer = later ++ r :: mid → (∀ s ∈ mid, s.cmd.Harmless n bad) →
        ∀ d, r.draft = some d → ¬ d.source.Is bad

theorem Since.refl (w : World) : Since w w := by
  refine ⟨[], rfl,
    fun r hr => (by cases hr), fun n bad hc => ⟨fun _ => hc, fun later r mid h => ?_⟩⟩
  simp at h

theorem Since.trans {a b c : World} (hab : Since a b) (hbc : Since b c) : Since a c := by
  obtain ⟨old, hold, hcarry, hstep⟩ := hab
  obtain ⟨new, hnew, hcarry', hstep'⟩ := hbc
  refine ⟨new ++ old, by rw [hnew, hold, List.append_assoc], fun r hr => ?_, fun n bad hc => ?_⟩
  · rcases List.mem_append.mp hr with hr | hr
    · exact hcarry' r hr
    · exact hcarry r hr
  · obtain ⟨hclean, hsent⟩ := hstep n bad hc
    refine ⟨fun hall => ?_, fun later r mid heq hmid d hd => ?_⟩
    · have hb := hclean fun r hr => hall r (List.mem_append_right _ hr)
      exact (hstep' n bad hb).1 fun r hr => hall r (List.mem_append_left _ hr)
    · rcases List.append_eq_append_iff.mp heq with ⟨rest, rfl, hrest⟩ | ⟨rest, rfl, hrest⟩
      · exact hsent rest r mid hrest hmid d hd
      · cases rest with
        | nil => exact hsent [] r mid (by simpa using hrest.symm) hmid d hd
        | cons s rest =>
          obtain ⟨rfl, rfl⟩ := List.cons.inj hrest
          have hb := hclean fun r hr => hmid r (List.mem_append_right _ hr)
          exact (hstep' n bad hb).2 later r rest rfl
            (fun s hs => hmid s (List.mem_append_left _ hs)) d hd

def undoContract : Contract World where
  inv := fun _ => True
  rely := fun t w w' => Since w w' ∧ ∀ m, (t, m) ∈ w.snapshot → (t, m) ∈ w'.snapshot
  refl := fun _ w => ⟨.refl w, fun _ h => h⟩
  trans := fun hab hbc => ⟨hab.1.trans hbc.1, fun m h => hbc.2 m (hab.2 m h)⟩

section

variable {cfg : Config} {calls : Nat → Call} {t : Nat} {w w' : World} {α β : Type}

/-- The messages waiting after a command were waiting before, or are rows just fetched. -/
theorem snapshot_exec {c : Cmd} {x : Answer} {b : c.Ans} (h : exec t (.mk c) x w = some (b, w'))
    {s : Nat × OutboundMessage} (hs : s ∈ w'.snapshot) :
    s ∈ w.snapshot ∨
      ∃ row, w.store.outboundQueue.lookup s.2.id = some row ∧ s.2 = row.message s.2.id := by
  cases c with
  | store c =>
    rcases exec_store h with ⟨order, -, -, rfl⟩ | ⟨-, -, rfl⟩ | ⟨-, -, rfl⟩
    · rcases List.mem_append.mp hs with hnew | hold
      · cases c with
        | getPendingOutbound =>
          obtain ⟨m, hm, rfl⟩ := List.mem_map.mp hnew
          exact .inr (mem_pendingChoice hm)
        | _ => cases hnew
      · exact .inl hold
    · exact .inl hs
    · exact .inl hs
  | matrix c =>
    obtain ⟨⟨issued, rfl⟩, -⟩ := exec_matrix h
    exact .inl hs
  | jmap account c =>
    obtain ⟨mail, rfl⟩ := exec_jmap h
    left
    cases c with
    | submitBatch draft => exact List.mem_of_mem_erase hs
    | _ => exact hs
  | task c =>
    obtain ⟨-, -, rfl⟩ := exec_task h
    left
    cases c with
    | dropMessage m => exact List.mem_of_mem_erase hs
    | _ => exact hs

theorem waiting_exec {c : Cmd} {x : Answer} {b : c.Ans} (h : exec t (.mk c) x w = some (b, w'))
    {s : Nat × OutboundMessage} (hs : s ∈ w.snapshot)
    (hsubmit : ∀ account draft, c = .jmap account (.submitBatch draft) → s ≠ (t, draft.source))
    (hdrop : ∀ m, c = .task (.dropMessage m) → s ≠ (t, m)) : s ∈ w'.snapshot := by
  cases c with
  | store c =>
    rcases exec_store h with ⟨order, -, -, rfl⟩ | ⟨-, -, rfl⟩ | ⟨-, -, rfl⟩
    · exact List.mem_append_right _ hs
    · exact hs
    · exact hs
  | matrix c =>
    obtain ⟨⟨issued, rfl⟩, -⟩ := exec_matrix h
    exact hs
  | jmap account c =>
    obtain ⟨mail, rfl⟩ := exec_jmap h
    cases c with
    | submitBatch draft => exact (List.mem_erase_of_ne (hsubmit account draft rfl)).mpr hs
    | _ => exact hs
  | task c =>
    obtain ⟨-, -, rfl⟩ := exec_task h
    cases c with
    | dropMessage m => exact (List.mem_erase_of_ne (hdrop m rfl)).mpr hs
    | _ => exact hs

theorem clean_exec {c : Cmd} {x : Answer} {b : c.Ans} (h : exec t (.mk c) x w = some (b, w'))
    {n : Nat} {bad : MailPred} (hw : Untainted n bad w) (hc : c.Harmless n bad) :
      Untainted n bad w' := by
  refine ⟨?_, fun id row' hrow' => ?_, fun s hs => ?_⟩
  · rcases exec_run h with hs | ⟨q, order, rfl, -, hs⟩
    · rw [hs]
      exact hw.next
    · rw [hs]
      exact hw.next.trans (queue_run q w.now order w.store).next
  · rcases exec_run h with hs | ⟨q, order, rfl, -, hs⟩
    · exact hw.rows id row' (hs ▸ hrow')
    · have hq := queue_run q w.now order w.store
      rw [← hs] at hq
      rcases hq.row id row' hrow' with ⟨row, hrow, hsame, hbody⟩ | ⟨hid, -, html, thread, files,
        delay, rfl⟩
      · have hnot := hw.rows id row hrow
        rw [hsame.user, hsame.event]
        rcases hbody with hbody | rfl
        · rwa [hbody]
        · exact hc id row.matrixUserId row.bodyText hnot
      · exact hc id (hid ▸ hw.next)
  · rcases snapshot_exec h hs with hold | ⟨row, hrow, heq⟩
    · exact hw.waiting s hold
    · have hnot := hw.rows s.2.id row hrow
      rw [heq]
      exact hnot

theorem since_exec {c : Cmd} {x : Answer} {b : c.Ans} (h : exec t (.mk c) x w = some (b, w'))
    (hsubmit : ∀ account d, c = .jmap account (.submitBatch d) →
      (t, d.source) ∈ w.snapshot ∧ Carries d.source.bodyText d.body) : Since w w' := by
  have hdraft : ∀ d, (⟨t, c, x⟩ : Record).draft = some d →
      (t, d.source) ∈ w.snapshot ∧ Carries d.source.bodyText d.body := by
    intro d hd
    unfold Record.draft at hd
    split at hd
    case h_1 account d' hc =>
      obtain rfl : d' = d := Option.some.inj hd
      exact hsubmit account d' hc
    case h_2 => cases hd
  refine ⟨[⟨t, c, x⟩], exec_trace h, fun r hr d hd => ?_, fun n bad hw => ⟨fun hall => ?_, ?_⟩⟩
  · obtain rfl := List.mem_singleton.mp hr
    exact (hdraft d hd).2
  · exact clean_exec h hw (hall _ List.mem_cons_self)
  · intro later r mid heq _ d hd
    have hr : r = ⟨t, c, x⟩ := by
      have hmem : r ∈ [(⟨t, c, x⟩ : Record)] := heq ▸ List.mem_append_right _ List.mem_cons_self
      exact List.mem_singleton.mp hmem
    rw [hr] at hd
    exact hw.waiting _ (hdraft d hd).1

abbrev UndoStep (cfg : Config) (calls : Nat → Call) (t : Nat) (P : World → Prop) (c : Cmd)
    (R : c.Ans → World → Prop) : Prop :=
  Step (bridge cfg calls) {} undoContract t P (.mk c) R

theorem since_step {c : Cmd} {P : World → Prop} {R : c.Ans → World → Prop}
    (hsubmit : ∀ w account d, P w → c = .jmap account (.submitBatch d) →
      (t, d.source) ∈ w.snapshot ∧ Carries d.source.bodyText d.body)
    (hR : ∀ w x b w', P w → Since w w' → exec t (.mk c) x w = some (b, w') → R b w') :
    UndoStep cfg calls t P c R := by
  intro w x b w' _ hw _ hexec
  have he : exec t (.mk c) x w = some (b, w') := hexec
  have hsince : Since w w' := since_exec he fun account d hc => hsubmit w account d hw hc
  refine ⟨trivial, fun i hit => ⟨hsince, fun m hm => ?_⟩, hR w x b w' hw hsince he⟩
  refine waiting_exec he hm (fun account d _ heq => ?_) fun m' _ heq => ?_
  · exact hit (congrArg Prod.fst heq)
  · exact hit (congrArg Prod.fst heq)

theorem not_submits {c : Cmd} (hc : c.workers = false) {account : Account} {d : Draft} :
    c ≠ .jmap account (.submitBatch d) := by
  rintro rfl
  cases hc

/-- The messages of a round that worker `t` still has in hand. -/
def InHand (t : Nat) (l : List OutboundMessage) (w : World) : Prop :=
  l.Nodup ∧ ∀ m ∈ l, (t, m) ∈ w.snapshot

def Handling (t : Nat) (s : Stage) (m : OutboundMessage) (rest : List OutboundMessage)
    (w : World) : Prop :=
  (m :: rest).Nodup ∧ (s = .begun → (t, m) ∈ w.snapshot) ∧ InHand t rest w

theorem InHand.stable {l : List OutboundMessage} : Stable undoContract t (InHand t l) :=
  fun _ _ h hr _ => ⟨h.1, fun m hm => hr.2 m (h.2 m hm)⟩

theorem Handling.stable {s : Stage} {m : OutboundMessage} {rest : List OutboundMessage} :
    Stable undoContract t (Handling t s m rest) :=
  fun w w' h hr hi =>
    ⟨h.1, fun hs => hr.2 m (h.2.1 hs), InHand.stable w w' h.2.2 hr hi⟩

theorem InHand.head {s : Stage} {m : OutboundMessage} {rest : List OutboundMessage}
    (h : InHand t (m :: rest) w) : Handling t s m rest w :=
  ⟨h.1, fun _ => h.2 m List.mem_cons_self, (List.nodup_cons.mp h.1).2,
    fun n hn => h.2 n (List.mem_cons_of_mem _ hn)⟩

theorem unmoved_keeps {P : World → Prop} (hP : Stable undoContract t P) {c : Cmd}
    (hsubmit : ∀ account d, c ≠ .jmap account (.submitBatch d))
    (hdrop : ∀ m, c ≠ .task (.dropMessage m)) {x : Answer} {b : c.Ans} (hw : P w)
    (h : exec t (.mk c) x w = some (b, w')) : P w' := by
  have hsince : Since w w' := since_exec h fun account d hc => absurd hc (hsubmit account d)
  have hwaiting : ∀ m, (t, m) ∈ w.snapshot → (t, m) ∈ w'.snapshot := fun m hm =>
    waiting_exec h hm (fun account d hc => absurd hc (hsubmit account d)) fun m' hc =>
      absurd hc (hdrop m')
  exact hP w w' hw ⟨hsince, hwaiting⟩ trivial

theorem unmoved_step {P : World → Prop} (hP : Stable undoContract t P) {c : Cmd}
    (hsubmit : ∀ account d, c ≠ .jmap account (.submitBatch d))
    (hdrop : ∀ m, c ≠ .task (.dropMessage m)) {R : c.Ans → World → Prop}
    (hR : ∀ w x b w', P w' → exec t (.mk c) x w = some (b, w') → R b w') :
    UndoStep cfg calls t P c R :=
  since_step (fun _ account d _ hc => absurd hc (hsubmit account d)) fun w x b w' hw _ he =>
    hR w x b w' (unmoved_keeps hP hsubmit hdrop hw he) he

theorem aside_unmoved {P : World → Prop} (hP : Stable undoContract t P) {o : Op β}
    (hc : o.cmd.aside) : Keeps (bridge cfg calls) {} undoContract t P β o := by
  obtain ⟨c⟩ := o
  have hq : c.offQueue := Cmd.aside.offQueue hc
  have hdrop : ∀ m, c ≠ .task (.dropMessage m) := by
    rintro m rfl
    cases hq
  intro w x b w' hw hi hd he
  have hstep : UndoStep cfg calls t P c fun _ => P :=
    unmoved_step hP (fun _ _ => not_submits (not_workers_of_offQueue hq)) hdrop
      fun _ _ _ _ h _ => h
  exact hstep w x b w' hi hw hd he

theorem hand_fetch :
    UndoStep cfg calls t (InHand t []) (.store .getPendingOutbound)
      (post (InHand t) fun _ => InHand t []) := by
  have hnone : ∀ w, InHand t [] w := fun w => ⟨List.nodup_nil, fun m hm => by cases hm⟩
  refine unmoved_step InHand.stable (fun _ _ h => by cases h) (fun _ h => by cases h)
    fun w x b w' _ he => ?_
  rcases exec_store he with ⟨order, -, rfl, rfl⟩ | ⟨-, rfl, -⟩ | ⟨-, rfl, -⟩
  · refine ⟨List.Nodup.of_map _ (pendingChoice_nodup w.store w.now order), fun m hm => ?_⟩
    exact List.mem_append_left _ (List.mem_map_of_mem hm)
  · exact hnone _
  · exact hnone _

theorem hand_submit {m : OutboundMessage} {rest : List OutboundMessage} {account : Account}
    {draft : Draft} (hsource : draft.source = m) (hbody : Carries m.bodyText draft.body) :
    UndoStep cfg calls t (Handling t .begun m rest) (.jmap account (.submitBatch draft))
      fun r => Handling t (.ofReply r) m rest := by
  refine since_step (fun w account d hw hc => ?_) fun w x b w' hw _ he => ?_
  · cases hc
    rw [hsource]
    exact ⟨hw.2.1 rfl, hbody⟩
  · refine ⟨hw.1, fun hs => ?_, hw.2.2.1, fun n hn => ?_⟩
    · unfold Stage.ofReply at hs
      split at hs <;> cases hs
    · have hne : n ≠ m := fun heq => (List.nodup_cons.mp hw.1).1 (heq ▸ hn)
      refine waiting_exec he (hw.2.2.2 n hn) (fun account d hc heq => ?_) fun _ hc => by cases hc
      cases hc
      exact hne ((congrArg Prod.snd heq).trans hsource)

theorem hand_drop {m : OutboundMessage} {rest : List OutboundMessage} :
    UndoStep cfg calls t (Handling t .ended m rest) (.task (.dropMessage m))
      fun _ => InHand t rest := by
  refine since_step (fun _ _ _ _ hc => by cases hc) fun w x b w' hw _ he => ?_
  refine ⟨hw.2.2.1, fun n hn => ?_⟩
  have hne : n ≠ m := fun heq => (List.nodup_cons.mp hw.1).1 (heq ▸ hn)
  refine waiting_exec he (hw.2.2.2 n hn) (fun _ _ hc => by cases hc) fun m' hc heq => ?_
  cases hc
  exact hne (congrArg Prod.snd heq)

theorem worker_hands :
    Working (bridge cfg calls) {} undoContract t cfg (InHand t []) (InHand t) (Handling t) where
  stable_idle := InHand.stable
  stable_todo := InHand.stable
  stable := Handling.stable
  sleep _ := aside_unmoved InHand.stable rfl
  client todo user := fun w x b w' hw hi hd he => by
    have hstep : UndoStep cfg calls t (InHand t todo) (.task (.getClient user))
        fun _ => InHand t todo :=
      unmoved_step InHand.stable (fun _ _ h => by cases h) (fun _ h => by cases h)
        fun _ _ _ _ h _ => h
    exact hstep w x b w' hi hw hd he
  ready _ _ _ _ hc := aside_unmoved InHand.stable hc
  aside _ _ _ _ _ hc := aside_unmoved Handling.stable hc
  unbegun _ _ _ h := h.head
  unsent _ _ _ h := ⟨h.1, fun hs => (by cases hs), h.2.2⟩
  idle_of_todo _ h := h
  fetch := hand_fetch
  ghost _ _ := unmoved_step InHand.stable (fun _ _ h => by cases h) (fun _ h => by cases h)
    fun _ _ _ _ h _ => ⟨h, fun _ => h.head⟩
  begin _ _ := unmoved_step InHand.stable (fun _ _ h => by cases h) (fun _ h => by cases h)
    fun _ _ _ _ h _ => h.head
  submit _ _ _ _ hsource hbody := hand_submit hsource hbody
  notice _ _ _ hs _ := by
    refine unmoved_step Handling.stable (fun _ _ h => by cases h) (fun _ h => by cases h)
      fun _ _ _ _ h _ => ⟨h.1, fun hs => (by cases hs), h.2.2⟩
  remove _ _ _ _ := unmoved_step Handling.stable (fun _ _ h => by cases h) (fun _ h => by cases h)
    fun _ _ _ _ h _ => ⟨h.1, fun hs => (by cases hs), h.2.2⟩
  retry _ _ := unmoved_step Handling.stable (fun _ _ h => by cases h) (fun _ h => by cases h)
    fun _ _ _ _ h _ => ⟨h.1, fun hs => (by cases hs), h.2.2⟩
  drop _ _ := hand_drop

end

theorem undo_upholds {cfg : Config} {calls : Nat → Call} :
    Upholds (bridge cfg calls) {} undoContract where
  start := by
    intro t w hi _ _
    by_cases ht : calls t = .worker
    · have hhand : InHand t [] w := ⟨List.nodup_nil, fun m hm => by cases hm⟩
      have hworks : Working (bridge cfg calls) {} undoContract t cfg (InHand t []) (InHand t)
          (Handling t) := worker_hands
      have hprog := hworks.runRetryLoop_triple w hi hhand
      change Prog.wp _ _ _ t ((calls t).program cfg) _ w
      rw [ht]
      exact Prog.wp_mono (fun _ _ _ _ => trivial) hprog
    · have hkeep : ∀ β (o : Op β), o.cmd.workers = false →
          Keeps (bridge cfg calls) {} undoContract t (fun _ => True) β o := by
        rintro β ⟨c⟩ hc w x b w' hw hi hd he
        have hstep : UndoStep cfg calls t (fun _ => True) c fun _ _ => True :=
          since_step (fun _ account d _ h => absurd h (not_submits hc)) fun _ _ _ _ _ _ _ => trivial
        exact hstep w x b w' hi hw hd he
      have hprog : Triple (bridge cfg calls) {} undoContract t (fun _ => True)
          ((calls t).program cfg) fun _ _ => True :=
        .only (Stable.const True) (Prog.Only.mono hkeep (program_notWorking ht))
      exact hprog w hi trivial
  env := by
    intro ev w w' _ _ h
    have hsame : w'.trace = w.trace ∧ w'.snapshot = w.snapshot ∧
        w'.store.outboundQueue = w.store.outboundQueue ∧
        w'.store.nextOutboundId = w.store.nextOutboundId := by
      cases ev with
      | release key stored =>
        change (Env.release key stored).perform w = some w' at h
        simp only [Env.perform] at h
        split at h
        · obtain rfl := Option.some.inj h
          exact ⟨rfl, rfl, rfl, rfl⟩
        · cases h
      | _ =>
        obtain rfl := Option.some.inj h
        exact ⟨rfl, rfl, rfl, rfl⟩
    obtain ⟨htrace, hsnapshot, hqueue, hnext⟩ := hsame
    refine ⟨trivial, fun i => ⟨⟨[], htrace, fun r hr => (by cases hr), fun n bad hc =>
      ⟨fun _ => ⟨hnext ▸ hc.next, hqueue ▸ hc.rows, hsnapshot ▸ hc.waiting⟩,
        fun later r mid he => ?_⟩⟩,
      fun m hm => hsnapshot ▸ hm⟩⟩
    simp at he
  cancel := by
    intro t w _ _
    refine ⟨trivial, fun i hit => ⟨⟨[], rfl, fun r hr => (by cases hr), fun n bad hc =>
      ⟨fun _ => ⟨hc.next, hc.rows, fun s hs => hc.waiting s (List.mem_of_mem_filter hs)⟩,
        fun later r mid he => ?_⟩⟩, fun m hm => ?_⟩, trivial⟩
    · simp at he
    · exact List.mem_filter.mpr ⟨hm, by simpa using hit⟩

/-- Task `t` performs the command and gets the answer `b`. -/
def Performs (S : System Op World Answer Env) (t : Nat) (c : Cmd) (b : c.Ans)
    (q q' : Pool Op World) : Prop :=
  ∃ x k, q.tasks t = some (.op (.mk c) k) ∧ exec t (.mk c) x q.world = some (b, q'.world) ∧
    S.next (.step t x) q = some q'

def Record.enqueues (e : EventId) (r : Record) : Bool :=
  match r.cmd with
  | .store (.addToOutboundQueue _ _ event _ _ _ _ _) => event == e
  | _ => false

def Record.edits (e : EventId) (r : Record) : Bool :=
  match r.cmd with
  | .store (.updateOutboundBodyByEvent event _) => event == e
  | _ => false

section

variable {t : Nat} {w w' : World}

theorem harmless_of_not_enqueues {e : EventId} {r : Record} (h : r.enqueues e = false) :
    r.cmd.Harmless 0 fun _ _ event _ => event = e := by
  unfold Record.enqueues at h
  unfold Cmd.Harmless
  split
  · rename_i heq
    rw [heq] at h
    exact fun _ _ => by simpa using h
  · exact fun _ _ _ hn => hn
  · trivial

theorem harmless_of_untouched {e : EventId} {body : String} {r : Record}
    (h : r.enqueues e = false) (h' : r.edits e = false) :
    r.cmd.Harmless 0 fun _ _ event text => event = e ∧ text ≠ body := by
  unfold Record.enqueues at h
  unfold Record.edits at h'
  unfold Cmd.Harmless
  split
  · rename_i heq
    rw [heq] at h
    exact fun _ _ hbad => absurd hbad.1 (by simpa using h)
  · rename_i heq
    rw [heq] at h'
    exact fun _ _ _ _ hbad => absurd hbad.1 (by simpa using h')
  · trivial

theorem harmless_below (c : Cmd) (n : Nat) (u : UserId) :
    c.Harmless n fun id user _ _ => user = u ∧ id < n := by
  unfold Cmd.Harmless
  split
  · exact fun id hid hbad => absurd hbad.2 (Nat.not_lt.mpr hid)
  · exact fun _ _ _ hn => hn
  · trivial

theorem clean_of_cancel {x : Answer} {e : EventId}
    (h : exec t (.mk (.store (.cancelOutboundByEvent e))) x w = some (.ok true, w'))
    (hfree : ∀ s ∈ w.snapshot, s.2.eventId ≠ e) :
      Untainted 0 (fun _ _ event _ => event = e) w' := by
  rcases exec_store h with ⟨order, -, -, rfl⟩ | ⟨-, hb, -⟩ | ⟨-, hb, -⟩
  · refine ⟨Nat.zero_le _, fun id row hrow => ?_, hfree⟩
    have hdel := (Sql.Table.lookup_of_lookup_deleteWhere hrow).2
    simpa using hdel
  · cases hb
  · cases hb

theorem clean_of_update {x : Answer} {e : EventId} {body : String}
    (h : exec t (.mk (.store (.updateOutboundBodyByEvent e body))) x w = some (.ok true, w'))
    (hfree : ∀ s ∈ w.snapshot, s.2.eventId ≠ e) :
    Untainted 0 (fun _ _ event text => event = e ∧ text ≠ body) w' := by
  rcases exec_store h with ⟨order, -, -, rfl⟩ | ⟨-, hb, -⟩ | ⟨-, hb, -⟩
  · refine ⟨Nat.zero_le _, fun id row hrow => ?_, fun s hs hbad => hfree s hs hbad.1⟩
    have hmod := Sql.Table.lookup_modifyWhere (fun _ r => r.eventId == e)
      (fun r : OutboundRow => { r with bodyText := body }) w.store.outboundQueue id
    obtain ⟨row₀, -, hrow₀⟩ := Option.map_eq_some_iff.mp (hmod.symm.trans hrow)
    by_cases he : row₀.eventId = e
    · simp only [he, beq_self_eq_true, if_true] at hrow₀
      rw [← hrow₀]
      exact fun hbad => hbad.2 rfl
    · simp only [beq_iff_eq, he, if_false] at hrow₀
      rw [← hrow₀]
      exact fun hbad => he hbad.1
  · cases hb
  · cases hb

theorem clean_of_clear {x : Answer} {u : UserId}
    (h : exec t (.mk (.store (.clearOutboundQueue u))) x w = some (.ok (), w'))
    (hfree : ∀ s ∈ w.snapshot, s.2.matrixUserId ≠ u) :
    Untainted w'.store.nextOutboundId
      (fun id user _ _ => user = u ∧ id < w'.store.nextOutboundId) w' := by
  rcases exec_store h with ⟨order, -, -, rfl⟩ | ⟨-, hb, -⟩ | ⟨-, hb, -⟩
  · refine ⟨Nat.le_refl _, fun id row hrow hbad => ?_, fun s hs hbad => hfree s hs hbad.1⟩
    have hdel := (Sql.Table.lookup_of_lookup_deleteWhere hrow).2
    simp [hbad.1] at hdel
  · cases hb
  · cases hb

end

/-- Undoing what no worker has fetched and not yet submitted: after a redaction its event is
not submitted, after an edit only with the new body, until the event is enqueued or edited
again, and after a logout no row of the user that was enqueued before. -/
theorem undo_window_honoured {cfg : Config} {calls : Nat → Call} {w : World}
    {es fs : List (Event Answer Env)} {q q₁ q₂ : Pool Op World} {t : Nat}
    (hrun : (bridge cfg calls).run es (Pool.boot w) = some q)
    (hrest : (bridge cfg calls).run fs q₁ = some q₂) :
    (∀ e, Performs (bridge cfg calls) t (.store (.cancelOutboundByEvent e)) (.ok true) q q₁ →
      (∀ s ∈ q.world.snapshot, s.2.eventId ≠ e) →
        ∃ newer, q₂.world.trace = newer ++ q₁.world.trace ∧
          ∀ later r mid, newer = later ++ r :: mid → (∀ s ∈ mid, s.enqueues e = false) →
            ∀ d, r.draft = some d → d.source.eventId ≠ e) ∧
    (∀ e body,
      Performs (bridge cfg calls) t (.store (.updateOutboundBodyByEvent e body)) (.ok true) q q₁ →
      (∀ s ∈ q.world.snapshot, s.2.eventId ≠ e) →
        ∃ newer, q₂.world.trace = newer ++ q₁.world.trace ∧
          ∀ later r mid, newer = later ++ r :: mid →
            (∀ s ∈ mid, s.enqueues e = false ∧ s.edits e = false) →
              ∀ d, r.draft = some d → d.source.eventId = e → Carries body d.body) ∧
    ∀ u, Performs (bridge cfg calls) t (.store (.clearOutboundQueue u)) (.ok ()) q q₁ →
      (∀ s ∈ q.world.snapshot, s.2.matrixUserId ≠ u) →
        ∃ newer, q₂.world.trace = newer ++ q₁.world.trace ∧
          ∀ r ∈ newer, ∀ d, r.draft = some d → d.source.matrixUserId = u →
            q₁.world.store.nextOutboundId ≤ d.source.id := by
  have hboot : Upholds.PoolInv (bridge cfg calls) {} undoContract (Pool.boot w) :=
    Upholds.poolInv_boot trivial fun _ => trivial
  have hq := undo_upholds.poolInv_of_run hboot hrun (System.admits_free es _)
  have hmeets : ∀ x, (Discipline.meets ({} : Discipline Op World Answer Env)) (.step t x) q := by
    intro x
    simp only [Discipline.meets]
    split <;> trivial
  have hsince : ∀ {c : Cmd} {b : c.Ans}, Performs (bridge cfg calls) t c b q q₁ →
      Since q₁.world q₂.world := by
    rintro c b ⟨x, k, -, -, hnext⟩
    have hq₁ := undo_upholds.poolInv_next hq (hmeets x) hnext
    exact undo_upholds.run_guarantee (fun _ _ _ h => h.1) (fun _ _ _ => Since.trans) hq₁ hrest
      (System.admits_free fs _)
  refine ⟨fun e hp hfree => ?_, fun e body hp hfree => ?_, fun u hp hfree => ?_⟩
  · obtain ⟨newer, htrace, -, hstep⟩ := hsince hp
    obtain ⟨x, k, -, hexec, -⟩ := hp
    have hsent := (hstep 0 _ (clean_of_cancel hexec hfree)).2
    exact ⟨newer, htrace, fun later r mid heq hmid d hd =>
      hsent later r mid heq (fun s hs => harmless_of_not_enqueues (hmid s hs)) d hd⟩
  · obtain ⟨newer, htrace, hcarry, hstep⟩ := hsince hp
    obtain ⟨x, k, -, hexec, -⟩ := hp
    have hsent := (hstep 0 _ (clean_of_update hexec hfree)).2
    refine ⟨newer, htrace, fun later r mid heq hmid d hd he => ?_⟩
    have hnot := hsent later r mid heq
      (fun s hs => harmless_of_untouched (hmid s hs).1 (hmid s hs).2) d hd
    have hbody : d.source.bodyText = body := Classical.not_not.mp fun hne => hnot ⟨he, hne⟩
    exact hbody ▸ hcarry r (heq ▸ List.mem_append_right _ List.mem_cons_self) d hd
  · obtain ⟨newer, htrace, -, hstep⟩ := hsince hp
    obtain ⟨x, k, -, hexec, -⟩ := hp
    have hsent := (hstep _ _ (clean_of_clear hexec hfree)).2
    refine ⟨newer, htrace, fun r hr d hd hu => ?_⟩
    obtain ⟨later, mid, heq⟩ := List.append_of_mem hr
    have hnot := hsent later r mid heq (fun s _ => harmless_below s.cmd _ u) d hd
    exact Nat.not_lt.mp fun hlt => hnot ⟨hu, hlt⟩

/-- The command that task `t` is about to perform. -/
def pending (q : Pool Op World) (t : Nat) : Option Cmd :=
  match q.tasks t with
  | some (.op o _) => some o.cmd
  | _ => none

theorem performs_of_pending {cfg : Config} {calls : Nat → Call} {t : Nat} {q q₁ : Pool Op World}
    {c : Cmd} {b : c.Ans} {x : Answer} (hpending : pending q t = some c)
    (hanswer : (exec t (.mk c) x q.world).map (·.1) = some b)
    (hnext : (bridge cfg calls).next (.step t x) q = some q₁) :
    Performs (bridge cfg calls) t c b q q₁ := by
  obtain ⟨β, o, k, b', w', htask, hexec, rfl⟩ := System.next_step hnext
  obtain ⟨c'⟩ := o
  have hc : c' = c := by simpa [pending, htask, Op.cmd] using hpending
  subst hc
  obtain ⟨r, hr, rfl⟩ := Option.map_eq_some_iff.mp hanswer
  have hr' : some r = some (b', w') := hr.symm.trans hexec
  obtain rfl := Option.some.inj hr'
  exact ⟨x, k, htask, hexec, hnext⟩

/-- Task 0 hands in one message, task 1 is the worker, and tasks 2 to 4 redact the message,
edit it, and log its author out. -/
def undoing : Nat → Call
  | 0 => .transaction "1" ⟨[.message "@a:localhost" "!r" "$m" "hello" none none], []⟩
  | 1 => .worker
  | 2 => .transaction "2" ⟨[.redaction "@a:localhost" "!r" (some "$m")], []⟩
  | 3 => .transaction "3"
    ⟨[.message "@a:localhost" "!r" "$edit" "* bye" none (some (.replacement "$m" "bye"))], []⟩
  | 4 => .logout "@a:localhost"
  | _ => .prune

/-- The worker fetches the message and its client. -/
def fetched : List (Event Answer Env) := .tau 1 :: List.replicate 3 (.step 1 .done)

/-- And goes on to submit it, with success. -/
def handedOver : List (Event Answer Env) :=
  [.step 1 .done, .step 1 .failed, .step 1 .done, .step 1 (.reply (.queried { ids := ["sent"] })),
    .step 1 .failed, .step 1 (.reply (.batch ⟨some "e1", true⟩))]

/-- After `es` task `t` performs `c` with the answer `b`, and `fs` ends with the submission of
`d`. -/
def SubmitsAfter (es : List (Event Answer Env)) (t : Nat) (c : Cmd) (b : c.Ans)
    (fs : List (Event Answer Env)) (good : Draft → Pool Op World → Prop) : Prop :=
  ∃ q q₁ q₂, (bridge {} undoing).run es (Pool.boot mailRoom) = some q ∧
    Performs (bridge {} undoing) t c b q q₁ ∧ (bridge {} undoing).run fs q₁ = some q₂ ∧
    ∃ r newer d, q₂.world.trace = r :: newer ++ q₁.world.trace ∧ r.draft = some d ∧ good d q₁

theorem submitsAfter_of_run {es fs : List (Event Answer Env)} {t : Nat} {c : Cmd} {b : c.Ans}
    {good : Draft → Pool Op World → Prop} [∀ d q, Decidable (good d q)] {n : Nat}
    (h : (((bridge {} undoing).run es (Pool.boot mailRoom)).bind fun q =>
      ((bridge {} undoing).next (.step t .done) q).bind fun q₁ =>
        ((bridge {} undoing).run fs q₁).bind fun q₂ =>
          if pending q t = some c ∧ q₂.world.trace.drop (n + 1) = q₁.world.trace ∧
            ((q₂.world.trace.head?.bind Record.draft).any fun d => decide (good d q₁)) = true
          then (exec t (.mk c) .done q.world).map (·.1) else none) = some b) :
    SubmitsAfter es t c b fs good := by
  obtain ⟨q, hq, h⟩ := Option.bind_eq_some_iff.mp h
  obtain ⟨q₁, hq₁, h⟩ := Option.bind_eq_some_iff.mp h
  obtain ⟨q₂, hq₂, h⟩ := Option.bind_eq_some_iff.mp h
  split at h
  case isTrue hcond =>
    obtain ⟨hpending, hdrop, hgood⟩ := hcond
    obtain ⟨d, hd, hgood⟩ : ∃ d, q₂.world.trace.head?.bind Record.draft = some d ∧ good d q₁ := by
      simpa [Option.any_eq_true] using hgood
    obtain ⟨r, hr, hdraft⟩ := Option.bind_eq_some_iff.mp hd
    have htrace : q₂.world.trace = r :: (q₂.world.trace.tail.take n ++ q₁.world.trace) := by
      rw [← hdrop]
      cases htr : q₂.world.trace with
      | nil => simp [htr] at hr
      | cons r' rest =>
        have hr' : r' = r := by simpa [htr] using hr
        simp [hr', List.take_append_drop]
    exact ⟨q, q₁, q₂, hq, performs_of_pending hpending h hq₁, hq₂, r, _, d, htrace, hdraft, hgood⟩
  case isFalse => cases h

theorem undo_window_honoured_edited : ∃ q q₁ q₂,
    (bridge {} undoing).run (enqueued ++ [.start 3, .step 3 .done]) (Pool.boot mailRoom) = some q ∧
      (bridge {} undoing).run (fetched ++ handedOver) q₁ = some q₂ ∧
      Performs (bridge {} undoing) 3 (.store (.updateOutboundBodyByEvent "$m" "bye")) (.ok true)
        q q₁ ∧
      ∃ newer, q₂.world.trace = newer ++ q₁.world.trace ∧
        ∀ later r mid, newer = later ++ r :: mid →
          (∀ s ∈ mid, s.enqueues "$m" = false ∧ s.edits "$m" = false) →
            ∀ d, r.draft = some d → d.source.eventId = "$m" → Carries "bye" d.body := by
  have hends :
      (((bridge {} undoing).run (enqueued ++ [.start 3, .step 3 .done]) (Pool.boot mailRoom)).bind
    fun q =>
      ((bridge {} undoing).next (.step 3 .done) q).bind fun q₁ =>
        ((bridge {} undoing).run (fetched ++ handedOver) q₁).bind fun _ =>
          if pending q 3 = some (.store (.updateOutboundBodyByEvent "$m" "bye")) ∧
            q.world.snapshot = [] then
            (exec 3 (.mk (.store (.updateOutboundBodyByEvent "$m" "bye"))) .done q.world).map (·.1)
          else none) = some (.ok true) := by decide +kernel
  obtain ⟨q, hq, hends⟩ := Option.bind_eq_some_iff.mp hends
  obtain ⟨q₁, hq₁, hends⟩ := Option.bind_eq_some_iff.mp hends
  obtain ⟨q₂, hq₂, hends⟩ := Option.bind_eq_some_iff.mp hends
  split at hends
  case isTrue hcond =>
    have hperforms := performs_of_pending hcond.1 hends hq₁
    refine ⟨q, q₁, q₂, hq, hq₂, hperforms,
      (undo_window_honoured hq hq₂).2.1 "$m" "bye" hperforms fun s hs => ?_⟩
    rw [hcond.2] at hs
    cases hs
  case isFalse => cases hends

/-- The worker submits the copy it has fetched: of a message that was unsent, with the old body
of an edited one, and of one whose author has logged out. -/
theorem fetched_copy_is_sent :
    SubmitsAfter (enqueued ++ fetched ++ [.start 2, .step 2 .done]) 2
      (.store (.cancelOutboundByEvent "$m"))
      (.ok true) handedOver (fun d _ => d.source.eventId = "$m") ∧
    SubmitsAfter (enqueued ++ fetched ++ [.start 3, .step 3 .done]) 3
      (.store (.updateOutboundBodyByEvent "$m" "bye")) (.ok true) handedOver
      (fun d _ => d.source.eventId = "$m" ∧ d.body = "hello") ∧
    SubmitsAfter (enqueued ++ fetched ++ [.start 4, .step 4 .done, .step 4 .done]) 4
      (.store (.clearOutboundQueue "@a:localhost")) (.ok ()) handedOver
      (fun d q₁ => d.source.matrixUserId = "@a:localhost" ∧
        d.source.id < q₁.world.store.nextOutboundId) := by
  refine ⟨submitsAfter_of_run (n := 5) ?_, submitsAfter_of_run (n := 5) ?_,
    submitsAfter_of_run (n := 5) ?_⟩
  · decide +kernel
  · decide +kernel
  · decide +kernel

end JmapBridge
