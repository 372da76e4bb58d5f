import JmapBridge.Model.EventLoop

/-! The requests for polls. Whenever the poll task waits at an empty channel, every request
ever sent was followed by the start of a poll, whatever was drained in between. -/

namespace JmapBridge

open Effect

def LoopRecord.starts (r : LoopRecord) : Bool := r.cmd == .beginPoll

/-- How many requests were sent since the last poll started. -/
def unserved (l : List LoopRecord) : Nat := (l.takeWhile fun r => !r.starts).countP (·.sends)

theorem unserved_send {r : LoopRecord} (h : r.sends) (l : List LoopRecord) :
    unserved (r :: l) = unserved l + 1 := by
  have hnot : r.starts = false := by
    have hcmd : r.cmd = .send := by simpa [LoopRecord.sends] using h
    simp [LoopRecord.starts, hcmd]
  simp [unserved, hnot, h]

theorem unserved_start {r : LoopRecord} (h : r.starts) (l : List LoopRecord) :
    unserved (r :: l) = 0 := by
  simp [unserved, h]

theorem unserved_cons_le {r : LoopRecord} (h : r.sends = false) (l : List LoopRecord) :
    unserved (r :: l) ≤ unserved l := by
  by_cases hs : r.starts
  · rw [unserved_start hs]
    exact Nat.zero_le _
  · simp [unserved, hs, h]

theorem start_after_send {l later earlier : List LoopRecord} {r : LoopRecord}
    (hl : l = later ++ r :: earlier) (hr : r.sends) (h : unserved l = 0) :
    ∃ s ∈ later, s.starts := by
  apply Classical.byContradiction
  intro hnone
  have hkeep : ∀ s ∈ later ++ [r], (!s.starts) = true := by
    intro s hs
    rcases List.mem_append.mp hs with hs | hs
    · have hnot : ¬ s.starts = true := fun ht => hnone ⟨s, hs, ht⟩
      simp [hnot]
    · obtain rfl := List.mem_singleton.mp hs
      have hcmd : s.cmd = .send := by simpa [LoopRecord.sends] using hr
      simp [LoopRecord.starts, hcmd]
  have hsplit : l.takeWhile (fun s => !s.starts) =
      (later ++ [r]) ++ earlier.takeWhile fun s => !s.starts := by
    have happ : l = (later ++ [r]) ++ earlier := by simp [hl]
    rw [happ, List.takeWhile_append_of_pos hkeep]
  have hcount : 0 < unserved l := by
    rw [unserved, hsplit]
    exact List.countP_pos_iff.mpr ⟨r, by simp, hr⟩
  omega

/-- What the others do puts as many requests into the channel as it leaves unserved. -/
def debounceContract : Contract LoopWorld where
  inv w := w.closed = false ∧ (w.parked → unserved w.trace = 0)
  rely t w w' := t = 1 → unserved w'.trace + w.queued ≤ unserved w.trace + w'.queued
  idle t w := t = 1 → unserved w.trace ≤ w.queued
  idle_stable := by
    intro t a b ha hr ht
    have hbefore := ha ht
    have hafter := hr ht
    omega
  refl t w _ := Nat.le_refl _
  trans := by
    intro t a b c hab hbc ht
    have hfirst := hab ht
    have hsecond := hbc ht
    omega

abbrev DebounceTriple (t : Nat) (P : LoopWorld → Prop) (p : Prog LoopOp α)
    (Q : α → LoopWorld → Prop) : Prop :=
  Triple loopSystem Unaborted debounceContract t P p Q

/-- Every request not yet served is in the channel. -/
def Served (w : LoopWorld) : Prop := unserved w.trace ≤ w.queued

theorem Served.stable : Stable debounceContract 1 Served := by
  intro w w' h hr _
  have hrely := hr rfl
  unfold Served at h ⊢
  omega

/-- The commands of the listener. -/
def LoopCmd.listens : LoopCmd → Bool
  | send => true
  | sleep _ => true
  | eventSource => true
  | nextEvent => true
  | _ => false

theorem listen_listens : listen.Only fun _ o => o.cmd.listens := by
  refine ⟨fun _ => .bind (Prog.only_call.mpr rfl) fun e => ?_, fun _ => trivial⟩
  cases e with
  | event => exact .bind (Prog.only_call.mpr rfl) fun _ => trivial
  | error => trivial
  | ended => trivial
  | idle => exact .bind (Prog.only_call.mpr rfl) fun _ => trivial

theorem runEventLoop_listens : runEventLoop.Only fun _ o => o.cmd.listens := by
  refine .bind (Prog.only_call.mpr rfl) fun _ => ⟨fun delay => ?_, fun b => b.elim⟩
  refine .bind (Prog.only_call.mpr rfl) fun subscribed => ?_
  cases subscribed with
  | true => exact .bind listen_listens fun _ => trivial
  | false => exact .bind (Prog.only_call.mpr rfl) fun _ => trivial

theorem listens_debounce {t : Nat} (o : LoopOp β) (ho : o.cmd.listens) :
    Keeps loopSystem Unaborted debounceContract t (fun _ => True) β o := by
  obtain ⟨c⟩ := o
  intro w a b w' _ hi _ h
  have he : loopExec t (.mk c) a w = some (b, w') := h
  have hquiet : c.onChannel = false → c ≠ .beginPoll →
      debounceContract.inv w' ∧ (∀ i, i ≠ t → debounceContract.rely i w w') ∧ True := by
    intro hc hstart
    have hw := loopExec_apart hc he
    have hsame : unserved w'.trace ≤ unserved w.trace := by
      rw [hw]
      apply unserved_cons_le
      cases c <;> simp_all [LoopRecord.sends, LoopCmd.onChannel]
    refine ⟨⟨by rw [hw]; exact hi.1, fun hp => ?_⟩, fun i _ _ => ?_, trivial⟩
    · have hzero := hi.2 (by rw [hw] at hp; exact hp)
      omega
    · have hqueued : w'.queued = w.queued := by rw [hw]
      omega
  cases c with
  | send =>
    obtain rfl := loopExec_send he
    refine ⟨⟨hi.1, fun hp => (by cases hp)⟩, fun i _ _ => ?_, trivial⟩
    show unserved (⟨t, .send, a⟩ :: w.trace) + w.queued ≤ unserved w.trace + (w.queued + 1)
    rw [unserved_send rfl]
    omega
  | sleep => exact hquiet rfl (by simp)
  | eventSource => exact hquiet rfl (by simp)
  | nextEvent => exact hquiet rfl (by simp)
  | _ => cases ho

/-- A step of the poll task that sends nothing keeps the contract and what is served. -/
theorem quiet_served {c : LoopCmd} (hc : c.onChannel = false) :
    Keeps loopSystem Unaborted debounceContract 1 Served c.Ans (.mk c) := by
  intro w a b w' hw hi _ h
  have hexec : loopExec 1 (.mk c) a w = some (b, w') := h
  have hworld := loopExec_apart hc hexec
  have hsame : unserved w'.trace ≤ unserved w.trace := by
    rw [hworld]
    apply unserved_cons_le
    cases c <;> simp_all [LoopRecord.sends, LoopCmd.onChannel]
  have hqueued : w'.queued = w.queued := by rw [hworld]
  have hparked : w'.parked = w.parked := by rw [hworld]
  refine ⟨⟨by rw [hworld]; exact hi.1, fun hp => ?_⟩, fun i hne hone => absurd hone hne, ?_⟩
  · have hzero := hi.2 (hparked ▸ hp)
    omega
  · unfold Served at hw ⊢
    omega

/-- A request taken is to be served: it leaves no assertion but that the channel is open. -/
theorem take_step {c : LoopCmd} {R : c.Ans → LoopWorld → Prop} (P : LoopWorld → Prop)
    (hR : ∀ w a b w', P w → debounceContract.inv w → loopExec 1 (.mk c) a w = some (b, w') →
      debounceContract.inv w' ∧ R b w') :
    Step loopSystem Unaborted debounceContract 1 P (.mk c) R := by
  intro w a b w' hi hw _ h
  obtain ⟨hinv, hpost⟩ := hR w a b w' hw hi h
  exact ⟨hinv, fun i hne hone => absurd hone hne, hpost⟩

theorem pollRecv_step : Step loopSystem Unaborted debounceContract 1 Served (.mk .pollRecv)
    fun r w => r ≠ .closed ∧ (r = .pending → Served w) := by
  refine take_step Served fun w a b w' hw hi h => ?_
  rcases loopExec_pollRecv h with ⟨rfl, -, rfl⟩ | ⟨rfl, hclosed, -⟩ | ⟨rfl, hempty, rfl⟩
  · exact ⟨⟨hi.1, fun hp => (by cases hp)⟩, by simp, fun hr => (by cases hr)⟩
  · rw [hi.1] at hclosed
    cases hclosed
  · have hnone : unserved w.trace = 0 := by
      unfold Served at hw
      omega
    have hcons : unserved (⟨1, .pollRecv, a⟩ :: w.trace) = 0 := by
      have hle := unserved_cons_le (r := ⟨1, .pollRecv, a⟩) rfl w.trace
      omega
    have hserved : unserved (⟨1, .pollRecv, a⟩ :: w.trace) ≤ w.queued := by omega
    exact ⟨⟨hi.1, fun _ => hcons⟩, by simp, fun _ => hserved⟩

theorem tryRecv_step : Step loopSystem Unaborted debounceContract 1 (fun _ => True) (.mk .tryRecv)
    fun _ _ => True := by
  refine take_step _ fun w a b w' _ hi h => ?_
  rw [loopExec_tryRecv h]
  refine ⟨⟨hi.1, fun hp => ?_⟩, trivial⟩
  have hzero := hi.2 hp
  have hle := unserved_cons_le (r := ⟨1, .tryRecv, a⟩) rfl w.trace
  show unserved (⟨1, .tryRecv, a⟩ :: w.trace) = 0
  omega

theorem beginPoll_step :
    Step loopSystem Unaborted debounceContract 1 (fun _ => True) (.mk .beginPoll)
      fun _ => Served := by
  refine take_step _ fun w a b w' _ hi h => ?_
  rw [loopExec_apart rfl h]
  have hzero : unserved (⟨1, .beginPoll, a⟩ :: w.trace) = 0 := unserved_start rfl _
  have hserved : unserved (⟨1, .beginPoll, a⟩ :: w.trace) ≤ w.queued := by omega
  exact ⟨⟨hi.1, fun _ => hzero⟩, hserved⟩

theorem sleep_step (millis : Nat) :
    Step loopSystem Unaborted debounceContract 1 (fun _ => True) (.mk (.sleep millis))
      fun _ _ => True := by
  refine take_step _ fun w a b w' _ hi h => ?_
  rw [loopExec_apart rfl h]
  refine ⟨⟨hi.1, fun hp => ?_⟩, trivial⟩
  have hzero := hi.2 hp
  have hle := unserved_cons_le (r := ⟨1, .sleep millis, a⟩) rfl w.trace
  show unserved (⟨1, .sleep millis, a⟩ :: w.trace) = 0
  omega

theorem recv_triple : DebounceTriple 1 Served recv fun more _ => more = true := by
  refine .loop (J := fun _ => Served) (R := fun more _ => more = true) (fun _ => ?_) fun _ =>
    .pure (Stable.const _) fun _ _ h => h
  have htaken : ∀ r, Stable debounceContract 1 fun w =>
      r ≠ Received.closed ∧ (r = .pending → Served w) :=
    fun r w w' h hr hi => ⟨h.1, fun hp => Served.stable w w' (h.2 hp) hr hi⟩
  refine .bind (.call Served.stable pollRecv_step htaken) fun r => ?_
  cases r with
  | request => exact .pure (htaken _) fun _ _ _ => rfl
  | closed => exact .pure (htaken _) fun _ _ h => absurd rfl h.1
  | pending => exact .pure (htaken _) fun _ _ h => h.2 rfl

theorem drain_triple : DebounceTriple 1 (fun _ => True) drain fun _ _ => True := by
  refine .loop (J := fun _ _ => True) (R := fun _ _ => True) (fun _ => ?_) fun _ =>
    .pure (Stable.const True) fun _ _ h => h
  refine .bind (.call (Stable.const True) tryRecv_step fun _ => Stable.const True) fun more => ?_
  cases more <;> exact .pure (Stable.const True) fun _ _ h => h

/-- A turn of the poll task: between the requests it takes and the poll it starts there may
be any number of others, and the poll comes after all of them. -/
theorem debouncedPolls_triple : DebounceTriple 1 Served debouncedPolls fun _ _ => False := by
  refine .loop (J := fun _ => Served) (R := fun _ _ => False) (fun _ => ?_) fun _ =>
    .pure (Stable.const False) fun _ _ h => h
  refine .bind recv_triple fun more => ?_
  cases more with
  | false => exact .pure (Stable.const _) fun _ _ h => (by cases h)
  | true =>
    refine .bind (.pre drain_triple fun _ _ _ => trivial) fun _ => ?_
    refine .bind (.call (Stable.const True) (sleep_step _) fun _ => Stable.const True) fun _ => ?_
    refine .bind (.call (Stable.const True) beginPoll_step fun _ => Served.stable) fun _ => ?_
    refine .bind (.only Served.stable (Prog.only_call.mpr (quiet_served rfl))) fun _ => ?_
    exact .pure Served.stable fun _ _ h => h

theorem debounce_upholds : Upholds loopSystem Unaborted debounceContract where
  start := by
    intro t w hi hidle _
    have hlistener :
        runEventLoop.Only (Keeps loopSystem Unaborted debounceContract 0 fun _ => True) :=
      runEventLoop_listens.mono fun _ o ho => listens_debounce o ho
    match t with
    | 0 =>
      have hevents : DebounceTriple 0 (fun _ => True) runEventLoop fun _ _ => True :=
        .only (Stable.const True) hlistener
      exact Prog.wp_mono (fun _ _ _ _ h => (by cases h)) (hevents w hi trivial)
    | 1 => exact Prog.wp_mono (fun _ _ _ h => h.elim) (debouncedPolls_triple w hi (hidle rfl))
    | t + 2 => exact fun w₁ _ _ h => (by omega)
  env e := e.elim
  cancel _ _ _ h := h.elim

/-- The program goes on with a poll of the receiver. -/
def receiving : Prog LoopOp Unit → Bool
  | .op o _ => o.cmd == .pollRecv
  | _ => false

/-- The poll task is at `recv`, and the channel is empty. -/
def Blocked (q : Pool LoopOp LoopWorld) : Prop :=
  (q.tasks 1).any receiving ∧ q.world.queued = 0

instance (q : Pool LoopOp LoopWorld) : Decidable (Blocked q) := inferInstanceAs (Decidable (_ ∧ _))

theorem pollRecv_of_blocked {q : Pool LoopOp LoopWorld} (hb : Blocked q) :
    ∃ k, q.tasks 1 = some (.op (.mk .pollRecv) k) := by
  obtain ⟨p, hp, hreceiving⟩ := (Option.any_eq_true _ _).mp hb.1
  cases p with
  | op o k =>
    obtain ⟨c⟩ := o
    obtain rfl : c = .pollRecv := by simpa [receiving, LoopOp.cmd] using hreceiving
    exact ⟨k, hp⟩
  | pure => cases hreceiving
  | loop => cases hreceiving

theorem unserved_of_blocked {q : Pool LoopOp LoopWorld}
    (hq : Upholds.PoolInv loopSystem Unaborted debounceContract q) (hb : Blocked q) :
    unserved q.world.trace = 0 := by
  obtain ⟨k, hk⟩ := pollRecv_of_blocked hb
  have hopen : q.world.closed = false := hq.1.1
  have hparks : loopExec 1 (.mk .pollRecv) .done q.world = some (.pending, { q.world with
      parked := true, trace := ⟨1, .pollRecv, .done⟩ :: q.world.trace }) := by
    simp [loopExec, LoopCmd.run, hb.2, hopen]
  have hnext := hq.2.1 1 _ hk q.world (fun _ => Nat.le_refl _) hq.1 .done trivial _ _ hparks
  have hzero : unserved (⟨1, .pollRecv, .done⟩ :: q.world.trace) = 0 := hnext.1.2 rfl
  simpa [unserved, LoopRecord.starts, LoopRecord.sends] using hzero

/-- Whenever the poll task is blocked, some poll was started after each request sent. -/
theorem debounce_loses_no_wakeup {es : List (Event LoopAnswer Empty)} {q : Pool LoopOp LoopWorld}
    (hrun : loopSystem.run es (Pool.boot {}) = some q)
    (hD : loopSystem.Admits Unaborted.meets es (Pool.boot {})) (hb : Blocked q)
    {later earlier : List LoopRecord} {r : LoopRecord} (hr : r.sends)
    (htrace : q.world.trace = later ++ r :: earlier) : ∃ s ∈ later, s.starts := by
  have hboot : Upholds.PoolInv loopSystem Unaborted debounceContract (Pool.boot {}) :=
    Upholds.poolInv_boot ⟨rfl, fun _ => rfl⟩ fun t _ => Nat.le_refl 0
  exact start_after_send htrace hr
    (unserved_of_blocked (debounce_upholds.poolInv_of_run hboot hrun hD) hb)

/-- The request at the start and one for an event, before a poll that fails. -/
def drainedRun : List (Event LoopAnswer Empty) :=
  [.start 0, .step 0 .done, .tau 0, .step 0 .done, .tau 0, .step 0 (.next .event), .step 0 .done,
    .start 1, .tau 1, .tau 1, .step 1 .done, .tau 1, .step 1 .done, .tau 1, .step 1 .done,
    .step 1 .done, .step 1 .done, .step 1 .failed, .tau 1, .tau 1]

theorem debounce_loses_no_wakeup_drained : ∃ q,
    loopSystem.run drainedRun (Pool.boot {}) = some q ∧ Blocked q ∧
      ∃ later earlier, q.world.trace = later ++ ⟨0, .send, .done⟩ :: earlier ∧
        ∃ s ∈ later, s.starts := by
  have hends : ((loopSystem.run drainedRun (Pool.boot {})).any fun q => decide (Blocked q)) ∧
      (loopSystem.run drainedRun (Pool.boot {})).map (fun q => q.world.trace.drop 6) =
        some (⟨0, .send, .done⟩ :: [⟨0, .nextEvent, .next .event⟩, ⟨0, .eventSource, .done⟩,
          ⟨0, .send, .done⟩]) := by
    decide +kernel
  have hmeets : loopSystem.Admits Unaborted.meets drainedRun (Pool.boot {}) := by
    decide +kernel
  obtain ⟨q, hq, hb⟩ := (Option.any_eq_true _ _).mp hends.1
  have hmap := hends.2
  rw [hq] at hmap
  have hdrop := Option.some.inj hmap
  have hsplit := (List.take_append_drop 6 q.world.trace).symm
  dsimp only at hdrop
  rw [hdrop] at hsplit
  exact ⟨q, hq, of_decide_eq_true hb, _, _, hsplit,
    debounce_loses_no_wakeup hq hmeets (of_decide_eq_true hb) rfl hsplit⟩

end JmapBridge
