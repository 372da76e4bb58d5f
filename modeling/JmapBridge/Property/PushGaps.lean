import JmapBridge.Model.EventLoop

/-! The gaps between two streams of push events. A poll is asked for only where the stream
was lost to the heartbeat. -/

namespace JmapBridge

open Effect

/-- The record is a wait for the next event. -/
def LoopRecord.waits (r : LoopRecord) : Bool := r.cmd == .nextEvent

/-- The wait ended with the loss of the stream. -/
def LoopRecord.loses (r : LoopRecord) : Bool :=
  r.waits && match r.answer with
    | .next e => e.loses
    | _ => false

/-- The stream of `loss` was lost, and `wait` is the first wait on the next one, with
`between` in the meantime. -/
def Resubscribed (l : List LoopRecord) (wait : LoopRecord) (between : List LoopRecord)
    (loss : LoopRecord) : Prop :=
  (∃ later earlier, l = later ++ wait :: between ++ loss :: earlier) ∧
    wait.waits ∧ loss.loses ∧ ∀ r ∈ between, r.waits = false

/-- What was answered to the newest wait. -/
def lastWait : List LoopRecord → Option LoopRecord
  | [] => none
  | r :: l => if r.waits then some r else lastWait l

/-- Whether a poll was asked for since the newest wait. -/
def requested : List LoopRecord → Bool
  | [] => false
  | r :: l => if r.waits then false else r.sends || requested l

theorem lastWait_append {between : List LoopRecord} (h : ∀ r ∈ between, r.waits = false)
    {loss : LoopRecord} (hloss : loss.waits) (earlier : List LoopRecord) :
    lastWait (between ++ loss :: earlier) = some loss := by
  induction between with
  | nil => simp [lastWait, hloss]
  | cons r l ih =>
    have hr : r.waits = false := h r List.mem_cons_self
    simpa [lastWait, hr] using ih fun s hs => h s (List.mem_cons_of_mem _ hs)

theorem requested_append {between : List LoopRecord} (h : ∀ r ∈ between, r.waits = false)
    {loss : LoopRecord} (hloss : loss.waits) (earlier : List LoopRecord) :
    requested (between ++ loss :: earlier) = between.any (·.sends) := by
  induction between with
  | nil => simp [requested, hloss]
  | cons r l ih =>
    have hr : r.waits = false := h r List.mem_cons_self
    simp [requested, hr, ih fun s hs => h s (List.mem_cons_of_mem _ hs)]

/-- A poll was asked for since the stream was lost exactly if it was idle. -/
def Heeded (l : List LoopRecord) : Prop :=
  ∀ r, lastWait l = some r → r.loses → (requested l = true ↔ r.answer = .next .idle)

/-- So it was at every wait on a new stream. -/
inductive HeededWaits : List LoopRecord → Prop where
  | nil : HeededWaits []
  | wait {r : LoopRecord} {l : List LoopRecord} (h : HeededWaits l) (hl : Heeded l) :
      HeededWaits (r :: l)
  | other {r : LoopRecord} {l : List LoopRecord} (h : HeededWaits l) (hr : r.waits = false) :
      HeededWaits (r :: l)

theorem HeededWaits.resubscribed {l : List LoopRecord} (h : HeededWaits l) {wait loss : LoopRecord}
    {between : List LoopRecord} (hr : Resubscribed l wait between loss) :
    (∃ r ∈ between, r.sends) ↔ loss.answer = .next .idle := by
  obtain ⟨⟨later, earlier, rfl⟩, hwait, hloss, hbetween⟩ := hr
  have hwaits : loss.waits := (Bool.and_eq_true _ _ ▸ hloss).1
  induction later with
  | nil =>
    have hl : Heeded (between ++ loss :: earlier) := by
      cases h with
      | wait _ hl => exact hl
      | other _ hr =>
        rw [hwait] at hr
        cases hr
    have hiff := hl loss (lastWait_append hbetween hwaits earlier) hloss
    rw [requested_append hbetween hwaits] at hiff
    simpa using hiff
  | cons r later ih =>
    cases h with
    | wait h _ => exact ih h
    | other h _ => exact ih h

/-- The poll task neither waits for events nor asks for polls. -/
def gapContract : Contract LoopWorld where
  inv w := HeededWaits w.trace
  rely t w w' :=
    t = 0 → lastWait w'.trace = lastWait w.trace ∧ requested w'.trace = requested w.trace
  idle t w := t = 0 → lastWait w.trace = none
  idle_stable ha hr ht := (hr ht).1.trans (ha ht)
  refl _ _ _ := ⟨rfl, rfl⟩
  trans hab hbc ht := ⟨(hbc ht).1.trans (hab ht).1, (hbc ht).2.trans (hab ht).2⟩

abbrev GapTriple (P : LoopWorld → Prop) (p : Prog LoopOp α) (Q : α → LoopWorld → Prop) : Prop :=
  Triple loopSystem Unaborted gapContract 0 P p Q

/-- The listener is about to subscribe or to wait. -/
def Attending (w : LoopWorld) : Prop := Heeded w.trace

/-- The last wait was answered with `e`, and nothing was asked for since. -/
def Answered (e : NextEvent) (w : LoopWorld) : Prop :=
  (∃ r, lastWait w.trace = some r ∧ r.waits ∧ r.answer = .next e) ∧ requested w.trace = false

theorem Attending.stable : Stable gapContract 0 Attending := by
  intro w w' h hr _
  obtain ⟨hlast, hrequested⟩ := hr rfl
  intro r hr hloses
  rw [hrequested]
  exact h r (hlast ▸ hr) hloses

theorem Answered.stable {e : NextEvent} : Stable gapContract 0 (Answered e) := by
  intro w w' ⟨⟨r, hr, he⟩, hnone⟩ hrely _
  obtain ⟨hlast, hrequested⟩ := hrely rfl
  exact ⟨⟨r, hlast.trans hr, he⟩, hrequested.trans hnone⟩

theorem Answered.attending {e : NextEvent} {w : LoopWorld} (h : Answered e w) (he : e ≠ .idle) :
    Attending w := by
  obtain ⟨⟨r, hr, -, hanswer⟩, hnone⟩ := h
  intro s hs _
  obtain rfl := Option.some.inj (hr.symm.trans hs)
  simp [hnone, hanswer, he]

theorem gap_step {c : LoopCmd} {P : LoopWorld → Prop} {R : c.Ans → LoopWorld → Prop}
    (hinv : c = .nextEvent → ∀ w, P w → Heeded w.trace)
    (hR : ∀ w a b w', P w → loopExec 0 (.mk c) a w = some (b, w') → R b w') :
    Step loopSystem Unaborted gapContract 0 P (.mk c) R := by
  intro w a b w' hi hw _ h
  have he : loopExec 0 (.mk c) a w = some (b, w') := h
  refine ⟨?_, fun i hne hzero => absurd hzero hne, hR w a b w' hw he⟩
  show HeededWaits w'.trace
  rw [loopExec_trace he]
  by_cases hc : c = .nextEvent
  · exact .wait hi (hinv hc w hw)
  · exact .other hi (by simpa [LoopRecord.waits] using hc)

theorem nextEvent_step :
    Step loopSystem Unaborted gapContract 0 Attending (.mk .nextEvent) Answered := by
  refine gap_step (fun _ _ h => h) fun w a b w' _ h => ?_
  obtain ⟨rfl, rfl⟩ := loopExec_nextEvent h
  exact ⟨⟨⟨0, .nextEvent, .next b⟩, rfl, rfl, rfl⟩, rfl⟩

theorem sendPoll_step {e : NextEvent} (he : e = .event ∨ e = .idle) :
    Step loopSystem Unaborted gapContract 0 (Answered e) (.mk .send) fun _ => Attending := by
  refine gap_step (fun h => (by cases h)) fun w a b w' hw h => ?_
  obtain ⟨⟨r, hr, hwait, hanswer⟩, -⟩ := hw
  intro s hs hloses
  rw [loopExec_trace h] at hs ⊢
  have hlast : lastWait (⟨0, .send, a⟩ :: w.trace) = lastWait w.trace := rfl
  obtain rfl := Option.some.inj (hr.symm.trans (hlast ▸ hs))
  have hidle : e = .idle := by
    rcases he with rfl | rfl
    · simp [LoopRecord.loses, hanswer, NextEvent.loses] at hloses
    · rfl
  simp [requested, LoopRecord.waits, LoopRecord.sends, hanswer, hidle]

theorem other_keeps {t : Nat} {P : LoopWorld → Prop}
    (hP : ∀ w w', lastWait w'.trace = lastWait w.trace → requested w'.trace = requested w.trace →
      P w → P w') (o : LoopOp β) (hw : o.cmd ≠ .nextEvent) (hs : o.cmd ≠ .send) :
    Keeps loopSystem Unaborted gapContract t P β o := by
  obtain ⟨c⟩ := o
  intro w a b w' hwP hi _ h
  have he : loopExec t (.mk c) a w = some (b, w') := h
  have hwaits : (⟨t, c, a⟩ : LoopRecord).waits = false := by
    simpa [LoopRecord.waits, LoopOp.cmd] using hw
  have hsends : (⟨t, c, a⟩ : LoopRecord).sends = false := by
    simpa [LoopRecord.sends, LoopOp.cmd] using hs
  have htrace := loopExec_trace he
  have hlast : lastWait w'.trace = lastWait w.trace := by simp [htrace, lastWait, hwaits]
  have hrequested : requested w'.trace = requested w.trace := by
    simp [htrace, requested, hwaits, hsends]
  refine ⟨?_, fun i _ _ => ⟨hlast, hrequested⟩, hP w w' hlast hrequested hwP⟩
  show HeededWaits w'.trace
  rw [htrace]
  exact .other hi hwaits

theorem attending_keeps {o : LoopOp β} (hw : o.cmd ≠ .nextEvent) (hs : o.cmd ≠ .send) :
    Keeps loopSystem Unaborted gapContract 0 Attending β o := by
  refine other_keeps (fun w w' hlast hrequested h => ?_) o hw hs
  intro r hr hloses
  rw [hrequested]
  exact h r (hlast ▸ hr) hloses

theorem listen_triple : GapTriple Attending listen fun _ => Attending := by
  refine .loop (J := fun _ => Attending) (R := fun _ => Attending) (fun _ => ?_) fun _ =>
    .pure Attending.stable fun _ _ h => h
  refine .bind (.call Attending.stable nextEvent_step fun _ => Answered.stable) fun e => ?_
  cases e with
  | event =>
    refine .bind (.call Answered.stable (sendPoll_step (.inl rfl)) fun _ => Attending.stable)
      fun _ => ?_
    exact .pure Attending.stable fun _ _ h => h
  | error => exact .pure Answered.stable fun _ _ h => h.attending (by simp)
  | ended => exact .pure Answered.stable fun _ _ h => h.attending (by simp)
  | idle =>
    refine .bind (.call Answered.stable (sendPoll_step (.inr rfl)) fun _ => Attending.stable)
      fun _ => ?_
    exact .pure Attending.stable fun _ _ h => h

theorem listener_triple : GapTriple Attending listener fun _ _ => False := by
  refine .loop (J := fun _ => Attending) (R := fun b _ => b.elim) (fun delay => ?_) fun b => b.elim
  have hsubscribe : GapTriple Attending (onLoop .eventSource) fun _ => Attending :=
    .only Attending.stable
      (Prog.only_call.mpr (attending_keeps (by simp [LoopOp.cmd]) (by simp [LoopOp.cmd])))
  have hpause : GapTriple Attending (onLoop (.sleep delay)) fun _ => Attending :=
    .only Attending.stable
      (Prog.only_call.mpr (attending_keeps (by simp [LoopOp.cmd]) (by simp [LoopOp.cmd])))
  refine .bind hsubscribe fun subscribed => ?_
  cases subscribed with
  | true => exact .bind listen_triple fun _ => .pure Attending.stable fun _ _ h => h
  | false => exact .bind hpause fun _ => .pure Attending.stable fun _ _ h => h

theorem first_step : Step loopSystem Unaborted gapContract 0 (fun w => lastWait w.trace = none)
    (.mk .send) fun _ => Attending := by
  refine gap_step (fun h => (by cases h)) fun w a b w' hw h => ?_
  intro r hr
  have hnone : lastWait w'.trace = none := by
    rw [loopExec_trace h]
    exact hw
  rw [hnone] at hr
  cases hr

theorem runEventLoop_triple :
    GapTriple (fun w => lastWait w.trace = none) runEventLoop fun _ _ => False := by
  have hstable : Stable gapContract 0 fun w => lastWait w.trace = none :=
    fun w w' h hr _ => (hr rfl).1.trans h
  exact .bind (.call hstable first_step fun _ => Attending.stable) fun _ => listener_triple

/-- The commands of the poll task. -/
def LoopCmd.polls : LoopCmd → Bool
  | send => false
  | nextEvent => false
  | _ => true

theorem recv_polls : recv.Only fun _ o => o.cmd.polls := by
  refine ⟨fun _ => .bind (Prog.only_call.mpr rfl) fun r => ?_, fun _ => trivial⟩
  cases r <;> trivial

theorem drain_polls : drain.Only fun _ o => o.cmd.polls :=
  ⟨fun _ => .bind (Prog.only_call.mpr rfl) fun _ => trivial, fun _ => trivial⟩

theorem debouncedPolls_polls : debouncedPolls.Only fun _ o => o.cmd.polls := by
  refine ⟨fun _ => .bind recv_polls fun more => ?_, fun _ => trivial⟩
  cases more with
  | false => trivial
  | true =>
    refine .bind drain_polls fun _ => .bind (Prog.only_call.mpr rfl) fun _ => ?_
    exact .bind (Prog.only_call.mpr rfl) fun _ => .bind (Prog.only_call.mpr rfl) fun _ => trivial

theorem gap_upholds : Upholds loopSystem Unaborted gapContract where
  start := by
    intro t w hi hidle _
    match t with
    | 0 => exact Prog.wp_mono (fun _ _ _ h => h.elim) (runEventLoop_triple w hi (hidle rfl))
    | 1 =>
      have hkeeps :
          debouncedPolls.Only (Keeps loopSystem Unaborted gapContract 1 fun _ => True) := by
        refine debouncedPolls_polls.mono fun _ o ho => ?_
        refine other_keeps (fun _ _ _ _ _ => trivial) o (fun h => ?_) fun h => ?_
        · rw [h] at ho
          cases ho
        · rw [h] at ho
          cases ho
      have hpolls : Triple loopSystem Unaborted gapContract 1 (fun _ => True) debouncedPolls
          fun _ _ => True := .only (Stable.const True) hkeeps
      exact Prog.wp_mono (fun _ _ _ _ h => (by cases h)) (hpolls w hi trivial)
    | t + 2 => exact fun w₁ _ _ h => (by omega)
  env e := e.elim
  cancel _ _ _ h := h.elim

/-- In every run a poll is asked for between each loss of the stream and the first wait on
the next one exactly if each stream that was followed by another was lost to the heartbeat,
and none to an error or to its end. -/
theorem gaps_covered_iff {es : List (Event LoopAnswer Empty)} {q : Pool LoopOp LoopWorld}
    (hrun : loopSystem.run es (Pool.boot {}) = some q)
    (hD : loopSystem.Admits Unaborted.meets es (Pool.boot {})) :
    (∀ wait between loss, Resubscribed q.world.trace wait between loss →
      ∃ r ∈ between, r.sends) ↔
    ∀ wait between loss, Resubscribed q.world.trace wait between loss →
      loss.answer = .next .idle := by
  have hwaits : HeededWaits q.world.trace :=
    gap_upholds.inv_of_run (w := {}) .nil (fun _ _ => rfl) hrun hD
  constructor
  · intro hcovered wait between loss hr
    exact (hwaits.resubscribed hr).mp (hcovered wait between loss hr)
  · intro hidle wait between loss hr
    exact (hwaits.resubscribed hr).mpr (hidle wait between loss hr)

/-- The stream is lost with `e`, and the next one is waited on. -/
def lostRun (e : NextEvent) (request : List (Event LoopAnswer Empty)) :
    List (Event LoopAnswer Empty) :=
  [.start 0, .step 0 .done, .tau 0, .step 0 .done, .tau 0, .step 0 (.next e)] ++ request ++
    [.tau 0, .step 0 .done, .tau 0, .step 0 (.next .event)]

theorem gaps_covered_iff_idle : ∃ q,
    loopSystem.run (lostRun .idle [.step 0 .done]) (Pool.boot {}) = some q ∧
      ((∀ wait between loss, Resubscribed q.world.trace wait between loss →
        ∃ r ∈ between, r.sends) ↔
      ∀ wait between loss, Resubscribed q.world.trace wait between loss →
        loss.answer = .next .idle) := by
  have hends : (loopSystem.run (lostRun .idle [.step 0 .done]) (Pool.boot {})).isSome ∧
      loopSystem.Admits Unaborted.meets (lostRun .idle [.step 0 .done]) (Pool.boot {}) := by
    decide +kernel
  obtain ⟨q, hq⟩ := Option.isSome_iff_exists.mp hends.1
  exact ⟨q, hq, gaps_covered_iff hq hends.2⟩

/-- An error in the stream: the listener subscribes again and waits, and no poll is asked for. -/
theorem lost_stream_unpolled : ∃ q,
    loopSystem.run (lostRun .error []) (Pool.boot {}) = some q ∧
      loopSystem.Admits Unaborted.meets (lostRun .error []) (Pool.boot {}) ∧
      ¬ ∀ wait between loss, Resubscribed q.world.trace wait between loss →
        ∃ r ∈ between, r.sends := by
  have hends : (loopSystem.run (lostRun .error []) (Pool.boot {})).map (·.world.trace) =
      some [⟨0, .nextEvent, .next .event⟩, ⟨0, .eventSource, .done⟩, ⟨0, .nextEvent, .next .error⟩,
        ⟨0, .eventSource, .done⟩, ⟨0, .send, .done⟩] ∧
      loopSystem.Admits Unaborted.meets (lostRun .error []) (Pool.boot {}) := by
    decide +kernel
  obtain ⟨q, hq, htrace⟩ := Option.map_eq_some_iff.mp hends.1
  refine ⟨q, hq, hends.2, fun hcovered => ?_⟩
  obtain ⟨r, hr, hsends⟩ := hcovered ⟨0, .nextEvent, .next .event⟩ [⟨0, .eventSource, .done⟩]
    ⟨0, .nextEvent, .next .error⟩ ⟨⟨[], _, htrace⟩, rfl, rfl, by simp [LoopRecord.waits]⟩
  obtain rfl := List.mem_singleton.mp hr
  cases hsends

end JmapBridge
