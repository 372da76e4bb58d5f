import JmapBridge.Model.Frames
import JmapBridge.Property.OneMessage

/-! The gate of an email's read state. What is mirrored of it alternates, and the gate says
which came last, as long as no task acts on a gate that another one has moved since. -/

namespace JmapBridge

open Effect

/-- Whether the email is mirrored as read. -/
def World.gate (w : World) (user : UserId) (e : EmailId) : Bool :=
  (w.store.jmapState.lookup (user, .readSynced e)).isSome

/-- What a task turns to: the email whose gate it reads, or nothing as it enters or leaves an
email. -/
def Record.turns (user : UserId) (r : Record) : Option (Option EmailId) :=
  match r.cmd with
  | .store (.getJmapState u (.readSynced e)) => if u = user then some (some e) else none
  | .task (.enter _) => some none
  | .task (.leave _) => some none
  | _ => none

/-- The email whose gate task `t` has read since it entered one, from the newest record on. -/
def turned (user : UserId) (t : Nat) : List Record → Option EmailId
  | [] => none
  | r :: l => if r.task = t then (r.turns user).getD (turned user t l) else turned user t l

/-- Task `t` is inside `sync_read_state` for the email, past its read of the gate. -/
def World.inCall (w : World) (user : UserId) (e : EmailId) (t : Nat) : Prop :=
  turned user t w.trace = some e ∧ (t, some e) ∈ w.spans

/-- A read receipt that got through is READ, and a room flagged unread UNREAD. -/
def Record.action (r : Record) : Option Bool :=
  match r.cmd, r.answer with
  | .matrix (.sendReadReceipt _ _ _), .done => some true
  | .matrix (.setMarkedUnread _ _ true _), .done => some false
  | _, _ => none

/-- What was mirrored of the email, the newest first. -/
def actions (user : UserId) (e : EmailId) : List Record → List Bool
  | [] => []
  | r :: l =>
    if turned user r.task l = some e then r.action.toList ++ actions user e l else actions user e l

/-- READ, UNREAD, READ, ... from the oldest on. -/
def Alternating : List Bool → Prop
  | [] => True
  | b :: l => b ≠ l.headD false ∧ Alternating l

def Record.movesGate (user : UserId) (e : EmailId) (r : Record) : Bool :=
  match r.cmd with
  | .store (.saveJmapState u (.readSynced i) _) => u == user && i == e
  | .store (.deleteJmapState u (.readSynced i)) => u == user && i == e
  | _ => false

/-- The task whose action has not reached the gate yet. -/
def unwritten (user : UserId) (e : EmailId) : List Record → Option Nat
  | [] => none
  | r :: l =>
    if r.movesGate user e then none
    else if turned user r.task l = some e ∧ r.action.isSome then some r.task
    else unwritten user e l

/-- Another task has moved the gate since task `t` read it. -/
def outdated (user : UserId) (e : EmailId) : Nat → List Record → Bool :=
  superseded (fun r => r.turns user == some (some e)) (Record.movesGate user e)

/-- The store is reliable, an action goes through only on a gate that no other task has moved
since and with no other action on its way to the gate, and no task is cancelled between its
action and the gate. -/
def actsInTurn (user : UserId) (e : EmailId) : Discipline Op World Answer Env where
  step := fun t {_} o a w => o.cmd.carriedOut a ∧
    (turned user t w.trace = some e → (⟨t, o.cmd, a⟩ : Record).action.isSome →
      outdated user e t w.trace = false ∧ unwritten user e w.trace = none)
  cancel := fun t w => unwritten user e w.trace ≠ some t

instance decidableActsInTurnStep (user : UserId) (e : EmailId) (t : Nat) (β : Type) (o : Op β)
    (a : Answer) (w : World) : Decidable ((actsInTurn user e).step t o a w) :=
  inferInstanceAs (Decidable (_ ∧ (_ → _ → _ ∧ _)))

instance decidableActsInTurn (user : UserId) (e : EmailId) (ev : Event Answer Env)
    (q : Pool Op World) :
    Decidable ((actsInTurn user e).meets ev q) :=
  @Discipline.decidableMeets Op World Answer Env (actsInTurn user e)
    (fun _ _ => instDecidableTrue) _
    (fun t w => inferInstanceAs (Decidable (unwritten user e w.trace ≠ some t)))
    (fun _ _ => instDecidableTrue) ev q

structure GateInv (user : UserId) (e : EmailId) (w : World) : Prop where
  registered : w.store.hasUser user
  alternating : Alternating (actions user e w.trace)
  written : unwritten user e w.trace = none → w.gate user e = (actions user e w.trace).headD false
  inside : ∀ t, unwritten user e w.trace = some t → w.inCall user e t

structure GateRely (user : UserId) (e : EmailId) (t : Nat) (w w' : World) : Prop where
  turn : turned user t w'.trace = turned user t w.trace
  spans : (t, some e) ∈ w'.spans ↔ (t, some e) ∈ w.spans
  acting : unwritten user e w'.trace = some t ↔ unwritten user e w.trace = some t
  last : unwritten user e w.trace = some t → actions user e w'.trace = actions user e w.trace
  gate : outdated user e t w'.trace = false →
    outdated user e t w.trace = false ∧ w'.gate user e = w.gate user e

def gateContract (user : UserId) (e : EmailId) : Contract World where
  inv := GateInv user e
  rely := GateRely user e
  idle := fun t w => unwritten user e w.trace ≠ some t
  idle_stable := fun h hr => fun h' => h (hr.acting.mp h')
  refl := fun _ _ => ⟨rfl, Iff.rfl, Iff.rfl, fun _ => rfl, fun h => ⟨h, rfl⟩⟩
  trans := by
    intro t a b c hab hbc
    refine ⟨hbc.turn.trans hab.turn, hbc.spans.trans hab.spans,
      hbc.acting.trans hab.acting, fun h => ?_, fun h => ?_⟩
    · exact (hbc.last (hab.acting.mpr h)).trans (hab.last h)
    · obtain ⟨hb, hgate⟩ := hbc.gate h
      obtain ⟨ha, hgate'⟩ := hab.gate hb
      exact ⟨ha, hgate.trans hgate'⟩

section

variable {cfg : Config} {calls : Nat → Call} {user : UserId} {e : EmailId} {t i : Nat}
  {w w' : World} {α : Type} {a : Answer} {b : Bool}

/-! What one command does to them. -/

theorem turned_self {r : Record} {l : List Record} :
    turned user r.task (r :: l) = (r.turns user).getD (turned user r.task l) := by simp [turned]

theorem turned_other {r : Record} {l : List Record} (h : r.task ≠ i) :
    turned user i (r :: l) = turned user i l := by simp [turned, h]

theorem outdated_other {r : Record} {l : List Record} (h : r.task ≠ i) :
    outdated user e i (r :: l) = (r.movesGate user e || outdated user e i l) := superseded_other h

theorem spans_other {c : Cmd} {b : c.Ans} (h : exec t (.mk c) a w = some (b, w')) (hi : i ≠ t)
    (x : Option EmailId) : (i, x) ∈ w'.spans ↔ (i, x) ∈ w.spans := by
  rw [exec_spans h]
  cases c with
  | task c =>
    cases c with
    | enter => simp [Cmd.spans, hi]
    | leave => exact List.mem_erase_of_ne (by simp [hi])
    | _ => exact Iff.rfl
  | _ => exact Iff.rfl

theorem gate_exec {c : Cmd} {b : c.Ans} (h : exec t (.mk c) a w = some (b, w'))
    (hc : Record.movesGate user e ⟨t, c, a⟩ = false) : w'.gate user e = w.gate user e := by
  have hsave : ∀ v, c ≠ .store (.saveJmapState user (.readSynced e) v) := by
    rintro v rfl
    simp [Record.movesGate] at hc
  have hdelete : c ≠ .store (.deleteJmapState user (.readSynced e)) := by
    rintro rfl
    simp [Record.movesGate] at hc
  rw [World.gate, state_exec hsave hdelete h, World.gate]

theorem gate_rely {c : Cmd} {b : c.Ans} (h : exec t (.mk c) a w = some (b, w')) (hi : i ≠ t)
    (hunwritten : unwritten user e w'.trace = some i ↔ unwritten user e w.trace = some i)
    (hlast : unwritten user e w.trace = some i →
      actions user e w'.trace = actions user e w.trace) : GateRely user e i w w' := by
  have htrace : w'.trace = ⟨t, c, a⟩ :: w.trace := exec_trace h
  refine ⟨by rw [htrace, turned_other (Ne.symm hi)], spans_other h hi _, hunwritten, hlast, ?_⟩
  intro hout
  rw [htrace, outdated_other (Ne.symm hi), Bool.or_eq_false_iff] at hout
  exact ⟨hout.2, gate_exec h hout.1⟩

theorem still_trace {r : Record} {l : List Record}
    (hturned : turned user r.task l ≠ some e ∨ r.action = none)
    (hmoves : r.movesGate user e = false) :
    unwritten user e (r :: l) = unwritten user e l ∧
      actions user e (r :: l) = actions user e l := by
  rcases hturned with h | h
  · simp [unwritten, actions, hmoves, h]
  · simp [unwritten, actions, hmoves, h]

theorem gateStill_exec {c : Cmd} {b : c.Ans} (h : exec t (.mk c) a w = some (b, w'))
    (hturned : turned user t w.trace ≠ some e ∨ Record.action ⟨t, c, a⟩ = none)
    (hmoves : Record.movesGate user e ⟨t, c, a⟩ = false)
    (hown : unwritten user e w.trace = some t → w'.inCall user e t) (hi : GateInv user e w) :
    GateInv user e w' ∧ (∀ i, i ≠ t → GateRely user e i w w') ∧
      unwritten user e w'.trace = unwritten user e w.trace ∧
      actions user e w'.trace = actions user e w.trace := by
  have htrace : w'.trace = ⟨t, c, a⟩ :: w.trace := exec_trace h
  obtain ⟨hunwritten, hactions⟩ := still_trace (l := w.trace) hturned hmoves
  rw [← htrace] at hunwritten hactions
  have hrely : ∀ i, i ≠ t → GateRely user e i w w' := fun i hit =>
    gate_rely h hit (by rw [hunwritten]) fun _ => hactions
  refine ⟨⟨(hasUser_exec h).trans hi.registered, hactions ▸ hi.alternating, fun hnone => ?_,
    fun i hsome => ?_⟩, hrely, hunwritten, hactions⟩
  · rw [gate_exec h hmoves, hactions]
    exact hi.written (hunwritten ▸ hnone)
  · rw [hunwritten] at hsome
    by_cases hit : i = t
    · subst hit
      exact hown hsome
    · obtain ⟨hin, hspan⟩ := hi.inside i hsome
      exact ⟨(hrely i hit).turn.trans hin, (hrely i hit).spans.mpr hspan⟩

/-! What a task knows while it mirrors the read state. -/

/-- No action of task `t` is on its way to the gate. -/
def Written (user : UserId) (e : EmailId) (t : Nat) (w : World) : Prop :=
  unwritten user e w.trace ≠ some t

def Elsewhere (user : UserId) (e : EmailId) (t : Nat) (w : World) : Prop :=
  Written user e t w ∧ turned user t w.trace ≠ some e

/-- Task `t` has entered the email and not read its gate yet. -/
def InEmail (user : UserId) (e : EmailId) (t : Nat) (w : World) : Prop :=
  Elsewhere user e t w ∧ (t, some e) ∈ w.spans

/-- Task `t` found the gate to be `b`, and unless another task has moved it since, it is. -/
def GateRead (user : UserId) (e : EmailId) (t : Nat) (b : Bool) (w : World) : Prop :=
  Written user e t w ∧ w.inCall user e t ∧
    (outdated user e t w.trace = false → w.gate user e = b)

/-- The last action is task `t`'s, and the gate does not say so yet. -/
def Acted (user : UserId) (e : EmailId) (t : Nat) (b : Bool) (w : World) : Prop :=
  unwritten user e w.trace = some t ∧ (actions user e w.trace).headD false = b

theorem Written.stable : Stable (gateContract user e) t (Written user e t) :=
  fun _ _ h hr _ => fun h' => h (hr.acting.mp h')

theorem Elsewhere.stable : Stable (gateContract user e) t (Elsewhere user e t) :=
  fun _ _ h hr _ => ⟨fun h' => h.1 (hr.acting.mp h'), fun h' => h.2 (hr.turn ▸ h')⟩

theorem InEmail.stable : Stable (gateContract user e) t (InEmail user e t) :=
  fun w w' h hr hi => ⟨Elsewhere.stable w w' h.1 hr hi, hr.spans.mpr h.2⟩

theorem GateRead.stable : Stable (gateContract user e) t (GateRead user e t b) := by
  intro w w' h hr hi
  obtain ⟨hwritten, ⟨hturn, hspan⟩, hgate⟩ := h
  refine ⟨Written.stable w w' hwritten hr hi, ⟨hr.turn.trans hturn, hr.spans.mpr hspan⟩,
    fun hout => ?_⟩
  obtain ⟨hout', hsame⟩ := hr.gate hout
  exact hsame.trans (hgate hout')

theorem Acted.stable : Stable (gateContract user e) t (Acted user e t b) := by
  intro w w' h hr _
  refine ⟨hr.acting.mpr h.1, ?_⟩
  rw [hr.last h.1]
  exact h.2

abbrev GateTriple (cfg : Config) (calls : Nat → Call) (user : UserId) (e : EmailId) (t : Nat)
    (P : World → Prop) (p : Prog Op α) (Q : α → World → Prop) : Prop :=
  Triple (bridge cfg calls) (actsInTurn user e) (gateContract user e) t P p Q

abbrev GateStep (cfg : Config) (calls : Nat → Call) (user : UserId) (e : EmailId) (t : Nat)
    (P : World → Prop) (c : Cmd) (R : c.Ans → World → Prop) : Prop :=
  Step (bridge cfg calls) (actsInTurn user e) (gateContract user e) t P (.mk c) R

theorem gateStep_intro {c : Cmd} {P : World → Prop} {R : c.Ans → World → Prop}
    (h : ∀ w a b w', GateInv user e w → P w → c.carriedOut a →
      (turned user t w.trace = some e → (Record.action ⟨t, c, a⟩).isSome →
        outdated user e t w.trace = false ∧ unwritten user e w.trace = none) →
      exec t (.mk c) a w = some (b, w') →
      GateInv user e w' ∧ (∀ i, i ≠ t → GateRely user e i w w') ∧ R b w') :
    GateStep cfg calls user e t P c R :=
  fun w a b w' hi hP hd he => h w a b w' hi hP hd.1 hd.2 he

/-! The commands apart from mirroring. -/

/-- The command mirrors nothing, whatever the email, and moves no gate of this one. -/
def Cmd.gateQuiet (user : UserId) (e : EmailId) (c : Cmd) : Prop :=
  ∀ t a, Record.action ⟨t, c, a⟩ = none ∧ Record.movesGate user e ⟨t, c, a⟩ = false

/-- The command neither reads the gate nor moves it. -/
def Cmd.offGate (user : UserId) (e : EmailId) (c : Cmd) : Prop :=
  ∀ t a, Record.turns user ⟨t, c, a⟩ ≠ some (some e) ∧ Record.movesGate user e ⟨t, c, a⟩ = false

theorem gateQuiet_step {c : Cmd} (hc : c.gateQuiet user e) :
    GateStep cfg calls user e t (Written user e t) c fun _ => Written user e t := by
  refine gateStep_intro fun w a b w' hi hw _ _ he => ?_
  obtain ⟨haction, hmoves⟩ := hc t a
  obtain ⟨hinv, hrely, hunwritten, -⟩ :=
    gateStill_exec he (.inr haction) hmoves (fun h => absurd h hw) hi
  exact ⟨hinv, hrely, fun h => hw (hunwritten ▸ h)⟩

theorem offGate_exec {c : Cmd} {b : c.Ans} (hc : c.offGate user e)
    (he : exec t (.mk c) a w = some (b, w')) (hw : Elsewhere user e t w) (hi : GateInv user e w) :
    GateInv user e w' ∧ (∀ i, i ≠ t → GateRely user e i w w') ∧ Elsewhere user e t w' := by
  obtain ⟨hturns, hmoves⟩ := hc t a
  obtain ⟨hinv, hrely, hunwritten, -⟩ :=
    gateStill_exec he (.inl hw.2) hmoves (fun h => absurd h hw.1) hi
  refine ⟨hinv, hrely, fun h => hw.1 (hunwritten ▸ h), ?_⟩
  rw [exec_trace he, turned_self (r := ⟨t, c, a⟩)]
  cases hr : Record.turns user ⟨t, c, a⟩ with
  | none => exact hw.2
  | some i =>
    intro hsome
    rw [Option.getD_some] at hsome
    exact hturns (hr.trans (congrArg some hsome))

theorem offGate_triple {x : Prog Op α} (hx : Does (Cmd.offGate user e) x) :
    GateTriple cfg calls user e t (Elsewhere user e t) x fun _ => Elsewhere user e t := by
  refine .only Elsewhere.stable (Prog.Only.mono (fun β o ho => ?_) hx)
  obtain ⟨c⟩ := o
  exact fun w a b w' hw hi _ he => offGate_exec ho he hw hi

theorem within_triple {x : Prog Op α}
    (hx : Does (fun c => c.offGate user e ∧ ∀ t l, c.spans t l = l) x) :
    GateTriple cfg calls user e t (InEmail user e t) x fun _ => InEmail user e t := by
  refine .only InEmail.stable (Prog.Only.mono (fun β o ho => ?_) hx)
  obtain ⟨c⟩ := o
  intro w a b w' hw hi _ he
  have he : exec t (.mk c) a w = some (b, w') := he
  have hspans : w'.spans = w.spans := (exec_spans he).trans (ho.2 t _)
  obtain ⟨hinv, hrely, helse⟩ := offGate_exec ho.1 he hw.1 hi
  exact ⟨hinv, hrely, helse, hspans ▸ hw.2⟩

theorem enterEmail_step {i : Option EmailId} :
    GateStep cfg calls user e t (Written user e t) (.task (.enter i)) fun _ w =>
      Elsewhere user e t w ∧ (i = some e → InEmail user e t w) := by
  refine gateStep_intro fun w a b w' hi hw _ _ he => ?_
  obtain ⟨hinv, hrely, hunwritten, -⟩ := gateStill_exec he (.inr rfl) rfl (fun h => absurd h hw) hi
  have helse : Elsewhere user e t w' := by
    refine ⟨fun h => hw (hunwritten ▸ h), ?_⟩
    rw [exec_trace he, turned_self (r := ⟨t, _, a⟩)]
    simp [Record.turns]
  refine ⟨hinv, hrely, helse, ?_⟩
  rintro rfl
  refine ⟨helse, ?_⟩
  rw [exec_spans he]
  exact List.mem_cons_self

/-! Mirroring the read state. -/

/-- The command is none of those, for the task that mirrors the email. -/
def Cmd.passing (user : UserId) (e : EmailId) (c : Cmd) : Prop :=
  c.gateQuiet user e ∧ (∀ t a, Record.turns user ⟨t, c, a⟩ = none) ∧ ∀ t l, c.spans t l = l

theorem inCall_exec {c : Cmd} {b : c.Ans} (h : exec t (.mk c) a w = some (b, w'))
    (hturns : Record.turns user ⟨t, c, a⟩ = none) (hspans : ∀ t l, c.spans t l = l)
    (hw : w.inCall user e t) : w'.inCall user e t := by
  refine ⟨?_, ?_⟩
  · rw [exec_trace h, turned_self (r := ⟨t, c, a⟩), hturns]
    exact hw.1
  · rw [exec_spans h, hspans]
    exact hw.2

theorem passing_looked {c : Cmd} (hc : c.passing user e) :
    GateStep cfg calls user e t (GateRead user e t b) c fun _ => GateRead user e t b := by
  refine gateStep_intro fun w a x w' hi hw _ _ he => ?_
  obtain ⟨hwritten, hcall, hgate⟩ := hw
  obtain ⟨haction, hmoves⟩ := hc.1 t a
  have hcall' : w'.inCall user e t := inCall_exec he (hc.2.1 t a) hc.2.2 hcall
  obtain ⟨hinv, hrely, hunwritten, -⟩ :=
    gateStill_exec he (.inr haction) hmoves (fun _ => hcall') hi
  refine ⟨hinv, hrely, fun h => hwritten (hunwritten ▸ h), hcall', fun hout => ?_⟩
  rw [gate_exec he hmoves]
  refine hgate ?_
  simpa [exec_trace he, outdated, superseded, hc.2.1 t a] using hout

theorem passing_acted {c : Cmd} (hc : c.passing user e) :
    GateStep cfg calls user e t (Acted user e t b) c fun _ => Acted user e t b := by
  refine gateStep_intro fun w a x w' hi hw _ _ he => ?_
  obtain ⟨haction, hmoves⟩ := hc.1 t a
  have hcall : w'.inCall user e t := inCall_exec he (hc.2.1 t a) hc.2.2 (hi.inside t hw.1)
  obtain ⟨hinv, hrely, hunwritten, hactions⟩ :=
    gateStill_exec he (.inr haction) hmoves (fun _ => hcall) hi
  refine ⟨hinv, hrely, hunwritten.trans hw.1, ?_⟩
  rw [hactions]
  exact hw.2

theorem look_step :
    GateStep cfg calls user e t (InEmail user e t) (.store (.getJmapState user (.readSynced e)))
      fun r => GateRead user e t (isOkSome r) := by
  refine gateStep_intro fun w a r w' hi hw hd _ he => ?_
  have hturn : turned user t w'.trace = some e := by
    rw [exec_trace he, turned_self (r := ⟨t, _, a⟩)]
    simp [Record.turns]
  have hspan : (t, some e) ∈ w'.spans := by
    rw [exec_spans he]
    exact hw.2
  obtain ⟨hinv, hrely, hunwritten, -⟩ :=
    gateStill_exec he (.inr rfl) rfl (fun _ => ⟨hturn, hspan⟩) hi
  refine ⟨hinv, hrely, fun h => hw.1.1 (hunwritten ▸ h), ⟨hturn, hspan⟩, fun _ => ?_⟩
  obtain ⟨order, rfl, -, -⟩ := exec_carriedOut hd he
  rw [gate_exec he rfl, World.gate]
  simp only [StoreCmd.run]
  cases w.store.jmapState.lookup (user, .readSynced e) <;> rfl

theorem action_exec {c : Cmd} {x : c.Ans} (he : exec t (.mk c) a w = some (x, w'))
    (haction : Record.action ⟨t, c, a⟩ = some b)
    (hmoves : Record.movesGate user e ⟨t, c, a⟩ = false)
    (hcall : w'.inCall user e t) (hw : GateRead user e t (!b) w)
    (hout : outdated user e t w.trace = false) (hnone : unwritten user e w.trace = none)
    (hi : GateInv user e w) :
    GateInv user e w' ∧ (∀ i, i ≠ t → GateRely user e i w w') ∧ Acted user e t b w' := by
  have hturn : turned user t w.trace = some e := hw.2.1.1
  have hactions : actions user e w'.trace = b :: actions user e w.trace := by
    rw [exec_trace he]
    simp [actions, hturn, haction]
  have hunwritten : unwritten user e w'.trace = some t := by
    rw [exec_trace he]
    simp [unwritten, hmoves, hturn, haction]
  have hlast : (actions user e w.trace).headD false = !b :=
    (hi.written hnone).symm.trans (hw.2.2 hout)
  refine ⟨⟨(hasUser_exec he).trans hi.registered, ?_, fun h => ?_, fun i h => ?_⟩, fun i hit => ?_,
    hunwritten, by rw [hactions]; rfl⟩
  · rw [hactions]
    refine ⟨?_, hi.alternating⟩
    rw [hlast]
    simp
  · rw [hunwritten] at h
    cases h
  · rw [hunwritten] at h
    obtain rfl := Option.some.inj h
    exact hcall
  · refine gate_rely he hit ?_ fun h => ?_
    · rw [hunwritten, hnone]
      simpa using Ne.symm hit
    · rw [hnone] at h
      cases h

theorem refused_exec {c : Cmd} {x : c.Ans} (he : exec t (.mk c) a w = some (x, w'))
    (haction : Record.action ⟨t, c, a⟩ = none) (hmoves : Record.movesGate user e ⟨t, c, a⟩ = false)
    (hcall : w'.inCall user e t) (hw : GateRead user e t b w) (hi : GateInv user e w) :
    GateInv user e w' ∧ (∀ i, i ≠ t → GateRely user e i w w') ∧ Written user e t w' := by
  obtain ⟨hinv, hrely, hunwritten, -⟩ := gateStill_exec he (.inr haction) hmoves (fun _ => hcall) hi
  exact ⟨hinv, hrely, fun h => hw.1 (hunwritten ▸ h)⟩

theorem mirror_step {c : MatrixCmd} (hdone : ∀ t, Record.action ⟨t, .matrix c, .done⟩ = some b)
    (helse : ∀ t a, a ≠ .done → Record.action ⟨t, .matrix c, a⟩ = none)
    (hvalue : ∀ a, (c.value a).isSome ↔ a = .done) :
    GateStep cfg calls user e t (GateRead user e t (!b)) (.matrix c)
      (post (fun _ => Acted user e t b) fun _ => Written user e t) := by
  refine gateStep_intro fun w a r w' hi hw _ hd he => ?_
  have hcall : w'.inCall user e t := inCall_exec he rfl (fun _ _ => rfl) hw.2.1
  cases r with
  | ok v =>
    have hsome : c.value a = some v := (exec_matrix he).2 v rfl
    obtain rfl := (hvalue a).mp (by rw [hsome]; rfl)
    obtain ⟨hout, hnone⟩ := hd hw.2.1.1 (by rw [hdone]; rfl)
    exact action_exec he (hdone t) rfl hcall hw hout hnone hi
  | error err =>
    have hne : a ≠ .done := by
      rintro rfl
      rcases exec_matrix_cases he with ⟨v, hok, -⟩ | ⟨ha, -⟩ | ⟨ha, -⟩ | ⟨s, ha, -⟩
      · cases hok
      · cases ha
      · cases ha
      · cases ha
    exact refused_exec he (helse t a hne) rfl hcall hw hi

theorem receipt_step {room : RoomId} {event : EventId} {token : String} :
    GateStep cfg calls user e t (GateRead user e t false)
      (.matrix (.sendReadReceipt room event token))
      (post (fun _ => Acted user e t true) fun _ => Written user e t) := by
  refine mirror_step (c := .sendReadReceipt room event token) (b := true) (fun _ => rfl)
    (fun t a h => ?_) fun a => ?_
  · cases a <;> first | rfl | exact absurd rfl h
  · cases a <;> simp [MatrixCmd.value]

theorem unread_step {room : RoomId} {token : String} :
    GateStep cfg calls user e t (GateRead user e t true)
      (.matrix (.setMarkedUnread user room true token))
      (post (fun _ => Acted user e t false) fun _ => Written user e t) := by
  refine mirror_step (c := .setMarkedUnread user room true token) (b := false) (fun _ => rfl)
    (fun t a h => ?_) fun a => ?_
  · cases a <;> first | rfl | exact absurd rfl h
  · cases a <;> simp [MatrixCmd.value]

theorem write_exec {c : Cmd} {x : c.Ans} (he : exec t (.mk c) a w = some (x, w'))
    (haction : Record.action ⟨t, c, a⟩ = none) (hmoves : Record.movesGate user e ⟨t, c, a⟩ = true)
    (hgate : w'.gate user e = b) (hw : Acted user e t b w) (hi : GateInv user e w) :
    GateInv user e w' ∧ (∀ i, i ≠ t → GateRely user e i w w') ∧ Written user e t w' := by
  have htrace : w'.trace = ⟨t, c, a⟩ :: w.trace := exec_trace he
  have hnone : unwritten user e w'.trace = none := by
    rw [htrace]
    simp [unwritten, hmoves]
  have hactions : actions user e w'.trace = actions user e w.trace := by
    rw [htrace]
    simp [actions, haction]
  refine ⟨⟨(hasUser_exec he).trans hi.registered, hactions ▸ hi.alternating, fun _ => ?_,
    fun i h => ?_⟩,
    fun i hit => ?_, ?_⟩
  · rw [hgate, hactions]
    exact hw.2.symm
  · rw [hnone] at h
    cases h
  · have hne : unwritten user e w.trace ≠ some i := by
      rw [hw.1]
      simpa using Ne.symm hit
    exact gate_rely he hit (by simp [hnone, hne]) fun h => absurd h hne
  · rw [Written, hnone]
    simp

theorem saveGate_step :
    GateStep cfg calls user e t (Acted user e t true)
      (.store (.saveJmapState user (.readSynced e) "1")) fun _ => Written user e t := by
  refine gateStep_intro fun w a r w' hi hw hd _ he => ?_
  obtain ⟨order, -, hstore, -⟩ := exec_carriedOut hd he
  refine write_exec he rfl (by simp [Record.movesGate]) ?_ hw hi
  have huser : w.store.hasUser user := hi.registered
  simp [World.gate, hstore, StoreCmd.run, Store.referring, huser]

theorem deleteGate_step :
    GateStep cfg calls user e t (Acted user e t false)
      (.store (.deleteJmapState user (.readSynced e))) fun _ => Written user e t := by
  refine gateStep_intro fun w a r w' hi hw hd _ he => ?_
  obtain ⟨order, -, hstore, -⟩ := exec_carriedOut hd he
  refine write_exec he rfl (by simp [Record.movesGate]) ?_ hw hi
  simp [World.gate, hstore, StoreCmd.run]

theorem passing_call {c : Cmd} (hc : c.passing user e) {x : Prog Op c.Ans}
    (hx : x = Prog.call (.mk c)) :
    GateTriple cfg calls user e t (GateRead user e t b) x fun _ => GateRead user e t b := by
  rw [hx]
  exact .call GateRead.stable (passing_looked hc) fun _ => GateRead.stable

theorem letSome_looked {β : Type} {x : Bridge (Option β)} {k : β → Task Unit}
    (hx : GateTriple cfg calls user e t (GateRead user e t b) x fun _ => GateRead user e t b)
    (hk : ∀ v, GateTriple cfg calls user e t (GateRead user e t b) (k v) fun _ =>
      Written user e t) :
    GateTriple cfg calls user e t (GateRead user e t b) (letSome x k) fun _ =>
      Written user e t := by
  refine .bind hx fun r => ?_
  rcases r with err | (_ | v)
  · exact .pure GateRead.stable fun _ _ h => h.1
  · exact .pure GateRead.stable fun _ _ h => h.1
  · exact hk v

theorem passing_store {c : StoreCmd} (hturns : ∀ t a, Record.turns user ⟨t, .store c, a⟩ = none)
    (hmoves : ∀ t a, Record.movesGate user e ⟨t, .store c, a⟩ = false) :
    (Cmd.store c).passing user e :=
  ⟨fun t a => ⟨rfl, hmoves t a⟩, hturns, fun _ _ => rfl⟩

variable {p : Poller} {email : Email}

theorem acted_stable (r : Except Err Unit) : Stable (gateContract user e) t
    (post (fun _ => Acted user e t b) (fun _ => Written user e t) r) := by
  cases r with
  | ok _ => exact Acted.stable
  | error _ => exact Written.stable

theorem mirrorSeen_gate {room : RoomId} {token : String} (hp : p.user = user) :
    GateTriple cfg calls user e t (GateRead user e t false) (mirrorSeen p e room token)
      fun _ => Written user e t := by
  subst hp
  refine letSome_looked (passing_call (passing_store (fun _ _ => rfl) fun _ _ => rfl) rfl)
    fun event => ?_
  refine .bind (.call GateRead.stable receipt_step acted_stable) fun r => ?_
  cases r with
  | error err => exact .pure Written.stable fun _ _ h => h
  | ok _ =>
    have hunread : (Cmd.matrix (.setMarkedUnread p.user room false token)).passing p.user e :=
      ⟨fun t a => ⟨rfl, rfl⟩, fun _ _ => rfl, fun _ _ => rfl⟩
    refine .bind (.call Acted.stable (passing_acted hunread) fun _ => Acted.stable) fun _ => ?_
    exact .bind (.call Acted.stable saveGate_step fun _ => Written.stable) fun _ =>
      .pure Written.stable fun _ _ h => h

theorem mirrorUnseen_gate {room : RoomId} {token : String} (hp : p.user = user) :
    GateTriple cfg calls user e t (GateRead user e t true) (mirrorUnseen p e room token)
      fun _ => Written user e t := by
  subst hp
  refine .bind (.call GateRead.stable unread_step acted_stable) fun r => ?_
  cases r with
  | error err => exact .pure Written.stable fun _ _ h => h
  | ok _ =>
    exact .bind (.call Acted.stable deleteGate_step fun _ => Written.stable) fun _ =>
      .pure Written.stable fun _ _ h => h

theorem syncReadState_gate (hp : p.user = user) (hid : email.id = some e) :
    GateTriple cfg calls user e t (InEmail user e t) (syncReadState p email)
      fun _ => Written user e t := by
  subst hp
  rw [syncReadState, hid]
  refine .bind (.call InEmail.stable look_step fun _ => GateRead.stable) fun synced => ?_
  split
  · exact .pure GateRead.stable fun _ _ h => h.1
  case isFalse hedge =>
  refine letSome_looked (passing_call (passing_store (fun _ _ => rfl) fun _ _ => rfl) rfl)
    fun token => ?_
  cases email.threadId with
  | none => exact .pure GateRead.stable fun _ _ h => h.1
  | some threadId =>
    refine letSome_looked (passing_call (passing_store (fun _ _ => rfl) fun _ _ => rfl) rfl)
      fun row => ?_
    cases hseen : email.keywords.contains "$seen" with
    | true =>
      have hgate : isOkSome synced = false := by
        rw [hseen] at hedge
        simpa using Ne.symm hedge
      rw [hgate]
      exact mirrorSeen_gate rfl
    | false =>
      have hgate : isOkSome synced = true := by
        rw [hseen] at hedge
        simpa using Ne.symm hedge
      rw [hgate]
      exact mirrorUnseen_gate rfl

/-! The email. -/

theorem RoomCmd.silent {u : UserId} {c : Cmd} (h : RoomCmd u c) :
    c.gateQuiet user e ∧ c.offGate user e ∧ ∀ t l, c.spans t l = l := by
  cases h <;> exact ⟨fun _ _ => ⟨rfl, rfl⟩, fun _ _ => ⟨nofun, rfl⟩, fun _ _ => rfl⟩

theorem BridgeCmd.offGate {I : EmailId → Prop} {c : Cmd} (h : BridgeCmd p I c) :
    c.offGate user e ∧ ∀ t l, c.spans t l = l := by
  cases h with
  | attachment r c h => cases h <;> exact ⟨fun _ _ => ⟨nofun, rfl⟩, fun _ _ => rfl⟩
  | contact c h => exact h.silent.2
  | _ => exact ⟨fun _ _ => ⟨nofun, rfl⟩, fun _ _ => rfl⟩

theorem ReadStateCmd.offGate {c : Cmd} (h : ReadStateCmd p.user email.id c)
    (hne : ¬ (p.user = user ∧ email.id = some e)) : c.offGate user e := by
  have hkey : ∀ i ∈ email.id, ¬ (p.user = user ∧ i = e) := by
    rintro i hi ⟨hp, rfl⟩
    exact hne ⟨hp, hi⟩
  cases h with
  | synced i hi => exact fun _ _ => ⟨by simpa [Record.turns] using hkey i hi, rfl⟩
  | save i v hi => exact fun _ _ => ⟨nofun, by simpa [Record.movesGate] using hkey i hi⟩
  | delete i hi => exact fun _ _ => ⟨nofun, by simpa [Record.movesGate] using hkey i hi⟩
  | _ => exact fun _ _ => ⟨nofun, rfl⟩

theorem leaveEmail_step {i : Option EmailId} :
    GateStep cfg calls user e t (Written user e t) (.task (.leave i)) fun _ => Written user e t :=
  gateQuiet_step fun _ _ => ⟨rfl, rfl⟩

theorem bridgeEmail_gate (hp : p.user = user) (hid : email.id = some e) :
    GateTriple cfg calls user e t (InEmail user e t) (bridgeEmail cfg p email e)
      fun _ => Written user e t := by
  have hwritten : ∀ w, InEmail user e t w → Written user e t w := fun _ h => h.1.1
  have hids : ∀ i ∈ email.id, i = e := fun i hi => Option.some.inj (hi.symm.trans hid)
  have ho : ∀ i, (EmailBody.fromEmail cfg email).origin = .email i → i = e := by
    intro i hi
    simpa [fromEmail_origin hid, eq_comm] using hi
  have hbridge : ∀ c, BridgeCmd p (· = e) c → c.offGate user e ∧ ∀ t l, c.spans t l = l :=
    fun _ h => h.offGate
  have hfail : ∀ {α : Type} {x : Bridge α}, Does (BridgeCmd p (· = e)) x →
      GateTriple cfg calls user e t (InEmail user e t) x
        (post (fun _ => InEmail user e t) fun _ => Written user e t) := by
    intro α x hx
    refine .post (within_triple (hx.mono hbridge)) fun r w _ h => ?_
    cases r with
    | ok _ => exact h
    | error _ => exact hwritten w h
  have hstable : ∀ _ : Err, Stable (gateContract user e) t (Written user e t) :=
    fun _ => Written.stable
  have htriple : GateTriple cfg calls user e t (InEmail user e t) (bridgeEmail cfg p email e)
      (post (fun _ => Written user e t) fun _ => Written user e t) := by
    refine .andThen (hfail (.store (.contact _ .ownEmail))) hstable fun own => ?_
    split
    · refine .post (hfail (.lift (.task (.skipping _ _ rfl)))) fun r w _ h => ?_
      cases r with
      | ok _ => exact hwritten w h
      | error _ => exact h
    · refine .andThen (hfail .ofOption) hstable fun threadId => ?_
      refine .andThen (hfail resolveGhost_does) hstable fun ghost => ?_
      refine .andThen (hfail (bridgeToRoom_does ho hids)) hstable fun _ => ?_
      exact .lift (syncReadState_gate hp hid) fun _ => Written.stable
  refine .post htriple fun r w _ h => ?_
  cases r <;> exact h

theorem processEmail_gate :
    GateTriple cfg calls user e t (Written user e t) (processEmail cfg p email)
      fun _ => Written user e t := by
  have hstable : Stable (gateContract user e) t (Written user e t) := Written.stable
  have hleave : ∀ r : Except Err Unit, GateTriple cfg calls user e t (Written user e t)
      (Prog.bind (onTask (.leave email.id)) fun _ => .pure r) fun _ => Written user e t :=
    fun r => .bind (.call hstable leaveEmail_step fun _ => hstable) fun _ =>
      .pure hstable fun _ _ h => h
  have henter : GateTriple cfg calls user e t (Written user e t) (onTask (.enter email.id))
      fun _ w => Elsewhere user e t w ∧ (email.id = some e → InEmail user e t w) :=
    .call hstable enterEmail_step fun _ => Elsewhere.stable.and
      fun w w' h hr hi hid => InEmail.stable w w' (h hid) hr hi
  by_cases hmine : p.user = user ∧ email.id = some e
  · obtain ⟨hp, hid⟩ := hmine
    have hmapped : (Cmd.store (.hasMessageMapped e)).offGate user e ∧
        ∀ t l, (Cmd.store (.hasMessageMapped e)).spans t l = l :=
      ⟨fun _ _ => ⟨(fun h => by cases h), rfl⟩, fun _ _ => rfl⟩
    rw [processEmail]
    refine .bind henter fun _ => .bind (R := fun _ => Written user e t) ?_ hleave
    rw [hid]
    change GateTriple cfg calls user e t _ (Act.andThen (onStore (.hasMessageMapped e)) _) _
    refine .bind (.pre (within_triple (.store hmapped)) fun _ _ h => h.2 rfl) fun r => ?_
    rcases r with err | (_ | _)
    · exact .pure InEmail.stable fun _ _ h => h.1.1
    · exact bridgeEmail_gate hp hid
    · exact .bind (syncReadState_gate hp hid) fun _ => .pure hstable fun _ _ h => h
  · obtain ⟨body, hbody, hdoes⟩ : ∃ body : Bridge Unit,
        processEmail cfg p email = instrument email.id body ∧ Does (Cmd.offGate user e) body :=
      processEmail_instrument (fun _ _ => trivial) (fun _ _ _ _ => ⟨(fun h => by cases h), rfl⟩)
        (fun _ (h : BridgeCmd p (fun _ => True) _) => h.offGate.1) fun _ h => h.offGate hmine
    rw [hbody]
    refine .bind henter fun _ => .bind (R := fun _ => Written user e t) ?_ hleave
    exact .post (.pre (offGate_triple hdoes) fun _ _ h => h.1) fun _ _ _ h => h.1

/-! The walks. -/

theorem PaceCmd.gateQuiet {c : Cmd} (h : PaceCmd p c) : c.gateQuiet user e := by
  cases h with
  | saveState k v hk => cases k <;> first | exact fun _ _ => ⟨rfl, rfl⟩ | cases hk
  | deleteState k hk => cases k <;> first | exact fun _ _ => ⟨rfl, rfl⟩ | cases hk
  | _ => exact fun _ _ => ⟨rfl, rfl⟩

theorem MailboxCmd.gateQuiet {I : EmailId → Prop} {c : Cmd} (h : MailboxCmd p I c) :
    c.gateQuiet user e := by
  cases h with
  | contact c h => exact h.silent.1
  | _ => exact fun _ _ => ⟨rfl, rfl⟩

theorem gateQuiet_keeps {β : Type} {o : Op β} (ho : o.cmd.gateQuiet user e) :
    Keeps (bridge cfg calls) (actsInTurn user e) (gateContract user e) t
      (Written user e t) β o := by
  obtain ⟨c⟩ := o
  exact fun w a b w' hw hi hd he => gateQuiet_step ho w a b w' hi hw hd he

theorem gate_upholds (hcalls : ∀ t, (calls t).Ingests) :
    Upholds (bridge cfg calls) (actsInTurn user e) (gateContract user e) where
  start := by
    intro t w hi hidle _
    have hclosed : ∀ p : Poller, Prog.Closed (fun _ o => PaceCmd p o.cmd) fun _ x =>
        GateTriple cfg calls user e t (Written user e t) x fun _ => Written user e t :=
      fun p => (Triple.closed Written.stable).mono fun _ _ h => gateQuiet_keeps h.gateQuiet
    have hprog : GateTriple cfg calls user e t (Written user e t) ((calls t).program cfg)
        fun _ => Written user e t := by
      have hc := hcalls t
      match hcall : calls t with
      | .poll p =>
        have hmailboxes : Does (MailboxCmd p fun _ => True) (pollMailboxes cfg p) :=
          pollMailboxes_does
        have hquiet : GateTriple cfg calls user e t (Written user e t) (pollMailboxes cfg p)
            fun _ => Written user e t :=
          .only Written.stable
            (Prog.Only.mono (fun _ _ h => gateQuiet_keeps (MailboxCmd.gateQuiet h)) hmailboxes)
        exact (hclosed p).bind (poll_closed (hclosed p) hquiet fun _ => processEmail_gate) fun _ =>
          (hclosed p).pure ()
      | .backfill p => exact runBackfillLoop_closed (hclosed p) fun _ => processEmail_gate
      | .newThread .. | .fileRoom .. | .repairSpace _ | .worker
      | .transaction .. | .detached _ | .prune | .logout _ =>
        rw [hcall] at hc
        exact hc.elim
    exact hprog w hi hidle
  env := by
    intro ev w w' hi _ h
    have hsame : w'.spans = w.spans ∧ (w.store.hasUser user → w'.store.hasUser user) := by
      cases ev with
      | release key stored =>
        change (Env.release key stored).perform w = some w' at h
        simp only [Env.perform] at h
        split at h
        · obtain rfl := Option.some.inj h
          exact ⟨rfl, id⟩
        · cases h
      | login u row account =>
        obtain rfl := Option.some.inj h
        refine ⟨rfl, fun hu => ?_⟩
        by_cases heq : user = u
        · subst heq
          simp [Store.hasUser]
        · rw [Store.hasUser, AList.lookup_insert_ne heq]
          exact hu
      | _ =>
        obtain rfl := Option.some.inj h
        exact ⟨rfl, id⟩
    obtain ⟨hspans, huser⟩ := hsame
    obtain ⟨htrace, users, locks, hstore⟩ := env_store h
    have hgate : w'.gate user e = w.gate user e := by rw [World.gate, hstore, World.gate]
    refine ⟨⟨huser hi.registered, htrace ▸ hi.alternating, fun hn => ?_, fun i hs => ?_⟩,
      fun i => ?_⟩
    · rw [hgate, htrace]
      exact hi.written (htrace ▸ hn)
    · rw [World.inCall, htrace, hspans]
      exact hi.inside i (htrace ▸ hs)
    · exact ⟨by rw [htrace], by rw [hspans], by rw [htrace], fun _ => by rw [htrace],
        fun hout => ⟨htrace ▸ hout, hgate⟩⟩
  cancel := by
    intro t w hi hd
    have hspans : ∀ i, i ≠ t → ((i, some e) ∈ (drop t w).spans ↔ (i, some e) ∈ w.spans) := by
      intro i hit
      simp [drop, hit]
    refine ⟨⟨hi.registered, hi.alternating, hi.written, fun i hs => ?_⟩, fun i hit => ?_, hd⟩
    · have hit : i ≠ t := by
        rintro rfl
        exact hd hs
      obtain ⟨hturn, hin⟩ := hi.inside i hs
      exact ⟨hturn, (hspans i hit).mpr hin⟩
    · exact ⟨rfl, hspans i hit, Iff.rfl, fun _ => rfl, fun hout => ⟨hout, rfl⟩⟩

/-- In every run of polls and backfills over a reliable store whose actions on an email come in
turn, they alternate, and between the calls the gate is there exactly if the last one was READ. -/
theorem edges_mirrored_once (hcalls : ∀ t, (calls t).Ingests) (huser : w.store.hasUser user)
    (htrace : w.trace = []) (hgate : w.gate user e = false) {es : List (Event Answer Env)}
    {q : Pool Op World} (hrun : (bridge cfg calls).run es (Pool.boot w) = some q)
    (hD : (bridge cfg calls).Admits (actsInTurn user e).meets es (Pool.boot w)) :
    Alternating (actions user e q.world.trace) ∧
      ((∀ t, ¬ q.world.inCall user e t) →
        (q.world.gate user e ↔ (actions user e q.world.trace).head? = some true)) := by
  have hinv : (gateContract user e).inv w := by
    refine ⟨huser, ?_, fun _ => ?_, fun t h => ?_⟩
    · rw [htrace]
      trivial
    · rw [hgate, htrace]
      rfl
    · rw [htrace] at h
      cases h
  have hidle : ∀ t, (gateContract user e).idle t w := by
    intro t h
    rw [htrace] at h
    cases h
  obtain ⟨-, halt, hwritten, hinside⟩ := (gate_upholds hcalls).inv_of_run hinv hidle hrun hD
  refine ⟨halt, fun hnone => ?_⟩
  have hreached : unwritten user e q.world.trace = none := by
    cases hu : unwritten user e q.world.trace with
    | none => rfl
    | some t => exact absurd (hinside t hu) (hnone t)
  rw [hwritten hreached]
  cases actions user e q.world.trace with
  | nil => simp
  | cons b l => simp

end

/-- An email that was read in the mail client. -/
def seenEmail : Email :=
  { id := some "e1", threadId := some "T", fromAddrs := some [⟨none, "bob@x"⟩],
    keywords := ["$seen"] }

def seenWorld : World where
  store :=
    { users := (∅ : Sql.Table _ _).insert "@a:localhost" ⟨"a", "token", "url"⟩
      jmapState := ((∅ : Sql.Table _ _).insert ("@a:localhost", .changes) "s0").insert
        ("@a:localhost", .matrixPuppetToken) "puppet"
      threadMapping := (∅ : Sql.Table _ _).insert "T" ⟨"$root", "!r", none⟩
      messageMapping := (∅ : Sql.Table _ _).insert "e1" "$root" }

/-- Task `t` fetches the email, finds it mapped and reads its gate. -/
def looks (t : Nat) : List (Event Answer Env) :=
  [.start t, .step t .done, .tau t,
    .step t (.reply (.changes { newState := "s1", updated := ["e1"] })),
    .step t (.reply (.emails [seenEmail])), .step t .done, .step t .done, .step t .done]

/-- The token, the room and the event, then the receipt. -/
def acts (t : Nat) : List (Event Answer Env) := List.replicate 4 (.step t .done)

/-- The flag is cleared, the gate moved and the email left. -/
def writes (t : Nat) : List (Event Answer Env) := List.replicate 3 (.step t .done)

/-- The second poll reads the gate after the first has moved it. -/
theorem edges_mirrored_once_polls : ∃ q,
    (bridge {} twoPolls).run (looks 0 ++ acts 0 ++ writes 0 ++ looks 1) (Pool.boot seenWorld) =
      some q ∧
      Alternating (actions "@a:localhost" "e1" q.world.trace) ∧
        ((∀ t, ¬ q.world.inCall "@a:localhost" "e1" t) → (q.world.gate "@a:localhost" "e1" ↔
          (actions "@a:localhost" "e1" q.world.trace).head? = some true)) := by
  have hends : ((bridge {} twoPolls).run (looks 0 ++ acts 0 ++ writes 0 ++ looks 1)
      (Pool.boot seenWorld)).isSome := by decide +kernel
  have hturn : (bridge {} twoPolls).Admits (actsInTurn "@a:localhost" "e1").meets
      (looks 0 ++ acts 0 ++ writes 0 ++ looks 1) (Pool.boot seenWorld) := by decide +kernel
  obtain ⟨q, hq⟩ := Option.isSome_iff_exists.mp hends
  have hcalls : ∀ t, (twoPolls t).Ingests := fun _ => trivial
  exact ⟨q, hq, edges_mirrored_once hcalls (by decide +kernel) rfl (by decide +kernel) hq hturn⟩

/-- Both polls read the gate before either has moved it, and both mirror the email as read. -/
theorem polls_mirror_twice : (∀ t, (twoPolls t).Ingests) ∧
    (bridge {} twoPolls).Admits storeWorks.meets (looks 0 ++ looks 1 ++ acts 0 ++ acts 1)
      (Pool.boot seenWorld) ∧
    ((bridge {} twoPolls).run (looks 0 ++ looks 1 ++ acts 0 ++ acts 1) (Pool.boot seenWorld)).map
      (fun q => actions "@a:localhost" "e1" q.world.trace) = some [true, true] ∧
    ¬ Alternating [true, true] := by
  refine ⟨fun _ => trivial, ?_, ?_, fun h => h.1 rfl⟩
  · decide +kernel
  · decide +kernel

end JmapBridge
