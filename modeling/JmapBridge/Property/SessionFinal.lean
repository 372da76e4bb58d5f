import JmapBridge.Property.OneLoop

/-! What a login or a logout settles. As long as no startup or reconnect starts a session of
the user afterwards, the sessions there are belong to the last of the two that returned, or
to a login since. -/

namespace JmapBridge

open Effect Sql

variable {calls : Nat → SessionCall} {u : UserId} {t : Nat}

/-- The commands with which `u` begins and ends sessions. -/
def SessionCall.commands (u : UserId) : SessionCall → Bool
  | login v _ => v == u
  | logout v => v == u
  | _ => false

/-- The credentials that a call brings. -/
def SessionCall.rows : SessionCall → List RegisteredUser
  | login _ row => [row]
  | _ => []

/-- The first step of a login or logout of `u`. -/
def SessionCall.opens (u : UserId) : SessionCall → SessionCmd → Bool
  | login v _, .connect _ _ => v == u
  | logout v, .abortHandle _ => v == u
  | _, _ => false

/-- The return of a logout of `u`, or of a login that succeeded. -/
def SessionCall.settles (u : UserId) : SessionCall → SessionCmd → Bool
  | login _ _, .report v ok => v == u && ok
  | logout _, .report v _ => v == u
  | _, _ => false

/-- A call of `u` returns. -/
def SessionCmd.reports (u : UserId) : SessionCmd → Bool
  | report v _ => v == u
  | _ => false

/-- A login or logout of `u` has reached its `abort_poller`. -/
def taken (calls : Nat → SessionCall) (u : UserId) (l : List SessionRecord) : Bool :=
  l.any fun r => (calls r.task).commands u && r.cmd == .abortHandle u

/-- The logins and logouts of `u` that have begun and not returned. -/
def opened (calls : Nat → SessionCall) (u : UserId) : List SessionRecord → List Nat
  | [] => []
  | r :: l =>
    if (calls r.task).opens u r.cmd then r.task :: opened calls u l
    else if r.cmd.reports u then (opened calls u l).filter (· != r.task)
    else opened calls u l

/-- The credentials that sessions of `u` may have, once a login or logout has returned: those
of that login, and those of logins begun since. -/
def allowed (calls : Nat → SessionCall) (u : UserId) :
    List SessionRecord → Option (List RegisteredUser)
  | [] => none
  | r :: l =>
    if (calls r.task).opens u r.cmd then (allowed calls u l).map ((calls r.task).rows ++ ·)
    else if (calls r.task).settles u r.cmd then some (calls r.task).rows
    else allowed calls u l

/-- A client of `u` in the client map, or an event loop of `u`. -/
def SessionWorld.Session (w : SessionWorld) (u : UserId) (row : RegisteredUser) : Prop :=
  w.clients.lookup u = some row ∨ ∃ id l, w.Loop u id l ∧ l.client = row

/-- The logins and logouts of `u` come one after the other, sessions of `u` are started and
ended one at a time, and none is started by the startup or a reconnect once a login or
logout has reached its `abort_poller`. -/
def uncontested (calls : Nat → SessionCall) (u : UserId) :
    Discipline SessionOp SessionWorld SessionAnswer SessionEnv where
  step t _ o _ w :=
    (o.cmd = .abortHandle u → (starting calls u w.trace = [] ∧ w.winding u = false) ∧
      ((calls t).commands u = false → taken calls u w.trace = false)) ∧
    ((calls t).opens u o.cmd → opened calls u w.trace = [])

instance decidableUncontestedStep (t : Nat) (β : Type) (o : SessionOp β) (a : SessionAnswer)
    (w : SessionWorld) : Decidable ((uncontested calls u).step t o a w) :=
  inferInstanceAs (Decidable (_ ∧ _))

instance decidableUncontested (e : Event SessionAnswer SessionEnv)
    (q : Pool SessionOp SessionWorld) :
    Decidable ((uncontested calls u).meets e q) :=
  @Discipline.decidableMeets SessionOp SessionWorld SessionAnswer SessionEnv (uncontested calls u)
    (fun _ _ => instDecidableTrue) _ (fun _ _ => instDecidableTrue)
      (fun _ _ => instDecidableTrue) e q

theorem apart_of_uncontested {o : SessionOp β} {a : SessionAnswer} {w : SessionWorld}
    (h : (uncontested calls u).step t o a w) : (apart calls u false).step t o a w :=
  fun hc _ => (h.1 hc).1

structure Settlement (calls : Nat → SessionCall) (u : UserId) (w : SessionWorld) : Prop where
  single : opened calls u w.trace = [] ∨ ∃ t, opened calls u w.trace = [t]
  begun : allowed calls u w.trace ≠ none → taken calls u w.trace = true
  sessions : ∀ rows, allowed calls u w.trace = some rows → ∀ row, w.Session u row → row ∈ rows
  commanded :
    taken calls u w.trace = true → ∀ i ∈ starting calls u w.trace, (calls i).commands u = true
  inside : ∀ i ∈ starting calls u w.trace, (calls i).commands u = true → i ∈ opened calls u w.trace

/-- No session of `u` is there after that was not there before. -/
def SubSessions (u : UserId) (w w' : SessionWorld) : Prop :=
  w'.clients.lookup u = w.clients.lookup u ∧
    ∀ id l', w'.Loop u id l' → ∃ l, w.Loop u id l ∧ l.client = l'.client

theorem SubSessions.refl (w : SessionWorld) : SubSessions u w w := ⟨rfl, fun _ l h => ⟨l, h, rfl⟩⟩

theorem SubSessions.trans {w₁ w₂ w₃ : SessionWorld} (h : SubSessions u w₁ w₂)
    (h' : SubSessions u w₂ w₃) : SubSessions u w₁ w₃ := by
  refine ⟨h'.1.trans h.1, fun id l' hl => ?_⟩
  obtain ⟨l₂, hl₂, he₂⟩ := h'.2 id l' hl
  obtain ⟨l₁, hl₁, he₁⟩ := h.2 id l₂ hl₂
  exact ⟨l₁, hl₁, he₁.trans he₂⟩

theorem SubSessions.session {w w' : SessionWorld} (h : SubSessions u w w') {row : RegisteredUser}
    (hs : w'.Session u row) : w.Session u row := by
  rcases hs with hc | ⟨id, l', hl, he⟩
  · exact .inl (h.1 ▸ hc)
  · obtain ⟨l, hl₁, he₁⟩ := h.2 id l' hl
    exact .inr ⟨id, l, hl₁, he₁.trans he⟩

structure SettledRely (calls : Nat → SessionCall) (u : UserId) (t : Nat) (w w' : SessionWorld) :
    Prop where
  reached : taken calls u w.trace = true → taken calls u w'.trace = true
  outside : t ∉ starting calls u w.trace → t ∉ starting calls u w'.trace
  mine : opened calls u w.trace = [t] →
    opened calls u w'.trace = [t] ∧ allowed calls u w'.trace = allowed calls u w.trace
  alone : opened calls u w.trace = [t] → taken calls u w.trace = true → SubSessions u w w'
  unclaimed : starting calls u w.trace = [t] → (calls t).commands u = false →
    allowed calls u w.trace = none → allowed calls u w'.trace = none

theorem SettledRely.refl (w : SessionWorld) : SettledRely calls u t w w :=
  ⟨id, id, fun h => ⟨h, rfl⟩, fun _ _ => .refl w, fun _ _ h => h⟩

theorem SettledRely.trans {w₁ w₂ w₃ : SessionWorld} (hl : LoopRely calls u t w₁ w₂)
    (h : SettledRely calls u t w₁ w₂) (h' : SettledRely calls u t w₂ w₃) :
    SettledRely calls u t w₁ w₃ where
  reached ht := h'.reached (h.reached ht)
  outside ht := h'.outside (h.outside ht)
  mine ho := by
    obtain ⟨ho₂, ha₂⟩ := h.mine ho
    obtain ⟨ho₃, ha₃⟩ := h'.mine ho₂
    exact ⟨ho₃, ha₃.trans ha₂⟩
  alone ho ht := (h.alone ho ht).trans (h'.alone (h.mine ho).1 (h.reached ht))
  unclaimed hs hc ha := h'.unclaimed (hl.mine hs).1 hc (h.unclaimed hs hc ha)

def finalContract (calls : Nat → SessionCall) (u : UserId) : Contract SessionWorld where
  inv w := LoopInv calls u false w ∧ Settlement calls u w
  rely t w w' := LoopRely calls u t w w' ∧ SettledRely calls u t w w'
  refl t w := ⟨LoopRely.refl w, SettledRely.refl w⟩
  trans h h' := ⟨h.1.trans h'.1, .trans h.1 h.2 h'.2⟩

abbrev FinalStep (calls : Nat → SessionCall) (u : UserId) (t : Nat) (P : SessionWorld → Prop)
    (c : SessionCmd) (R : c.Ans → SessionWorld → Prop) : Prop :=
  Step (sessionSystem calls) (uncontested calls u) (finalContract calls u) t P (.mk c) R

abbrev FinalTriple (calls : Nat → SessionCall) (u : UserId) (t : Nat) (P : SessionWorld → Prop)
    (p : Prog SessionOp α) (Q : α → SessionWorld → Prop) : Prop :=
  Triple (sessionSystem calls) (uncontested calls u) (finalContract calls u) t P p Q

theorem stable_final {P Q : SessionWorld → Prop} (hP : Stable (loopContract calls u false) t P)
    (hQ : ∀ w w', LoopRely calls u t w w' → SettledRely calls u t w w' → P w → Q w → Q w') :
    Stable (finalContract calls u) t fun w => P w ∧ Q w :=
  fun w w' h hr hi => ⟨hP w w' h.1 hr.1 hi.1, hQ w w' hr.1 hr.2 h.1 h.2⟩

theorem FinalStep.of {c : SessionCmd} {P P' : SessionWorld → Prop} {R R' : c.Ans →
    SessionWorld → Prop}
    (hloops : LoopStep calls u false t P c R) (hP : ∀ w, P' w → P w)
    (hrest : ∀ w a b w', LoopInv calls u false w → Settlement calls u w → P' w →
      (uncontested calls u).step t (.mk c) a w → sessionExec t (.mk c) a w = some (b, w') → R b w' →
      Settlement calls u w' ∧ (∀ i, i ≠ t → SettledRely calls u i w w') ∧ R' b w') :
    FinalStep calls u t P' c R' := by
  intro w a b w' hi hw hd h
  obtain ⟨hinv, hrely, hpost⟩ := hloops w a b w' hi.1 (hP w hw) (apart_of_uncontested hd) h
  obtain ⟨hsettled, hothers, hpost'⟩ := hrest w a b w' hi.1 hi.2 hw hd h hpost
  exact ⟨⟨hinv, hsettled⟩, fun i hit => ⟨hrely i hit, hothers i hit⟩, hpost'⟩

/-- The two worlds are the same as far as the sessions of `u` and their settlement go. -/
structure SameSettled (calls : Nat → SessionCall) (u : UserId) (w w' : SessionWorld) : Prop where
  sessions : SubSessions u w w'
  starting : starting calls u w'.trace = starting calls u w.trace
  taken : taken calls u w'.trace = taken calls u w.trace
  opened : opened calls u w'.trace = opened calls u w.trace
  allowed : allowed calls u w'.trace = allowed calls u w.trace

theorem SameSettled.settled {w w' : SessionWorld} (h : SameSettled calls u w w')
    (hi : Settlement calls u w) : Settlement calls u w' where
  single := h.opened ▸ hi.single
  begun := by
    rw [h.allowed, h.taken]
    exact hi.begun
  sessions rows hrows row hrow := hi.sessions rows (h.allowed ▸ hrows) row (h.sessions.session hrow)
  commanded := by
    rw [h.taken, h.starting]
    exact hi.commanded
  inside := by
    rw [h.starting, h.opened]
    exact hi.inside

theorem SameSettled.rely {w w' : SessionWorld} (h : SameSettled calls u w w') (i : Nat) :
    SettledRely calls u i w w' where
  reached ht := h.taken ▸ ht
  outside ht := h.starting ▸ ht
  mine ho := ⟨h.opened ▸ ho, h.allowed⟩
  alone _ _ := h.sessions
  unclaimed _ _ ha := h.allowed ▸ ha

/-- The commands that concern the sessions of `u`. -/
def SessionCmd.concerns (u : UserId) : SessionCmd → Bool
  | abortHandle v => v == u
  | insertClient v _ => v == u
  | removeClient v => v == u
  | spawnLoop v _ => v == u
  | insertHandle v _ => v == u
  | report v _ => v == u
  | _ => false

theorem settles_of_not_reports {call : SessionCall} {c : SessionCmd} (h : c.reports u = false) :
    call.settles u c = false := by
  cases call with
  | login =>
    cases c with
    | report v ok =>
      have hv : (v == u) = false := h
      simp [SessionCall.settles, hv]
    | _ => rfl
  | logout =>
    cases c with
    | report v ok => exact h
    | _ => rfl
  | _ => rfl

theorem subSessions_abort {v : UserId} {a : SessionAnswer} {r : Option LoopId} {w w' : SessionWorld}
    (h : sessionExec t (.mk (.abortHandle v)) a w = some (r, w')) : SubSessions u w w' := by
  obtain ⟨-, rfl⟩ := sessionExec_abortHandle h
  refine ⟨rfl, fun id l' hl => ?_⟩
  cases r with
  | none => exact ⟨l', hl, rfl⟩
  | some i =>
    have hmod : (w.loops.modify i EventLoop.abort).lookup id = some l' := hl.1
    rw [Table.lookup_modify] at hmod
    obtain ⟨l, hl₁, rfl⟩ := Option.map_eq_some_iff.mp hmod
    have huser : l.user = u := by
      have hafter := hl.2
      split at hafter
      · exact hafter
      · exact hafter
    refine ⟨l, ⟨hl₁, huser⟩, ?_⟩
    split
    · rfl
    · rfl

/-- The loops of `u` after a loop was spawned are those before and, for `u`, that one. -/
theorem loop_spawned {v : UserId} {client : JmapClient} {a : SessionAnswer} {n : LoopId}
    {w w' : SessionWorld} (h : sessionExec t (.mk (.spawnLoop v client)) a w = some (n, w'))
    {id : LoopId} {l' : EventLoop} (hl : w'.Loop u id l') :
    v = u ∧ l'.client = client ∨ w.Loop u id l' := by
  obtain ⟨-, rfl⟩ := sessionExec_spawnLoop h
  by_cases hid : id = w.nextLoop
  · subst hid
    have hnew :
        (w.loops.insert w.nextLoop ⟨v, client, .spawned⟩).lookup w.nextLoop = some l' := hl.1
    rw [AList.lookup_insert] at hnew
    obtain rfl := Option.some.inj hnew
    exact .inl ⟨hl.2, rfl⟩
  · have hold : (w.loops.insert w.nextLoop ⟨v, client, .spawned⟩).lookup id = some l' := hl.1
    rw [AList.lookup_insert_ne hid] at hold
    exact .inr ⟨hold, hl.2⟩

/-- A command that neither starts nor ends a session of `u` and is no first or last step. -/
theorem subSessions_exec {c : SessionCmd} {a : SessionAnswer} {b : c.Ans} {w w' : SessionWorld}
    (hc : c.concerns u = false) (h : sessionExec t (.mk c) a w = some (b, w')) :
    SubSessions u w w' := by
  cases c with
  | abortHandle v => exact subSessions_abort h
  | insertClient v client =>
    have hv : u ≠ v := fun he => by simp [SessionCmd.concerns, he] at hc
    rw [sessionExec_insertClient h]
    exact ⟨AList.lookup_insert_ne hv, fun _ l hl => ⟨l, hl, rfl⟩⟩
  | removeClient v =>
    have hv : u ≠ v := fun he => by simp [SessionCmd.concerns, he] at hc
    rw [sessionExec_removeClient h]
    exact ⟨AList.lookup_erase_ne hv, fun _ l hl => ⟨l, hl, rfl⟩⟩
  | spawnLoop v client =>
    have hv : u ≠ v := fun he => by simp [SessionCmd.concerns, he] at hc
    refine ⟨?_, fun id l' hl => ?_⟩
    · obtain ⟨-, rfl⟩ := sessionExec_spawnLoop h
      rfl
    · rcases loop_spawned h hl with ⟨he, -⟩ | hold
      · exact absurd he.symm hv
      · exact ⟨l', hold, rfl⟩
  | insertHandle v id =>
    rw [sessionExec_insertHandle h]
    exact ⟨rfl, fun _ l hl => ⟨l, hl, rfl⟩⟩
  | _ =>
    obtain ⟨hclients, -, hloops, -, -⟩ := sessionExec_apart rfl h
    exact ⟨by rw [hclients], fun _ l hl => ⟨l, ⟨hloops ▸ hl.1, hl.2⟩, rfl⟩⟩

theorem sameSettled_exec {c : SessionCmd} {a : SessionAnswer} {b : c.Ans} {w w' : SessionWorld}
    (hc : c.concerns u = false) (ho : (calls t).opens u c = false)
    (h : sessionExec t (.mk c) a w = some (b, w')) : SameSettled calls u w w' := by
  have htrace := sessionExec_trace h
  have hreports : c.reports u = false := by
    cases c with
    | report v ok => exact hc
    | _ => rfl
  refine ⟨subSessions_exec hc h, ?_, ?_, ?_, ?_⟩
  · rw [htrace]
    cases c with
    | abortHandle v =>
      have hv : v ≠ u := fun he => by simp [SessionCmd.concerns, he] at hc
      simp [starting, hv]
    | insertHandle v id =>
      have hv : v ≠ u := fun he => by simp [SessionCmd.concerns, he] at hc
      simp [starting, hv]
    | _ => rfl
  · have hno : (c == .abortHandle u) = false := by
      apply beq_eq_false_iff_ne.mpr
      rintro rfl
      simp [SessionCmd.concerns] at hc
    rw [htrace]
    simp [taken, hno]
  · rw [htrace]
    simp [opened, ho, hreports]
  · rw [htrace]
    simp [allowed, ho, settles_of_not_reports hreports]

theorem quiet_final {c : SessionCmd} {P : SessionWorld → Prop} (hc : c.concerns u = false)
    (ho : (calls t).opens u c = false) (hn : c.onLoops = false)
    (hP : ∀ w w', SameLoops calls u w w' → SameSettled calls u w w' → P w → P w') :
    Keeps (sessionSystem calls) (uncontested calls u) (finalContract calls u) t P c.Ans
      (.mk c) := by
  intro w a b w' hw hi _ hexec
  have h : sessionExec t (.mk c) a w = some (b, w') := hexec
  have hloops : SameLoops calls u w w' := sameLoops_exec hn h
  have hsame : SameSettled calls u w w' := sameSettled_exec hc ho h
  exact ⟨⟨hloops.inv hi.1, hsame.settled hi.2⟩, fun i _ => ⟨hloops.rely i, hsame.rely i⟩,
    hP w w' hloops hsame hw⟩

theorem foreign_step {c : SessionCmd} {P : SessionWorld → Prop} {R : c.Ans → SessionWorld → Prop}
    (hc : c.concerns u = false) (ho : (calls t).opens u c = false)
    (hloops : LoopStep calls u false t P c R) : FinalStep calls u t P c R := by
  refine FinalStep.of hloops (fun _ hw => hw) fun w a b w' _ hi _ _ h hb => ?_
  have hsame : SameSettled calls u w w' := sameSettled_exec hc ho h
  exact ⟨hsame.settled hi, fun i _ => hsame.rely i, hb⟩

theorem final_stable {P : SessionWorld → Prop} (hP : Stable (loopContract calls u false) t P) :
    Stable (finalContract calls u) t P :=
  fun w w' h hr hi => hP w w' h hr.1 hi.1

theorem opens_foreign {call : SessionCall} {c : SessionCmd} (hcall : call.user ≠ u) :
    call.opens u c = false := by
  have hbeq : (call.user == u) = false := beq_eq_false_iff_ne.mpr hcall
  cases call with
  | login v row =>
    cases c with
    | connect x row' => exact hbeq
    | _ => rfl
  | logout v =>
    cases c with
    | abortHandle x => exact hbeq
    | _ => rfl
  | _ => rfl

theorem foreign_start {v : UserId} (row : RegisteredUser) (hv : v ≠ u)
    (hcall : (calls t).user = v) (hs : (calls t).starts) :
    SessionStart (sessionSystem calls) (uncontested calls u) (finalContract calls u) t v row
      (fun _ => True) (Entered calls u t v) (Entered calls u t v none) (HasSpawned calls u t v)
      fun _ => True := by
  have hloops := session_start u false hs v row
  have hbeq : (v == u) = false := beq_eq_false_iff_ne.mpr hv
  have hopens : ∀ c, (calls t).opens u c = false := fun c => opens_foreign (hcall ▸ hv)
  exact {
    stable_before := final_stable hloops.stable_before
    stable_entered := final_stable hloops.stable_entered
    stable_listed := final_stable hloops.stable_listed
    stable_spawned := final_stable hloops.stable_spawned
    stable_after := final_stable hloops.stable_after
    enter := foreign_step hbeq (hopens _) hloops.enter
    join := fun id => foreign_step rfl (hopens _) (hloops.join id)
    list := foreign_step hbeq (hopens _) hloops.list
    spawn := foreign_step hbeq (hopens _) hloops.spawn
    keep := fun id => foreign_step hbeq (hopens _) (hloops.keep id) }

/-! A startup or reconnect of `u` starts a session only before any login or logout does. -/

theorem opens_uncommanded {call : SessionCall} {c : SessionCmd} (h : call.commands u = false) :
    call.opens u c = false := by
  cases call with
  | login v row =>
    cases c with
    | connect x row' => exact h
    | _ => rfl
  | logout v =>
    cases c with
    | abortHandle x => exact h
    | _ => rfl
  | _ => rfl

theorem allowed_of_untaken {w : SessionWorld} (hi : Settlement calls u w)
    (h : taken calls u w.trace = false) : allowed calls u w.trace = none := by
  apply Classical.byContradiction
  intro hne
  rw [hi.begun hne] at h
  cases h

theorem untaken_of_starting {w : SessionWorld} (hi : Settlement calls u w)
    (hc : (calls t).commands u = false) (hs : starting calls u w.trace = [t]) :
    taken calls u w.trace = false := by
  apply Classical.byContradiction
  intro hne
  have hcommands := hi.commanded (by simpa using hne) t (by simp [hs])
  rw [hc] at hcommands
  cases hcommands

/-- A step of a startup of `u`, while nothing is settled. -/
theorem startup_step {c : SessionCmd} {a : SessionAnswer} {b : c.Ans} {w w' : SessionWorld}
    (hi : Settlement calls u w) (hc : (calls t).commands u = false) (hr : c.reports u = false)
    (hu : taken calls u w.trace = false) (h : sessionExec t (.mk c) a w = some (b, w'))
    (hsub : ∀ i ∈ starting calls u w'.trace, i = t ∨ i ∈ starting calls u w.trace) :
    Settlement calls u w' ∧ (∀ i, i ≠ t → SettledRely calls u i w w') ∧
      allowed calls u w'.trace = none := by
  have htrace := sessionExec_trace h
  have hopens : (calls t).opens u c = false := opens_uncommanded hc
  have hnone := allowed_of_untaken hi hu
  have htaken : taken calls u w'.trace = false := by
    rw [htrace]
    simpa [taken, hc] using hu
  have hopened : opened calls u w'.trace = opened calls u w.trace := by
    rw [htrace]
    simp [opened, hopens, hr]
  have hallowed : allowed calls u w'.trace = none := by
    rw [htrace]
    simpa [allowed, hopens, settles_of_not_reports hr] using hnone
  have hinside : ∀ i ∈ starting calls u w'.trace, (calls i).commands u = true →
      i ∈ opened calls u w'.trace := by
    intro i hmem hci
    rw [hopened]
    rcases hsub i hmem with rfl | hold
    · rw [hc] at hci
      cases hci
    · exact hi.inside i hold hci
  refine ⟨⟨hopened ▸ hi.single, fun hne => absurd hallowed hne, fun rows hrows => ?_,
    fun ht => ?_, hinside⟩, fun i hit => ⟨fun ht => ?_, fun hout hin => ?_, fun ho => ?_,
    fun _ ht => ?_, fun _ _ _ => hallowed⟩, hallowed⟩
  · rw [hallowed] at hrows
    cases hrows
  · rw [htaken] at ht
    cases ht
  · rw [hu] at ht
    cases ht
  · rcases hsub i hin with he | hold
    · exact hit he
    · exact hout hold
  · exact ⟨hopened ▸ ho, hallowed.trans hnone.symm⟩
  · rw [hu] at ht
    cases ht

theorem starting_step {w : SessionWorld} {c : SessionCmd} {a : SessionAnswer} :
    ∀ i ∈ starting calls u (⟨t, c, a⟩ :: w.trace), i = t ∨ i ∈ starting calls u w.trace := by
  intro i hmem
  simp only [starting] at hmem
  split at hmem
  · split at hmem
    · exact (List.mem_cons.mp hmem)
    · exact .inr hmem
  · split at hmem
    · exact .inr (List.mem_filter.mp hmem).1
    · exact .inr hmem
  · exact .inr hmem

theorem startup_start (row : RegisteredUser) (hc : (calls t).commands u = false)
    (hs : (calls t).starts) :
    SessionStart (sessionSystem calls) (uncontested calls u) (finalContract calls u) t u row
      (fun _ => True) (fun r w => Entered calls u t u r w ∧ allowed calls u w.trace = none)
      (fun w => Entered calls u t u none w ∧ allowed calls u w.trace = none)
      (fun id w => HasSpawned calls u t u id w ∧ allowed calls u w.trace = none) fun _ => True := by
  have hloops := session_start u false hs u row
  have hstable : ∀ {P : SessionWorld → Prop}, Stable (loopContract calls u false) t P →
      (∀ w, P w → starting calls u w.trace = [t]) →
      Stable (finalContract calls u) t fun w => P w ∧ allowed calls u w.trace = none :=
        fun hP hmine =>
    stable_final hP fun w w' _ hr hw hn => hr.unclaimed (hmine w hw) hc hn
  have hstep : ∀ {c : SessionCmd} {P : SessionWorld → Prop} {R : c.Ans → SessionWorld → Prop},
      LoopStep calls u false t P c R → c.reports u = false →
      (∀ w, P w → starting calls u w.trace = [t]) →
      FinalStep calls u t (fun w => P w ∧ allowed calls u w.trace = none) c
        fun b w => R b w ∧ allowed calls u w.trace = none := by
    intro c P R hl hr hmine
    refine FinalStep.of hl (fun _ hw => hw.1) fun w a b w' _ hi hw _ h hb => ?_
    have hu := untaken_of_starting hi hc (hmine w hw.1)
    obtain ⟨hsettled, hrely, hnone⟩ :=
      startup_step hi hc hr hu h (sessionExec_trace h ▸ starting_step)
    exact ⟨hsettled, hrely, hb, hnone⟩
  exact {
    stable_before := Stable.const True
    stable_entered := hstable hloops.stable_entered fun _ hw => (hw rfl).1
    stable_listed := hstable hloops.stable_listed fun _ hw => (hw rfl).1
    stable_spawned := hstable hloops.stable_spawned fun _ hw => (hw.2 rfl).1
    stable_after := Stable.const True
    enter := FinalStep.of hloops.enter (fun _ hw => hw) fun w a b w' _ hi _ hd h hb => by
      have hu := (hd.1 rfl).2 hc
      obtain ⟨hsettled, hrely, hnone⟩ :=
        startup_step hi hc rfl hu h (sessionExec_trace h ▸ starting_step)
      exact ⟨hsettled, hrely, hb, hnone⟩
    join := fun id => hstep (hloops.join id) rfl fun _ hw => (hw rfl).1
    list := hstep hloops.list rfl fun _ hw => (hw rfl).1
    spawn := hstep hloops.spawn rfl fun _ hw => (hw rfl).1
    keep := fun id => (hstep (hloops.keep id) rfl fun _ hw => (hw.2 rfl).1).post
      fun _ _ _ _ => trivial }

/-! A login or logout of `u` that has begun is the only one until it returns. -/

/-- Task `t` is the login or logout of `u` that is under way, past its `abort_poller`. -/
def Holding (calls : Nat → SessionCall) (u : UserId) (t : Nat) (w : SessionWorld) : Prop :=
  opened calls u w.trace = [t] ∧ taken calls u w.trace = true

/-- Sessions of `u` may have the credentials `row`. -/
def Permits (calls : Nat → SessionCall) (u : UserId) (row : RegisteredUser) (w : SessionWorld) :
    Prop :=
  ∀ rows, allowed calls u w.trace = some rows → row ∈ rows

def Within (u : UserId) (rows : List RegisteredUser) (w : SessionWorld) : Prop :=
  ∀ row, w.Session u row → row ∈ rows

/-- A step of the login or logout under way that is not its last. -/
theorem command_step {w w' : SessionWorld} (hi : Settlement calls u w)
    (hc : (calls t).commands u = true)
    (hopened : opened calls u w.trace = [] ∨ opened calls u w.trace = [t])
    (hopened' : opened calls u w'.trace = [t])
    (htaken : taken calls u w.trace = true → taken calls u w'.trace = true)
    (hnew : taken calls u w'.trace = true → taken calls u w.trace = true ∨
      starting calls u w.trace = [])
    (hsub : ∀ i ∈ starting calls u w'.trace, i = t ∨ i ∈ starting calls u w.trace)
    (hallowed : allowed calls u w'.trace = none ↔ allowed calls u w.trace = none)
    (hsessions : ∀ rows, allowed calls u w'.trace = some rows → Within u rows w') :
    Settlement calls u w' ∧ ∀ i, i ≠ t → SettledRely calls u i w w' := by
  have hmine : ∀ i, i ≠ t → opened calls u w.trace ≠ [i] := by
    intro i hit he
    rcases hopened with ho | ho
    · rw [ho] at he
      cases he
    · rw [ho] at he
      exact hit (List.singleton_inj.mp he).symm
  refine ⟨⟨.inr ⟨t, hopened'⟩, fun hne => htaken (hi.begun fun he => hne (hallowed.mpr he)),
    hsessions,
    fun ht i hin => ?_, fun i hin hci => ?_⟩, fun i hit => ⟨htaken, fun hout hin => ?_,
    fun ho => absurd ho (hmine i hit), fun ho _ => absurd ho (hmine i hit),
    fun _ _ hn => hallowed.mpr hn⟩⟩
  · rcases hsub i hin with rfl | hold
    · exact hc
    · rcases hnew ht with ht₀ | hnone
      · exact hi.commanded ht₀ i hold
      · rw [hnone] at hold
        cases hold
  · rw [hopened', List.mem_singleton]
    rcases hsub i hin with rfl | hold
    · rfl
    · have hmem := hi.inside i hold hci
      rcases hopened with ho | ho
      · rw [ho] at hmem
        cases hmem
      · rwa [ho, List.mem_singleton] at hmem
  · rcases hsub i hin with he | hold
    · exact hit he
    · exact hout hold

theorem trace_inner {c : SessionCmd} {a : SessionAnswer} {b : c.Ans} {w w' : SessionWorld}
    (ho : (calls t).opens u c = false) (hr : c.reports u = false) (hn : c ≠ .abortHandle u)
    (h : sessionExec t (.mk c) a w = some (b, w')) :
    taken calls u w'.trace = taken calls u w.trace ∧
      opened calls u w'.trace = opened calls u w.trace ∧
      allowed calls u w'.trace = allowed calls u w.trace := by
  rw [sessionExec_trace h]
  exact ⟨by simp [taken, hn], by simp [opened, ho, hr], by simp [allowed, ho,
    settles_of_not_reports hr]⟩

theorem holding_rely {w w' : SessionWorld} (h : SettledRely calls u t w w')
    (hw : Holding calls u t w) :
    Holding calls u t w' ∧ SubSessions u w w' :=
  ⟨⟨(h.mine hw.1).1, h.reached hw.2⟩, h.alone hw.1 hw.2⟩

theorem Permits.rely {row : RegisteredUser} {w w' : SessionWorld} (h : SettledRely calls u t w w')
    (ho : opened calls u w.trace = [t]) (hw : Permits calls u row w) : Permits calls u row w' :=
  fun rows hrows => hw rows ((h.mine ho).2 ▸ hrows)

theorem Within.sub {rows : List RegisteredUser} {w w' : SessionWorld} (h : SubSessions u w w')
    (hw : Within u rows w) : Within u rows w' :=
  fun row hrow => hw row (h.session hrow)

/-- A login that is starting its session. -/
def HeldLogin (calls : Nat → SessionCall) (u : UserId) (t : Nat) (row : RegisteredUser)
    (w : SessionWorld) :
    Prop :=
  Holding calls u t w ∧ Permits calls u row w

theorem held_rely {row : RegisteredUser} {w w' : SessionWorld} (h : SettledRely calls u t w w')
    (hw : HeldLogin calls u t row w) : HeldLogin calls u t row w' ∧ SubSessions u w w' :=
  ⟨⟨(holding_rely h hw.1).1, hw.2.rely h hw.1.1⟩, (holding_rely h hw.1).2⟩

theorem held_step {c : SessionCmd} {row : RegisteredUser} {P P' : SessionWorld → Prop}
    {R R' : c.Ans → SessionWorld → Prop} (hc : (calls t).commands u = true)
    (ho : (calls t).opens u c = false) (hr : c.reports u = false) (hn : c ≠ .abortHandle u)
    (hl : LoopStep calls u false t P c R) (hP : ∀ w, P' w → P w ∧ HeldLogin calls u t row w)
    (hx : ∀ w a b w', P' w → sessionExec t (.mk c) a w = some (b, w') → R b w' →
      (∀ row', w'.Session u row' → w.Session u row' ∨ row' = row) ∧
        (HeldLogin calls u t row w' → R' b w')) :
    FinalStep calls u t P' c R' := by
  refine FinalStep.of hl (fun w hw => (hP w hw).1) fun w a b w' _ hi hw _ h hb => ?_
  obtain ⟨htaken, hopened, hallowed⟩ := trace_inner ho hr hn h
  obtain ⟨hholding, hpermits⟩ := (hP w hw).2
  obtain ⟨hsessions, hpost⟩ := hx w a b w' hw h hb
  have hheld : HeldLogin calls u t row w' :=
    ⟨⟨hopened.trans hholding.1, htaken.trans hholding.2⟩,
      fun rows hrows => hpermits rows (hallowed ▸ hrows)⟩
  obtain ⟨hsettled, hrely⟩ := command_step hi hc (.inr hholding.1) hheld.1.1 (fun ht => htaken ▸ ht)
    (fun _ => .inl hholding.2) (sessionExec_trace h ▸ starting_step) (by rw [hallowed])
    fun rows hrows row' hrow' => by
      rcases hsessions row' hrow' with hold | rfl
      · exact hi.sessions rows (hallowed ▸ hrows) row' hold
      · exact hheld.2 rows hrows
  exact ⟨hsettled, hrely, hpost hheld⟩

/-- A login of `u` that has begun and starts no session now. -/
def Apart (calls : Nat → SessionCall) (u : UserId) (t : Nat) (w : SessionWorld) : Prop :=
  opened calls u w.trace = [t] ∧ t ∉ starting calls u w.trace

theorem Apart.rely {w w' : SessionWorld} (h : SettledRely calls u t w w') (hw : Apart calls u t w) :
    Apart calls u t w' :=
  ⟨(h.mine hw.1).1, h.outside hw.2⟩

theorem Apart.same {w w' : SessionWorld} (h : SameSettled calls u w w') (hw : Apart calls u t w) :
    Apart calls u t w' :=
  ⟨h.opened ▸ hw.1, h.starting ▸ hw.2⟩

theorem not_starting {w : SessionWorld} (hi : Settlement calls u w)
    (hc : (calls t).commands u = true)
    (ho : opened calls u w.trace = []) : t ∉ starting calls u w.trace := by
  intro hin
  have hmem := hi.inside t hin hc
  rw [ho] at hmem
  cases hmem

theorem connect_step {row : RegisteredUser} (hcall : calls t = .login u row) :
    FinalStep calls u t (fun _ => True) (.connect u row)
      fun _ w => Apart calls u t w ∧ Permits calls u row w := by
  have hc : (calls t).commands u = true := by simp [hcall, SessionCall.commands]
  have hopens : (calls t).opens u (.connect u row) = true := by simp [hcall, SessionCall.opens]
  refine FinalStep.of (P := fun _ => True) (R := fun _ _ => True)
    (fun w a b w' hi hw hd h => quiet_keeps rfl w a b w' hw hi hd h) (fun _ _ => trivial)
    fun w a b w' _ hi _ hd h _ => ?_
  have htrace := sessionExec_trace h
  have hnone : opened calls u w.trace = [] := hd.2 hopens
  have hsub : SubSessions u w w' := subSessions_exec rfl h
  have hopened : opened calls u w'.trace = [t] := by
    rw [htrace]
    simp [opened, hopens, hnone]
  have hstarting : starting calls u w'.trace = starting calls u w.trace := by
    rw [htrace]
    rfl
  have htaken : taken calls u w'.trace = taken calls u w.trace := by
    rw [htrace]
    simp [taken]
  have hallowed : allowed calls u w'.trace = (allowed calls u w.trace).map (row :: ·) := by
    have hrows : (calls t).rows = [row] := by rw [hcall]; rfl
    rw [htrace]
    simp [allowed, hopens, hrows]
  obtain ⟨hsettled, hrely⟩ := command_step hi hc (.inl hnone) hopened (fun ht => htaken ▸ ht)
    (fun ht => .inl (htaken ▸ ht)) (fun i hin => .inr (hstarting ▸ hin))
    (by rw [hallowed, Option.map_eq_none_iff]) fun rows hrows row' hrow' => by
      rw [hallowed] at hrows
      obtain ⟨rows₀, hrows₀, rfl⟩ := Option.map_eq_some_iff.mp hrows
      exact List.mem_cons_of_mem _ (hi.sessions rows₀ hrows₀ row' (hsub.session hrow'))
  refine ⟨hsettled, hrely, ⟨hopened, hstarting ▸ not_starting hi hc hnone⟩, fun rows hrows => ?_⟩
  rw [hallowed] at hrows
  obtain ⟨rows₀, -, rfl⟩ := Option.map_eq_some_iff.mp hrows
  exact List.mem_cons_self

theorem commanded_enter_step {row : RegisteredUser} (hcall : calls t = .login u row) :
    FinalStep calls u t (fun w => Apart calls u t w ∧ Permits calls u row w) (.abortHandle u)
      fun r w => Entered calls u t u r w ∧ HeldLogin calls u t row w := by
  have hc : (calls t).commands u = true := by simp [hcall, SessionCall.commands]
  have hs : (calls t).starts = true := by simp [hcall, SessionCall.starts]
  have hopens : (calls t).opens u (.abortHandle u) = false := by simp [hcall, SessionCall.opens]
  refine FinalStep.of (enterLoop_step hs) (fun _ _ => trivial)
    fun w a r w' _ hi hw hd h hentered => ?_
  have htrace := sessionExec_trace h
  have hnone : starting calls u w.trace = [] := (hd.1 rfl).1.1
  have hopened : opened calls u w'.trace = [t] := by
    rw [htrace]
    simpa [opened, hopens, SessionCmd.reports] using hw.1.1
  have htaken : taken calls u w'.trace = true := by
    rw [htrace]
    simp [taken, hc]
  have hallowed : allowed calls u w'.trace = allowed calls u w.trace := by
    rw [htrace]
    simp [allowed, hopens, settles_of_not_reports (c := .abortHandle u) rfl]
  obtain ⟨hsettled, hrely⟩ := command_step hi hc (.inr hw.1.1) hopened (fun _ => htaken)
    (fun _ => .inr hnone) (htrace ▸ starting_step) (by rw [hallowed]) fun rows hrows row' hrow' =>
      hi.sessions rows (hallowed ▸ hrows) row' ((subSessions_abort h).session hrow')
  exact ⟨hsettled, hrely, hentered, ⟨hopened, htaken⟩,
    fun rows hrows => hw.2 rows (hallowed ▸ hrows)⟩

theorem return_step {ok : Bool} {P : SessionWorld → Prop} (hP : ∀ w, P w → Apart calls u t w)
    (hrest : ∀ w w', P w → Settlement calls u w → SubSessions u w w' →
      taken calls u w'.trace = taken calls u w.trace →
      allowed calls u w'.trace = (if (calls t).settles u (.report u ok) then some (calls t).rows
        else allowed calls u w.trace) →
      (allowed calls u w'.trace ≠ none → taken calls u w'.trace = true) ∧
      (∀ rows, allowed calls u w'.trace = some rows → Within u rows w') ∧
      ∀ i, starting calls u w.trace = [i] → (calls i).commands u = false →
        allowed calls u w.trace = none → allowed calls u w'.trace = none) :
    FinalStep calls u t P (.report u ok) fun _ _ => True := by
  refine FinalStep.of (P := fun _ => True) (R := fun _ _ => True)
    (fun w a b w' hi hw hd h => quiet_keeps rfl w a b w' hw hi hd h) (fun _ _ => trivial)
    fun w a b w' _ hi hw _ h _ => ?_
  obtain ⟨ho, hout⟩ := hP w hw
  have hnot : (calls t).opens u (.report u ok) = false := by
    cases calls t <;> rfl
  have htrace := sessionExec_trace h
  have hopened : opened calls u w'.trace = [] := by
    rw [htrace]
    simp [opened, hnot, SessionCmd.reports, ho]
  have htaken : taken calls u w'.trace = taken calls u w.trace := by
    rw [htrace]
    simp [taken]
  have hstarting : starting calls u w'.trace = starting calls u w.trace := by
    rw [htrace]
    rfl
  have hallowed : allowed calls u w'.trace = if (calls t).settles u (.report u ok) then
      some (calls t).rows else allowed calls u w.trace := by
    rw [htrace]
    simp [allowed, hnot]
  have hmine : ∀ i, i ≠ t → opened calls u w.trace ≠ [i] := fun i hit he =>
    hit (List.singleton_inj.mp (ho.symm.trans he)).symm
  have hsub : SubSessions u w w' := by
    obtain ⟨hclients, -, hloops, -, -⟩ := sessionExec_apart rfl h
    exact ⟨by rw [hclients], fun _ l hl => ⟨l, ⟨hloops ▸ hl.1, hl.2⟩, rfl⟩⟩
  obtain ⟨hbegun, hsessions, hunclaimed⟩ := hrest w w' hw hi hsub htaken hallowed
  refine ⟨⟨.inl hopened, hbegun, hsessions, ?_, fun i hin hci => ?_⟩,
    fun i hit => ⟨fun ht => htaken ▸ ht,
    fun h => hstarting ▸ h, fun he => absurd he (hmine i hit), fun he _ => absurd he (hmine i hit),
    hunclaimed i⟩, trivial⟩
  · rw [htaken, hstarting]
    exact hi.commanded
  · rw [hstarting] at hin
    have hmem := hi.inside i hin hci
    rw [ho, List.mem_singleton] at hmem
    exact absurd (hmem ▸ hin) hout

theorem settle_step {ok : Bool} {P : SessionWorld → Prop}
    (hs : (calls t).settles u (.report u ok) = true)
    (hP : ∀ w, P w → (Holding calls u t w ∧ t ∉ starting calls u w.trace) ∧
      Within u (calls t).rows w) :
    FinalStep calls u t P (.report u ok) fun _ _ => True := by
  refine return_step (fun w hw => ⟨(hP w hw).1.1.1, (hP w hw).1.2⟩)
    fun w w' hw hi hsub htaken hallowed => ?_
  obtain ⟨⟨⟨-, ht⟩, -⟩, hwithin⟩ := hP w hw
  rw [if_pos hs] at hallowed
  refine ⟨fun _ => htaken.trans ht, fun rows hrows => ?_, fun i hin hci => ?_⟩
  · rw [hallowed] at hrows
    obtain rfl := Option.some.inj hrows
    exact hwithin.sub hsub
  · have hcommands := hi.commanded ht i (by simp [hin])
    rw [hci] at hcommands
    cases hcommands

theorem fail_step {P : SessionWorld → Prop} (hs : (calls t).settles u (.report u false) = false)
    (hP : ∀ w, P w → Apart calls u t w) :
    FinalStep calls u t P (.report u false) fun _ _ => True := by
  refine return_step hP fun w w' hw hi hsub htaken hallowed => ?_
  rw [if_neg (by simp [hs])] at hallowed
  rw [hallowed, htaken]
  exact ⟨hi.begun, fun rows hrows => Within.sub hsub (hi.sessions rows hrows), fun _ _ _ hn => hn⟩

theorem login_start {row : RegisteredUser} (hcall : calls t = .login u row) :
    SessionStart (sessionSystem calls) (uncontested calls u) (finalContract calls u) t u row
      (fun w => Apart calls u t w ∧ Permits calls u row w)
      (fun r w => Entered calls u t u r w ∧ HeldLogin calls u t row w)
      (fun w => (Entered calls u t u none w ∧ Within u [row] w) ∧ HeldLogin calls u t row w)
      (fun id w => (HasSpawned calls u t u id w ∧ Within u [row] w) ∧ HeldLogin calls u t row w)
      fun w => (Holding calls u t w ∧ t ∉ starting calls u w.trace) ∧ Within u [row] w := by
  have hc : (calls t).commands u = true := by simp [hcall, SessionCall.commands]
  have hs : (calls t).starts = true := by simp [hcall, SessionCall.starts]
  have hloops := session_start u false hs u row
  have hstable : ∀ {P : SessionWorld → Prop}, Stable (loopContract calls u false) t P →
      Stable (finalContract calls u) t fun w => (P w ∧ Within u [row] w) ∧
      HeldLogin calls u t row w :=
    fun hP w w' hw hr hi => by
      obtain ⟨hheld, hsub⟩ := held_rely hr.2 hw.2
      exact ⟨⟨hP w w' hw.1.1 hr.1 hi.1, hw.1.2.sub hsub⟩, hheld⟩
  have hno : ∀ c : SessionCmd, (∀ v row, c ≠ .connect v row) → (calls t).opens u c = false := by
    intro c hne
    rw [hcall]
    cases c with
    | connect v row => exact absurd rfl (hne v row)
    | _ => rfl
  exact {
    stable_before := fun w w' hw hr _ => ⟨hw.1.rely hr.2, hw.2.rely hr.2 hw.1.1⟩
    stable_entered := stable_final hloops.stable_entered fun w w' _ hr _ hw => (held_rely hr hw).1
    stable_listed := hstable hloops.stable_listed
    stable_spawned := hstable hloops.stable_spawned
    stable_after := fun w w' hw hr _ => by
      obtain ⟨hholding, hsub⟩ := holding_rely hr.2 hw.1.1
      exact ⟨⟨hholding, hr.2.outside hw.1.2⟩, hw.2.sub hsub⟩
    enter := commanded_enter_step hcall
    join := fun id => held_step hc (hno _ (by simp)) rfl (by simp) (hloops.join id) (fun _ hw => hw)
      fun w a b w' _ h hb => by
        have hsub : SubSessions u w w' := subSessions_exec rfl h
        exact ⟨fun row' hrow' => .inl (hsub.session hrow'), fun hheld => ⟨hb, hheld⟩⟩
    list := held_step hc (hno _ (by simp)) rfl (by simp) hloops.list (fun _ hw => hw)
      fun w a b w' hw h hb => by
        have hsessions : ∀ row', w'.Session u row' → row' = row := by
          rintro row' (hclient | ⟨id, l, hl, -⟩)
          · rw [sessionExec_insertClient h] at hclient
            exact (Option.some.inj ((AList.lookup_insert _).symm.trans hclient)).symm
          · cases (hb rfl).2 id l hl
        exact ⟨fun row' hrow' => .inr (hsessions row' hrow'), fun hheld =>
          ⟨⟨hb, fun row' hrow' => List.mem_singleton.mpr (hsessions row' hrow')⟩, hheld⟩⟩
    spawn := held_step hc (hno _ (by simp)) rfl (by simp) hloops.spawn (fun _ hw => ⟨hw.1.1, hw.2⟩)
      fun w a b w' hw h hb => by
        have hsessions : ∀ row', w'.Session u row' → row' ∈ [row] := by
          rintro row' (hclient | ⟨id, l, hl, he⟩)
          · have hsame : w'.clients = w.clients := by rw [(sessionExec_spawnLoop h).2]
            exact hw.1.2 row' (.inl (hsame ▸ hclient))
          · rcases loop_spawned h hl with ⟨-, hnew⟩ | hold
            · exact List.mem_singleton.mpr (he.symm.trans hnew)
            · exact hw.1.2 row' (.inr ⟨id, l, hold, he⟩)
        exact ⟨fun row' hrow' => .inr (List.mem_singleton.mp (hsessions row' hrow')), fun hheld =>
          ⟨⟨hb, hsessions⟩, hheld⟩⟩
    keep := fun id => held_step hc (hno _ (by simp)) rfl (by simp) (hloops.keep id)
      (fun _ hw => ⟨hw.1.1, hw.2⟩) fun w a b w' hw h _ => by
        have hsub : SubSessions u w w' := by
          rw [sessionExec_insertHandle h]
          exact ⟨rfl, fun _ l hl => ⟨l, hl, rfl⟩⟩
        have hout : t ∉ starting calls u w'.trace := by
          rw [sessionExec_trace h]
          simp [starting]
        exact ⟨fun row' hrow' => .inl (hsub.session hrow'), fun hheld =>
          ⟨⟨hheld.1, hout⟩, hw.1.2.sub hsub⟩⟩ }

/-- A logout of `u` that has taken out the handle `r`. -/
def Gone (calls : Nat → SessionCall) (u : UserId) (t : Nat) (r : Option LoopId) (w : SessionWorld) :
    Prop :=
  (Holding calls u t w ∧ t ∉ starting calls u w.trace) ∧ ∀ id l, w.Loop u id l → r = some id

theorem Gone.stable {r : Option LoopId} : Stable (finalContract calls u) t (Gone calls u t r) := by
  intro w w' hw hr _
  obtain ⟨hholding, hsub⟩ := holding_rely hr.2 hw.1.1
  refine ⟨⟨hholding, hr.2.outside hw.1.2⟩, fun id l' hl => ?_⟩
  obtain ⟨l, hl₁, -⟩ := hsub.2 id l' hl
  exact hw.2 id l hl₁

theorem ended_stable : Stable (finalContract calls u) t fun w =>
    (Holding calls u t w ∧ t ∉ starting calls u w.trace) ∧ Within u [] w := by
  intro w w' hw hr _
  obtain ⟨hholding, hsub⟩ := holding_rely hr.2 hw.1.1
  exact ⟨⟨hholding, hr.2.outside hw.1.2⟩, hw.2.sub hsub⟩

theorem leave_final_step (hcall : calls t = .logout u) :
    FinalStep calls u t (fun _ => True) (.abortHandle u) fun r => Gone calls u t r := by
  have hc : (calls t).commands u = true := by simp [hcall, SessionCall.commands]
  have hs : (calls t).starts = false := by simp [hcall, SessionCall.starts]
  have hopens : (calls t).opens u (.abortHandle u) = true := by simp [hcall, SessionCall.opens]
  refine FinalStep.of (leaveLoop_step hs) (fun _ _ => trivial) fun w a r w' hl hi _ hd h _ => ?_
  have htrace := sessionExec_trace h
  have hsub : SubSessions u w w' := subSessions_abort h
  obtain ⟨hnone, hwinding⟩ := (hd.1 rfl).1
  have hfree : opened calls u w.trace = [] := hd.2 hopens
  have hopened : opened calls u w'.trace = [t] := by
    rw [htrace]
    simp [opened, hopens, hfree]
  have htaken : taken calls u w'.trace = true := by
    rw [htrace]
    simp [taken, hc]
  have hstarting : starting calls u w'.trace = [] := by
    rw [htrace]
    simpa [starting, hs] using hnone
  have hallowed : allowed calls u w'.trace = allowed calls u w.trace := by
    have hrows : (calls t).rows = [] := by rw [hcall]; rfl
    rw [htrace]
    simp [allowed, hopens, hrows]
  obtain ⟨hsettled, hrely⟩ := command_step hi hc (.inl hfree) hopened (fun _ => htaken)
    (fun _ => .inr hnone) (htrace ▸ starting_step) (by rw [hallowed]) fun rows hrows row' hrow' =>
      hi.sessions rows (hallowed ▸ hrows) row' (hsub.session hrow')
  refine ⟨hsettled, hrely, ⟨⟨hopened, htaken⟩, by simp [hstarting]⟩, fun id l' hl' => ?_⟩
  obtain ⟨l, hloop, -⟩ := hsub.2 id l' hl'
  rcases hl.kept id l hloop (not_stopping hwinding hloop) with hstored | ⟨hne, -⟩
  · exact (sessionExec_abortHandle h).1.trans hstored
  · exact absurd hnone hne

theorem ending_step {c : SessionCmd} {r : Option LoopId} {R : c.Ans → SessionWorld → Prop}
    (hcall : calls t = .logout u) (hn : c.onLoops = false) (hr : c.reports u = false)
    (hx : ∀ w a b w', Gone calls u t r w → sessionExec t (.mk c) a w = some (b, w') →
      SubSessions u w w' ∨ Within u [] w')
    (hR : ∀ w a b w', Gone calls u t r w → sessionExec t (.mk c) a w = some (b, w') →
      (Holding calls u t w' ∧ t ∉ starting calls u w'.trace) → R b w') :
    FinalStep calls u t (Gone calls u t r) c R := by
  have hc : (calls t).commands u = true := by simp [hcall, SessionCall.commands]
  have hne : c ≠ .abortHandle u := by
    rintro rfl
    cases hn
  have hno : (calls t).opens u c = false := by
    rw [hcall]
    cases c with
    | abortHandle => cases hn
    | _ => rfl
  refine FinalStep.of (P := fun _ => True) (R := fun _ _ => True)
    (fun w a b w' hi hw hd h => quiet_keeps (o := .mk c) hn w a b w' hw hi hd h)
      (fun _ _ => trivial)
    fun w a b w' _ hi hw _ h _ => ?_
  obtain ⟨htaken, hopened, hallowed⟩ := trace_inner hno hr hne h
  have hstarting : starting calls u w'.trace = starting calls u w.trace :=
    (sameLoops_exec hn h).starting
  have hholding : Holding calls u t w' := ⟨hopened.trans hw.1.1.1, htaken.trans hw.1.1.2⟩
  obtain ⟨hsettled, hrely⟩ := command_step hi hc (.inr hw.1.1.1) hholding.1 (fun ht => htaken ▸ ht)
    (fun _ => .inl hw.1.1.2) (fun i hin => .inr (hstarting ▸ hin)) (by rw [hallowed])
    fun rows hrows row' hrow' => by
      rcases hx w a b w' hw h with hsub | hwithin
      · exact hi.sessions rows (hallowed ▸ hrows) row' (hsub.session hrow')
      · cases hwithin row' hrow'
  exact ⟨hsettled, hrely, hR w a b w' hw h ⟨hholding, hstarting ▸ hw.1.2⟩⟩

theorem join_ended_step {id : LoopId} (hcall : calls t = .logout u) :
    FinalStep calls u t (Gone calls u t (some id)) (.joinLoop id) fun _ => Gone calls u t none := by
  refine ending_step hcall rfl rfl (fun w a b w' _ h => .inl (subSessions_exec rfl h))
    fun w a b w' hw h hpost => ⟨hpost, fun id' l' hl' => ?_⟩
  obtain ⟨l, hl, -⟩ := (subSessions_exec rfl h : SubSessions u w w').2 id' l' hl'
  obtain rfl : id = id' := Option.some.inj (hw.2 id' l hl)
  obtain ⟨hended, -⟩ := sessionExec_joinLoop h
  rw [hl.1] at hended
  cases hended

theorem removeClient_step (hcall : calls t = .logout u) :
    FinalStep calls u t (Gone calls u t none) (.removeClient u) fun _ w =>
      (Holding calls u t w ∧ t ∉ starting calls u w.trace) ∧ Within u [] w := by
  have hwithin : ∀ w a b w', Gone calls u t none w →
      sessionExec t (.mk (.removeClient u)) a w = some (b, w') → Within u [] w' := by
    intro w a b w' hw h
    rw [sessionExec_removeClient h]
    rintro row' (hclient | ⟨id, l, hl, -⟩)
    · rw [AList.lookup_erase] at hclient
      cases hclient
    · cases hw.2 id l hl
  exact ending_step hcall rfl rfl (fun w a b w' hw h => .inr (hwithin w a b w' hw h))
    fun w a b w' hw h hpost => ⟨hpost, hwithin w a b w' hw h⟩

theorem ended_keeps {c : SessionCmd} (hcall : calls t = .logout u) (hc : c.concerns u = false)
    (hn : c.onLoops = false) :
    Keeps (sessionSystem calls) (uncontested calls u) (finalContract calls u) t
      (fun w => (Holding calls u t w ∧ t ∉ starting calls u w.trace) ∧ Within u [] w) c.Ans
        (.mk c) := by
  refine quiet_final hc ?_ hn fun w w' _ hs hw =>
    ⟨⟨⟨hs.opened ▸ hw.1.1.1, hs.taken ▸ hw.1.1.2⟩, hs.starting ▸ hw.1.2⟩, hw.2.sub hs.sessions⟩
  rw [hcall]
  cases c with
  | abortHandle => cases hn
  | _ => rfl

theorem logoutSession_final (hcall : calls t = .logout u) :
    FinalTriple calls u t (fun _ => True) (logoutSession u) fun _ w =>
      (Holding calls u t w ∧ t ∉ starting calls u w.trace) ∧ Within u [] w := by
  have habort :
      FinalTriple calls u t (fun _ => True) (abortPoller u) fun _ => Gone calls u t none :=
    abortPoller_rule (Stable.const True) (fun _ => Gone.stable) (leave_final_step hcall) fun _ =>
      join_ended_step hcall
  refine .bind habort fun _ =>
    .bind (.call Gone.stable (removeClient_step hcall) fun _ => ended_stable)
    fun _ => ?_
  refine .bind
    (.only ended_stable (Prog.only_call.mpr
    (ended_keeps (c := .clearUserCredentials u) hcall rfl rfl))) fun cleared => ?_
  cases cleared with
  | false => exact .pure ended_stable fun _ _ h => h
  | true =>
    exact .only ended_stable
      (Prog.only_call.mpr (ended_keeps (c := .clearOutboundQueue u) hcall rfl rfl))

/-- A command that is no step of the sessions of `u`. -/
theorem calm_final_keeps {c : SessionCmd} (hc : c.concerns u = false)
    (ho : (calls t).opens u c = false)
    (hn : c.onLoops = false) :
    Keeps (sessionSystem calls) (uncontested calls u) (finalContract calls u) t
      (fun _ => True) c.Ans
      (.mk c) :=
  quiet_final hc ho hn fun _ _ _ _ h => h

theorem not_concerns {c : SessionCmd} (h : c.onSession = false) (hr : ∀ v ok, c ≠ .report v ok) :
    c.concerns u = false := by
  cases c with
  | abortHandle => cases h
  | insertClient => cases h
  | removeClient => cases h
  | spawnLoop => cases h
  | insertHandle => cases h
  | report v ok => exact absurd rfl (hr v ok)
  | _ => rfl

theorem login_triple {row : RegisteredUser} (hcall : calls t = .login u row) :
    FinalTriple calls u t (fun _ => True) (calls t).program fun _ _ => True := by
  rw [hcall]
  have hstart := login_start hcall
  refine .bind (hstart.loginSession_triple (Stable.const True) (connect_step hcall) fun o ho => ?_)
    fun ok => ?_
  · obtain ⟨c⟩ := o
    have hopens : (calls t).opens u c = false := by
      rw [hcall]
      cases c with
      | connect v row => exact absurd rfl (ho.1.2 v row)
      | _ => rfl
    exact quiet_final (not_concerns ho.1.1 ho.2) hopens (not_onLoops ho.1.1) fun w w' _ hs hw =>
      ⟨hw.1.same hs, fun rows hrows => hw.2 rows (hs.allowed ▸ hrows)⟩
  · cases ok with
    | true =>
      refine .call hstart.stable_after (settle_step ?_ fun w hw => ⟨hw.1, ?_⟩) fun _ =>
        Stable.const True
      · simp [hcall, SessionCall.settles]
      · rw [hcall]
        exact hw.2
    | false =>
      refine .call hstart.stable_before (fail_step ?_ fun w hw => hw.1) fun _ => Stable.const True
      simp [hcall, SessionCall.settles]

theorem foreign_program {v : UserId} (hv : v ≠ u) (hcall : (calls t).user = v) :
    FinalTriple calls u t (fun _ => True) (calls t).program fun _ _ => True := by
  have hbeq : (v == u) = false := beq_eq_false_iff_ne.mpr hv
  have hopens : ∀ c, (calls t).opens u c = false := fun c => opens_foreign (hcall ▸ hv)
  have hcalm : ∀ c : SessionCmd, c.concerns u = false → c.onLoops = false → FinalTriple calls u t
      (fun _ => True) (onSession c) fun _ _ => True := fun c hc hn =>
    .only (Stable.const True) (Prog.only_call.mpr (calm_final_keeps hc (hopens c) hn))
  cases hkind : calls t with
  | start jitter x row =>
    obtain rfl : x = v := by rw [← hcall, hkind]; rfl
    refine .post ((foreign_start row hv hcall (by rw [hkind]; rfl)).startUser_triple ?_
      (fun n => ?_) ?_) fun _ _ _ _ => trivial
    · exact calm_final_keeps (c := .connect x row) rfl (hopens _) rfl
    · exact calm_final_keeps (c := .sleep n) rfl (hopens _) rfl
    · exact calm_final_keeps (c := .spawnReconnect x row) rfl (hopens _) rfl
  | reconnect x row =>
    obtain rfl : x = v := by rw [← hcall, hkind]; rfl
    refine (foreign_start row hv hcall (by rw [hkind]; rfl)).reconnect_triple ?_ fun n => ?_
    · exact calm_final_keeps (c := .connect x row) rfl (hopens _) rfl
    · exact calm_final_keeps (c := .sleep n) rfl (hopens _) rfl
  | login x row =>
    obtain rfl : x = v := by rw [← hcall, hkind]; rfl
    have hlogin := (foreign_start row hv hcall (by rw [hkind]; rfl)).loginSession_triple
      (Stable.const True)
      (fun w a b w' hi hw hd h =>
        calm_final_keeps (c := .connect x row) rfl (hopens _) rfl w a b w' hw hi hd h)
      fun o ho => by
        obtain ⟨c⟩ := o
        exact calm_final_keeps (not_concerns ho.1.1 ho.2) (hopens c) (not_onLoops ho.1.1)
    exact .bind (.post hlogin fun _ _ _ _ => trivial) fun ok => hcalm (.report x ok) hbeq rfl
  | logout x =>
    obtain rfl : x = v := by rw [← hcall, hkind]; rfl
    have hs : (calls t).starts = false := by rw [hkind]; rfl
    have habort : FinalTriple calls u t (fun _ => True) (abortPoller x) fun _ _ => True :=
      abortPoller_rule (Stable.const True) (fun _ => Stable.const True)
        (foreign_step hbeq (hopens _) (leaveLoop_step hs)) fun id =>
          fun w a b w' hi hw hd h =>
            calm_final_keeps (c := .joinLoop id) rfl (hopens _) rfl w a b w' hw hi hd h
    refine .bind (.bind habort fun _ => .bind (hcalm (.removeClient x) hbeq rfl) fun _ =>
      .bind (hcalm (.clearUserCredentials x) rfl rfl) fun cleared => ?_) fun ok =>
        hcalm (.report x ok) hbeq rfl
    cases cleared with
    | false => exact .pure (Stable.const True) fun _ _ h => h
    | true => exact hcalm (.clearOutboundQueue x) rfl rfl

theorem settled_program (t : Nat) :
    FinalTriple calls u t (fun _ => True) (calls t).program fun _ _ => True := by
  by_cases hv : (calls t).user = u
  · have hopens : ∀ c, (calls t).commands u = false → (calls t).opens u c = false :=
      fun c hc => opens_uncommanded hc
    cases hcall : calls t with
    | start jitter x row =>
      obtain rfl : x = u := by rw [← hv, hcall]; rfl
      have hc : (calls t).commands x = false := by rw [hcall]; rfl
      refine .post ((startup_start row hc (by rw [hcall]; rfl)).startUser_triple ?_
        (fun n => ?_) ?_) fun _ _ _ _ => trivial
      · exact calm_final_keeps (c := .connect x row) rfl (hopens _ hc) rfl
      · exact calm_final_keeps (c := .sleep n) rfl (hopens _ hc) rfl
      · exact calm_final_keeps (c := .spawnReconnect x row) rfl (hopens _ hc) rfl
    | reconnect x row =>
      obtain rfl : x = u := by rw [← hv, hcall]; rfl
      have hc : (calls t).commands x = false := by rw [hcall]; rfl
      refine (startup_start row hc (by rw [hcall]; rfl)).reconnect_triple ?_ fun n => ?_
      · exact calm_final_keeps (c := .connect x row) rfl (hopens _ hc) rfl
      · exact calm_final_keeps (c := .sleep n) rfl (hopens _ hc) rfl
    | login x row =>
      obtain rfl : x = u := by rw [← hv, hcall]; rfl
      exact hcall ▸ login_triple hcall
    | logout x =>
      obtain rfl : x = u := by rw [← hv, hcall]; rfl
      refine .bind (logoutSession_final hcall) fun ok =>
        .call ended_stable (settle_step ?_ fun w hw => ⟨hw.1, ?_⟩)
        fun _ => Stable.const True
      · simp [hcall, SessionCall.settles]
      · rw [hcall]
        exact hw.2
  · exact foreign_program hv rfl

theorem sameSettled_env {e : SessionEnv} {w w' : SessionWorld} (h : e.perform w = some w') :
    SameSettled calls u w w' := by
  cases e with
  | begins i =>
    simp only [SessionEnv.perform] at h
    split at h
    case isFalse => cases h
    case isTrue =>
      obtain rfl := Option.some.inj h
      refine ⟨⟨rfl, fun id l' hl => ?_⟩, rfl, rfl, rfl, rfl⟩
      have hmod :
          (w.loops.modify i fun l => { l with phase := .running }).lookup id = some l' := hl.1
      rw [Table.lookup_modify] at hmod
      obtain ⟨l, hl₁, rfl⟩ := Option.map_eq_some_iff.mp hmod
      have hsame : ∀ l :
          EventLoop, (if id = i then { l with phase := .running } else l).user = l.user ∧
          (if id = i then { l with phase := .running } else l).client = l.client := by
        intro l
        split
        · exact ⟨rfl, rfl⟩
        · exact ⟨rfl, rfl⟩
      exact ⟨l, ⟨hl₁, (hsame l).1 ▸ hl.2⟩, (hsame l).2.symm⟩
  | ends i =>
    simp only [SessionEnv.perform] at h
    split at h
    case isFalse => cases h
    case isTrue =>
      obtain rfl := Option.some.inj h
      refine ⟨⟨rfl, fun id l hl => ?_⟩, rfl, rfl, rfl, rfl⟩
      have hold : (w.loops.erase i).lookup id = some l := hl.1
      by_cases hid : id = i
      · subst hid
        simp at hold
      · rw [AList.lookup_erase_ne hid] at hold
        exact ⟨l, ⟨hold, hl.2⟩, rfl⟩

theorem settled_upholds (calls : Nat → SessionCall) (u : UserId) :
    Upholds (sessionSystem calls) (uncontested calls u) (finalContract calls u) where
  start t w hi _ _ := settled_program t w hi trivial
  env := by
    intro e w w' hi _ h
    have hsame : SameSettled calls u w w' := sameSettled_env h
    have hloops : LoopInv calls u false w' ∧ ∀ i, LoopRely calls u i w w' := by
      cases e with
      | begins i => exact begins_keeps hi.1 (fun hstrict => by cases hstrict) h
      | ends i => exact ends_keeps hi.1 h
    exact ⟨⟨hloops.1, hsame.settled hi.2⟩, fun i => ⟨hloops.2 i, hsame.rely i⟩⟩
  cancel t w hi _ := ⟨hi, fun i _ => ⟨LoopRely.refl w, SettledRely.refl w⟩, trivial⟩

theorem SessionWorld.Fresh.settled {w : SessionWorld} (h : w.Fresh) : Settlement calls u w where
  single := by simp [h.trace, opened]
  begun := by simp [h.trace, allowed]
  sessions := by simp [h.trace, allowed]
  commanded := by simp [h.trace, starting]
  inside := by simp [h.trace, starting]

/-- Once a logout of `u` has returned there is no session of `u` until the next login, and
once a login has, there is none but its own and those of later logins. -/
def SessionsFinal (calls : Nat → SessionCall) (u : UserId) (w : SessionWorld) : Prop :=
  ∀ rows, allowed calls u w.trace = some rows → ∀ row, w.Session u row → row ∈ rows

/-- What a login or logout settles is final in every run in which no startup or reconnect
starts a session of `u` after it. -/
theorem final_while_uncontested {w : SessionWorld} (hw : w.Fresh)
    {es : List (Event SessionAnswer SessionEnv)} {q : Pool SessionOp SessionWorld}
    (hrun : (sessionSystem calls).run es (Pool.boot w) = some q)
    (hD : (sessionSystem calls).Admits (uncontested calls u).meets es (Pool.boot w)) :
    SessionsFinal calls u q.world :=
  ((settled_upholds calls u).inv_of_run ⟨hw.loopInv,
    hw.settled⟩ (fun _ => trivial) hrun hD).2.sessions

/-- The reconnect of a user whose startup failed, a login and a logout. -/
def lateReconnect : Nat → SessionCall
  | 0 => .reconnect "@a:localhost" ⟨"a", "old", "url"⟩
  | 1 => .login "@a:localhost" ⟨"a", "new", "url"⟩
  | _ => .logout "@a:localhost"

/-- The reconnect waits, and finds the server down. -/
def waitsDown : List (Event SessionAnswer SessionEnv) :=
  [.start 0, .tau 0, .step 0 .done, .step 0 .failed]

/-- The rest of a logout, after its `abort_poller`. -/
def clears (t : Nat) : List (Event SessionAnswer SessionEnv) :=
  [.step t .done, .step t .done, .step t .done, .step t .done]

/-- A login and a logout while the reconnect waits. -/
def logoutRun : List (Event SessionAnswer SessionEnv) :=
  waitsDown ++ connects 1 ++
  (.step 1 .done :: installs 1 : List (Event SessionAnswer SessionEnv)) ++
    ([.step 1 .done, .env (.begins 0)] : List (Event SessionAnswer SessionEnv)) ++
    ([.start 2, .step 2 .done, .env (.ends 0),
      .step 2 .done] : List (Event SessionAnswer SessionEnv)) ++
    clears 2

theorem final_while_uncontested_logout : ∃ q,
    (sessionSystem lateReconnect).run logoutRun (Pool.boot {}) = some q ∧
      allowed lateReconnect "@a:localhost" q.world.trace = some [] ∧
      SessionsFinal lateReconnect "@a:localhost" q.world := by
  have hends : ((sessionSystem lateReconnect).run logoutRun (Pool.boot {})).map
      (fun q => allowed lateReconnect "@a:localhost" q.world.trace) = some (some []) ∧
      (sessionSystem lateReconnect).Admits
        (uncontested lateReconnect "@a:localhost").meets logoutRun
        (Pool.boot {}) := by
    decide +kernel
  obtain ⟨q, hq, hallowed⟩ := Option.map_eq_some_iff.mp hends.1
  exact ⟨q, hq, hallowed, final_while_uncontested ⟨rfl, rfl, rfl, rfl⟩ hq hends.2⟩

/-- The reconnect succeeds after the user has logged out. -/
def lateRun : List (Event SessionAnswer SessionEnv) :=
  waitsDown ++ ([.start 2, .step 2 .done] : List (Event SessionAnswer SessionEnv)) ++ clears 2 ++
    ([.tau 0, .step 0 .done, .step 0 .done,
      .step 0 .done] : List (Event SessionAnswer SessionEnv)) ++
    installs 0

/-- The session that the user has ended is back. -/
theorem logout_undone : ∃ q,
    (sessionSystem lateReconnect).run lateRun (Pool.boot {}) = some q ∧
      ¬ SessionsFinal lateReconnect "@a:localhost" q.world := by
  have hends : ((sessionSystem lateReconnect).run lateRun (Pool.boot {})).map (fun q =>
      (allowed lateReconnect "@a:localhost" q.world.trace, q.world.clients.lookup "@a:localhost")) =
      some (some [], some ⟨"a", "old", "url"⟩) := by
    decide +kernel
  obtain ⟨q, hq, hstate⟩ := Option.map_eq_some_iff.mp hends
  obtain ⟨hallowed, hclient⟩ := Prod.mk.inj hstate
  refine ⟨q, hq, fun hfinal => ?_⟩
  cases hfinal [] hallowed _ (.inl hclient)

end JmapBridge
