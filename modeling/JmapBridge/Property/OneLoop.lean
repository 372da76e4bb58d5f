import JmapBridge.Model.Sessions

/-! One event loop for each user. The calls that start a session take the old handle out,
wait for its loop to end, and put the new handle in; where no two of them do so at a time,
the loop that runs is the one whose handle is kept. -/

namespace JmapBridge

open Effect Sql

variable {calls : Nat → SessionCall} {u : UserId} {strict : Bool} {t : Nat}

def SessionCall.user : SessionCall → UserId
  | start _ u _ => u
  | reconnect u _ => u
  | login u _ => u
  | logout u => u

/-- The calls that start a session. -/
def SessionCall.starts : SessionCall → Bool
  | logout _ => false
  | _ => true

/-- The tasks that have taken the handle of `u` out to start a session, and not put theirs in. -/
def starting (calls : Nat → SessionCall) (u : UserId) : List SessionRecord → List Nat
  | [] => []
  | r :: l =>
    match r.cmd with
    | .abortHandle v => if v = u ∧ (calls r.task).starts then r.task :: starting calls u l
      else starting calls u l
    | .insertHandle v _ => if v = u then (starting calls u l).filter (· != r.task)
      else starting calls u l
    | _ => starting calls u l

/-- The event loop `id` of `u` was spawned and has not ended. -/
def SessionWorld.Loop (w : SessionWorld) (u : UserId) (id : LoopId) (l : EventLoop) : Prop :=
  w.loops.lookup id = some l ∧ l.user = u

/-- An aborted loop of `u` has not ended. -/
def SessionWorld.winding (w : SessionWorld) (u : UserId) : Bool :=
  w.loops.entries.any fun e => e.2.user == u && e.2.phase == .stopping

theorem not_stopping {w : SessionWorld} (h : w.winding u = false) {id : LoopId} {l : EventLoop}
    (hl : w.Loop u id l) : l.phase ≠ .stopping := by
  intro hstop
  have hmem : (⟨id, l⟩ : Sigma _) ∈ w.loops.entries := AList.mem_lookup_iff.mp hl.1
  have hany : w.winding u = true := List.any_eq_true.mpr ⟨_, hmem, by simp [hl.2, hstop]⟩
  rw [hany] at h
  cases h

/-- A session of `u` is started only while no other is being started and no aborted loop of
`u` has yet to end. A strict runtime polls a loop only once its handle is kept. -/
def apart (calls : Nat → SessionCall) (u : UserId) (strict : Bool) :
    Discipline SessionOp SessionWorld SessionAnswer SessionEnv where
  step t _ o _ w := o.cmd = .abortHandle u → (calls t).starts →
    starting calls u w.trace = [] ∧ w.winding u = false
  env e w :=
    match e with
    | .begins id =>
      strict → ∀ l ∈ w.loops.lookup id, l.user = u → w.pollerHandles.lookup u = some id
    | .ends _ => True

instance decidableApartStep (t : Nat) (β : Type) (o : SessionOp β) (a : SessionAnswer)
    (w : SessionWorld) : Decidable ((apart calls u strict).step t o a w) :=
  inferInstanceAs (Decidable (_ → _ → _))

instance decidableApartEnv (e : SessionEnv) (w : SessionWorld) :
    Decidable ((apart calls u strict).env e w) :=
  match e with
  | .begins id => inferInstanceAs (Decidable (strict → ∀ l ∈ w.loops.lookup id, l.user = u →
      w.pollerHandles.lookup u = some id))
  | .ends _ => inferInstanceAs (Decidable True)

instance decidableApart (e : Event SessionAnswer SessionEnv) (q : Pool SessionOp SessionWorld) :
    Decidable ((apart calls u strict).meets e q) :=
  @Discipline.decidableMeets SessionOp SessionWorld SessionAnswer SessionEnv (apart calls u strict)
    (fun _ _ => instDecidableTrue) _ (fun _ _ => instDecidableTrue) _ e q

structure LoopInv (calls : Nat → SessionCall) (u : UserId) (strict : Bool) (w : SessionWorld) :
    Prop where
  fresh : ∀ id l, w.loops.lookup id = some l → id < w.nextLoop
  handle : ∀ v id, w.pollerHandles.lookup v = some id →
    id < w.nextLoop ∧ ∀ l, w.loops.lookup id = some l → l.user = v
  one : ∀ id id' l l', w.Loop u id l → w.Loop u id' l' → id = id'
  kept : ∀ id l, w.Loop u id l → l.phase ≠ .stopping → w.pollerHandles.lookup u = some id ∨
    starting calls u w.trace ≠ [] ∧ (strict → l.phase = .spawned)
  alone : starting calls u w.trace = [] ∨ ∃ t, starting calls u w.trace = [t]
  free : starting calls u w.trace ≠ [] → w.pollerHandles.lookup u = none

structure LoopRely (calls : Nat → SessionCall) (u : UserId) (t : Nat) (w w' : SessionWorld) :
    Prop where
  next : w.nextLoop ≤ w'.nextLoop
  user : ∀ id l', w'.loops.lookup id = some l' → id < w.nextLoop →
    ∃ l, w.loops.lookup id = some l ∧ l.user = l'.user
  mine : starting calls u w.trace = [t] →
    starting calls u w'.trace = [t] ∧ ∀ id l', w'.Loop u id l' → ∃ l, w.Loop u id l

theorem LoopRely.refl (w : SessionWorld) : LoopRely calls u t w w :=
  ⟨Nat.le_refl _, fun _ l' h _ => ⟨l', h, rfl⟩, fun h => ⟨h, fun _ l' hl => ⟨l', hl⟩⟩⟩

theorem LoopRely.trans {w₁ w₂ w₃ : SessionWorld} (h : LoopRely calls u t w₁ w₂)
    (h' : LoopRely calls u t w₂ w₃) : LoopRely calls u t w₁ w₃ where
  next := Nat.le_trans h.next h'.next
  user id l' hl hid := by
    obtain ⟨l₂, hl₂, he₂⟩ := h'.user id l' hl (Nat.lt_of_lt_of_le hid h.next)
    obtain ⟨l₁, hl₁, he₁⟩ := h.user id l₂ hl₂ hid
    exact ⟨l₁, hl₁, he₁.trans he₂⟩
  mine hm := by
    obtain ⟨hm₂, hids₂⟩ := h.mine hm
    obtain ⟨hm₃, hids₃⟩ := h'.mine hm₂
    refine ⟨hm₃, fun id l' hl => ?_⟩
    obtain ⟨l₂, hl₂⟩ := hids₃ id l' hl
    exact hids₂ id l₂ hl₂

def loopContract (calls : Nat → SessionCall) (u : UserId) (strict : Bool) :
    Contract SessionWorld where
  inv := LoopInv calls u strict
  rely := LoopRely calls u
  refl t w := LoopRely.refl w
  trans h h' := h.trans h'

/-- The two worlds are the same as far as the loops and their handles go. -/
structure SameLoops (calls : Nat → SessionCall) (u : UserId) (w w' : SessionWorld) : Prop where
  handles : w'.pollerHandles = w.pollerHandles
  loops : w'.loops = w.loops
  next : w'.nextLoop = w.nextLoop
  starting : starting calls u w'.trace = starting calls u w.trace

theorem SameLoops.inv {w w' : SessionWorld} (h : SameLoops calls u w w')
    (hi : LoopInv calls u strict w) : LoopInv calls u strict w' where
  fresh := by
    rw [h.loops, h.next]
    exact hi.fresh
  handle := by
    rw [h.loops, h.next, h.handles]
    exact hi.handle
  one := by
    unfold SessionWorld.Loop
    rw [h.loops]
    exact hi.one
  kept := by
    unfold SessionWorld.Loop
    rw [h.loops, h.handles, h.starting]
    exact hi.kept
  alone := h.starting ▸ hi.alone
  free := by
    rw [h.starting, h.handles]
    exact hi.free

theorem SameLoops.rely {w w' : SessionWorld} (h : SameLoops calls u w w') (i : Nat) :
    LoopRely calls u i w w' where
  next := h.next ▸ Nat.le_refl _
  user _ l' hl _ := ⟨l', h.loops ▸ hl, rfl⟩
  mine hm := ⟨h.starting ▸ hm, fun _ l' hl => ⟨l', h.loops ▸ hl.1, hl.2⟩⟩

/-- The commands on the loops and their handles. -/
def SessionCmd.onLoops : SessionCmd → Bool
  | abortHandle _ => true
  | spawnLoop _ _ => true
  | insertHandle _ _ => true
  | _ => false

theorem sameLoops_exec {c : SessionCmd} {a : SessionAnswer} {b : c.Ans} {w w' : SessionWorld}
    (hc : c.onLoops = false) (h : sessionExec t (.mk c) a w = some (b, w')) :
    SameLoops calls u w w' := by
  cases c with
  | abortHandle => cases hc
  | spawnLoop => cases hc
  | insertHandle => cases hc
  | insertClient =>
    rw [sessionExec_insertClient h]
    exact ⟨rfl, rfl, rfl, rfl⟩
  | removeClient =>
    rw [sessionExec_removeClient h]
    exact ⟨rfl, rfl, rfl, rfl⟩
  | _ =>
    obtain ⟨-, hhandles, hloops, hnext, htrace⟩ := sessionExec_apart rfl h
    exact ⟨hhandles, hloops, hnext, by rw [htrace]; rfl⟩

/-- The task that starts a session of `v` has taken out the handle `r`. -/
def Entered (calls : Nat → SessionCall) (u : UserId) (t : Nat) (v : UserId) (r : Option LoopId)
    (w : SessionWorld) : Prop :=
  v = u → starting calls u w.trace = [t] ∧ ∀ id l, w.Loop u id l → r = some id

/-- It has spawned the loop `id` for `v`. -/
def HasSpawned (calls : Nat → SessionCall) (u : UserId) (t : Nat) (v : UserId) (id : LoopId)
    (w : SessionWorld) : Prop :=
  (id < w.nextLoop ∧ ∀ l, w.loops.lookup id = some l → l.user = v) ∧
    Entered calls u t v (some id) w

theorem Entered.stable {v : UserId} {r : Option LoopId} :
    Stable (loopContract calls u strict) t (Entered calls u t v r) := by
  intro w w' h hr _ hv
  obtain ⟨hmine, hids⟩ := h hv
  obtain ⟨hmine', hids'⟩ := LoopRely.mine hr hmine
  refine ⟨hmine', fun id l' hl => ?_⟩
  obtain ⟨l, hl⟩ := hids' id l' hl
  exact hids id l hl

theorem HasSpawned.stable {v : UserId} {id : LoopId} :
    Stable (loopContract calls u strict) t (HasSpawned calls u t v id) := by
  intro w w' h hr hi
  refine ⟨⟨Nat.lt_of_lt_of_le h.1.1 (LoopRely.next hr), fun l' hl => ?_⟩,
    Entered.stable w w' h.2 hr hi⟩
  obtain ⟨l, hl, he⟩ := LoopRely.user hr id l' hl h.1.1
  exact he.symm.trans (h.1.2 l hl)

abbrev LoopStep (calls : Nat → SessionCall) (u : UserId) (strict : Bool) (t : Nat)
    (P : SessionWorld → Prop) (c : SessionCmd) (R : c.Ans → SessionWorld → Prop) : Prop :=
  Step (sessionSystem calls) (apart calls u strict) (loopContract calls u strict) t P (.mk c) R

abbrev LoopTriple (calls : Nat → SessionCall) (u : UserId) (strict : Bool) (t : Nat)
    (P : SessionWorld → Prop) (p : Prog SessionOp α) (Q : α → SessionWorld → Prop) : Prop :=
  Triple (sessionSystem calls) (apart calls u strict) (loopContract calls u strict) t P p Q

theorem same_keeps {P : SessionWorld → Prop} (hP : ∀ w w', SameLoops calls u w w' → P w → P w')
    {o : SessionOp β} (ho : o.cmd.onLoops = false) :
    Keeps (sessionSystem calls) (apart calls u strict) (loopContract calls u strict) t P β o := by
  obtain ⟨c⟩ := o
  intro w a b w' hw hi _ h
  have hexec : sessionExec t (.mk c) a w = some (b, w') := h
  have hsame : SameLoops calls u w w' := sameLoops_exec ho hexec
  exact ⟨hsame.inv hi, fun i _ => hsame.rely i, hP w w' hsame hw⟩

theorem Entered.same {v : UserId} {r : Option LoopId} {w w' : SessionWorld}
    (hs : SameLoops calls u w w') (h : Entered calls u t v r w) : Entered calls u t v r w' := by
  intro hv
  obtain ⟨hmine, hids⟩ := h hv
  exact ⟨hs.starting.trans hmine, fun id l hl => hids id l ⟨hs.loops ▸ hl.1, hl.2⟩⟩

theorem lookup_abort {w : SessionWorld} {id i : LoopId} {l' : EventLoop}
    (h : (w.loops.modify i EventLoop.abort).lookup id = some l') :
    ∃ l, w.loops.lookup id = some l ∧ l'.user = l.user ∧
      (id ≠ i → l' = l) ∧ (id = i → l'.phase = .stopping) := by
  by_cases hid : id = i
  · subst hid
    rw [Table.lookup_modify_self] at h
    obtain ⟨l, hl, rfl⟩ := Option.map_eq_some_iff.mp h
    exact ⟨l, hl, rfl, fun hne => absurd rfl hne, fun _ => rfl⟩
  · rw [Table.lookup_modify_ne hid] at h
    exact ⟨l', h, rfl, fun _ => rfl, fun he => absurd he hid⟩

theorem lookup_aborted {w : SessionWorld} {r : Option LoopId} {id : LoopId} {l' : EventLoop}
    (h : (r.elim w.loops fun i => w.loops.modify i EventLoop.abort).lookup id = some l') :
    ∃ l, w.loops.lookup id = some l ∧ l'.user = l.user ∧ (l'.phase ≠ .stopping →
      l' = l ∧ r ≠ some id) := by
  cases r with
  | none => exact ⟨l', h, rfl, fun _ => ⟨rfl, by simp⟩⟩
  | some i =>
    obtain ⟨l, hl, huser, hother, hstop⟩ := lookup_abort h
    refine ⟨l, hl, huser, fun hne => ?_⟩
    have hid : id ≠ i := fun he => hne (hstop he)
    exact ⟨hother hid, fun he => hid (Option.some.inj he).symm⟩

theorem abortHandle_exec {v : UserId} {a : SessionAnswer} {r : Option LoopId} {w w' : SessionWorld}
    (h : sessionExec t (.mk (.abortHandle v)) a w = some (r, w')) (hi : LoopInv calls u strict w)
    (hD : v = u → (calls t).starts → starting calls u w.trace = [] ∧ w.winding u = false) :
    LoopInv calls u strict w' ∧ (∀ i, LoopRely calls u i w w') ∧
      ((calls t).starts → Entered calls u t v r w') := by
  obtain ⟨hr, rfl⟩ := sessionExec_abortHandle h
  have hstarting : starting calls u (⟨t, .abortHandle v, a⟩ :: w.trace) =
      if v = u ∧ (calls t).starts then t :: starting calls u w.trace
      else starting calls u w.trace := rfl
  refine ⟨⟨fun id l' hl => ?_, fun x id hx => ?_, fun id id' l l' hl hl' => ?_,
    fun id l' hl hphase => ?_, ?_, fun hne => ?_⟩, fun i => ⟨Nat.le_refl _, fun id l' hl _ => ?_,
    fun hm => ?_⟩, fun hs hv => ?_⟩
  · obtain ⟨l, hl₁, -⟩ := lookup_aborted hl
    exact hi.fresh id l hl₁
  · have hx₁ : w.pollerHandles.lookup x = some id := by
      by_cases hxv : x = v
      · subst hxv
        simp at hx
      · simpa [AList.lookup_erase_ne hxv] using hx
    obtain ⟨hlt, huser⟩ := hi.handle x id hx₁
    refine ⟨hlt, fun l' hl => ?_⟩
    obtain ⟨l, hl₁, he, -⟩ := lookup_aborted hl
    exact he.trans (huser l hl₁)
  · obtain ⟨m, hm, he, -⟩ := lookup_aborted hl.1
    obtain ⟨m', hm', he', -⟩ := lookup_aborted hl'.1
    exact hi.one id id' m m' ⟨hm, he ▸ hl.2⟩ ⟨hm', he' ▸ hl'.2⟩
  · obtain ⟨l, hl₁, he, hkeep⟩ := lookup_aborted hl.1
    obtain ⟨rfl, hne⟩ := hkeep hphase
    rw [hstarting]
    rcases hi.kept id l' ⟨hl₁, hl.2⟩ hphase with hstored | ⟨hne', hspawned⟩
    · left
      have hvu : u ≠ v := by
        rintro rfl
        exact hne (hr.trans hstored)
      simpa [AList.lookup_erase_ne hvu] using hstored
    · right
      refine ⟨?_, hspawned⟩
      split
      · simp
      · exact hne'
  · rw [hstarting]
    split
    case isTrue hc =>
      rw [(hD hc.1 hc.2).1]
      exact .inr ⟨t, rfl⟩
    case isFalse => exact hi.alone
  · by_cases hvu : u = v
    · subst hvu
      simp
    · have hsame : starting calls u w.trace ≠ [] := by
        rw [hstarting, if_neg fun hc => hvu hc.1.symm] at hne
        exact hne
      simpa [AList.lookup_erase_ne hvu] using hi.free hsame
  · obtain ⟨l, hl₁, he, -⟩ := lookup_aborted hl
    exact ⟨l, hl₁, he.symm⟩
  · refine ⟨?_, fun id l' hl => ?_⟩
    · rw [hstarting, if_neg]
      · exact hm
      · intro hc
        rw [(hD hc.1 hc.2).1] at hm
        cases hm
    · obtain ⟨l, hl₁, he, -⟩ := lookup_aborted hl.1
      exact ⟨l, hl₁, he ▸ hl.2⟩
  · obtain ⟨hnone, hwinding⟩ := hD hv hs
    refine ⟨by rw [hstarting, if_pos ⟨hv, hs⟩, hnone], fun id l' hl => ?_⟩
    obtain ⟨l, hl₁, he, -⟩ := lookup_aborted hl.1
    have hloop : w.Loop u id l := ⟨hl₁, he ▸ hl.2⟩
    rcases hi.kept id l hloop (not_stopping hwinding hloop) with hstored | ⟨hne, -⟩
    · rw [hr, hv]
      exact hstored
    · exact absurd hnone hne

theorem enterLoop_step (hs : (calls t).starts) {v : UserId} :
    LoopStep calls u strict t (fun _ => True) (.abortHandle v) fun r => Entered calls u t v r := by
  intro w a r w' hi _ hd hexec
  have h : sessionExec t (.mk (.abortHandle v)) a w = some (r, w') := hexec
  have hD : v = u → (calls t).starts → starting calls u w.trace = [] ∧ w.winding u = false :=
    fun hv => hd (by rw [hv]; rfl)
  obtain ⟨hinv, hrely, hentered⟩ := abortHandle_exec h hi hD
  exact ⟨hinv, fun i _ => hrely i, hentered hs⟩

theorem leaveLoop_step (hs : (calls t).starts = false) {v : UserId} :
    LoopStep calls u strict t (fun _ => True) (.abortHandle v) fun _ _ => True := by
  intro w a r w' hi _ _ hexec
  have h : sessionExec t (.mk (.abortHandle v)) a w = some (r, w') := hexec
  obtain ⟨hinv, hrely, -⟩ := abortHandle_exec h hi
    fun _ hstarts => by rw [hs] at hstarts; cases hstarts
  exact ⟨hinv, fun i _ => hrely i, trivial⟩

theorem join_step {v : UserId} {id : LoopId} :
    LoopStep calls u strict t (Entered calls u t v (some id)) (.joinLoop id)
      fun _ => Entered calls u t v none := by
  intro w a b w' hi hw _ hexec
  have h : sessionExec t (.mk (.joinLoop id)) a w = some (b, w') := hexec
  have hsame : SameLoops calls u w w' := sameLoops_exec rfl h
  obtain ⟨hended, -⟩ := sessionExec_joinLoop h
  refine ⟨hsame.inv hi, fun i _ => hsame.rely i, fun hv => ?_⟩
  obtain ⟨hmine, hids⟩ := Entered.same hsame hw hv
  refine ⟨hmine, fun id' l hl => ?_⟩
  obtain rfl : id = id' := Option.some.inj (hids id' l hl)
  have hsome : w.loops.lookup id = some l := hsame.loops ▸ hl.1
  rw [hended] at hsome
  cases hsome

theorem spawn_step {v : UserId} {client : JmapClient} :
    LoopStep calls u strict t (Entered calls u t v none) (.spawnLoop v client)
      fun id => HasSpawned calls u t v id := by
  intro w a id w' hi hw _ hexec
  have h : sessionExec t (.mk (.spawnLoop v client)) a w = some (id, w') := hexec
  obtain ⟨rfl, rfl⟩ := sessionExec_spawnLoop h
  have hold : ∀ id l', (w.loops.insert w.nextLoop ⟨v, client, .spawned⟩).lookup id = some l' →
      id = w.nextLoop ∧ l' = ⟨v, client, .spawned⟩ ∨ id ≠ w.nextLoop ∧
      w.loops.lookup id = some l' := by
    intro id l' hl
    by_cases hid : id = w.nextLoop
    · subst hid
      rw [AList.lookup_insert] at hl
      exact .inl ⟨rfl, (Option.some.inj hl).symm⟩
    · rw [AList.lookup_insert_ne hid] at hl
      exact .inr ⟨hid, hl⟩
  have hentered : Entered calls u t v (some w.nextLoop) { w with
      loops := w.loops.insert w.nextLoop ⟨v, client, .spawned⟩
      nextLoop := w.nextLoop + 1
      trace := ⟨t, .spawnLoop v client, a⟩ :: w.trace } := by
    intro hv
    obtain ⟨hmine, hids⟩ := hw hv
    refine ⟨hmine, fun id l' hl => ?_⟩
    rcases hold id l' hl.1 with ⟨rfl, -⟩ | ⟨-, hl₁⟩
    · rfl
    · cases hids id l' ⟨hl₁, hl.2⟩
  refine ⟨⟨fun id l' hl => ?_, fun x id hx => ?_, fun id id' l l' hl hl' => ?_,
    fun id l' hl hphase => ?_, hi.alone, hi.free⟩, fun i hit =>
      ⟨Nat.le_succ _, fun id l' hl hid => ?_,
    fun hm => ⟨hm, fun id l' hl => ?_⟩⟩, ⟨Nat.lt_succ_self _, fun l hl => ?_⟩, hentered⟩
  · rcases hold id l' hl with ⟨rfl, -⟩ | ⟨-, hl₁⟩
    · exact Nat.lt_succ_self _
    · exact Nat.lt_succ_of_lt (hi.fresh id l' hl₁)
  · obtain ⟨hlt, huser⟩ := hi.handle x id hx
    refine ⟨Nat.lt_succ_of_lt hlt, fun l' hl => ?_⟩
    rcases hold id l' hl with ⟨rfl, -⟩ | ⟨-, hl₁⟩
    · exact absurd hlt (Nat.lt_irrefl _)
    · exact huser l' hl₁
  · by_cases hv : v = u
    · have hleft : some w.nextLoop = some id := (hentered hv).2 id l hl
      have hright : some w.nextLoop = some id' := (hentered hv).2 id' l' hl'
      exact Option.some.inj (hleft.symm.trans hright)
    · have hearlier : ∀ id l, (w.loops.insert w.nextLoop ⟨v, client, .spawned⟩).lookup id = some l →
          l.user = u → w.Loop u id l := by
        intro id l hl huser
        rcases hold id l hl with ⟨-, rfl⟩ | ⟨-, hl₁⟩
        · exact absurd huser hv
        · exact ⟨hl₁, huser⟩
      exact hi.one id id' l l' (hearlier id l hl.1 hl.2) (hearlier id' l' hl'.1 hl'.2)
  · rcases hold id l' hl.1 with ⟨rfl, rfl⟩ | ⟨-, hl₁⟩
    · have hmine : starting calls u w.trace = [t] := (hw hl.2).1
      have hne : starting calls u w.trace ≠ [] := by simp [hmine]
      exact .inr ⟨hne, fun _ => rfl⟩
    · exact hi.kept id l' ⟨hl₁, hl.2⟩ hphase
  · rcases hold id l' hl with ⟨rfl, -⟩ | ⟨-, hl₁⟩
    · exact absurd hid (Nat.lt_irrefl _)
    · exact ⟨l', hl₁, rfl⟩
  · rcases hold id l' hl.1 with ⟨rfl, rfl⟩ | ⟨-, hl₁⟩
    · have hmine : starting calls u w.trace = [t] := (hw hl.2).1
      have heq : [t] = [i] := hmine.symm.trans hm
      exact absurd (List.singleton_inj.mp heq).symm hit
    · exact ⟨l', hl₁, hl.2⟩
  · rcases hold _ l hl with ⟨-, rfl⟩ | ⟨hne, -⟩
    · rfl
    · exact absurd rfl hne

theorem insertHandle_step {v : UserId} {id : LoopId} :
    LoopStep calls u strict t (HasSpawned calls u t v id) (.insertHandle v id) fun _ _ => True := by
  intro w a b w' hi hw _ hexec
  have h : sessionExec t (.mk (.insertHandle v id)) a w = some (b, w') := hexec
  obtain ⟨⟨hlt, huser⟩, hentered⟩ := hw
  rw [sessionExec_insertHandle h]
  have hstarting : starting calls u (⟨t, .insertHandle v id, a⟩ :: w.trace) =
      if v = u then (starting calls u w.trace).filter (· != t) else starting calls u w.trace := rfl
  have hdone : v = u → starting calls u (⟨t, .insertHandle v id, a⟩ :: w.trace) = [] := by
    intro hv
    rw [hstarting, if_pos hv, (hentered hv).1]
    simp
  have hother : v ≠ u → starting calls u (⟨t, .insertHandle v id, a⟩ :: w.trace) =
      starting calls u w.trace := fun hv => by rw [hstarting, if_neg hv]
  refine ⟨⟨hi.fresh, fun x id' hx => ?_, hi.one, fun id' l hl hphase => ?_, ?_, fun hne => ?_⟩,
    fun i hit => ⟨Nat.le_refl _, fun _ l hl _ => ⟨l, hl, rfl⟩, fun hm => ?_⟩, trivial⟩
  · by_cases hxv : x = v
    · subst hxv
      rw [AList.lookup_insert] at hx
      obtain rfl := Option.some.inj hx
      exact ⟨hlt, huser⟩
    · rw [AList.lookup_insert_ne hxv] at hx
      exact hi.handle x id' hx
  · by_cases hv : v = u
    · have hid : some id = some id' := (hentered hv).2 id' l hl
      left
      rw [← hid, hv]
      exact AList.lookup_insert _
    · rw [hother hv]
      rcases hi.kept id' l hl hphase with hstored | hspawned
      · left
        exact (AList.lookup_insert_ne (Ne.symm hv)).trans hstored
      · exact .inr hspawned
  · by_cases hv : v = u
    · exact .inl (hdone hv)
    · rw [hother hv]
      exact hi.alone
  · by_cases hv : v = u
    · exact absurd (hdone hv) hne
    · rw [hother hv] at hne
      exact (AList.lookup_insert_ne (Ne.symm hv)).trans (hi.free hne)
  · by_cases hv : v = u
    · have heq : [t] = [i] := (hentered hv).1.symm.trans hm
      exact absurd (List.singleton_inj.mp heq).symm hit
    · exact ⟨(hother hv).trans hm, fun _ l hl => ⟨l, hl⟩⟩

theorem quiet_loop {x : Prog SessionOp α} (hx : x.Only fun _ o => o.cmd.onLoops = false) :
    LoopTriple calls u strict t (fun _ => True) x fun _ _ => True :=
  .only (Stable.const True) (hx.mono fun _ _ ho => same_keeps (fun _ _ _ h => h) ho)

variable (u strict) in
theorem session_start (hs : (calls t).starts) (v : UserId) (row : RegisteredUser) :
    SessionStart (sessionSystem calls) (apart calls u strict) (loopContract calls u strict) t v row
      (fun _ => True) (Entered calls u t v) (Entered calls u t v none) (HasSpawned calls u t v)
      fun _ => True where
  stable_before := Stable.const True
  stable_entered := Entered.stable
  stable_listed := Entered.stable
  stable_spawned := HasSpawned.stable
  stable_after := Stable.const True
  enter := enterLoop_step hs
  join _ := join_step
  list w a b w' hi hw hd h := same_keeps (fun _ _ => Entered.same) rfl w a b w' hw hi hd h
  spawn := spawn_step
  keep _ := insertHandle_step

theorem quiet_keeps {o : SessionOp β} (ho : o.cmd.onLoops = false) :
    Keeps (sessionSystem calls) (apart calls u strict) (loopContract calls u strict) t
      (fun _ => True) β o := same_keeps (fun _ _ _ h => h) ho

theorem not_onLoops {c : SessionCmd} (h : c.onSession = false) : c.onLoops = false := by
  cases c with
  | abortHandle => cases h
  | spawnLoop => cases h
  | insertHandle => cases h
  | _ => rfl

theorem logoutSession_triple (hs : (calls t).starts = false) {v : UserId} :
    LoopTriple calls u strict t (fun _ => True) (logoutSession v) fun _ _ => True := by
  have habort : LoopTriple calls u strict t (fun _ => True) (abortPoller v) fun _ _ => True :=
    abortPoller_rule (Stable.const True) (fun _ => Stable.const True) (leaveLoop_step hs) fun id =>
      fun w a b w' hi hw hd h => quiet_keeps rfl w a b w' hw hi hd h
  refine .bind habort fun _ => .bind (quiet_loop (Prog.only_call.mpr rfl)) fun _ => ?_
  refine .bind (quiet_loop (Prog.only_call.mpr rfl)) fun cleared => ?_
  cases cleared with
  | false => exact .pure (Stable.const True) fun _ _ h => h
  | true => exact quiet_loop (Prog.only_call.mpr rfl)

theorem program_triple (t : Nat) :
    LoopTriple calls u strict t (fun _ => True) (calls t).program fun _ _ => True := by
  have hstart : (calls t).starts → ∀ v row, SessionStart (sessionSystem calls)
      (apart calls u strict) (loopContract calls u strict) t v row (fun _ => True)
      (Entered calls u t v) (Entered calls u t v none) (HasSpawned calls u t v) fun _ => True :=
    session_start u strict
  cases hcall : calls t with
  | start jitter v row =>
    exact .post ((hstart (by rw [hcall]; rfl) v row).startUser_triple (quiet_keeps rfl)
      (fun _ => quiet_keeps rfl) (quiet_keeps rfl)) fun _ _ _ _ => trivial
  | reconnect v row =>
    exact (hstart (by rw [hcall]; rfl) v row).reconnect_triple (quiet_keeps rfl)
      fun _ => quiet_keeps rfl
  | login v row =>
    have hlogin := (hstart (by rw [hcall]; rfl) v row).loginSession_triple (Stable.const True)
      (fun w a b w' hi hw hd h => quiet_keeps rfl w a b w' hw hi hd h)
      fun o ho => quiet_keeps (not_onLoops ho.1.1)
    exact .bind (.post hlogin fun _ _ _ _ => trivial) fun _ => quiet_loop (Prog.only_call.mpr rfl)
  | logout v =>
    exact .bind
      (logoutSession_triple (by rw [hcall]; rfl)) fun _ => quiet_loop (Prog.only_call.mpr rfl)

theorem lookup_begun {loops : Table LoopId EventLoop} {id i : LoopId} {l' : EventLoop}
    (h : (loops.modify i fun l => { l with phase := .running }).lookup id = some l') :
    ∃ l, loops.lookup id = some l ∧ l'.user = l.user ∧ (id ≠ i → l' = l) := by
  by_cases hid : id = i
  · subst hid
    rw [Table.lookup_modify_self] at h
    obtain ⟨l, hl, rfl⟩ := Option.map_eq_some_iff.mp h
    exact ⟨l, hl, rfl, fun hne => absurd rfl hne⟩
  · rw [Table.lookup_modify_ne hid] at h
    exact ⟨l', h, rfl, fun _ => rfl⟩

theorem begins_keeps {i : LoopId} {w w' : SessionWorld} (hi : LoopInv calls u strict w)
    (hD : strict → ∀ l ∈ w.loops.lookup i, l.user = u → w.pollerHandles.lookup u = some i)
    (h : (SessionEnv.begins i).perform w = some w') :
    LoopInv calls u strict w' ∧ ∀ j, LoopRely calls u j w w' := by
  simp only [SessionEnv.perform] at h
  split at h
  case isFalse => cases h
  case isTrue hspawned =>
    obtain rfl := Option.some.inj h
    have hmap : ∀ id l', (SessionWorld.Loop { w with
        loops := w.loops.modify i fun l => { l with phase := .running } } u id l') →
        ∃ l, w.Loop u id l := by
      intro id l' hl
      obtain ⟨l, hl₁, he, -⟩ := lookup_begun hl.1
      exact ⟨l, hl₁, he ▸ hl.2⟩
    refine ⟨⟨fun id l' hl => ?_, fun x id hx => ?_, fun id id' l l' hl hl' => ?_,
      fun id l' hl hphase => ?_, hi.alone, hi.free⟩, fun j => ⟨Nat.le_refl _, fun id l' hl _ => ?_,
      fun hm => ⟨hm, fun id l' hl => hmap id l' hl⟩⟩⟩
    · obtain ⟨l, hl₁, -⟩ := lookup_begun hl
      exact hi.fresh id l hl₁
    · obtain ⟨hlt, huser⟩ := hi.handle x id hx
      refine ⟨hlt, fun l' hl => ?_⟩
      obtain ⟨l, hl₁, he, -⟩ := lookup_begun hl
      exact he.trans (huser l hl₁)
    · obtain ⟨m, hm⟩ := hmap id l hl
      obtain ⟨m', hm'⟩ := hmap id' l' hl'
      exact hi.one id id' m m' hm hm'
    · obtain ⟨l, hl₁, he, hsame⟩ := lookup_begun hl.1
      have hloop : w.Loop u id l := ⟨hl₁, he ▸ hl.2⟩
      by_cases hid : id = i
      · subst hid
        rw [hl₁] at hspawned
        have hphase₁ : l.phase = .spawned := by simpa using hspawned
        rcases hi.kept id l hloop (by simp [hphase₁]) with hstored | ⟨hne, -⟩
        · exact .inl hstored
        · cases strict with
          | true => exact .inl (hD rfl l hl₁ hloop.2)
          | false => exact .inr ⟨hne, fun hstrict => (by cases hstrict)⟩
      · obtain rfl := hsame hid
        exact hi.kept id l' hloop hphase
    · obtain ⟨l, hl₁, he, -⟩ := lookup_begun hl
      exact ⟨l, hl₁, he.symm⟩

theorem ends_keeps {i : LoopId} {w w' : SessionWorld} (hi : LoopInv calls u strict w)
    (h : (SessionEnv.ends i).perform w = some w') :
    LoopInv calls u strict w' ∧ ∀ j, LoopRely calls u j w w' := by
  simp only [SessionEnv.perform] at h
  split at h
  case isFalse => cases h
  case isTrue =>
    obtain rfl := Option.some.inj h
    have hold : ∀ id l, (w.loops.erase i).lookup id = some l → w.loops.lookup id = some l := by
      intro id l hl
      by_cases hid : id = i
      · subst hid
        simp at hl
      · rwa [AList.lookup_erase_ne hid] at hl
    refine ⟨⟨fun id l hl => hi.fresh id l (hold id l hl), fun x id hx => ?_,
      fun id id' l l' hl hl' => ?_, fun id l hl => ?_, hi.alone, hi.free⟩,
      fun j => ⟨Nat.le_refl _, fun id l hl _ => ⟨l, hold id l hl, rfl⟩,
      fun hm => ⟨hm, fun id l hl => ⟨l, hold id l hl.1, hl.2⟩⟩⟩⟩
    · obtain ⟨hlt, huser⟩ := hi.handle x id hx
      exact ⟨hlt, fun l hl => huser l (hold id l hl)⟩
    · exact hi.one id id' l l' ⟨hold id l hl.1, hl.2⟩ ⟨hold id' l' hl'.1, hl'.2⟩
    · exact hi.kept id l ⟨hold id l hl.1, hl.2⟩

theorem loop_upholds (calls : Nat → SessionCall) (u : UserId) (strict : Bool) :
    Upholds (sessionSystem calls) (apart calls u strict) (loopContract calls u strict) where
  start t w hi _ _ := program_triple t w hi trivial
  env := by
    intro e w w' hi hD h
    cases e with
    | begins i => exact begins_keeps hi hD h
    | ends i => exact ends_keeps hi h
  cancel t w hi _ := ⟨hi, fun i _ => LoopRely.refl w, trivial⟩

/-- A process with no session yet. -/
structure SessionWorld.Fresh (w : SessionWorld) : Prop where
  clients : w.clients = ∅
  handles : w.pollerHandles = ∅
  loops : w.loops = ∅
  trace : w.trace = []

theorem SessionWorld.Fresh.loopInv {w : SessionWorld} (h : w.Fresh) : LoopInv calls u strict w where
  fresh id l hl := by simp [h.loops] at hl
  handle v id hv := by simp [h.handles] at hv
  one id id' l l' hl := by simp [SessionWorld.Loop, h.loops] at hl
  kept id l hl := by simp [SessionWorld.Loop, h.loops] at hl
  alone := by simp [h.trace, starting]
  free hne := by simp [h.trace, starting] at hne

/-- At most one event loop of `u` has begun and not ended, and one that was not told to
stop has its handle in the map. -/
structure OneLoop (u : UserId) (w : SessionWorld) : Prop where
  single : ∀ id id' l l', w.Loop u id l → w.Loop u id' l' → l.phase ≠ .spawned →
    l'.phase ≠ .spawned → id = id'
  stored : ∀ id l, w.Loop u id l → l.phase = .running → w.pollerHandles.lookup u = some id

/-- In every run in which sessions of `u` are started one at a time, each with its old loop
ended and its new one polled only once its handle is kept, `u` has one event loop. -/
theorem one_loop_while_apart {w : SessionWorld} (hw : w.Fresh)
    {es : List (Event SessionAnswer SessionEnv)} {q : Pool SessionOp SessionWorld}
    (hrun : (sessionSystem calls).run es (Pool.boot w) = some q)
    (hD : (sessionSystem calls).Admits (apart calls u true).meets es (Pool.boot w)) :
    OneLoop u q.world := by
  have hinv : LoopInv calls u true q.world :=
    (loop_upholds calls u true).inv_of_run hw.loopInv (fun _ => trivial) hrun hD
  refine ⟨fun id id' l l' hl hl' _ _ => hinv.one id id' l l' hl hl', fun id l hl hphase => ?_⟩
  rcases hinv.kept id l hl (by simp [hphase]) with hstored | ⟨-, hspawned⟩
  · exact hstored
  · rw [hspawned rfl] at hphase
    cases hphase

/-- Two logins of one user and a logout. -/
def twoLogins : Nat → SessionCall
  | 0 => .login "@a:localhost" ⟨"a", "old", "url"⟩
  | 1 => .login "@a:localhost" ⟨"a", "new", "url"⟩
  | _ => .logout "@a:localhost"

/-- The answers to a login as far as its `abort_poller`, where no primary email is found. -/
def connects (t : Nat) : List (Event SessionAnswer SessionEnv) :=
  [.start t, .step t .done, .step t .done, .step t (.email none)]

/-- The rest of a login that finds no old handle. -/
def installs (t : Nat) : List (Event SessionAnswer SessionEnv) :=
  [.step t .done, .step t .done, .step t .done]

/-- A login, and another that ends the loop of the first. -/
def reloginRun : List (Event SessionAnswer SessionEnv) :=
  connects 0 ++ (.step 0 .done :: installs 0 : List (Event SessionAnswer SessionEnv)) ++
    ([.env (.begins 0)] : List (Event SessionAnswer SessionEnv)) ++ connects 1 ++
    ([.step 1 .done, .env (.ends 0), .step 1 .done] : List (Event SessionAnswer SessionEnv)) ++
    installs 1 ++
    ([.env (.begins 1)] : List (Event SessionAnswer SessionEnv))

theorem one_loop_while_apart_relogin : ∃ q,
    (sessionSystem twoLogins).run reloginRun (Pool.boot {}) = some q ∧
      q.world.pollerHandles.lookup "@a:localhost" = some 1 ∧ OneLoop "@a:localhost" q.world := by
  have hends : ((sessionSystem twoLogins).run reloginRun (Pool.boot {})).map
      (fun q => q.world.pollerHandles.lookup "@a:localhost") = some (some 1) ∧
      (sessionSystem twoLogins).Admits (apart twoLogins "@a:localhost" true).meets reloginRun
        (Pool.boot {}) := by
    decide +kernel
  obtain ⟨q, hq, hhandle⟩ := Option.map_eq_some_iff.mp hends.1
  exact ⟨q, hq, hhandle, one_loop_while_apart ⟨rfl, rfl, rfl, rfl⟩ hq hends.2⟩

/-- Both logins look for the old handle before either has put its own in. -/
def overlappingRun : List (Event SessionAnswer SessionEnv) :=
  connects 0 ++ connects 1 ++
  ([.step 0 .done, .step 1 .done] : List (Event SessionAnswer SessionEnv)) ++
    installs 0 ++ ([.env (.begins 0)] : List (Event SessionAnswer SessionEnv)) ++ installs 1 ++
    ([.env (.begins 1)] : List (Event SessionAnswer SessionEnv))

/-- Two loops run for one user, and the handle of the first is lost. -/
theorem overlapping_logins : ∃ q,
    (sessionSystem twoLogins).run overlappingRun (Pool.boot {}) = some q ∧
      ¬ OneLoop "@a:localhost" q.world := by
  have hends : ((sessionSystem twoLogins).run overlappingRun (Pool.boot {})).map (fun q =>
      (q.world.loops.lookup 0, q.world.pollerHandles.lookup "@a:localhost")) =
      some (some ⟨"@a:localhost", ⟨"a", "old", "url"⟩, .running⟩, some 1) := by
    decide +kernel
  obtain ⟨q, hq, hstate⟩ := Option.map_eq_some_iff.mp hends
  obtain ⟨hloop, hhandle⟩ := Prod.mk.inj hstate
  refine ⟨q, hq, fun hone => ?_⟩
  have hstored := hone.stored 0 _ ⟨hloop, rfl⟩ rfl
  rw [hhandle] at hstored
  cases hstored

end JmapBridge
