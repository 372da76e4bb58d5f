import JmapBridge.Property.OneRoom
import JmapBridge.Model.Provision

/-! Creation locks do not outlive their holders. A row of the lock table always has a
token, a scope guard or a spawned release, and a call that has ended has no guards left. -/

namespace JmapBridge

open Effect

/-- The keys that task `t` guards, the newest first. -/
def World.hand (t : Nat) (w : World) : List LockKey :=
  w.guards.filterMap fun g => if g.1 = t then some g.2 else none

/-- The newest statement of the task has taken effect and has not returned. -/
def World.cutOff (w : World) (t : Nat) : Bool :=
  (w.trace.find? fun r => r.task == t).any fun r => match r.cmd, r.answer with
    | .store _, .lost _ => true
    | _, _ => false

/-- A release that runs deletes its row. -/
def Env.deletes : Env → Bool
  | release _ stored => stored
  | _ => true

def Cmd.succeeds : Cmd → Answer → Bool
  | store _, .failed => false
  | _, _ => true

/-- The statement that takes a lock returns. -/
def Cmd.acquiresWhole : Cmd → Answer → Bool
  | store (.tryAcquireRoomCreationLock _), .lost _ => false
  | _, _ => true

/-- The store works, except that a call may be cancelled within a statement, which then
has taken effect or not. -/
def cancellable : Discipline Op World Answer Env where
  start t w := w.cutOff t = false
  step t _ o a w := w.cutOff t = false ∧ o.cmd.succeeds a
  env e _ := e.deletes

/-- No acquisition is cut off once it has taken effect. -/
def wholeAcquisition : Discipline Op World Answer Env where
  step _ _ o a _ := o.cmd.acquiresWhole a
  env e _ := e.deletes

instance decidableCancellable (e : Event Answer Env) (q : Pool Op World) :
    Decidable (cancellable.meets e q) :=
  @Discipline.decidableMeets Op World Answer Env cancellable
    (fun t w => inferInstanceAs (Decidable (w.cutOff t = false)))
    (fun t _ o a w => inferInstanceAs (Decidable (w.cutOff t = false ∧ o.cmd.succeeds a)))
    (fun _ _ => instDecidableTrue) (fun e _ => inferInstanceAs (Decidable (e.deletes = true))) e q

instance decidableWholeAcquisition (e : Event Answer Env) (q : Pool Op World) :
    Decidable (wholeAcquisition.meets e q) :=
  @Discipline.decidableMeets Op World Answer Env wholeAcquisition (fun _ _ => instDecidableTrue)
    (fun _ _ o a _ => inferInstanceAs (Decidable (o.cmd.acquiresWhole a = true)))
    (fun _ _ => instDecidableTrue) (fun e _ => inferInstanceAs (Decidable (e.deletes = true))) e q

/-- A row has a token. A task relies on its guards being left alone. -/
def tokenContract : Contract World where
  inv w := ∀ key, w.store.holds key → 0 < w.tokens key
  rely t w w' := w'.hand t = w.hand t
  idle t w := w.hand t = []
  idle_stable hidle hr := hr.trans hidle
  refl _ _ := rfl
  trans hab hbc := hbc.trans hab

section

variable {cfg : Config} {calls : Nat → Call} {t : Nat} {w w' : World} {key : LockKey}
  {l : List LockKey} {α : Type}

theorem locks_referring {β : Type} {s s' : Store} {user : UserId} {b : β}
    (hs : s'.roomCreationLocks = s.roomCreationLocks) :
    (s.referring user b s').2.roomCreationLocks = s.roomCreationLocks := by
  unfold Store.referring
  split
  · exact hs
  · rfl

theorem locks_run {c : StoreCmd} (hc : (Cmd.store c).offLocks) (now : Nat) (order : List Nat)
    (s : Store) : (c.run now order s).2.roomCreationLocks = s.roomCreationLocks := by
  cases c with
  | tryAcquireRoomCreationLock => cases hc
  | saveJmapState => exact locks_referring rfl
  | saveRoomGhostMapping => exact locks_referring rfl
  | addToOutboundQueue => exact locks_referring rfl
  | _ => rfl

/-- What stays when a command has nothing to do with locks. -/
structure SameLocks (w w' : World) : Prop where
  locks : w'.store.roomCreationLocks = w.store.roomCreationLocks
  guards : w'.guards = w.guards
  releases : w'.releases = w.releases

theorem offLocks_exec {c : Cmd} {a : Answer} {b : c.Ans} (hc : c.offLocks)
    (he : exec t (.mk c) a w = some (b, w')) : SameLocks w w' := by
  cases c with
  | store c =>
    have hguards : ∀ r : Except Err c.Ans, c.guards t r = [] := by
      intro r
      cases c <;> first | rfl | cases hc
    rcases exec_store he with ⟨order, -, -, rfl⟩ | ⟨-, -, rfl⟩ | ⟨-, -, rfl⟩
    · rw [hguards, List.nil_append]
      exact ⟨locks_run hc _ _ _, rfl, rfl⟩
    · exact ⟨rfl, rfl, rfl⟩
    · exact ⟨locks_run hc _ _ _, rfl, rfl⟩
  | matrix c =>
    obtain ⟨⟨issued, rfl⟩, -⟩ := exec_matrix he
    exact ⟨rfl, rfl, rfl⟩
  | jmap account c =>
    obtain ⟨mail, rfl⟩ := exec_jmap he
    exact ⟨rfl, rfl, rfl⟩
  | task c =>
    obtain ⟨-, -, rfl⟩ := exec_task he
    cases c with
    | dropGuard => cases hc
    | _ => exact ⟨rfl, rfl, rfl⟩

theorem SameLocks.keeps (h : SameLocks w w') (hi : tokenContract.inv w) :
    tokenContract.inv w' ∧ ∀ i, tokenContract.rely i w w' := by
  constructor
  · intro k hk
    rw [Store.holds, h.locks] at hk
    rw [World.tokens, h.guards, h.releases]
    exact hi k hk
  · intro i
    change w'.hand i = w.hand i
    rw [World.hand, h.guards, World.hand]

abbrev TokenTriple (cfg : Config) (calls : Nat → Call) (t : Nat) (P : World → Prop)
    (x : Prog Op α) (Q : α → World → Prop) : Prop :=
  Triple (bridge cfg calls) wholeAcquisition tokenContract t P x Q

abbrev TokenStep (cfg : Config) (calls : Nat → Call) (t : Nat) (P : World → Prop) (c : Cmd)
    (R : c.Ans → World → Prop) : Prop :=
  Step (bridge cfg calls) wholeAcquisition tokenContract t P (.mk c) R

theorem tokenStep_intro {c : Cmd} {P : World → Prop} {R : c.Ans → World → Prop}
    (hstep : ∀ w a b w', tokenContract.inv w → P w → wholeAcquisition.step t (.mk c) a w →
      exec t (.mk c) a w = some (b, w') →
        tokenContract.inv w' ∧ (∀ i, i ≠ t → w'.hand i = w.hand i) ∧ R b w') :
    TokenStep cfg calls t P c R := hstep

/-- The task guards exactly these keys. -/
def Guards (t : Nat) (l : List LockKey) (w : World) : Prop := w.hand t = l

theorem Guards.stable : Stable tokenContract t (Guards t l) :=
  fun _ _ hw hr _ => Eq.trans hr hw

/-- The programs that leave the guards of the task as they found them. -/
def Balanced (cfg : Config) (calls : Nat → Call) (t : Nat) (α : Type) (x : Prog Op α) : Prop :=
  ∀ l, TokenTriple cfg calls t (Guards t l) x fun _ => Guards t l

theorem balanced_closed :
    Prog.Closed (fun _ o => o.cmd.offLocks) (Balanced cfg calls t) := by
  have hkeeps : ∀ (l : List LockKey) (β : Type) (o : Op β), o.cmd.offLocks →
      Keeps (bridge cfg calls) wholeAcquisition tokenContract t (Guards t l) β o := by
    intro l β o hc
    obtain ⟨c⟩ := o
    intro w a b w' hw hi _ he
    obtain ⟨hinv, hrely⟩ := (offLocks_exec hc he).keeps hi
    exact ⟨hinv, fun i _ => hrely i, (hrely t).trans hw⟩
  constructor
  · exact fun a l => (Triple.closed Guards.stable).pure a
  · exact fun hc l => (Triple.closed Guards.stable).call (hkeeps l _ _ hc)
  · exact fun hp hf l => (Triple.closed Guards.stable).bind (hp l) fun a => hf a l
  · exact fun hb l => (Triple.closed Guards.stable).loop fun s => hb s l

theorem Balanced.does {x : Prog Op α} (hx : Does (fun c => c.offLocks) x) :
    Balanced cfg calls t α x := balanced_closed.of_only hx

theorem Balanced.bland {x : Prog Op α} (hx : Bland x) : Balanced cfg calls t α x :=
  .does (hx.mono fun _ => Cmd.bland.offLocks)

theorem bland_balanced : Prog.Closed (fun _ o => o.cmd.bland) (Balanced cfg calls t) :=
  balanced_closed.mono fun _ _ h => Cmd.bland.offLocks h

theorem acquire_token :
    TokenStep cfg calls t (Guards t l) (.store (.tryAcquireRoomCreationLock key))
      (post (fun b => if b = true then Guards t (key :: l) else Guards t l) fun _ =>
        Guards t l) := by
  refine tokenStep_intro fun w a b w' hi hw hd he => ?_
  rcases exec_store he with ⟨order, -, rfl, rfl⟩ | ⟨-, rfl, rfl⟩ | ⟨⟨s, rfl⟩, -, -⟩
  · cases hrow : w.store.holds key with
    | true =>
      have hrun : StoreCmd.run w.now order (.tryAcquireRoomCreationLock key) w.store =
          (.ok false, w.store) := by
        simp only [StoreCmd.run]
        exact if_pos hrow
      rw [hrun]
      exact ⟨hi, fun _ _ => rfl, hw⟩
    | false =>
      have hrun : StoreCmd.run w.now order (.tryAcquireRoomCreationLock key) w.store =
          (.ok true, { w.store with
            roomCreationLocks := w.store.roomCreationLocks.insert key () }) := by
        simp only [StoreCmd.run]
        exact if_neg (by simpa [Store.holds] using hrow)
      rw [hrun]
      refine ⟨fun k hk => ?_, fun i hit => ?_, ?_⟩
      · simp only [World.tokens, StoreCmd.guards, List.cons_append, List.nil_append,
          List.countP_cons]
        by_cases hkey : key = k
        · simp only [hkey, decide_true, if_true]
          omega
        · have hold : w.store.holds k := by
            simpa [Store.holds, AList.lookup_insert_ne (Ne.symm hkey)] using hk
          have hpos := hi k hold
          rw [World.tokens] at hpos
          omega
      · simp [World.hand, StoreCmd.guards, Ne.symm hit]
      · change World.hand t _ = key :: l
        have hw : w.hand t = l := hw
        rw [← hw]
        simp [World.hand, StoreCmd.guards]
  · exact ⟨hi, fun _ _ => rfl, hw⟩
  · cases hd

theorem guards_erase (guards : List (Nat × LockKey)) :
    (guards.erase (t, key)).filterMap (fun g => if g.1 = t then some g.2 else none) =
      (guards.filterMap fun g => if g.1 = t then some g.2 else none).erase key := by
  induction guards with
  | nil => rfl
  | cons g guards ih =>
    obtain ⟨i, k⟩ := g
    by_cases hg : (i, k) = (t, key)
    · obtain ⟨rfl, rfl⟩ := Prod.mk.inj hg
      simp
    · rw [List.erase_cons_tail (by simpa using hg)]
      by_cases hi : i = t
      · have hk : k ≠ key := fun hk => hg (by rw [hi, hk])
        simp [hi, ih, List.erase_cons_tail, hk]
      · simp [hi, ih]

theorem guards_erase_ne {i : Nat} (hit : i ≠ t) (guards : List (Nat × LockKey)) :
    (guards.erase (t, key)).filterMap (fun g => if g.1 = i then some g.2 else none) =
      guards.filterMap fun g => if g.1 = i then some g.2 else none := by
  induction guards with
  | nil => rfl
  | cons g guards ih =>
    by_cases hg : g = (t, key)
    · subst hg
      simp [Ne.symm hit]
    · rw [List.erase_cons_tail (by simpa using hg), List.filterMap_cons, List.filterMap_cons, ih]

theorem mem_hand : key ∈ w.hand t ↔ (t, key) ∈ w.guards := by
  simp only [World.hand, List.mem_filterMap]
  constructor
  · rintro ⟨⟨i, k⟩, hg, hk⟩
    split at hk
    · next hi =>
      obtain rfl : i = t := hi
      rwa [← Option.some.inj hk]
    · cases hk
  · exact fun h => ⟨(t, key), h, if_pos rfl⟩

theorem Dropped.hand (h : Dropped calls t key w w') : w'.hand t = (w.hand t).erase key := by
  rw [World.hand, h.guards]
  exact guards_erase w.guards

theorem Dropped.hand_ne (h : Dropped calls t key w w') {i : Nat} (hit : i ≠ t) :
    w'.hand i = w.hand i := by
  rw [World.hand, h.guards]
  exact guards_erase_ne hit w.guards

theorem dropGuard_token :
    TokenStep cfg calls t (Guards t (key :: l)) (.task (.dropGuard key)) fun _ => Guards t l := by
  refine tokenStep_intro fun w a b w' hi hw _ he => ?_
  have hdrop : Dropped calls t key w w' := exec_dropGuard he
  have hw : w.hand t = key :: l := hw
  have hmem : (t, key) ∈ w.guards := mem_hand.mp (by simp [hw])
  refine ⟨fun k hk => ?_, fun i hit => hdrop.hand_ne hit, ?_⟩
  · rw [hdrop.tokens hmem]
    exact hi k (by rwa [hdrop.held] at hk)
  · change w'.hand t = l
    rw [hdrop.hand, hw, List.erase_cons_head]

theorem Balanced.guarded {body : Bridge α} (hbody : Balanced cfg calls t _ body) :
    TokenTriple cfg calls t (Guards t (key :: l)) (guarded key body) fun _ => Guards t l :=
  .bind (hbody (key :: l)) fun _ =>
    .bind (.call Guards.stable dropGuard_token fun _ => Guards.stable) fun _ =>
      .pure Guards.stable fun _ _ hw => hw

theorem Balanced.act {x : Bridge α} (hx : Balanced cfg calls t _ x) :
    TokenTriple cfg calls t (Guards t l) x (post (fun _ => Guards t l) fun _ => Guards t l) :=
  .post (hx l) fun r _ _ hw => by
    cases r with
    | ok _ => exact hw
    | error _ => exact hw

theorem Balanced.of_act {x : Bridge α} (hx : ∀ l, TokenTriple cfg calls t (Guards t l) x
    (post (fun _ => Guards t l) fun _ => Guards t l)) : Balanced cfg calls t _ x :=
  fun l => .post (hx l) fun r _ _ hw => by
    cases r with
    | ok _ => exact hw
    | error _ => exact hw

theorem acquire_triple_token :
    TokenTriple cfg calls t (Guards t l) (onStore (.tryAcquireRoomCreationLock key))
      (post (fun b => if b = true then Guards t (key :: l) else Guards t l) fun _ =>
        Guards t l) := by
  refine .call Guards.stable acquire_token fun r => ?_
  cases r with
  | ok b => cases b <;> exact Guards.stable
  | error _ => exact Guards.stable

/-! The email space. -/

theorem createEmailSpaceLocked_token {user : UserId} :
    TokenTriple cfg calls t (Guards t (.emailSpace user :: l)) (createEmailSpaceLocked user)
      fun _ => Guards t l := by
  refine Balanced.guarded (.does (.andThen (.store rfl) fun space => ?_))
  split
  · exact .ok
  · exact .andThen (createEmailSpace_bland.mono fun _ => Cmd.bland.offLocks) fun _ =>
      .andThen (.store rfl) fun _ => .ok

theorem ensureEmailSpace_balanced {user : UserId} :
    Balanced cfg calls t _ (ensureEmailSpace user) := by
  refine .of_act fun l => ?_
  have hguards : ∀ _ : Err, Stable tokenContract t (Guards t l) := fun _ => Guards.stable
  refine .actLoop (J := fun _ => Guards t l) (R := fun _ => Guards t l) (fun _ => Guards.stable)
    (fun _ => Guards.stable) hguards fun _ => ?_
  refine .andThen (Balanced.does (.store rfl)).act hguards fun space => ?_
  split
  · exact .ok Guards.stable fun _ _ hw => hw
  · refine .andThen acquire_triple_token hguards fun b => ?_
    cases b with
    | true =>
      refine .andThen (R := fun _ => Guards t l)
        (.post createEmailSpaceLocked_token fun r _ _ hw => ?_)
        hguards fun space => .ok Guards.stable fun _ _ hw => hw
      cases r with
      | ok _ => exact hw
      | error _ => exact hw
    | false =>
      exact .andThen (Balanced.does (.lift (.task rfl))).act hguards fun _ =>
        .ok Guards.stable fun _ _ hw => hw

/-! One email. -/

theorem createContactRoom_balanced {user : UserId} {email name : String} :
    Balanced cfg calls t _ (createContactRoom cfg user email name) := by
  refine balanced_closed.andThen (.bland registerGhost_bland) fun _ => ?_
  refine balanced_closed.andThen (.does (.matrix rfl)) fun _ => ?_
  refine balanced_closed.andThen (.does (.store rfl)) fun _ => ?_
  refine balanced_closed.andThen (.does (.bestEffort (.matrix rfl))) fun _ => ?_
  refine balanced_closed.andThen (.bland (.lift joinRealUser_bland)) fun _ => ?_
  exact balanced_closed.andThen
    (bestEffort_closed bland_balanced (ensureRoomInEmailSpace_closed bland_balanced
      ensureEmailSpace_balanced)) fun _ => balanced_closed.pure _

section

variable {p : Poller} {email : Email} {ghost : GhostUser} {body : EmailBody} {room : RoomId}
  {threadId : ThreadId} {emailId : EmailId}

theorem createThreadRoom_balanced :
    Balanced cfg calls t _ (createThreadRoom cfg p email ghost body threadId emailId) := by
  refine balanced_closed.andThen createContactRoom_balanced fun room => .does ?_
  exact .andThen (.bestEffort (.matrix rfl)) fun _ => .andThen (.store rfl) fun _ =>
    .andThen (.bestEffort (.matrix rfl)) fun _ =>
      .andThen (sendMessageAs_bland.mono fun _ => Cmd.bland.offLocks) fun _ =>
        .andThen (.store rfl) fun _ => .andThen (.store rfl) fun _ =>
          handleAttachments_bland.mono fun _ => Cmd.bland.offLocks

theorem awaitThreadLock_token :
    TokenTriple cfg calls t (Guards t l) (awaitThreadLock threadId)
      (post (fun room => match room with
        | some _ => Guards t l
        | none => Guards t (.thread threadId :: l)) fun _ => Guards t l) := by
  have hguards : ∀ _ : Err, Stable tokenContract t (Guards t l) := fun _ => Guards.stable
  refine .actLoop (J := fun _ => Guards t l) (fun _ => Guards.stable) (fun room => ?_) hguards
    fun _ => ?_
  · cases room <;> exact Guards.stable
  · refine .andThen (Balanced.does (.store rfl)).act hguards fun row => ?_
    split
    · exact .ok Guards.stable fun _ _ hw => hw
    · refine .andThen acquire_triple_token hguards fun b => ?_
      cases b with
      | true => exact .ok Guards.stable fun _ _ hw => hw
      | false =>
        exact .andThen (Balanced.does (.lift (.task rfl))).act hguards fun _ =>
          .ok Guards.stable fun _ _ hw => hw

theorem processNewThread_balanced :
    Balanced cfg calls t _ (processNewThread cfg p email ghost body) := by
  rw [processNewThread]
  split
  case h_2 => exact balanced_closed.pure _
  case h_1 threadId emailId _ _ =>
  refine .of_act fun l => ?_
  refine .andThen awaitThreadLock_token (fun _ => Guards.stable) fun room => ?_
  cases room with
  | some room => exact (Balanced.bland processReply_bland).act
  | none =>
    refine .post (Balanced.guarded (balanced_closed.andThen (.does (.store rfl)) fun row => ?_))
      fun r _ _ hw => ?_
    · cases row with
      | some row => exact .bland processReply_bland
      | none => exact createThreadRoom_balanced
    cases r with
    | ok _ => exact hw
    | error _ => exact hw

end

/-! The calls. -/

theorem program_balanced : Balanced cfg calls t _ ((calls t).program cfg) :=
  program_closed bland_balanced (fun _ => ensureEmailSpace_balanced)
    (fun _ _ _ _ => processNewThread_balanced)
    fun hc => .does (hc.program.mono fun _ => Cmd.service.offLocks)

theorem tokens_drop (w : World) : (drop t w).tokens key = w.tokens key := by
  have hsplit : ∀ guards : List (Nat × LockKey),
      (guards.filter fun g => g.1 != t).countP (fun g => g.2 = key) +
        ((guards.filter fun g => g.1 == t).map (·.2)).count key =
          guards.countP fun g => g.2 = key := by
    intro guards
    induction guards with
    | nil => rfl
    | cons g guards ih =>
      by_cases hg : g.1 = t
      · simp only [List.filter_cons, bne_iff_ne, ne_eq, hg, not_true, if_false, beq_self_eq_true,
          if_true, List.map_cons, List.count_cons, List.countP_cons, beq_iff_eq, decide_eq_true_eq]
        omega
      · simp only [List.filter_cons, bne_iff_ne, ne_eq, hg, not_false_eq_true, if_true,
          beq_iff_eq, if_false, List.countP_cons, decide_eq_true_eq]
        omega
  have hguards := hsplit w.guards
  simp only [World.tokens, drop, List.count_append]
  omega

theorem guards_drop {i : Nat} (hit : i ≠ t) (w : World) : (drop t w).hand i = w.hand i := by
  simp only [World.hand, drop, List.filterMap_filter]
  congr 1
  funext g
  by_cases hg : g.1 = i
  · simp [hg, hit]
  · simp [hg]

theorem guards_dropped (w : World) : (drop t w).hand t = [] := by
  rw [World.hand, List.filterMap_eq_nil_iff]
  intro g hg
  have hne : g.1 ≠ t := by simpa using (List.mem_filter.mp hg).2
  exact if_neg hne

theorem token_upholds : Upholds (bridge cfg calls) wholeAcquisition tokenContract where
  start := fun t w hi hidle _ => program_balanced [] w hi hidle
  env := by
    intro e w w' hi hd he
    cases e with
    | release k stored =>
      change (Env.release k stored).perform w = some w' at he
      simp only [Env.perform] at he
      split at he
      · next hk =>
        obtain rfl := Option.some.inj he
        have hstored : stored = true := hd
        refine ⟨fun key hkey => ?_, fun _ => rfl⟩
        subst hstored
        by_cases hkk : key = k
        · subst hkk
          simp [Store.holds] at hkey
        · have hold : w.store.holds key := by
            simpa [Store.holds, AList.lookup_erase_ne hkk] using hkey
          have hpos := hi key hold
          simpa [World.tokens, List.count_erase_of_ne hkk] using hpos
      · cases he
    | advance secs =>
      obtain rfl := Option.some.inj he
      exact ⟨hi, fun _ => rfl⟩
    | mail m =>
      obtain rfl := Option.some.inj he
      exact ⟨hi, fun _ => rfl⟩
    | login user row account =>
      obtain rfl := Option.some.inj he
      exact ⟨hi, fun _ => rfl⟩
  cancel := fun t w hi _ => by
    refine ⟨fun key hkey => ?_, fun i hit => guards_drop hit w, guards_dropped w⟩
    change 0 < (drop t w).tokens key
    rw [tokens_drop]
    exact hi key hkey

/-- When no running call guards a key and no release of it is on its way, the key is free,
provided that no acquisition is cut off between its statement and its guard. -/
theorem locks_never_leak (hw : w.Quiescent) {es : List (Event Answer Env)} {q : Pool Op World}
    (hrun : (bridge cfg calls).run es (Pool.boot w) = some q)
    (hD : (bridge cfg calls).Admits wholeAcquisition.meets es (Pool.boot w)) (key : LockKey)
    (hcalls : ∀ t, (q.tasks t).isSome → (t, key) ∉ q.world.guards)
    (hreleases : key ∉ q.world.releases) : q.world.store.holds key = false := by
  have hinv : tokenContract.inv w := by
    intro k hk
    simp [Store.holds, hw.locks] at hk
  have hidle : ∀ t, tokenContract.idle t w := by
    intro t
    change w.hand t = []
    rw [World.hand, hw.guards]
    rfl
  have hpool : Upholds.PoolInv (bridge cfg calls) wholeAcquisition tokenContract q :=
    token_upholds.poolInv_of_run (Upholds.poolInv_boot hinv hidle) hrun hD
  by_contra hheld
  have hpos : 0 < q.world.tokens key := hpool.1 key (by simpa using hheld)
  have hguard : 0 < q.world.guards.countP fun g => g.2 = key := by
    rw [World.tokens, List.count_eq_zero_of_not_mem hreleases] at hpos
    omega
  obtain ⟨⟨t, k⟩, hmem, hk⟩ := List.countP_pos_iff.mp hguard
  obtain rfl : k = key := by simpa using hk
  cases ht : q.tasks t with
  | some p => exact hcalls t (by rw [ht]; rfl) hmem
  | none =>
    have hnone : q.world.hand t = [] := hpool.2.2 t ht
    rw [World.hand, List.filterMap_eq_nil_iff] at hnone
    simpa using hnone _ hmem

end

theorem locks_never_leak_race : ∃ q,
    (bridge {} raceCalls).run raceRun (Pool.boot raceWorld) = some q ∧
      q.world.store.holds (.thread "T") = false := by
  have hends : ((bridge {} raceCalls).run raceRun (Pool.boot raceWorld)).map (fun q =>
      (q.world.guards, q.world.releases)) = some ([], []) := by decide +kernel
  have hD : (bridge {} raceCalls).Admits wholeAcquisition.meets raceRun (Pool.boot raceWorld) := by
    decide +kernel
  obtain ⟨q, hq, hfree⟩ := Option.map_eq_some_iff.mp hends
  obtain ⟨hguards, hreleases⟩ := Prod.mk.inj hfree
  refine ⟨q, hq, locks_never_leak ⟨rfl, rfl, rfl, rfl⟩ hq hD _ (fun t _ => ?_) ?_⟩
  · rw [hguards]
    exact List.not_mem_nil
  · rw [hreleases]
    exact List.not_mem_nil

/-- The call is cancelled while it waits for the statement that takes the lock, and the
statement has taken effect. -/
def cutOffRun : List (Event Answer Env) :=
  [.start 0, .tau 0, .step 0 .done, .step 0 (.lost ""), .cancel 0]

/-- Nobody is at work and nothing is to be released, and the row stays. -/
theorem cut_off_lock_leaks :
    (bridge {} raceCalls).Admits cancellable.meets cutOffRun (Pool.boot raceWorld) ∧
      ((bridge {} raceCalls).run cutOffRun (Pool.boot raceWorld)).map (fun q =>
        ((q.tasks 0).isSome, q.world.guards, q.world.releases,
          q.world.store.holds (.thread "T"))) = some (false, [], [], true) := by
  constructor
  · decide +kernel
  · decide +kernel

end JmapBridge
