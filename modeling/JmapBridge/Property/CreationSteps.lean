import JmapBridge.Property.CreationLock

/-! What the commands that take a lock, let it go, create a room, record it or use
it do to the token and the room of their key, while the other keys stay as they are. -/

namespace JmapBridge

open Effect

section

variable {cfg : Config} {calls : Nat → Call} {t : Nat} {w w' : World} {key : LockKey}
  {α β : Type}

/-- The task does not hold the key. -/
def Free (t : Nat) (key : LockKey) (w : World) : Prop := (t, key) ∉ w.guards

/-- The task holds the key and leaves no room unrecorded if it lets go now. -/
def Held (calls : Nat → Call) (t : Nat) (key : LockKey) (w : World) : Prop :=
  (t, key) ∈ w.guards ∧ (w.store.recorded key = none → w.created calls key = [])

/-- The task holds the key of a thread or user that has no room yet. -/
def Fresh (calls : Nat → Call) (t : Nat) (key : LockKey) (w : World) : Prop :=
  (t, key) ∈ w.guards ∧ w.store.recorded key = none ∧ w.created calls key = []

/-- The task holds the key and has made `room` for it, which is not recorded yet. -/
def Made (calls : Nat → Call) (t : Nat) (key : LockKey) (room : RoomId) (w : World) : Prop :=
  (t, key) ∈ w.guards ∧ w.store.recorded key = none ∧ w.created calls key = [(t, room)]

def Recorded (key : LockKey) (room : RoomId) (w : World) : Prop := w.store.recorded key = some room

/-- An assertion of task `t` about keys other than `key`. -/
def Away (calls : Nat → Call) (t : Nat) (key : LockKey) (P : World → Prop) : Prop :=
  ∀ w w', (∀ k, k ≠ key → KeyRely calls t w w' k) → P w → P w'

/-- An assertion of task `t` about `key` alone. -/
def About (calls : Nat → Call) (t : Nat) (key : LockKey) (P : World → Prop) : Prop :=
  ∀ w w', KeyRely calls t w w' key → P w → P w'

theorem About.free : About calls t key (Free t key) := fun _ _ h hw hk => hw (h.own.mp hk)

theorem About.recorded {room : RoomId} : About calls t key (Recorded key room) :=
  fun _ _ h hw => h.kept room hw

theorem About.held : About calls t key (Held calls t key) := by
  intro w w' h ⟨hg, hc⟩
  obtain ⟨hr, hcr⟩ := h.frozen hg
  exact ⟨h.own.mpr hg, by rwa [hr, hcr]⟩

theorem About.fresh : About calls t key (Fresh calls t key) := by
  intro w w' h ⟨hg, hn, hc⟩
  obtain ⟨hr, hcr⟩ := h.frozen hg
  exact ⟨h.own.mpr hg, hr.trans hn, hcr.trans hc⟩

theorem About.made {room : RoomId} : About calls t key (Made calls t key room) := by
  intro w w' h ⟨hg, hn, hc⟩
  obtain ⟨hr, hcr⟩ := h.frozen hg
  exact ⟨h.own.mpr hg, hr.trans hn, hcr.trans hc⟩

theorem About.and {P Q : World → Prop} (hP : About calls t key P) (hQ : About calls t key Q) :
    About calls t key fun w => P w ∧ Q w :=
  fun w w' h hw => ⟨hP w w' h hw.1, hQ w w' h hw.2⟩

theorem About.away {k : LockKey} (h : key ≠ k) {P : World → Prop} (hP : About calls t key P) :
    Away calls t k P :=
  fun w w' hr hw => hP w w' (hr key h) hw

theorem Away.and {P Q : World → Prop} (hP : Away calls t key P) (hQ : Away calls t key Q) :
    Away calls t key fun w => P w ∧ Q w :=
  fun w w' h hw => ⟨hP w w' h hw.1, hQ w w' h hw.2⟩

theorem Away.stable {P : World → Prop} (hP : Away calls t key P) :
    Stable (lockContract calls) t P :=
  fun w w' hw hr _ => hP w w' (fun k _ => hr k) hw

theorem About.stable {P : World → Prop} (hP : About calls t key P) :
    Stable (lockContract calls) t P :=
  fun w w' hw hr _ => hP w w' (hr key) hw

abbrev LockTriple (cfg : Config) (calls : Nat → Call) (t : Nat) (P : World → Prop) (p : Prog Op α)
    (Q : α → World → Prop) : Prop :=
  Triple (bridge cfg calls) reliable (lockContract calls) t P p Q

abbrev LockStep (cfg : Config) (calls : Nat → Call) (t : Nat) (P : World → Prop) (c : Cmd)
    (R : c.Ans → World → Prop) : Prop :=
  Step (bridge cfg calls) reliable (lockContract calls) t P (.mk c) R

theorem lockStep_intro {c : Cmd} {P : World → Prop} {R : c.Ans → World → Prop}
    (h : ∀ w a b w', LockInv calls w → P w → c.reliable a → exec t (.mk c) a w = some (b, w') →
      LockInv calls w' ∧ (∀ i, i ≠ t → ∀ k, KeyRely calls i w w' k) ∧ R b w') :
    LockStep cfg calls t P c R := h

theorem quiet_step {c : Cmd} (hc : c.lockQuiet) {P : World → Prop} {V : c.Ans → World → Prop}
    (hP : Stable (lockContract calls) t P)
    (hV : ∀ w a b w', LockInv calls w → c.reliable a → exec t (.mk c) a w = some (b, w') →
      V b w') :
    LockStep cfg calls t P c fun b w => P w ∧ V b w := by
  refine lockStep_intro fun w a b w' hi hw ha he => ?_
  obtain ⟨hs, hu⟩ := same_of_quiet hc he
  have hinv : LockInv calls w' := by
    refine ⟨fun key => (hs key).1.inv (hi.keys key) fun c h => .inl ?_,
      fun i u hiu => hu u (hi.users i u hiu)⟩
    rwa [(hs key).2] at h
  have hrely : ∀ i key, KeyRely calls i w w' key := fun i key => (hs key).1.rely i
  exact ⟨hinv, fun i _ => hrely i, hP w w' hw (hrely t) hinv, hV w a b w' hi ha he⟩

theorem quiet_triple {p : Prog Op α} {P : World → Prop} (hP : Stable (lockContract calls) t P)
    (hp : Does (fun c => c.lockQuiet) p) : LockTriple cfg calls t P p fun _ => P := by
  refine .only hP (Prog.Only.mono (fun β o ho => ?_) hp)
  obtain ⟨c⟩ := o
  intro w a b w' hw hi ha he
  obtain ⟨h₁, h₂, h₃⟩ := quiet_step (V := fun _ _ => True) ho hP (fun _ _ _ _ _ _ _ => trivial)
    w a b w' hi hw ha he
  exact ⟨h₁, h₂, h₃.1⟩

theorem key_step (hs : ∀ k, k ≠ key → SameAt calls w w' k ∧ w'.used calls k = w.used calls k)
    (hu : ∀ u, w.store.hasUser u → w'.store.hasUser u) (hi : LockInv calls w)
    (hk : KeyInv calls w' key) (hr : ∀ i, i ≠ t → KeyRely calls i w w' key) :
    LockInv calls w' ∧ (∀ i, i ≠ t → ∀ k, KeyRely calls i w w' k) ∧
      ∀ k, k ≠ key → KeyRely calls t w w' k := by
  refine ⟨⟨fun k => ?_, fun i u hiu => hu u (hi.users i u hiu)⟩, fun i hit k => ?_,
    fun k hkk => (hs k hkk).1.rely t⟩
  · by_cases hkk : k = key
    · exact hkk ▸ hk
    · obtain ⟨hsame, hused⟩ := hs k hkk
      exact hsame.inv (hi.keys k) fun c h => .inl (by rwa [hused] at h)
  · by_cases hkk : k = key
    · exact hkk ▸ hr i hit
    · exact (hs k hkk).1.rely i

theorem created_store {c : StoreCmd} {a : Answer} {trace : List Record} (k : LockKey) :
    shown (creation calls) (⟨t, .store c, a⟩ :: trace) k = shown (creation calls) trace k := by
  rw [shown_cons]
  rfl

theorem used_store {c : StoreCmd} {a : Answer} {trace : List Record} (k : LockKey) :
    shown (usage calls) (⟨t, .store c, a⟩ :: trace) k = shown (usage calls) trace k := by
  rw [shown_cons]
  rfl

theorem created_task {c : TaskCmd} {a : Answer} {trace : List Record} (k : LockKey) :
    shown (creation calls) (⟨t, .task c, a⟩ :: trace) k = shown (creation calls) trace k := by
  rw [shown_cons]
  rfl

theorem used_task {c : TaskCmd} {a : Answer} {trace : List Record} (k : LockKey) :
    shown (usage calls) (⟨t, .task c, a⟩ :: trace) k = shown (usage calls) trace k := by
  rw [shown_cons]
  rfl

theorem exec_reliable {c : StoreCmd} {a : Answer} {b : Except Err c.Ans}
    (ha : (Cmd.store c).reliable a) (h : exec t (.mk (.store c)) a w = some (b, w')) :
    ∃ order, b = (c.run w.now order w.store).1 ∧ w' = { w with
      store := (c.run w.now order w.store).2
      guards := c.guards t (c.run w.now order w.store).1 ++ w.guards
      snapshot := c.fetched t (c.run w.now order w.store).1 ++ w.snapshot
      deliveries := c.claimed t (c.run w.now order w.store).1 ++ c.unclaimed t w.deliveries
      skipped := c.skipped (c.run w.now order w.store).1 ++ w.skipped
      enqueued := c.inserted (c.run w.now order w.store).1 ++ w.enqueued
      trace := ⟨t, .store c, a⟩ :: w.trace } := by
  rcases exec_store h with ⟨order, -, hb, hw⟩ | ⟨rfl, -⟩ | ⟨⟨s, rfl⟩, -⟩
  · exact ⟨order, hb, hw⟩
  · cases ha
  · cases ha

/-- Rooms, spaces and users are as they were. -/
structure Untouched (calls : Nat → Call) (w w' : World) : Prop where
  recorded : ∀ k, w'.store.recorded k = w.store.recorded k
  created : ∀ k, w'.created calls k = w.created calls k
  used : ∀ k, w'.used calls k = w.used calls k
  users : ∀ u, w.store.hasUser u → w'.store.hasUser u

structure Acquired (calls : Nat → Call) (t : Nat) (key : LockKey) (w w' : World) : Prop where
  rest : Untouched calls w w'
  free : w.store.holds key = false
  held : w'.store.holds key = true
  others : ∀ k, k ≠ key → w'.store.holds k = w.store.holds k
  guards : w'.guards = (t, key) :: w.guards
  releases : w'.releases = w.releases

structure Dropped (calls : Nat → Call) (t : Nat) (key : LockKey) (w w' : World) : Prop where
  rest : Untouched calls w w'
  held : ∀ k, w'.store.holds k = w.store.holds k
  guards : w'.guards = w.guards.erase (t, key)
  releases : w'.releases = key :: w.releases

theorem exec_acquire {a : Answer} {b : Except Err Bool}
    (ha : (Cmd.store (.tryAcquireRoomCreationLock key)).reliable a)
    (h : exec t (.mk (.store (.tryAcquireRoomCreationLock key))) a w = some (b, w')) :
    (b = .ok false ∧ Untouched calls w w' ∧ ∀ k, SameAt calls w w' k) ∨
      (b = .ok true ∧ Acquired calls t key w w') := by
  obtain ⟨order, rfl, rfl⟩ := exec_reliable (c := .tryAcquireRoomCreationLock key) ha h
  cases hrow : w.store.holds key with
  | true =>
    have hrun : StoreCmd.run w.now order (.tryAcquireRoomCreationLock key) w.store =
        (.ok false, w.store) := by
      simp only [StoreCmd.run]
      exact if_pos hrow
    rw [hrun]
    exact .inl ⟨rfl, ⟨fun _ => rfl, created_store, used_store, fun _ h => h⟩,
      fun k => ⟨rfl, rfl, rfl, fun _ => Iff.rfl, created_store k⟩⟩
  | false =>
    have hrun : StoreCmd.run w.now order (.tryAcquireRoomCreationLock key) w.store =
        (.ok true, { w.store with
          roomCreationLocks := w.store.roomCreationLocks.insert key () }) := by
      simp only [StoreCmd.run]
      exact if_neg (by simpa [Store.holds] using hrow)
    rw [hrun]
    refine .inr ⟨rfl, ⟨fun k => by cases k <;> rfl, created_store, used_store, fun _ h => h⟩, hrow,
      ?_, fun k hk => ?_, rfl, rfl⟩
    · simp [Store.holds]
    · simp [Store.holds, AList.lookup_insert_ne hk]

theorem exec_dropGuard {a : Answer} {b : Unit}
    (h : exec t (.mk (.task (.dropGuard key))) a w = some (b, w')) :
    Dropped calls t key w w' := by
  obtain ⟨-, -, rfl⟩ := exec_task h
  exact ⟨⟨fun _ => rfl, created_task, used_task, fun _ h => h⟩, fun _ => rfl, rfl, rfl⟩

/-- Nobody holds a key without its row, so whoever inserts the row is the only holder,
and whatever was created before is recorded. -/
theorem Acquired.nobody (h : Acquired calls t key w w') (hi : KeyInv calls w key) :
    w.tokens key = 0 ∧ ∀ i, (i, key) ∉ w.guards := by
  have hnone : w.tokens key = 0 := by
    by_contra hne
    simpa [h.free] using hi.locked (Nat.pos_of_ne_zero hne)
  exact ⟨hnone, fun i hg => by simpa [hnone] using tokens_pos hg⟩

theorem Acquired.keyInv (h : Acquired calls t key w w') (hi : KeyInv calls w key) :
    KeyInv calls w' key := by
  obtain ⟨hnone, hnobody⟩ := h.nobody hi
  refine ⟨?_, fun _ => h.held,
    by rw [h.rest.created]; exact hi.once, fun c hc => ?_, fun c hc => ?_⟩
  · have hle : w.tokens key + 1 ≤ 1 := by omega
    simpa [World.tokens, h.guards, h.releases, List.countP_cons, Nat.add_right_comm] using hle
  · rw [h.rest.recorded]
    rw [h.rest.created] at hc
    exact .inl ((hi.created c hc).resolve_right fun hg => hnobody _ hg.2)
  · rw [h.rest.recorded, h.rest.created]
    rw [h.rest.used] at hc
    exact hi.used c hc

theorem Acquired.holds (h : Acquired calls t key w w') (hi : KeyInv calls w key) :
    Held calls t key w' := by
  refine ⟨by simp [h.guards], fun hn => ?_⟩
  rw [h.rest.recorded] at hn
  rw [h.rest.created]
  refine List.eq_nil_iff_forall_not_mem.mpr fun c hc => ?_
  rcases hi.created c hc with hr | ⟨-, hg⟩
  · simp [hn] at hr
  · exact (h.nobody hi).2 _ hg

theorem acquire_step {F : World → Prop} (hF : Away calls t key F) :
    LockStep cfg calls t (fun w => F w ∧ Free t key w)
      (.store (.tryAcquireRoomCreationLock key))
      (post (fun b w => F w ∧ if b = true then Held calls t key w else Free t key w)
        fun _ _ => False) := by
  refine lockStep_intro fun w a b w' hi ⟨hFw, hfree⟩ ha he => ?_
  rcases exec_acquire ha he with ⟨rfl, hrest, hsame⟩ | ⟨rfl, hacq⟩
  · refine ⟨⟨fun k => (hsame k).inv (hi.keys k) fun c hc => .inl ?_,
      fun i u hu => hrest.users u (hi.users i u hu)⟩, fun i _ k => (hsame k).rely i,
      hF w w' (fun k _ => (hsame k).rely t) hFw, ?_⟩
    · rwa [hrest.used] at hc
    · exact fun hg => hfree (((hsame key).guards t).mp hg)
  · obtain ⟨h₁, h₂, h₃⟩ := key_step (t := t) (fun k hk => by
        refine ⟨⟨hacq.others k hk, hacq.rest.recorded k, ?_, fun i => ?_, hacq.rest.created k⟩,
          hacq.rest.used k⟩
        · simp [World.tokens, hacq.guards, hacq.releases, Ne.symm hk]
        · simp [hacq.guards, hk]) hacq.rest.users hi (hacq.keyInv (hi.keys key)) fun i hit =>
      ⟨by simp [hacq.guards, hit], fun r hr => by rw [hacq.rest.recorded, hr],
        fun hg => absurd hg ((hacq.nobody (hi.keys key)).2 i)⟩
    exact ⟨h₁, h₂, hF w w' h₃ hFw, hacq.holds (hi.keys key)⟩

theorem Dropped.tokens (h : Dropped calls t key w w') (hg : (t, key) ∈ w.guards) (k : LockKey) :
    w'.tokens k = w.tokens k := by
  have hcount := (List.perm_cons_erase hg).countP_eq fun g => decide (g.2 = k)
  rw [List.countP_cons] at hcount
  simp only [World.tokens, h.guards, h.releases, hcount, List.count_cons]
  by_cases hk : key = k
  · simp [hk]
    omega
  · simp [hk]

theorem dropGuard_step {F : World → Prop} (hF : Away calls t key F) (room : Option RoomId) :
    LockStep cfg calls t (fun w => (F w ∧ Held calls t key w) ∧ ∀ r ∈ room, Recorded key r w)
      (.task (.dropGuard key))
      (fun _ w => (F w ∧ Free t key w) ∧ ∀ r ∈ room, Recorded key r w) := by
  refine lockStep_intro fun w a b w' hi ⟨⟨hFw, hheld⟩, hroom⟩ _ he => ?_
  have hdrop : Dropped calls t key w w' := exec_dropGuard he
  have hmem : ∀ i k, (i, k) ≠ (t, key) → ((i, k) ∈ w'.guards ↔ (i, k) ∈ w.guards) := by
    intro i k hne
    rw [hdrop.guards, List.mem_erase_of_ne hne]
  have hgone : (t, key) ∉ w'.guards := by
    intro hg
    have hcount : w'.guards.countP (fun g => decide (g.2 = key)) + 1 ≤ w'.tokens key := by
      simp [World.tokens, hdrop.releases]
    have hpos : 0 < w'.guards.countP fun g => decide (g.2 = key) :=
      List.countP_pos_iff.mpr ⟨_, hg, by simp⟩
    have hone := (hi.keys key).single
    rw [← hdrop.tokens hheld.1 key] at hone
    omega
  have hkey : KeyInv calls w' key := by
    have hk := hi.keys key
    refine ⟨hdrop.tokens hheld.1 key ▸ hk.single,
      fun hp => by rw [hdrop.held]; exact hk.locked (hdrop.tokens hheld.1 key ▸ hp),
      by rw [hdrop.rest.created]; exact hk.once, fun c hc => ?_, fun c hc => ?_⟩
    · rw [hdrop.rest.created] at hc
      rw [hdrop.rest.recorded]
      refine .inl ((hk.created c hc).resolve_right fun hn => ?_)
      simp [hheld.2 hn.1] at hc
    · rw [hdrop.rest.recorded, hdrop.rest.created]
      rw [hdrop.rest.used] at hc
      exact hk.used c hc
  obtain ⟨h₁, h₂, h₃⟩ := key_step (t := t) (fun k hk => by
      exact ⟨⟨hdrop.held k, hdrop.rest.recorded k, hdrop.tokens hheld.1 k,
        fun i => hmem i k (by simp [hk]), hdrop.rest.created k⟩, hdrop.rest.used k⟩)
    hdrop.rest.users hi hkey fun i hit =>
      ⟨hmem i key (by simp [hit]), fun r hr => by rw [hdrop.rest.recorded, hr],
        fun _ => ⟨hdrop.rest.recorded key, hdrop.rest.created key⟩⟩
  exact ⟨h₁, h₂, ⟨hF w w' h₃ hFw, hgone⟩, fun r hr => (hdrop.rest.recorded key).trans (hroom r hr)⟩

theorem exec_answered {c : MatrixCmd} {a : Answer} {b : Except Err c.Ans}
    (hc : ∀ x y z u, c ≠ .downloadBlob x y z u) (ha : (Cmd.matrix c).reliable a)
    (h : exec t (.mk (.matrix c)) a w = some (b, w')) :
    ∃ v issued, b = .ok v ∧ c.value a = some v ∧
      w' = { w with issued := issued, trace := ⟨t, .matrix c, a⟩ :: w.trace } := by
  have hne : a ≠ .failed ∧ a ≠ .notJoined ∧ ∀ s, a ≠ .lost s := by
    refine ⟨?_, ?_, fun s => ?_⟩
    all_goals
      rintro rfl
      cases c <;> first | exact absurd ha Bool.false_ne_true | exact (hc _ _ _ _ rfl).elim
  obtain ⟨⟨issued, rfl⟩, -⟩ := exec_matrix h
  rcases exec_matrix_cases h with ⟨v, hb, hv⟩ | ⟨ha, -⟩ | ⟨ha, -⟩ | ⟨s, ha, -⟩
  · exact ⟨v, issued, hb, hv, rfl⟩
  · exact absurd ha hne.1
  · exact absurd ha hne.2.1
  · exact absurd ha (hne.2.2 s)

/-- What creating a room or space does. -/
structure Opened (calls : Nat → Call) (t : Nat) (key : LockKey) (room : RoomId) (w w' : World) :
    Prop where
  store : w'.store = w.store
  guards : w'.guards = w.guards
  releases : w'.releases = w.releases
  here : w'.created calls key = (t, room) :: w.created calls key
  others : ∀ k, k ≠ key → w'.created calls k = w.created calls k
  used : ∀ k, w'.used calls k = w.used calls k

theorem Opened.of_record {c : Cmd} {a : Answer} {room : RoomId} {issued : List String}
    (hcr : creation calls ⟨t, c, a⟩ = some (key, t, room)) (hus : usage calls ⟨t, c, a⟩ = none) :
    Opened calls t key room w { w with issued := issued, trace := ⟨t, c, a⟩ :: w.trace } where
  store := rfl
  guards := rfl
  releases := rfl
  here := by simp [World.created, shown_cons, hcr]
  others := fun k hk => by simp [World.created, shown_cons, hcr, Ne.symm hk]
  used := fun k => by simp [World.used, shown_cons, hus]

theorem Opened.step {room : RoomId} {F : World → Prop} (h : Opened calls t key room w w')
    (hF : Away calls t key F) (hi : LockInv calls w) (hw : F w ∧ Fresh calls t key w) :
    LockInv calls w' ∧ (∀ i, i ≠ t → ∀ k, KeyRely calls i w w' k) ∧
      F w' ∧ Made calls t key room w' := by
  obtain ⟨hFw, hg, hn, hc⟩ := hw
  have htokens : ∀ k, w'.tokens k = w.tokens k := fun k => by
    rw [World.tokens, h.guards, h.releases, World.tokens]
  have hhere : w'.created calls key = [(t, room)] := by rw [h.here, hc]
  have hk := hi.keys key
  have hkey : KeyInv calls w' key := by
    refine ⟨htokens key ▸ hk.single, fun hp => by rw [h.store]; exact hk.locked (htokens key ▸ hp),
      by rw [hhere]; simp, fun c hc' => ?_, fun c hc' => ?_⟩
    · rw [hhere, List.mem_singleton] at hc'
      subst hc'
      exact .inr ⟨by rw [h.store, hn], by rwa [h.guards]⟩
    · rw [h.used] at hc'
      rcases hk.used c hc' with hr | ⟨-, hr⟩
      · exact .inl (by rw [h.store, hr])
      · simp [hc] at hr
  obtain ⟨h₁, h₂, h₃⟩ := key_step (t := t) (fun k hkk =>
      ⟨⟨by rw [h.store], by rw [h.store], htokens k, fun i => by rw [h.guards], h.others k hkk⟩,
        h.used k⟩) (fun u hu => by rwa [h.store]) hi hkey fun i hit =>
    ⟨by rw [h.guards], fun r hr => by rw [h.store, hr],
      fun hg' => absurd (holder_unique hk.single hg' hg) hit⟩
  exact ⟨h₁, h₂, hF w w' h₃ hFw, by rwa [h.guards], by rw [h.store, hn], hhere⟩

/-- What saving the room of a key does. -/
structure Stored (calls : Nat → Call) (key : LockKey) (room : RoomId) (w w' : World) : Prop where
  held : ∀ k, w'.store.holds k = w.store.holds k
  guards : w'.guards = w.guards
  releases : w'.releases = w.releases
  created : ∀ k, w'.created calls k = w.created calls k
  used : ∀ k, w'.used calls k = w.used calls k
  users : ∀ u, w.store.hasUser u → w'.store.hasUser u
  here : w'.store.recorded key = some room
  others : ∀ k, k ≠ key → w'.store.recorded k = w.store.recorded k

theorem Stored.step {room : RoomId} {F : World → Prop} (h : Stored calls key room w w')
    (hF : Away calls t key F) (hi : LockInv calls w) (hw : F w ∧ Made calls t key room w) :
    LockInv calls w' ∧ (∀ i, i ≠ t → ∀ k, KeyRely calls i w w' k) ∧
      F w' ∧ Held calls t key w' ∧ Recorded key room w' := by
  obtain ⟨hFw, hg, hn, hc⟩ := hw
  have htokens : ∀ k, w'.tokens k = w.tokens k := fun k => by
    rw [World.tokens, h.guards, h.releases, World.tokens]
  have hk := hi.keys key
  have hkey : KeyInv calls w' key := by
    refine ⟨htokens key ▸ hk.single, fun hp => by rw [h.held]; exact hk.locked (htokens key ▸ hp),
      by rw [h.created]; exact hk.once, fun c hc' => ?_, fun c hc' => ?_⟩
    · rw [h.created, hc, List.mem_singleton] at hc'
      subst hc'
      exact .inl h.here
    · rw [h.used] at hc'
      rcases hk.used c hc' with hr | ⟨-, hr⟩
      · simp [hn] at hr
      · rw [hc, List.mem_singleton] at hr
        subst hr
        exact .inl h.here
  obtain ⟨h₁, h₂, h₃⟩ := key_step (t := t) (fun k hkk =>
      ⟨⟨h.held k, h.others k hkk, htokens k, fun i => by rw [h.guards], h.created k⟩, h.used k⟩)
    h.users hi hkey fun i hit =>
      ⟨by rw [h.guards], fun r hr => by simp [hn] at hr,
        fun hg' => absurd (holder_unique hk.single hg' hg) hit⟩
  refine ⟨h₁, h₂, hF w w' h₃ hFw, ⟨by rw [h.guards]; exact hg, fun hnone => ?_⟩, h.here⟩
  simp [h.here] at hnone

/-- The room is the recorded one, or its creator is about to record it. -/
def InUse (calls : Nat → Call) (t : Nat) (key : LockKey) (room : RoomId) (w : World) : Prop :=
  w.store.recorded key = some room ∨ w.store.recorded key = none ∧ (t, room) ∈ w.created calls key

theorem use_step {c : MatrixCmd} {room : RoomId} {P : World → Prop}
    (hP : Stable (lockContract calls) t P) (hcr : ∀ a, creation calls ⟨t, .matrix c, a⟩ = none)
    (hus : ∀ a, usage calls ⟨t, .matrix c, a⟩ = some (key, t, room))
    (hPw : ∀ w, P w → InUse calls t key room w) :
    LockStep cfg calls t P (.matrix c) fun _ => P := by
  refine lockStep_intro fun w a b w' hi hw ha he => ?_
  obtain ⟨⟨issued, rfl⟩, -⟩ := exec_matrix he
  have hsame : ∀ k, SameAt calls w
      { w with issued := issued, trace := ⟨t, .matrix c, a⟩ :: w.trace } k := by
    refine fun k => ⟨rfl, rfl, rfl, fun _ => Iff.rfl, ?_⟩
    simp only [World.created, shown_cons, hcr]
  have hinv : LockInv calls
      { w with issued := issued, trace := ⟨t, .matrix c, a⟩ :: w.trace } := by
    refine ⟨fun k => (hsame k).inv (hi.keys k) fun x hx => ?_, hi.users⟩
    simp only [World.used, shown_cons, hus] at hx
    split at hx
    · rename_i hk
      rcases List.mem_cons.mp hx with rfl | hx
      · exact .inr (hk ▸ hPw w hw)
      · exact .inl hx
    · exact .inl hx
  exact ⟨hinv, fun i _ k => (hsame k).rely i, hP w _ hw (fun k => (hsame k).rely t) hinv⟩

end

end JmapBridge
