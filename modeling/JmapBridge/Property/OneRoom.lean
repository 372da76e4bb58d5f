import JmapBridge.Property.CreationSteps

/-! The double-checked creation of rooms and spaces, from the calls to whole runs:
at most one room for a thread and one space for a user, and every other call goes
on with the one that was recorded. -/

namespace JmapBridge

open Effect

section

variable {cfg : Config} {calls : Nat → Call} {t : Nat} {w w' : World} {key : LockKey}
  {α β : Type}

/-- What a look at the record of a key tells. -/
def Seen (key : LockKey) (w : World) : Option RoomId → Prop
  | some room => Recorded key room w
  | none => w.store.recorded key = none

theorem getThreadInfo_reads {k : ThreadId} {a : Answer} {b : Except Err (Option ThreadRow)}
    (ha : (Cmd.store (.getThreadInfo k)).reliable a)
    (h : exec t (.mk (.store (.getThreadInfo k))) a w = some (b, w')) :
    ∃ row, b = .ok row ∧ Seen (.thread k) w' (row.map (·.roomId)) := by
  obtain ⟨order, rfl, rfl⟩ := exec_reliable (c := .getThreadInfo k) ha h
  refine ⟨w.store.threadMapping.lookup k, rfl, ?_⟩
  cases hk : w.store.threadMapping.lookup k with
  | none => simp [Seen, Store.recorded, StoreCmd.run, hk]
  | some row => simp [Seen, Recorded, Store.recorded, StoreCmd.run, hk]

theorem getEmailSpaceRoom_reads {u : UserId} {a : Answer} {b : Except Err (Option RoomId)}
    (ha : (Cmd.store (.getJmapState u .emailSpaceRoom)).reliable a)
    (h : exec t (.mk (.store (.getJmapState u .emailSpaceRoom))) a w = some (b, w')) :
    ∃ space, b = .ok space ∧ Seen (.emailSpace u) w' space := by
  obtain ⟨order, rfl, rfl⟩ := exec_reliable (c := .getJmapState u .emailSpaceRoom) ha h
  refine ⟨w.store.jmapState.lookup (u, .emailSpaceRoom), rfl, ?_⟩
  cases hk : w.store.jmapState.lookup (u, .emailSpaceRoom) with
  | none => simp [Seen, Store.recorded, StoreCmd.run, hk]
  | some space => simp [Seen, Recorded, Store.recorded, StoreCmd.run, hk]

theorem fresh_of_held (h : Held calls t key w) (hn : w.store.recorded key = none) :
    Fresh calls t key w := ⟨h.1, hn, h.2 hn⟩

theorem held_of_fresh (h : Fresh calls t key w) : Held calls t key w := ⟨h.1, fun _ => h.2.2⟩

/-- The scope guard: whatever `body` recorded is still recorded once the key is free. -/
theorem guarded_triple {F P : World → Prop} (hF : Away calls t key F) {body : Bridge α}
    (room : α → Option RoomId)
    (hb : LockTriple cfg calls t P body
      (post (fun a w => (F w ∧ Held calls t key w) ∧ ∀ r ∈ room a, Recorded key r w)
        fun _ w => F w ∧ Held calls t key w)) :
    LockTriple cfg calls t P (guarded key body)
      (post (fun a w => (F w ∧ Free t key w) ∧ ∀ r ∈ room a, Recorded key r w)
        fun _ w => F w ∧ Free t key w) := by
  have hheld : Stable (lockContract calls) t fun w => F w ∧ Held calls t key w :=
    hF.stable.and About.held.stable
  have hfree : Stable (lockContract calls) t fun w => F w ∧ Free t key w :=
    hF.stable.and About.free.stable
  have hrec : ∀ o : Option RoomId,
      Stable (lockContract calls) t fun w => ∀ r ∈ o, Recorded key r w :=
    fun o w w' hw hr hi r hro => About.recorded.stable w w' (hw r hro) hr hi
  refine .bind hb fun r => ?_
  cases r with
  | ok a =>
    exact .bind (.call (hheld.and (hrec _)) (dropGuard_step hF (room a))
      fun _ => hfree.and (hrec _)) fun _ => .pure (hfree.and (hrec _)) fun _ _ h => h
  | error e =>
    refine .bind (.pre (.call (hheld.and (hrec none)) (dropGuard_step hF none)
      fun _ => hfree.and (hrec none)) fun w _ h => ⟨h, by rintro r ⟨⟩⟩) fun _ =>
        .pure (hfree.and (hrec none)) fun _ _ h => h.1

theorem quiet_act {x : Bridge α} {P E : World → Prop} (hP : Stable (lockContract calls) t P)
    (hx : Does (fun c => c.lockQuiet) x) (hE : ∀ w, P w → E w) :
    LockTriple cfg calls t P x (post (fun _ => P) fun _ => E) :=
  .post (quiet_triple hP hx) fun r w _ h => by
    cases r with
    | ok a => exact h
    | error e => exact hE w h

theorem stable_post {R : α → World → Prop} {E : Err → World → Prop}
    (hR : ∀ a, Stable (lockContract calls) t (R a)) (hE : ∀ e, Stable (lockContract calls) t (E e))
    (r : Except Err α) : Stable (lockContract calls) t (post R E r) := by
  cases r with
  | ok a => exact hR a
  | error e => exact hE e

theorem acquire_triple {F : World → Prop} (hF : Away calls t key F) :
    LockTriple cfg calls t (fun w => F w ∧ Free t key w)
      (onStore (.tryAcquireRoomCreationLock key))
      (post (fun b w => F w ∧ if b = true then Held calls t key w else Free t key w)
        fun _ w => F w ∧ Free t key w) := by
  have hfree : Stable (lockContract calls) t fun w => F w ∧ Free t key w :=
    hF.stable.and About.free.stable
  have hheld : Stable (lockContract calls) t fun w => F w ∧ Held calls t key w :=
    hF.stable.and About.held.stable
  refine .call hfree ((acquire_step hF).post ?_) (stable_post (fun b => ?_) fun _ => hfree)
  · rintro (e | b) w - h
    · exact h.elim
    · exact h
  · cases b <;> [exact hfree; exact hheld]

/-- What the holder of a key knows after looking at its record. -/
def Looked (calls : Nat → Call) (t : Nat) (key : LockKey) (F : World → Prop) :
    Option RoomId → World → Prop
  | some room => fun w => (F w ∧ Held calls t key w) ∧ Recorded key room w
  | none => fun w => F w ∧ Fresh calls t key w

theorem Looked.stable {F : World → Prop} (hF : Away calls t key F) (o : Option RoomId) :
    Stable (lockContract calls) t (Looked calls t key F o) := by
  cases o with
  | some room => exact (hF.stable.and About.held.stable).and About.recorded.stable
  | none => exact hF.stable.and About.fresh.stable

theorem Looked.of_seen {F : World → Prop} {o : Option RoomId}
    (h : (F w ∧ Held calls t key w) ∧ Seen key w o) : Looked calls t key F o w := by
  cases o with
  | some room => exact h
  | none => exact ⟨h.1.1, fresh_of_held h.1.2 h.2⟩

section Space

variable {F : World → Prop} {u : UserId} {E : Err → World → Prop}

theorem lookSpace_triple (hF : Away calls t (.emailSpace u) F) :
    LockTriple cfg calls t (fun w => F w ∧ Held calls t (.emailSpace u) w)
      (onStore (.getJmapState u .emailSpaceRoom))
      (post (Looked calls t (.emailSpace u) F)
        fun _ w => F w ∧ Held calls t (.emailSpace u) w) := by
  have hheld : Stable (lockContract calls) t fun w => F w ∧ Held calls t (.emailSpace u) w :=
    hF.stable.and About.held.stable
  refine .call hheld ((quiet_step rfl hheld fun w a b w' _ ha he =>
    getEmailSpaceRoom_reads ha he).post ?_) (stable_post (Looked.stable hF) fun _ => hheld)
  rintro b w - ⟨hw, space, rfl, hs⟩
  exact Looked.of_seen ⟨hw, hs⟩

theorem glanceSpace_triple (hF : Away calls t (.emailSpace u) F) :
    LockTriple cfg calls t (fun w => F w ∧ Free t (.emailSpace u) w)
      (onStore (.getJmapState u .emailSpaceRoom))
      (post (fun o w => (F w ∧ Free t (.emailSpace u) w) ∧
          ∀ space ∈ o, Recorded (.emailSpace u) space w)
        fun _ w => F w ∧ Free t (.emailSpace u) w) := by
  have hfree : Stable (lockContract calls) t fun w => F w ∧ Free t (.emailSpace u) w :=
    hF.stable.and About.free.stable
  refine .call hfree ((quiet_step rfl hfree fun w a b w' _ ha he =>
    getEmailSpaceRoom_reads ha he).post ?_) (stable_post (fun o => hfree.and ?_) fun _ => hfree)
  · rintro b w - ⟨hw, space, rfl, hs⟩
    refine ⟨hw, ?_⟩
    rintro r ⟨⟩
    exact hs
  · exact fun w w' hw hr hi r hro => About.recorded.stable w w' (hw r hro) hr hi

theorem createSpace_step (hF : Away calls t (.emailSpace u) F) (name topic : String) :
    LockStep cfg calls t (fun w => F w ∧ Fresh calls t (.emailSpace u) w)
      (.matrix (.createSpace name topic u))
      (post (fun space w => F w ∧ Made calls t (.emailSpace u) space w) E) := by
  refine lockStep_intro fun w a b w' hi hw ha he => ?_
  obtain ⟨space, issued, rfl, hv, rfl⟩ :=
    exec_answered (c := .createSpace name topic u) (by rintro _ _ _ _ ⟨⟩) ha he
  cases a <;> cases hv
  exact (Opened.of_record rfl rfl).step hF hi hw

theorem saveSpace_step (hF : Away calls t (.emailSpace u) F) (hu : (calls t).user = some u)
    (space : RoomId) :
    LockStep cfg calls t (fun w => F w ∧ Made calls t (.emailSpace u) space w)
      (.store (.saveJmapState u .emailSpaceRoom space))
      (post (fun _ w => F w ∧ Held calls t (.emailSpace u) w ∧ Recorded (.emailSpace u) space w)
        E) := by
  refine lockStep_intro fun w a b w' hi hw ha he => ?_
  obtain ⟨order, rfl, rfl⟩ := exec_reliable (c := .saveJmapState u .emailSpaceRoom space) ha he
  have hrun : StoreCmd.run w.now order (.saveJmapState u .emailSpaceRoom space) w.store =
      (.ok (), { w.store with
        jmapState := w.store.jmapState.insert (u, .emailSpaceRoom) space }) :=
    if_pos (hi.users t u hu)
  rw [hrun]
  refine Stored.step ⟨fun _ => rfl, rfl, rfl, created_store, used_store, fun _ h => h, ?_,
    ?_⟩ hF hi hw
  · exact AList.lookup_insert _
  · rintro (k | v) hk
    · rfl
    · exact AList.lookup_insert_ne (by simpa using hk)

theorem setSpaceAvatar_does (space : RoomId) :
    Does (fun c => c.lockQuiet) (setSpaceAvatar space) := by
  refine .letSome (.store rfl) fun state => ?_
  split
  · exact .bind (.matrix rfl) fun _ => .pure
  · exact .pure

theorem createEmailSpace_triple (hF : Away calls t (.emailSpace u) F) :
    LockTriple cfg calls t (fun w => F w ∧ Fresh calls t (.emailSpace u) w) (createEmailSpace u)
      (post (fun space w => F w ∧ Made calls t (.emailSpace u) space w)
        fun _ w => F w ∧ Held calls t (.emailSpace u) w) := by
  have hfresh : Stable (lockContract calls) t fun w => F w ∧ Fresh calls t (.emailSpace u) w :=
    hF.stable.and About.fresh.stable
  have hheld : Stable (lockContract calls) t fun w => F w ∧ Held calls t (.emailSpace u) w :=
    hF.stable.and About.held.stable
  have hmade : ∀ space,
      Stable (lockContract calls) t fun w => F w ∧ Made calls t (.emailSpace u) space w :=
    fun space => hF.stable.and About.made.stable
  refine .andThen (quiet_act hfresh (.store rfl) fun w h => ⟨h.1, held_of_fresh h.2⟩)
    (fun _ => hheld) fun label => ?_
  refine .andThen (.call hfresh (createSpace_step hF _ _) (stable_post hmade fun _ => hheld))
    (fun _ => hheld) fun space => ?_
  refine .andThen (.lift (quiet_triple (hmade space) (setSpaceAvatar_does space)) fun _ =>
    hmade space)
    (fun _ => hheld) fun _ => .ok (hmade space) fun _ _ h => h

/-- Under the lock: a space seen is the space, and one made is recorded before the lock is
let go. -/
theorem createEmailSpaceLocked_triple (hF : Away calls t (.emailSpace u) F)
    (hu : (calls t).user = some u) :
    LockTriple cfg calls t (fun w => F w ∧ Held calls t (.emailSpace u) w)
      (createEmailSpaceLocked u)
      (post (fun space w => (F w ∧ Free t (.emailSpace u) w) ∧
          ∀ r ∈ some space, Recorded (.emailSpace u) r w)
        fun _ w => F w ∧ Free t (.emailSpace u) w) := by
  have hheld : Stable (lockContract calls) t fun w => F w ∧ Held calls t (.emailSpace u) w :=
    hF.stable.and About.held.stable
  refine guarded_triple hF some ?_
  refine .andThen (lookSpace_triple hF) (fun _ => hheld) fun o => ?_
  cases o with
  | some space =>
    exact .ok (Looked.stable hF (some space)) fun w _ h => ⟨h.1, by rintro r ⟨⟩; exact h.2⟩
  | none =>
    refine .andThen (createEmailSpace_triple hF) (fun _ => hheld) fun space => ?_
    have hsaved : Stable (lockContract calls) t
        (fun w => F w ∧ Held calls t (.emailSpace u) w ∧ Recorded (.emailSpace u) space w) :=
      hF.stable.and (About.held.stable.and About.recorded.stable)
    refine .andThen (.call (hF.stable.and About.made.stable) (saveSpace_step hF hu space)
      (stable_post (fun _ => hsaved) fun _ => hheld)) (fun _ => hheld) fun _ => ?_
    exact .ok hsaved fun w _ h => ⟨⟨h.1, h.2.1⟩, by rintro r ⟨⟩; exact h.2.2⟩

theorem ensureEmailSpace_triple (hF : Away calls t (.emailSpace u) F)
    (hu : (calls t).user = some u) :
    LockTriple cfg calls t (fun w => F w ∧ Free t (.emailSpace u) w) (ensureEmailSpace u)
      (post (fun space w => (F w ∧ Free t (.emailSpace u) w) ∧ Recorded (.emailSpace u) space w)
        fun _ w => F w ∧ Free t (.emailSpace u) w) := by
  have hfree : Stable (lockContract calls) t fun w => F w ∧ Free t (.emailSpace u) w :=
    hF.stable.and About.free.stable
  have hrec : ∀ space, Stable (lockContract calls) t fun w =>
      (F w ∧ Free t (.emailSpace u) w) ∧ Recorded (.emailSpace u) space w :=
    fun space => hfree.and About.recorded.stable
  have hrecs : ∀ o : Option RoomId, Stable (lockContract calls) t fun w =>
      (F w ∧ Free t (.emailSpace u) w) ∧ ∀ r ∈ o, Recorded (.emailSpace u) r w :=
    fun o => hfree.and fun w w' hw hr hi r hro => About.recorded.stable w w' (hw r hro) hr hi
  refine .actLoop (J := fun _ w => F w ∧ Free t (.emailSpace u) w) (fun _ => hfree) hrec
    (fun _ => hfree) fun _ => ?_
  refine .andThen (glanceSpace_triple hF) (fun _ => hfree) fun o => ?_
  cases o with
  | some space => exact .ok (hrecs _) fun w _ h => ⟨h.1, h.2 space rfl⟩
  | none =>
    refine .pre ?_ fun w _ h => h.1
    refine .andThen (acquire_triple hF) (fun _ => hfree) fun b => ?_
    cases b with
    | true =>
      refine .andThen (createEmailSpaceLocked_triple hF hu) (fun _ => hfree) fun space => ?_
      exact .ok (hrecs (some space)) fun w _ h => ⟨h.1, h.2 space rfl⟩
    | false =>
      exact .andThen (.lift (quiet_triple hfree (.task rfl)) fun _ => hfree) (fun _ => hfree)
        fun _ => .ok hfree fun w _ h => h

end Space

theorem quiet_store {c : StoreCmd} (hc : (Cmd.store c).lockQuiet) {P : World → Prop}
    {E : Err → World → Prop} (hP : Stable (lockContract calls) t P)
    (hE : ∀ e, Stable (lockContract calls) t (E e))
    (hok : ∀ w, LockInv calls w → ∀ order, ∃ v, (c.run w.now order w.store).1 = .ok v) :
    LockTriple cfg calls t P (onStore c) (post (fun _ => P) E) := by
  refine .call hP ((quiet_step (V := fun b _ => ∃ v, b = .ok v) hc hP
    fun w a b w' hi ha he => ?_).post ?_) (stable_post (fun _ => hP) hE)
  · obtain ⟨order, rfl, -⟩ := exec_reliable ha he
    exact hok w hi order
  · rintro b w - ⟨hw, v, rfl⟩
    exact hw

theorem quiet_bestEffort {x : Bridge α} {P : World → Prop} {E : Err → World → Prop}
    (hP : Stable (lockContract calls) t P) (hx : Does (fun c => c.lockQuiet) x) :
    LockTriple cfg calls t P (bestEffort x) (post (fun _ => P) E) :=
  .bind (quiet_triple hP hx) fun _ => .pure hP fun _ _ h => h

/-- A quiet command, or a message into `room`. -/
def Cmd.Posts (room : RoomId) (c : Cmd) : Prop :=
  c.lockQuiet ∨ ∃ s x ts, c = .matrix (.sendAsGhost room s x ts)

theorem send_step {k : ThreadId} {room : RoomId} {P : World → Prop} {s : UserId} {x : Content}
    {ts : Option Nat} (hk : (calls t).thread = some k) (hP : Stable (lockContract calls) t P)
    (hPw : ∀ w, P w → InUse calls t (.thread k) room w) :
    LockStep cfg calls t P (.matrix (.sendAsGhost room s x ts)) fun _ => P :=
  use_step hP (fun a => by cases a <;> rfl) (fun a => by simp [usage, hk]) hPw

theorem posting_triple {k : ThreadId} {room : RoomId} {P : World → Prop} {p : Prog Op α}
    (hk : (calls t).thread = some k) (hP : Stable (lockContract calls) t P)
    (hPw : ∀ w, P w → InUse calls t (.thread k) room w) (hp : Does (Cmd.Posts room) p) :
    LockTriple cfg calls t P p fun _ => P := by
  refine .only hP (Prog.Only.mono (fun β o ho => ?_) hp)
  obtain ⟨c⟩ := o
  intro w a b w' hw hi ha he
  rcases ho with hq | ⟨s, x, ts, rfl⟩
  · obtain ⟨h₁, h₂, h₃⟩ := quiet_step (V := fun _ _ => True) hq hP
      (fun _ _ _ _ _ _ _ => trivial) w a b w' hi hw ha he
    exact ⟨h₁, h₂, h₃.1⟩
  · exact send_step hk hP hPw w a b w' hi hw ha he

theorem sendAsGhostJoining_triple {k : ThreadId} {room : RoomId} {P : World → Prop} {s : UserId}
    {x : Content} {ts : Option Nat} {E : Err → World → Prop} (hk : (calls t).thread = some k)
    (hP : Stable (lockContract calls) t P) (hE : ∀ e, Stable (lockContract calls) t (E e))
    (hPw : ∀ w, P w → InUse calls t (.thread k) room w) :
    LockTriple cfg calls t P (sendAsGhostJoining room s x ts) (post (fun _ => P) E) := by
  have hsend : LockTriple cfg calls t P (onMatrix (.sendAsGhost room s x ts))
      fun r w => P w ∧ ∃ event, r = .ok event := by
    refine .call hP (fun w a b w' hi hw ha he => ?_) fun _ => hP.and (Stable.const _)
    obtain ⟨h₁, h₂, h₃⟩ := send_step hk hP hPw w a b w' hi hw ha he
    obtain ⟨v, issued, hb, -⟩ :=
      exec_answered (c := .sendAsGhost room s x ts) (by rintro _ _ _ _ ⟨⟩) ha he
    exact ⟨h₁, h₂, h₃, v, hb⟩
  refine .andThen (.attempt hsend fun _ => hP.and (Stable.const _)) hE fun r => ?_
  split
  · exact .ok (hP.and (Stable.const _)) fun w _ h => h.1
  · exact fun w _ h => absurd h.2 (by simp)
  · exact fun w _ h => absurd h.2 (by simp)

theorem AttachmentCmd.posts {p : Poller} {room : RoomId} {c : Cmd} (h : AttachmentCmd p room c) :
    c.Posts room := by
  cases h with
  | send s x m n ts => exact .inr ⟨s, _, ts, rfl⟩
  | _ => exact .inl rfl

theorem handleAttachments_posts {p : Poller} {email : Email} {room : RoomId} {sender : UserId}
    {timestamp : Option Nat} :
    Does (Cmd.Posts room) (handleAttachments p email room sender timestamp) :=
  handleAttachments_does.mono fun _ => AttachmentCmd.posts

theorem processReply_posts {p : Poller} {email : Email} {ghost : GhostUser} {body : EmailBody}
    {room : RoomId} : Does (Cmd.Posts room) (processReply p email ghost body room) := by
  refine .andThen (sendAsGhostJoining_does (.inr ⟨_, _, _, rfl⟩) (.inl rfl) (.inl rfl))
    fun event => ?_
  split
  · exact .andThen (.store (.inl rfl)) fun _ => .andThen (.bestEffort (.store (.inl rfl))) fun _ =>
      handleAttachments_posts
  · exact .ok

section Thread

variable {k : ThreadId} {F : World → Prop} {E : Err → World → Prop}

theorem createRoom_step (hF : Away calls t (.thread k) F) (hk : (calls t).thread = some k)
    (name email : String) (user : UserId) :
    LockStep cfg calls t (fun w => F w ∧ Fresh calls t (.thread k) w)
      (.matrix (.createRoomForContact name email user))
      (post (fun room w => F w ∧ Made calls t (.thread k) room w) E) := by
  refine lockStep_intro fun w a b w' hi hw ha he => ?_
  obtain ⟨room, issued, rfl, hv, rfl⟩ :=
    exec_answered (c := .createRoomForContact name email user) (by rintro _ _ _ _ ⟨⟩) ha he
  cases a <;> cases hv
  exact (Opened.of_record (by simp [creation, hk]) rfl).step hF hi hw

theorem saveThread_step (hF : Away calls t (.thread k) F) (event : EventId) (room : RoomId)
    (subject : String) :
    LockStep cfg calls t (fun w => F w ∧ Made calls t (.thread k) room w)
      (.store (.saveThreadMappingAtomic k event room subject))
      (post (fun _ w => F w ∧ Held calls t (.thread k) w ∧ Recorded (.thread k) room w) E) := by
  refine lockStep_intro fun w a b w' hi hw ha he => ?_
  obtain ⟨order, rfl, rfl⟩ :=
    exec_reliable (c := .saveThreadMappingAtomic k event room subject) ha he
  refine Stored.step ⟨fun _ => rfl, rfl, rfl, created_store, used_store, fun _ h => h, ?_,
    ?_⟩ hF hi hw
  · simp [Store.recorded, StoreCmd.run]
  · rintro (k' | v) hk'
    · simp [Store.recorded, StoreCmd.run, AList.lookup_insert_ne (show k' ≠ k by simpa using hk')]
    · rfl

theorem lookThread_triple (hF : Away calls t (.thread k) F) :
    LockTriple cfg calls t (fun w => F w ∧ Held calls t (.thread k) w)
      (onStore (.getThreadInfo k))
      (post (fun row => Looked calls t (.thread k) F (row.map (·.roomId)))
        fun _ w => F w ∧ Held calls t (.thread k) w) := by
  have hheld : Stable (lockContract calls) t fun w => F w ∧ Held calls t (.thread k) w :=
    hF.stable.and About.held.stable
  refine .call hheld ((quiet_step rfl hheld fun w a b w' _ ha he =>
    getThreadInfo_reads ha he).post ?_) (stable_post (fun _ => Looked.stable hF _) fun _ => hheld)
  rintro b w - ⟨hw, row, rfl, hs⟩
  exact Looked.of_seen ⟨hw, hs⟩

theorem glanceThread_triple (hF : Away calls t (.thread k) F) :
    LockTriple cfg calls t (fun w => F w ∧ Free t (.thread k) w)
      (onStore (.getThreadInfo k))
      (post (fun row w => (F w ∧ Free t (.thread k) w) ∧
          ∀ room ∈ row.map (·.roomId), Recorded (.thread k) room w)
        fun _ w => F w ∧ Free t (.thread k) w) := by
  have hfree : Stable (lockContract calls) t fun w => F w ∧ Free t (.thread k) w :=
    hF.stable.and About.free.stable
  refine .call hfree ((quiet_step rfl hfree fun w a b w' _ ha he =>
    getThreadInfo_reads ha he).post ?_) (stable_post (fun o => hfree.and ?_) fun _ => hfree)
  · rintro b w - ⟨hw, row, rfl, hs⟩
    refine ⟨hw, fun room hroom => ?_⟩
    rw [hroom] at hs
    exact hs
  · exact fun w w' hw hr hi r hro => About.recorded.stable w w' (hw r hro) hr hi

theorem awaitThreadLock_triple (hF : Away calls t (.thread k) F) :
    LockTriple cfg calls t (fun w => F w ∧ Free t (.thread k) w) (awaitThreadLock k)
      (post (fun o w => match o with
          | some room => (F w ∧ Free t (.thread k) w) ∧ Recorded (.thread k) room w
          | none => F w ∧ Held calls t (.thread k) w)
        fun _ w => F w ∧ Free t (.thread k) w) := by
  have hfree : Stable (lockContract calls) t fun w => F w ∧ Free t (.thread k) w :=
    hF.stable.and About.free.stable
  have hheld : Stable (lockContract calls) t fun w => F w ∧ Held calls t (.thread k) w :=
    hF.stable.and About.held.stable
  have hrec : ∀ room, Stable (lockContract calls) t fun w =>
      (F w ∧ Free t (.thread k) w) ∧ Recorded (.thread k) room w :=
    fun room => hfree.and About.recorded.stable
  refine .actLoop (J := fun _ w => F w ∧ Free t (.thread k) w) (fun _ => hfree) ?_
    (fun _ => hfree) fun _ => ?_
  · rintro (_ | room)
    · exact hheld
    · exact hrec room
  refine .andThen (glanceThread_triple hF) (fun _ => hfree) fun row => ?_
  cases row with
  | some row =>
    exact .pre (.ok (hrec row.roomId) fun w _ h => h) fun w _ h => ⟨h.1, h.2 _ rfl⟩
  | none =>
    refine .pre ?_ fun w _ h => h.1
    refine .andThen (acquire_triple hF) (fun _ => hfree) fun b => ?_
    cases b with
    | true => exact .ok hheld fun w _ h => h
    | false =>
      exact .andThen (.lift (quiet_triple hfree (.task rfl)) fun _ => hfree) (fun _ => hfree)
        fun _ => .ok hfree fun w _ h => h

theorem registerGhost_does {email name : String} :
    Does (fun c => c.lockQuiet) (registerGhost cfg email name) := by
  refine .andThen (.matrix rfl) fun b => ?_
  split
  · exact .bestEffort (.matrix rfl)
  · exact .ok

theorem joinRealUser_does {user : UserId} {room : RoomId} :
    Does (fun c => c.lockQuiet) (joinRealUser user room) :=
  .letSome (.store rfl) fun _ => .bind (.matrix rfl) fun _ => .pure

theorem addRoomToSpace_triple {u : UserId} {space room : RoomId} {P : World → Prop}
    (hP : Stable (lockContract calls) t P) (hu : (calls t).user = some u)
    (hPw : ∀ w, P w → Recorded (.emailSpace u) space w) :
    LockTriple cfg calls t P (addRoomToSpace space room) fun _ => P := by
  refine .only hP (Prog.Only.mono (fun β o ho => ?_) (show Does
    (fun c => c.lockQuiet ∨ c = .matrix (.putState space "m.space.child" room)) _ from
      .andThen (.matrix (.inr rfl)) fun _ => .matrix (.inl rfl)))
  obtain ⟨c⟩ := o
  intro w a b w' hw hi ha he
  rcases ho with hq | rfl
  · obtain ⟨h₁, h₂, h₃⟩ := quiet_step (V := fun _ _ => True) hq hP
      (fun _ _ _ _ _ _ _ => trivial) w a b w' hi hw ha he
    exact ⟨h₁, h₂, h₃.1⟩
  · exact use_step hP (fun a => by cases a <;> rfl) (fun a => by simp [usage, hu])
      (fun w hw => .inl (hPw w hw)) w a b w' hi hw ha he

theorem ensureRoomInEmailSpace_triple {u : UserId} {room : RoomId}
    (hF : Away calls t (.emailSpace u) F) (hu : (calls t).user = some u) :
    LockTriple cfg calls t (fun w => F w ∧ Free t (.emailSpace u) w) (ensureRoomInEmailSpace u room)
      fun _ w => F w ∧ Free t (.emailSpace u) w := by
  have hfree : Stable (lockContract calls) t fun w => F w ∧ Free t (.emailSpace u) w :=
    hF.stable.and About.free.stable
  refine .post (Q := post (fun _ w => F w ∧ Free t (.emailSpace u) w)
    fun _ w => F w ∧ Free t (.emailSpace u) w) ?_ fun r w _ h => by cases r <;> exact h
  refine .andThen (ensureEmailSpace_triple hF hu) (fun _ => hfree) fun space => ?_
  exact .post (addRoomToSpace_triple (hfree.and About.recorded.stable) hu fun w h => h.2)
    fun r w _ h => by cases r <;> exact h.1

/-- The room is made under the lock and filed; only an error before it was made comes through. -/
theorem createContactRoom_triple {u : UserId} {email name : String}
    (hF : Away calls t (.thread k) fun w => F w ∧ Free t (.emailSpace u) w)
    (hF' : Away calls t (.emailSpace u) F) (hk : (calls t).thread = some k)
    (hu : (calls t).user = some u) :
    LockTriple cfg calls t
      (fun w => (F w ∧ Free t (.emailSpace u) w) ∧ Fresh calls t (.thread k) w)
      (createContactRoom cfg u email name)
      (post (fun room w => (F w ∧ Free t (.emailSpace u) w) ∧ Made calls t (.thread k) room w)
        fun _ w => (F w ∧ Free t (.emailSpace u) w) ∧ Held calls t (.thread k) w) := by
  have hfresh : Stable (lockContract calls) t fun w =>
      (F w ∧ Free t (.emailSpace u) w) ∧ Fresh calls t (.thread k) w :=
    hF.stable.and About.fresh.stable
  have hheld : Stable (lockContract calls) t fun w =>
      (F w ∧ Free t (.emailSpace u) w) ∧ Held calls t (.thread k) w :=
    hF.stable.and About.held.stable
  have hmade : ∀ room, Stable (lockContract calls) t fun w =>
      (F w ∧ Free t (.emailSpace u) w) ∧ Made calls t (.thread k) room w :=
    fun room => hF.stable.and About.made.stable
  refine .andThen (quiet_act hfresh registerGhost_does fun w h => ⟨h.1, held_of_fresh h.2⟩)
    (fun _ => hheld) fun _ => ?_
  refine .andThen (.call hfresh (createRoom_step hF hk _ _ _) (stable_post hmade fun _ => hheld))
    (fun _ => hheld) fun room => ?_
  refine .andThen (quiet_store rfl (hmade room) (fun _ => hheld) fun w hi order =>
    ⟨(), by simp [StoreCmd.run, Store.referring, hi.users t u hu]⟩) (fun _ => hheld) fun _ => ?_
  refine .andThen (quiet_bestEffort (hmade room) (.matrix rfl)) (fun _ => hheld) fun _ => ?_
  refine .andThen (.lift (quiet_triple (hmade room) joinRealUser_does) fun _ => hmade room)
    (fun _ => hheld) fun _ => ?_
  have hspace : Away calls t (.emailSpace u) fun w => F w ∧ Made calls t (.thread k) room w :=
    hF'.and (About.away (by simp) About.made)
  have hfiled : LockTriple cfg calls t
      (fun w => (F w ∧ Free t (.emailSpace u) w) ∧ Made calls t (.thread k) room w)
      (ensureRoomInEmailSpace u room)
      fun _ w => (F w ∧ Free t (.emailSpace u) w) ∧ Made calls t (.thread k) room w :=
    .post (.pre (ensureRoomInEmailSpace_triple hspace hu) fun w _ h => ⟨⟨h.1.1, h.2⟩, h.1.2⟩)
      fun _ w _ h => ⟨⟨h.1.1, h.2⟩, h.1.2⟩
  refine .andThen (R := fun _ w => (F w ∧ Free t (.emailSpace u) w) ∧
    Made calls t (.thread k) room w)
    (.bind hfiled fun _ => .pure (hmade room) fun _ _ h => h) (fun _ => hheld) fun _ => ?_
  exact .ok (hmade room) fun _ _ h => h

theorem getUserEmail_ok {u : UserId} {key' : StateKey} (w : World) (order : List Nat) :
    ∃ v, ((StoreCmd.getJmapState u key').run w.now order w.store).1 = .ok v := ⟨_, rfl⟩

theorem inUse_of_made {room : RoomId} (h : Made calls t key room w) : InUse calls t key room w :=
  .inr ⟨h.2.1, by simp [h.2.2]⟩

theorem createThreadRoom_triple {p : Poller} {email : Email} {ghost : GhostUser} {body : EmailBody}
    {emailId : EmailId}
    (hF : Away calls t (.thread k) fun w => F w ∧ Free t (.emailSpace p.user) w)
    (hF' : Away calls t (.emailSpace p.user) F) (hk : (calls t).thread = some k)
    (hu : (calls t).user = some p.user) :
    LockTriple cfg calls t
      (fun w => (F w ∧ Free t (.emailSpace p.user) w) ∧ Fresh calls t (.thread k) w)
      (createThreadRoom cfg p email ghost body k emailId)
      (post (fun _ w => (F w ∧ Free t (.emailSpace p.user) w) ∧ Held calls t (.thread k) w)
        fun _ w => (F w ∧ Free t (.emailSpace p.user) w) ∧ Held calls t (.thread k) w) := by
  have hheld : Stable (lockContract calls) t fun w =>
      (F w ∧ Free t (.emailSpace p.user) w) ∧ Held calls t (.thread k) w :=
    hF.stable.and About.held.stable
  refine .andThen (createContactRoom_triple hF hF' hk hu) (fun _ => hheld) fun room => ?_
  have hmade : Stable (lockContract calls) t fun w =>
      (F w ∧ Free t (.emailSpace p.user) w) ∧ Made calls t (.thread k) room w :=
    hF.stable.and About.made.stable
  have hsaved : Stable (lockContract calls) t fun w => (F w ∧ Free t (.emailSpace p.user) w) ∧
      Held calls t (.thread k) w ∧ Recorded (.thread k) room w :=
    hF.stable.and (About.held.stable.and About.recorded.stable)
  refine .andThen (quiet_bestEffort hmade (.matrix rfl)) (fun _ => hheld) fun _ => ?_
  refine .andThen (quiet_store rfl hmade (fun _ => hheld) fun w _ order => getUserEmail_ok w order)
    (fun _ => hheld) fun ownEmail => ?_
  refine .andThen (quiet_bestEffort hmade (.matrix rfl)) (fun _ => hheld) fun _ => ?_
  refine .andThen (sendAsGhostJoining_triple hk hmade (fun _ => hheld)
    fun w h => inUse_of_made h.2) (fun _ => hheld) fun event => ?_
  refine .andThen (.call hmade (saveThread_step hF event room _) (stable_post (fun _ => hsaved)
    fun _ => hheld)) (fun _ => hheld) fun _ => ?_
  refine .andThen (quiet_act hsaved (.store rfl) fun w h => ⟨h.1, h.2.1⟩) (fun _ => hheld)
    fun _ => ?_
  exact .post (posting_triple hk hsaved (fun w h => .inl h.2.2) handleAttachments_posts)
    fun r w _ h => by cases r <;> exact ⟨h.1, h.2.1⟩

/-- The task holds no key. -/
def Clear (t : Nat) (w : World) : Prop := ∀ key, (t, key) ∉ w.guards

/-- The task holds no key but perhaps these two. -/
def ClearBut (t : Nat) (key key' : LockKey) (w : World) : Prop :=
  ∀ k, k ≠ key → k ≠ key' → (t, k) ∉ w.guards

theorem Clear.stable : Stable (lockContract calls) t (Clear t) :=
  fun _ _ h hr _ key hk => h key ((hr key).own.mp hk)

theorem ClearBut.away {key' : LockKey} : Away calls t key (ClearBut t key key') :=
  fun _ _ hr h k hk hk' hg => h k hk hk' ((hr k hk).own.mp hg)

theorem ClearBut.away' {key' : LockKey} : Away calls t key' (ClearBut t key key') :=
  fun _ _ hr h k hk hk' hg => h k hk hk' ((hr k hk').own.mp hg)

theorem clear_iff {key' : LockKey} :
    Clear t w ↔ (ClearBut t key key' w ∧ Free t key' w) ∧ Free t key w := by
  refine ⟨fun h => ⟨⟨fun k _ _ => h k, h key'⟩, h key⟩, fun h k => ?_⟩
  by_cases hk : k = key
  · exact hk ▸ h.2
  · by_cases hk' : k = key'
    · exact hk' ▸ h.1.2
    · exact h.1.1 k hk hk'

theorem processNewThread_locked {p : Poller} {email : Email} {ghost : GhostUser} {body : EmailBody}
    {emailId : EmailId}
    (hF : Away calls t (.thread k) fun w => F w ∧ Free t (.emailSpace p.user) w)
    (hF' : Away calls t (.emailSpace p.user) F) (hk : (calls t).thread = some k)
    (hu : (calls t).user = some p.user) :
    LockTriple cfg calls t
      (fun w => (F w ∧ Free t (.emailSpace p.user) w) ∧ Held calls t (.thread k) w)
      (guarded (.thread k) (Act.andThen (onStore (.getThreadInfo k)) fun
        | some row => processReply p email ghost body row.roomId
        | none => createThreadRoom cfg p email ghost body k emailId))
      fun _ w => (F w ∧ Free t (.emailSpace p.user) w) ∧ Free t (.thread k) w := by
  have hheld : Stable (lockContract calls) t fun w =>
      (F w ∧ Free t (.emailSpace p.user) w) ∧ Held calls t (.thread k) w :=
    hF.stable.and About.held.stable
  refine .post (guarded_triple hF (fun _ => none) (.andThen (lookThread_triple hF)
    (fun _ => hheld) fun row => ?_)) fun r w _ h => ?_
  · cases row with
    | some row =>
      exact .post (posting_triple hk (Looked.stable hF (some row.roomId)) (fun w h => .inl h.2)
        processReply_posts) fun r w _ h => by
          cases r <;> first | exact h.1 | exact ⟨h.1, by rintro _ ⟨⟩⟩
    | none =>
      exact .post (createThreadRoom_triple hF hF' hk hu)
        fun r w _ h => by cases r <;> first | exact h | exact ⟨h, by rintro _ ⟨⟩⟩
  · cases r <;> first | exact h | exact h.1

theorem processNewThread_triple {p : Poller} {email : Email} {ghost : GhostUser} {body : EmailBody}
    (hc : calls t = .newThread p email ghost body) :
    LockTriple cfg calls t (Clear t) (processNewThread cfg p email ghost body)
      fun _ => Clear t := by
  have hu : (calls t).user = some p.user := by rw [hc]; rfl
  rw [processNewThread]
  split
  case h_2 => exact .pure Clear.stable fun _ _ h => h
  case h_1 k emailId hk hid =>
  have hthread : (calls t).thread = some k := by rw [hc]; exact hk
  have hF : Away calls t (.thread k) fun w =>
      ClearBut t (.thread k) (.emailSpace p.user) w ∧ Free t (.emailSpace p.user) w :=
    ClearBut.away.and (About.away (by simp) About.free)
  have hfree : Stable (lockContract calls) t fun w =>
      (ClearBut t (.thread k) (.emailSpace p.user) w ∧ Free t (.emailSpace p.user) w) ∧
        Free t (.thread k) w := hF.stable.and About.free.stable
  have hmain : LockTriple cfg calls t (fun w =>
      (ClearBut t (.thread k) (.emailSpace p.user) w ∧ Free t (.emailSpace p.user) w) ∧
        Free t (.thread k) w)
      (Act.andThen (awaitThreadLock k) fun
        | some room => processReply p email ghost body room
        | none => guarded (.thread k) (Act.andThen (onStore (.getThreadInfo k)) fun
          | some row => processReply p email ghost body row.roomId
          | none => createThreadRoom cfg p email ghost body k emailId))
      (post (fun _ w => (ClearBut t (.thread k) (.emailSpace p.user) w ∧
          Free t (.emailSpace p.user) w) ∧ Free t (.thread k) w)
        fun _ w => (ClearBut t (.thread k) (.emailSpace p.user) w ∧
          Free t (.emailSpace p.user) w) ∧ Free t (.thread k) w) := by
    refine .andThen (awaitThreadLock_triple hF) (fun _ => hfree) fun o => ?_
    cases o with
    | some room =>
      exact .post (posting_triple hthread (hfree.and About.recorded.stable) (fun w h => .inl h.2)
        processReply_posts) fun r w _ h => by cases r <;> exact h.1
    | none =>
      exact .post (processNewThread_locked hF ClearBut.away' hthread hu)
        fun r w _ h => by cases r <;> exact h
  exact (hmain.pre fun w _ h => clear_iff.mp h).post fun r w _ h =>
    clear_iff.mpr (by cases r <;> exact h)

end Thread

/-- The calls that provision rooms: `process_new_thread` and those that need the space. -/
def Call.Provisions : Call → Prop
  | newThread _ _ _ _ => True
  | fileRoom _ _ => True
  | repairSpace _ => True
  | _ => False

theorem clear_iff_space {u : UserId} :
    Clear t w ↔ ClearBut t (.emailSpace u) (.emailSpace u) w ∧ Free t (.emailSpace u) w := by
  refine ⟨fun h => ⟨fun k _ _ => h k, h _⟩, fun h k => ?_⟩
  by_cases hk : k = .emailSpace u
  · exact hk ▸ h.2
  · exact h.1 k hk hk

theorem fileRoom_triple {u : UserId} {room : RoomId} (hu : (calls t).user = some u) :
    LockTriple cfg calls t (Clear t) (ensureRoomInEmailSpace u room) fun _ => Clear t :=
  .post (.pre (ensureRoomInEmailSpace_triple ClearBut.away hu) fun _ _ h => clear_iff_space.mp h)
    fun _ _ _ h => clear_iff_space.mpr h

theorem repairEmailSpace_triple {u : UserId} (hu : (calls t).user = some u) :
    LockTriple cfg calls t (Clear t) (repairEmailSpace u) fun _ => Clear t := by
  have hclear : Stable (lockContract calls) t (Clear t) := Clear.stable
  have hspace : ∀ space, Stable (lockContract calls) t
      fun w => Clear t w ∧ Recorded (.emailSpace u) space w :=
    fun space => hclear.and About.recorded.stable
  have hensure : LockTriple cfg calls t (Clear t) (ensureEmailSpace u)
      (post (fun space w => Clear t w ∧ Recorded (.emailSpace u) space w) fun _ => Clear t) :=
    .post (.pre (ensureEmailSpace_triple ClearBut.away hu) fun _ _ h => clear_iff_space.mp h)
      fun r _ _ h => by
        cases r with
        | ok space => exact ⟨clear_iff_space.mpr h.1, h.2⟩
        | error e => exact clear_iff_space.mpr h
  refine .post (Q := post (fun _ => Clear t) fun _ => Clear t) ?_
    fun r w _ h => by cases r <;> exact h
  refine .andThen (quiet_act hclear (.store rfl) fun _ h => h) (fun _ => hclear) fun rooms => ?_
  split
  · exact .ok hclear fun _ _ h => h
  · refine .andThen hensure (fun _ => hclear) fun space => ?_
    refine .post (.actForEach (F := fun _ => Clear t) (hspace space) (fun _ => hclear) rooms
      fun room _ => .bind (addRoomToSpace_triple (hspace space) hu fun w h => h.2)
        fun r => .pure (hspace space) fun _ _ h => h) fun r w _ h => ?_
    cases r with
    | ok _ => exact h.1
    | error e => exact h

theorem release_upholds {stored : Bool} (hr : key ∈ w.releases)
    (h : (Env.release key stored).perform w = some w') (hi : LockInv calls w) :
    LockInv calls w' ∧ ∀ i k, KeyRely calls i w w' k := by
  simp only [Env.perform, hr, if_true, Option.some.injEq] at h
  subst h
  have hcount : w.releases.count key = (w.releases.erase key).count key + 1 := by
    have := List.count_pos_iff.mpr hr
    rw [List.count_erase_self]
    omega
  have hsingle := (hi.keys key).single
  rw [World.tokens, hcount] at hsingle
  refine ⟨⟨fun k => ?_, hi.users⟩, fun i k =>
    ⟨Iff.rfl, fun r hr => by cases k <;> exact hr, fun _ => ⟨by cases k <;> rfl, rfl⟩⟩⟩
  by_cases hkk : k = key
  · subst hkk
    have hk := hi.keys k
    refine ⟨?_, fun hp => ?_, hk.once, fun c hc => ?_, fun c hc => ?_⟩
    · simp only [World.tokens]
      omega
    · simp only [World.tokens] at hp
      omega
    · exact (hk.created c hc).imp (fun h => by cases k <;> exact h) fun h => by cases k <;> exact h
    · exact (hk.used c hc).imp (fun h => by cases k <;> exact h) fun h => by cases k <;> exact h
  · refine SameAt.inv (w := w) ⟨?_, by cases k <;> rfl, ?_, fun _ => Iff.rfl, rfl⟩ (hi.keys k)
      fun c hc => .inl hc
    · cases stored with
      | true => simp [Store.holds, AList.lookup_erase_ne hkk]
      | false => rfl
    · simp [World.tokens, List.count_erase_of_ne hkk]

theorem sameAt_upholds (h : ∀ k, SameAt calls w w' k) (hu : w'.trace = w.trace)
    (hs : ∀ u, w.store.hasUser u → w'.store.hasUser u) (hi : LockInv calls w) :
    LockInv calls w' ∧ ∀ i k, KeyRely calls i w w' k :=
  ⟨⟨fun k => (h k).inv (hi.keys k) fun c hc => .inl (by rwa [World.used, hu] at hc),
    fun t u htu => hs u (hi.users t u htu)⟩, fun i k => (h k).rely i⟩

theorem env_upholds {e : Env} (hi : LockInv calls w) (h : e.perform w = some w') :
    LockInv calls w' ∧ ∀ i k, KeyRely calls i w w' k := by
  cases e with
  | release key stored =>
    by_cases hr : key ∈ w.releases
    · exact release_upholds hr h hi
    · simp [Env.perform, hr] at h
  | advance secs =>
    obtain rfl := Option.some.inj h
    exact sameAt_upholds (fun k => ⟨rfl, rfl, rfl, fun _ => Iff.rfl, rfl⟩) rfl (fun _ h => h) hi
  | mail m =>
    obtain rfl := Option.some.inj h
    exact sameAt_upholds (fun k => ⟨rfl, rfl, rfl, fun _ => Iff.rfl, rfl⟩) rfl (fun _ h => h) hi
  | login user row account =>
    obtain rfl := Option.some.inj h
    refine sameAt_upholds (fun k => ⟨rfl, by cases k <;> rfl, rfl, fun _ => Iff.rfl, rfl⟩) rfl
      (fun u hu => ?_) hi
    by_cases huu : u = user
    · subst huu
      exact Option.isSome_iff_exists.mpr ⟨row, AList.lookup_insert _⟩
    · simpa [Store.hasUser, AList.lookup_insert_ne huu] using hu

theorem provisions_upholds (hcalls : ∀ t, (calls t).Provisions) :
    Upholds (bridge cfg calls) reliable (lockContract calls) where
  start := by
    intro t w hi hidle _
    have hdone :
        ∀ {α : Type} {x : Bridge α}, LockTriple cfg calls t (Clear t) x (fun _ => Clear t) →
        LockTriple cfg calls t (Clear t) (ignore x) fun _ => Clear t :=
      fun h => .bind h fun _ => .pure Clear.stable fun _ _ h => h
    have hprog : LockTriple cfg calls t (Clear t) ((calls t).program cfg) fun _ => Clear t := by
      have hp := hcalls t
      match hc : calls t with
      | .newThread p email ghost body => exact hdone (processNewThread_triple hc)
      | .fileRoom user room => exact hdone (fileRoom_triple (by rw [hc]; rfl))
      | .repairSpace user => exact hdone (repairEmailSpace_triple (by rw [hc]; rfl))
      | .poll _ | .backfill _ | .worker | .transaction _ _ | .detached _ | .prune | .logout _ =>
        rw [hc] at hp
        exact hp.elim
    exact hprog w hi hidle
  env := fun e w w' hi _ h => env_upholds hi h
  cancel := fun _ _ _ h => h.elim

/-- Nothing is locked, held or under way, as after `Store::init`. -/
structure World.Quiescent (w : World) : Prop where
  locks : w.store.roomCreationLocks = ∅
  guards : w.guards = []
  releases : w.releases = []
  trace : w.trace = []

theorem LockInv.of_quiescent (h : w.Quiescent)
    (hu : ∀ t u, (calls t).user = some u → w.store.hasUser u) : LockInv calls w := by
  have htokens : ∀ k, w.tokens k = 0 := fun k => by simp [World.tokens, h.guards, h.releases]
  have hcreated : ∀ k, w.created calls k = [] := fun k => by simp [World.created, h.trace, shown]
  have hused : ∀ k, w.used calls k = [] := fun k => by simp [World.used, h.trace, shown]
  refine ⟨fun k => ⟨by simp [htokens], by simp [htokens], by simp [hcreated], ?_, ?_⟩, hu⟩
  · simp [hcreated]
  · simp [hused]

/-- In every interleaving of calls that provision rooms, with a store and a homeserver
that do not fail and no call cancelled, a key gets at most one room or space, and a
call that did not create it uses exactly the one recorded. -/
theorem one_room_per_key (hcalls : ∀ t, (calls t).Provisions) (hw : w.Quiescent)
    (husers : ∀ t u, (calls t).user = some u → w.store.hasUser u)
    {es : List (Event Answer Env)} {q : Pool Op World}
    (hrun : (bridge cfg calls).run es (Pool.boot w) = some q)
    (hrel : (bridge cfg calls).Admits reliable.meets es (Pool.boot w)) (key : LockKey) :
    (q.world.created calls key).length ≤ 1 ∧
      (∀ c ∈ q.world.created calls key, ∀ room, q.world.store.recorded key = some room →
        c.2 = room) ∧
      ∀ c ∈ q.world.used calls key, q.world.store.recorded key = some c.2 ∨
        q.world.store.recorded key = none ∧ c ∈ q.world.created calls key := by
  have hinv : LockInv calls q.world := (provisions_upholds hcalls).inv_of_run
    (LockInv.of_quiescent hw husers) (fun t key => by simp [hw.guards]) hrun hrel
  have hk := hinv.keys key
  refine ⟨hk.once, fun c hc room hroom => ?_, hk.used⟩
  rcases hk.created c hc with h | ⟨h, -⟩
  · simpa [hroom] using h.symm
  · simp [hroom] at h

end

/-- Two emails of one new thread, each in a call of its own. -/
def raceCalls (t : Nat) : Call :=
  .newThread ⟨"@a:localhost", "a"⟩
    { id := some (bif t == 0 then "e0" else "e1"), threadId := some "T" }
    ⟨"bob@x", "@_jmap_bob=40x:localhost"⟩ ⟨"hi", none, .email (bif t == 0 then "e0" else "e1")⟩

def raceWorld : World where
  store :=
    { users := (∅ : Sql.Table _ _).insert "@a:localhost" ⟨"a", "token", "url"⟩
      jmapState := (∅ : Sql.Table _ _).insert ("@a:localhost", .emailSpaceRoom) "!s" }

/-- The second call loses the lock, sleeps until the first has recorded its room, and
replies there. -/
def raceRun : List (Event Answer Env) :=
  ([.start 0, .tau 0, .step 0 .done, .step 0 .done, .start 1, .tau 1, .step 1 .done,
      .step 1 .done] : List (Event Answer Env)) ++
    ([.step 0 .done, .step 0 (.flag false), .step 0 (.id "!r")] : List (Event Answer Env)) ++
    List.replicate 3 (.step 0 .done) ++
    (.tau 0 :: List.replicate 6 (.step 0 .done) : List (Event Answer Env)) ++
    ([.step 0 (.id "$m0"), .step 0 .done, .step 0 .done] : List (Event Answer Env)) ++
    ([.step 1 .done, .tau 1, .step 1 .done, .step 1 (.id "$m1"), .step 1 .done,
      .step 1 .done] : List (Event Answer Env)) ++
    ([.step 0 .done, .env (.release (.thread "T") true), .tau 0, .tau 1] : List (Event Answer Env))

theorem raceRun_ends : ((bridge {} raceCalls).run raceRun (Pool.boot raceWorld)).isSome := by
  decide +kernel

theorem raceRun_reliable :
    (bridge {} raceCalls).Admits reliable.meets raceRun (Pool.boot raceWorld) := by
  decide +kernel

theorem one_room_per_key_race : ∃ q,
    (bridge {} raceCalls).run raceRun (Pool.boot raceWorld) = some q ∧
      (q.world.created raceCalls (.thread "T")).length ≤ 1 ∧
      (∀ c ∈ q.world.created raceCalls (.thread "T"), ∀ room,
        q.world.store.recorded (.thread "T") = some room → c.2 = room) ∧
      ∀ c ∈ q.world.used raceCalls (.thread "T"),
        q.world.store.recorded (.thread "T") = some c.2 ∨
          q.world.store.recorded (.thread "T") = none ∧
            c ∈ q.world.created raceCalls (.thread "T") := by
  obtain ⟨q, hq⟩ := Option.isSome_iff_exists.mp raceRun_ends
  have hcalls : ∀ t, (raceCalls t).Provisions := fun _ => trivial
  refine ⟨q, hq, one_room_per_key hcalls ⟨rfl, rfl, rfl, rfl⟩ ?_ hq raceRun_reliable _⟩
  rintro t u ⟨⟩
  rfl

end JmapBridge
