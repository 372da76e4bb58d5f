import JmapBridge.Property.Binding

/-! Every call keeps the laws of threads and rooms, in the orders of steps that leave room for
them. -/

namespace JmapBridge

open Effect Sql

section

variable {cfg : Config} {calls : Nat → Call} {law : Law} {t : Nat} {l : List LockKey}
  {f : Footing} {α : Type}

theorem standing {x : Bridge α} {P : World → Prop}
    (hx : BindTriple cfg calls law t P x (post (fun _ => Stands law t l f)
      fun _ => Stands law t l f)) : BindTriple cfg calls law t P x fun _ => Stands law t l f :=
  hx.post fun r _ _ hw => by
    cases r with
    | ok _ => exact hw
    | error _ => exact hw

theorem acquire_triple_binding {key : LockKey} (hf : f = .idle ∨ ∃ u, key = .emailSpace u) :
    BindTriple cfg calls law t (Stands law t l f) (onStore (.tryAcquireRoomCreationLock key))
      (post (fun b => if b = true then Stands law t (key :: l) f else Stands law t l f)
        fun _ => Stands law t l f) := by
  refine .call stands_stable (acquire_binding hf) fun r => ?_
  cases r with
  | ok b => cases b <;> exact stands_stable
  | error _ => exact stands_stable

theorem guarded_binding {key : LockKey} {body : Bridge α}
    (hf : f = .idle ∨ ∃ u, key = .emailSpace u)
    (hbody : BindTriple cfg calls law t (Stands law t (key :: l) f) body
      fun _ => Stands law t (key :: l) f) :
    BindTriple cfg calls law t (Stands law t (key :: l) f) (guarded key body)
      fun _ => Stands law t l f :=
  .bind hbody fun _ =>
    .bind (.call stands_stable (dropGuard_binding hf) fun _ => stands_stable) fun _ =>
      .pure stands_stable fun _ _ hw => hw

theorem createEmailSpaceLocked_binding (hone : OneWorker calls) {user : UserId} :
    BindTriple cfg calls law t (Stands law t (.emailSpace user :: l) f)
      (createEmailSpaceLocked user) fun _ => Stands law t l f := by
  refine guarded_binding (.inr ⟨user, rfl⟩) (Neutral.does hone ?_ _ f)
  refine Does.andThen (.store rfl) fun space => ?_
  split
  · exact .ok
  · exact .andThen createEmailSpace_bland fun _ => .andThen (.store rfl) fun _ => .ok

theorem ensureEmailSpace_neutral (hone : OneWorker calls) {user : UserId} :
    Neutral cfg calls law t _ (ensureEmailSpace user) := by
  refine .of_act fun l f => ?_
  have hstands : ∀ _ : Err, Stable (law.contract calls) t (Stands law t l f) :=
    fun _ => stands_stable
  refine .actLoop (J := fun _ => Stands law t l f) (R := fun _ => Stands law t l f)
    (fun _ => stands_stable) (fun _ => stands_stable) hstands fun _ => ?_
  refine .andThen (Neutral.does hone (Does.store rfl)).act hstands fun space => ?_
  split
  · exact .ok stands_stable fun _ _ hw => hw
  · refine .andThen (acquire_triple_binding (.inr ⟨user, rfl⟩)) hstands fun b => ?_
    cases b with
    | true =>
      refine .andThen (R := fun _ => Stands law t l f)
        (.post (createEmailSpaceLocked_binding hone) fun r _ _ hw => ?_) hstands fun space =>
          .ok stands_stable fun _ _ hw => hw
      cases r with
      | ok _ => exact hw
      | error _ => exact hw
    | false =>
      exact .andThen (Neutral.does hone (Does.lift (Does.task rfl))).act hstands fun _ =>
        .ok stands_stable fun _ _ hw => hw

/-! A new thread. -/

section

variable {p : Poller} {email : Email} {ghost : GhostUser} {body : EmailBody}
  {thread : ThreadId} {emailId : EmailId}

theorem Stands.rest {w : World} (h : Stands law t l f w) : Stands law t l .idle w :=
  ⟨h.hand, by rintro _ ⟨⟩, trivial⟩

theorem resting {x : Bridge α} {P : World → Prop} {R : α → World → Prop}
    (hx : BindTriple cfg calls law t P x (post R fun _ => Stands law t l f)) :
    BindTriple cfg calls law t P x (post R fun _ => Stands law t l .idle) :=
  hx.weaken (fun _ _ h => h) fun _ _ h => h.rest

theorem createContactRoom_binding (hone : OneWorker calls) {user : UserId} {address name : String} :
    BindTriple cfg calls law t (Stands law t l (.unbound thread))
      (createContactRoom cfg user address name)
      (post (fun room => Stands law t l (.grounded thread room))
        fun _ => Stands law t l .idle) := by
  have hrest : ∀ _ : Err, Stable (law.contract calls) t (Stands law t l .idle) :=
    fun _ => stands_stable
  have hspace : ∀ room, Neutral cfg calls law t _ (ensureRoomInEmailSpace user room) := fun _ =>
    ensureRoomInEmailSpace_closed (neutral_closed hone) (ensureEmailSpace_neutral hone)
  refine .andThen (resting (Neutral.does hone registerGhost_bland).act) hrest fun _ => ?_
  refine .andThen (resting (.call stands_stable create_binding fun r => ?_)) hrest fun room => ?_
  · cases r with
    | ok _ => exact stands_stable
    | error _ => exact stands_stable
  refine .andThen (resting (.call stands_stable saveGhost_binding fun r => ?_)) hrest fun _ => ?_
  · cases r with
    | ok _ => exact stands_stable
    | error _ => exact stands_stable
  refine .andThen (resting (Neutral.does hone (.bestEffort (.matrix rfl))).act) hrest fun _ => ?_
  refine .andThen (resting (Neutral.does hone (.lift joinRealUser_bland)).act) hrest fun _ => ?_
  refine .andThen (resting (bestEffort_closed (neutral_closed hone) (hspace room)).act) hrest
    fun _ => ?_
  exact .ok stands_stable fun _ _ hw => hw

theorem createThreadRoom_binding (hone : OneWorker calls) :
    BindTriple cfg calls law t (Stands law t l (.unbound thread))
      (createThreadRoom cfg p email ghost body thread emailId)
      fun _ => Stands law t l .idle := by
  have hrest : ∀ _ : Err, Stable (law.contract calls) t (Stands law t l .idle) :=
    fun _ => stands_stable
  refine standing (.andThen (createContactRoom_binding hone) hrest fun room => ?_)
  refine .andThen (resting (Neutral.does hone (.bestEffort (.matrix rfl))).act) hrest fun _ => ?_
  refine .andThen (resting (Neutral.does hone (.store rfl)).act) hrest fun _ => ?_
  refine .andThen (resting (Neutral.does hone (.bestEffort (.matrix rfl))).act) hrest fun _ => ?_
  refine .andThen (resting (Neutral.does hone sendMessageAs_bland).act) hrest fun event => ?_
  have hsave : BindTriple cfg calls law t (Stands law t l (.grounded thread room))
      (onStore (.saveThreadMappingAtomic thread event room (email.subject.getD noSubject)))
      (post (fun _ => Stands law t l .idle) fun _ => Stands law t l .idle) :=
    .post (.call stands_stable saveThread_binding fun _ => stands_stable) fun r _ _ hw => by
      cases r with
      | ok _ => exact hw
      | error _ => exact hw
  refine .andThen hsave hrest fun _ =>
    .andThen (Neutral.does hone (.store rfl)).act hrest fun _ => ?_
  exact (Neutral.does hone handleAttachments_bland).act

theorem awaitThreadLock_binding (hone : OneWorker calls) :
    BindTriple cfg calls law t (Stands law t l .idle) (awaitThreadLock thread)
      (post (fun room => match room with
        | some _ => Stands law t l .idle
        | none => Stands law t (.thread thread :: l) .idle) fun _ => Stands law t l .idle) := by
  have hrest : ∀ _ : Err, Stable (law.contract calls) t (Stands law t l .idle) :=
    fun _ => stands_stable
  refine .actLoop (J := fun _ => Stands law t l .idle) (fun _ => stands_stable) (fun room => ?_)
    hrest fun _ => ?_
  · cases room <;> exact stands_stable
  · refine .andThen (Neutral.does hone (.store rfl)).act hrest fun row => ?_
    split
    · exact .ok stands_stable fun _ _ hw => hw
    · refine .andThen (acquire_triple_binding (.inl rfl)) hrest fun b => ?_
      cases b with
      | true => exact .ok stands_stable fun _ _ hw => hw
      | false =>
        exact .andThen (Neutral.does hone (.lift (.task rfl))).act hrest fun _ =>
          .ok stands_stable fun _ _ hw => hw

/-- The second look, under the lock: what it finds stays true until the mapping is saved. -/
theorem recheck_binding (hone : OneWorker calls) :
    BindTriple cfg calls law t (Stands law t [.thread thread] .idle)
      (onStore (.getThreadInfo thread)) (post (fun row => match row with
        | some _ => Stands law t [.thread thread] .idle
        | none => Stands law t [.thread thread] (.unbound thread))
          fun _ => Stands law t [.thread thread] .idle) := by
  refine .call stands_stable (bindStep_intro fun w a b w' hi hw hd he => ?_) fun r => ?_
  · have hkeeps : Keeps (bridge cfg calls) (law.discipline cfg calls) (law.contract calls) t
        (Stands law t [.thread thread] .idle) _ (.mk (.store (.getThreadInfo thread))) :=
      plain_keeps hone (c := .store (.getThreadInfo thread)) rfl
    obtain ⟨hinv, hrely, hstands⟩ := hkeeps w a b w' hw hi hd he
    refine ⟨hinv, hrely, ?_⟩
    match b with
    | .error _ => exact hstands
    | .ok (some _) => exact hstands
    | .ok none =>
      refine ⟨hstands.hand, fun other h => ?_, fun _ => ⟨?_, fun other hother => ?_⟩⟩
      · obtain rfl := Option.some.inj h
        exact List.mem_cons_self
      · rcases exec_store he with ⟨order, -, hb, rfl⟩ | ⟨-, hb, -⟩ | ⟨-, hb, -⟩
        · have hnone : none = w.store.threadMapping.lookup thread := Except.ok.inj hb
          change (w.store.threadMapping.lookup thread).map (·.roomId) = none
          rw [← hnone]
          rfl
        · cases hb
        · cases hb
      · rw [hstands.hand, List.mem_singleton] at hother
        exact LockKey.thread.inj hother
  · match r with
    | .error _ => exact stands_stable
    | .ok (some _) => exact stands_stable
    | .ok none => exact stands_stable

/-- The programs that a task runs with no lock in hand. -/
def Rests (cfg : Config) (calls : Nat → Call) (law : Law) (t : Nat) (α : Type)
    (x : Prog Op α) : Prop :=
  BindTriple cfg calls law t (Stands law t [] .idle) x fun _ => Stands law t [] .idle

theorem processNewThread_rests (hone : OneWorker calls) :
    Rests cfg calls law t _ (processNewThread cfg p email ghost body) := by
  rw [processNewThread]
  split
  case h_2 => exact .pure stands_stable fun _ _ hw => hw
  case h_1 thread emailId _ _ =>
  have hrest : ∀ _ : Err, Stable (law.contract calls) t (Stands law t [] .idle) :=
    fun _ => stands_stable
  refine standing (.andThen (awaitThreadLock_binding hone) hrest fun room => ?_)
  cases room with
  | some room => exact (Neutral.does hone processReply_bland).act
  | none =>
    refine .post (guarded_binding (.inl rfl) (standing (.andThen
      (recheck_binding hone) (fun _ => stands_stable) fun row => ?_))) fun r _ _ hw => ?_
    · cases row with
      | some row => exact (Neutral.does hone processReply_bland).act
      | none =>
        refine (createThreadRoom_binding hone).post fun r _ _ hw => ?_
        cases r with
        | ok _ => exact hw
        | error _ => exact hw
    · cases r with
      | ok _ => exact hw
      | error _ => exact hw

end

/-! The worker. -/

/-- The commands that leave a worker at its message. -/
def Cmd.besides : Cmd → Bool
  | store (.getGhostEmailByRoom _) => false
  | jmap _ (.getEmailThread _) => false
  | task (.dropMessage _) => false
  | c => c.plain

theorem Cmd.besides.plain {c : Cmd} (h : c.besides) : c.plain := by
  unfold Cmd.besides at h
  split at h
  · cases h
  · cases h
  · cases h
  · exact h

theorem Record.advance_besides {r : Record} {o : Option Outgoing} (h : r.cmd.besides) :
    r.advance o = o := by
  unfold Record.advance
  split
  case h_1 heq =>
    rw [heq] at h
    cases h
  case h_2 heq =>
    rw [heq] at h
    cases h
  case h_3 heq =>
    rw [heq] at h
    cases h
  case h_4 heq =>
    rw [heq] at h
    cases h
  case h_5 => rfl

section

variable {o : Outgoing} {fresh : Prop} {room : RoomId} {account : Account} {address : String}
  {msg : OutboundMessage}

theorem Sends.rest {w : World} (h : Sends calls law t o fresh w) : Stands law t [] .idle w :=
  ⟨h.hand, by rintro _ ⟨⟩, trivial⟩

theorem besides_keeps (hone : OneWorker calls) {c : Cmd} (hc : c.besides) :
    Keeps (bridge cfg calls) (law.discipline cfg calls) (law.contract calls) t
      (Sends calls law t o fresh) c.Ans (.mk c) := by
  intro w a b w' hw hi hd he
  have he : exec t (.mk c) a w = some (b, w') := he
  have hplain := Cmd.besides.plain hc
  have hstill := plain_still hplain he
  obtain ⟨hinv, hrely⟩ := plain_exec hone hplain hi hd he
  refine ⟨hinv, hrely, ?_, ?_, fun hlaw => ?_, fun hlaw hfresh => ?_, fun hlaw thread hthread => ?_⟩
  · exact ((offLocks_exec (Cmd.plain.offLocks hplain) he).hand t).trans hw.hand
  · rw [sending_own he, Record.advance_besides hc]
    exact hw.sending
  · rw [hstill.rooms.ghosts]
    exact hw.ghost hlaw
  · exact hstill.unshared (hw.alone hlaw hfresh)
  · rw [home_quiet he]
    · exact hw.home hlaw thread hthread
    · intro _ htells
      obtain ⟨account, email, rfl⟩ := tells_reads htells
      cases hc
    · rintro r rfl
      cases hc

theorem ghostEmail_binding (hone : OneWorker calls) :
    BindStep cfg calls law t (Stands law t [] .idle) (.store (.getGhostEmailByRoom room))
      (post (fun address => match address with
        | some _ => Sends calls law t { room := room } False
        | none => Stands law t [] .idle) fun _ => Stands law t [] .idle) := by
  refine bindStep_intro fun w a b w' hi hw hd he => ?_
  have hkeeps : Keeps (bridge cfg calls) (law.discipline cfg calls) (law.contract calls) t
      (Stands law t [] .idle) _ (.mk (.store (.getGhostEmailByRoom room))) :=
    plain_keeps hone (c := .store (.getGhostEmailByRoom room)) rfl
  obtain ⟨hinv, hrely, hstands⟩ := hkeeps w a b w' hw hi hd he
  refine ⟨hinv, hrely, ?_⟩
  match b with
  | .error _ => exact hstands
  | .ok none => exact hstands
  | .ok (some address) =>
    refine ⟨hstands.hand, sending_own he, fun _ => ?_, fun _ h => h.elim, fun _ _ h => by cases h⟩
    rcases exec_store he with ⟨order, -, hb, rfl⟩ | ⟨-, hb, -⟩ | ⟨-, hb, -⟩
    · have hrow : some address = (w.store.roomGhostMapping.lookup room).map (·.ghostEmail) :=
        Except.ok.inj hb
      obtain ⟨row, hrow, -⟩ := Option.map_eq_some_iff.mp hrow.symm
      change (w.store.roomGhostMapping.lookup room).isSome
      rw [hrow]
      rfl
    · cases hb
    · cases hb

theorem taken_binding (hone : OneWorker calls) (hfresh : parseThreadRoot msg.threadRootId = none) :
    BindStep cfg calls law t (Sends calls law t { room := msg.roomId } False)
      (.task (.log (.sending msg))) fun _ => Sends calls law t { room := msg.roomId } True := by
  refine bindStep_intro fun w a b w' hi hw hd he => ?_
  have hkeeps : Keeps (bridge cfg calls) (law.discipline cfg calls) (law.contract calls) t
      (Sends calls law t { room := msg.roomId } False) _ (.mk (.task (.log (.sending msg)))) :=
    besides_keeps hone (c := .task (.log (.sending msg))) rfl
  obtain ⟨hinv, hrely, hsends⟩ := hkeeps w a b w' hw hi hd he
  refine ⟨hinv, hrely, hsends.hand, hsends.sending, hsends.ghost, fun hlaw _ => ?_, hsends.home⟩
  subst hlaw
  refine (plain_still (c := .task (.log (.sending msg))) rfl he).unshared ?_
  simpa [Law.step, hfresh] using hd

theorem emailThread_told {email : EmailId} {thread : ThreadId} {a : Answer} {w w' : World}
    (he : exec t (.mk (.jmap account (.getEmailThread email))) a w = some (.ok (some thread), w')) :
    (⟨t, .jmap account (.getEmailThread email), a⟩ : Record).tells = some thread := by
  rcases exec_reply he with ⟨reply, v, rfl, hb, hv⟩ | ⟨-, err, hb⟩
  · obtain rfl := Except.ok.inj hb
    cases reply with
    | emailThread found => exact Option.some.inj hv
    | _ => cases hv
  · cases hb

/-- Where the worker is once it has asked for the thread of its message. -/
def Law.Told (law : Law) (calls : Nat → Call) (t : Nat) (room : RoomId) :
    Except Err (Option ThreadId) → World → Prop
  | .ok (some thread), w => Sends calls law t { room := room, thread := some thread } True w
  | .ok none, w => Stands law t [] .idle w
  | .error _, w => Stands law t [] .idle w

theorem Law.told_stable (ht : calls t = .worker) (r : Except Err (Option ThreadId)) :
    Stable (law.contract calls) t (law.Told calls t room r) := by
  match r with
  | .ok (some _) => exact sends_stable ht
  | .ok none => exact stands_stable
  | .error _ => exact stands_stable

theorem told_binding (hone : OneWorker calls) (ht : calls t = .worker) {email : EmailId} :
    BindStep cfg calls law t (Sends calls law t { room := room } True)
      (.jmap account (.getEmailThread email)) (law.Told calls t room) := by
  refine bindStep_intro fun w a b w' hi hw hd he => ?_
  have hplain : (Cmd.jmap account (.getEmailThread email)).plain := rfl
  have hstill := plain_still hplain he
  have hhand := ((offLocks_exec (Cmd.plain.offLocks hplain) he).hand t).trans hw.hand
  obtain ⟨hinv, hrely⟩ := plain_exec hone hplain hi hd he
  refine ⟨hinv, hrely, ?_⟩
  match b with
  | .error _ => exact ⟨hhand, by rintro _ ⟨⟩, trivial⟩
  | .ok none => exact ⟨hhand, by rintro _ ⟨⟩, trivial⟩
  | .ok (some thread) =>
    have htells : (⟨t, .jmap account (.getEmailThread email), a⟩ : Record).tells = some thread :=
      emailThread_told he
    refine ⟨hhand, ?_, fun hlaw => ?_, fun hlaw h => ?_, fun _ other hother => ?_⟩
    · rw [sending_own he, hw.sending]
      simp only [Record.advance, htells, Option.map_some]
    · rw [hstill.rooms.ghosts]
      exact hw.ghost hlaw
    · exact hstill.unshared (hw.alone hlaw h)
    · obtain rfl : thread = other := Option.some.inj hother
      rw [home_told he ht htells, hw.sending]
      rfl

theorem mapComposedThread_binding (hone : OneWorker calls) (ht : calls t = .worker)
    {subject : String} {emailId : EmailId} :
    BindTriple cfg calls law t (Sends calls law t { room := msg.roomId } True)
      (mapComposedThread account msg subject emailId) fun _ => Stands law t [] .idle := by
  refine standing (.andThen (.attempt (.call (sends_stable ht) (told_binding hone ht)
    (Law.told_stable ht)) (Law.told_stable ht)) (fun _ => stands_stable) fun r => ?_)
  match r with
  | .ok (some thread) =>
    refine .bind (R := fun _ => Stands law t [] .idle) ?_ fun _ => .ok stands_stable fun _ _ h => h
    exact .call (sends_stable ht) (saveComposed_binding hone ht) fun _ => stands_stable
  | .ok none => exact .ok stands_stable fun _ _ h => h
  | .error _ => exact .ok stands_stable fun _ _ h => h

theorem submit_besides {b : EmailBuilder} : Does (fun c => c.besides) (submit account b) := by
  have hrole : ∀ role, Does (fun c => c.besides) (mailboxIdForRole account role) :=
    fun _ => .andThen (.jmap rfl) fun _ => .ok
  have hmailbox : Does (fun c => c.besides) (outgoingMailbox account) := by
    refine .andThen (hrole _) fun sent => ?_
    split
    · exact .ok
    · exact .andThen (hrole _) fun _ => .ofOption
  have hidentity : Does (fun c => c.besides) (primaryIdentity account) := by
    refine .bind (.result (.jmap rfl)) fun r => ?_
    split
    · exact .pure
    · exact .pure
  refine .andThen hmailbox fun mailbox => .andThen (.lift hidentity) fun identity => ?_
  refine .andThen (.jmap rfl) fun reply => .andThen .ofOption fun created => ?_
  split
  · exact .ok
  · exact .fail

theorem besides_act (hone : OneWorker calls) (ht : calls t = .worker) {x : Bridge α}
    (hx : Does (fun c => c.besides) x) :
    BindTriple cfg calls law t (Sends calls law t o fresh) x
      (post (fun _ => Sends calls law t o fresh) fun _ => Stands law t [] .idle) := by
  have hkeeps : ∀ (β : Type) (o' : Op β), o'.cmd.besides → Keeps (bridge cfg calls)
      (law.discipline cfg calls) (law.contract calls) t (Sends calls law t o fresh) β o' := by
    intro β o' hc
    obtain ⟨c⟩ := o'
    exact besides_keeps hone hc
  refine (Triple.only (sends_stable ht) (Prog.Only.mono hkeeps hx)).post fun r _ _ h => ?_
  cases r with
  | ok _ => exact h
  | error _ => exact h.rest

theorem submitFresh_binding (hone : OneWorker calls) (ht : calls t = .worker)
    (hfresh : parseThreadRoot msg.threadRootId = none) :
    BindTriple cfg calls law t (Sends calls law t { room := msg.roomId } False)
      (submitFresh account address msg) fun _ => Stands law t [] .idle := by
  have hrest : ∀ _ : Err, Stable (law.contract calls) t (Stands law t [] .idle) :=
    fun _ => stands_stable
  have hname :
      Does (fun c => c.besides) (Act.attempt (onMatrix (.roomName msg.roomId)) : Bridge _) :=
    .attempt (.matrix rfl)
  refine standing (.andThen (besides_act hone ht hname) hrest fun roomName => ?_)
  refine .andThen (R := fun _ => Sends calls law t { room := msg.roomId } True)
    (.lift (.call (sends_stable ht) (taken_binding hone hfresh) fun _ => sends_stable ht)
      fun _ => sends_stable ht) hrest fun _ => ?_
  refine .andThen (besides_act hone ht submit_besides) hrest fun emailId => ?_
  refine (mapComposedThread_binding hone ht).post fun r _ _ h => ?_
  cases r with
  | ok _ => exact h
  | error _ => exact h

end

/-! The calls. -/

theorem Cmd.service.plain {c : Cmd} (h : c.service) (hb : c.offBindings) : c.plain := by
  unfold Cmd.plain
  split
  · cases h
  · exact Bool.and_eq_true_iff.mpr ⟨Cmd.service.offLocks h, hb⟩

theorem Cmd.talk.plain {c : Cmd} (h : c.talk) : c.plain :=
  Cmd.service.plain (Cmd.aside.service (Cmd.talk.aside h)) (Cmd.talk.offBindings h)

theorem Cmd.upkeep.plain {c : Cmd} (h : c.upkeep) : c.plain :=
  Cmd.service.plain (Cmd.errand.service (Cmd.chore.errand (Cmd.upkeep.chore h)))
    (Cmd.upkeep.offBindings h)

theorem rests_closed (hone : OneWorker calls) :
    Prog.Closed (fun _ o => o.cmd.plain) (Rests cfg calls law t) := by
  refine (Triple.closed stands_stable).mono fun β o hc => ?_
  obtain ⟨c⟩ := o
  exact plain_keeps hone hc

theorem upkeep_rests (hone : OneWorker calls) :
    Prog.Closed (fun _ o => o.cmd.upkeep) (Rests cfg calls law t) :=
  (rests_closed hone).mono fun _ _ => Cmd.upkeep.plain

theorem sendQueued_binding (hone : OneWorker calls) (ht : calls t = .worker) {account : Account}
    {address : String} {msg : OutboundMessage} :
    BindTriple cfg calls law t (Sends calls law t { room := msg.roomId } False)
      (sendQueued cfg account address msg) fun _ => Stands law t [] .idle := by
  rw [sendQueued]
  split
  · have hsubmit : ∀ b, Rests cfg calls law t _ (submit account b) := fun _ =>
      (rests_closed hone).of_only (submit_besides.mono fun _ => Cmd.besides.plain)
    exact Triple.pre (submitReply_closed (upkeep_rests hone) hsubmit) fun _ _ h => h.rest
  · exact submitFresh_binding hone ht ‹_›

theorem deliver_binding (hone : OneWorker calls) (ht : calls t = .worker) {account : Account}
    {address : String} {msg : OutboundMessage} :
    BindTriple cfg calls law t (Sends calls law t { room := msg.roomId } False)
      (deliver cfg account address msg) fun _ => Stands law t [] .idle := by
  have hC : Prog.Closed (fun _ o => o.cmd.plain) (Rests cfg calls law t) := rests_closed hone
  refine .bind (sendQueued_binding hone ht) fun sent => ?_
  split
  · exact hC.bind (hC.call rfl) fun _ =>
      hC.bind (hC.of_only (markSubmitted_talk.mono fun _ => Cmd.talk.plain)) fun _ => hC.pure _
  · exact hC.pure _

theorem submitOne_rests (hone : OneWorker calls) (ht : calls t = .worker)
    {msg : OutboundMessage} : Rests cfg calls law t _ (submitOne cfg msg) := by
  have hC : Prog.Closed (fun _ o => o.cmd.plain) (Rests cfg calls law t) := rests_closed hone
  refine hC.bind (hC.call rfl) fun client => ?_
  split
  · exact hC.pure _
  · refine .bind (.call stands_stable (ghostEmail_binding hone) fun r => ?_) fun r => ?_
    · match r with
      | .ok (some _) => exact sends_stable ht
      | .ok none => exact stands_stable
      | .error _ => exact stands_stable
    · match r with
      | .ok (some _) => exact deliver_binding hone ht
      | .ok none => exact hC.bind (hC.call rfl) fun _ => hC.pure _
      | .error _ => exact hC.pure _

theorem handleUnresolved_rests (hone : OneWorker calls) {msg : OutboundMessage} :
    Rests cfg calls law t _ (handleUnresolved cfg msg) := by
  have hC : Prog.Closed (fun _ o => o.cmd.plain) (Rests cfg calls law t) := rests_closed hone
  rw [handleUnresolved]
  split
  · have hnotice : Does (fun c => c.plain)
        (sendMessage cfg msg.roomId deliveryFailure (.queued msg.id)) :=
      sendAsGhostJoining_does rfl rfl rfl
    refine hC.bind (hC.of_only hnotice) fun _ => hC.bind (hC.call rfl) fun _ => ?_
    exact hC.of_only (markFailed_talk.mono fun _ => Cmd.talk.plain)
  · exact hC.bind (hC.call rfl) fun _ => hC.pure _

theorem runRetryLoop_rests (hone : OneWorker calls) (ht : calls t = .worker) :
    Rests cfg calls law t _ (runRetryLoop cfg) := by
  have hC : Prog.Closed (fun _ o => o.cmd.plain) (Rests cfg calls law t) := rests_closed hone
  refine hC.loop fun _ => hC.bind (hC.bind (hC.call rfl) fun _ => ?_) fun _ => hC.pure _
  refine hC.bind (hC.call rfl) fun fetched => ?_
  split
  · refine hC.forEach _ fun msg _ => hC.bind (submitOne_rests hone ht) fun resolved => ?_
    refine hC.bind ?_ fun _ => hC.call rfl
    split
    · exact hC.pure _
    · exact handleUnresolved_rests hone
  · exact hC.pure _

theorem handleThreadAction_rests (hone : OneWorker calls) {sender : UserId} {room : RoomId}
    {role : MailboxRole} (hroom : room ∈ (calls t).unbridges cfg) :
    Rests cfg calls law t _ (handleThreadAction cfg sender room role) := by
  have hstable : Stable (law.contract calls) t (Stands law t [] .idle) := stands_stable
  exact handleThreadAction_closed (upkeep_rests hone)
    ((Triple.closed hstable).call (deleteGhost_keeps hroom))
    ((Triple.closed hstable).call deleteThreads_keeps)

theorem serves_rests (hone : OneWorker calls) (hc : (calls t).Serves) :
    Rests cfg calls law t _ ((calls t).program cfg) := by
  have hC : Prog.Closed (fun _ o => o.cmd.plain) (Rests cfg calls law t) := rests_closed hone
  have hload : ∀ sender room target, Rests cfg calls law t _
      (handleLoadImages cfg sender room target) := fun _ _ _ =>
    handleLoadImages_closed (upkeep_rests hone) fun _ _ _ _ _ => hC.call rfl
  have hact : ∀ sender room role, room ∈ (calls t).unbridges cfg → Rests cfg calls law t _
      (handleThreadAction cfg sender room role) := fun _ _ _ => handleThreadAction_rests hone
  cases hcall : calls t with
  | worker => exact runRetryLoop_rests hone hcall
  | transaction txnId txn =>
    rw [hcall] at hact
    exact handleTransactions_closed (upkeep_rests hone)
      (fun _ _ => hC.of_only (showHeld_talk.mono fun _ => Cmd.talk.plain)) hload hact
  | detached task =>
    rw [hcall] at hact
    exact hC.bind (detached_closed hload hact) fun _ => hC.pure _
  | prune =>
    exact hC.loop fun _ => hC.bind (hC.bind (hC.call rfl) fun _ => hC.call rfl) fun _ => hC.pure _
  | logout user =>
    exact hC.bind (hC.andThen (hC.lift (hC.call rfl)) fun _ =>
      hC.andThen (hC.call rfl) fun _ => hC.call rfl) fun _ => hC.pure _
  | _ =>
    rw [hcall] at hc
    exact hc.elim

theorem program_rests (hone : OneWorker calls) :
    Rests cfg calls law t _ ((calls t).program cfg) :=
  program_closed ((rests_closed hone).mono fun _ _ => Cmd.bland.plain)
    (fun _ => ensureEmailSpace_neutral hone [] .idle) (fun _ _ _ _ => processNewThread_rests hone)
    (serves_rests hone)

/-! The environment. -/

theorem lockSafe_release {w w' : World} {key : LockKey} {stored : Bool} (hw : w.lockSafe)
    (he : (Env.release key stored).perform w = some w') : w'.lockSafe := by
  simp only [Env.perform] at he
  split at he
  · next hmem =>
    obtain rfl := Option.some.inj he
    intro k
    have hsafe := hw k
    rw [World.tokens] at hsafe
    simp only [World.tokens]
    by_cases hk : k = key
    · subst hk
      have hcount : 0 < w.releases.count k := List.count_pos_iff.mpr hmem
      rw [List.count_erase_self]
      exact ⟨by omega, fun hpos => absurd hpos (by omega)⟩
    · rw [List.count_erase_of_ne hk]
      refine ⟨hsafe.1, fun hpos => ?_⟩
      have hheld := hsafe.2 hpos
      cases stored with
      | false => exact hheld
      | true => simpa [Store.holds, AList.lookup_erase_ne hk] using hheld
  · cases he

theorem env_frame {w w' : World} {e : Env} (hi : w.lockSafe) (he : e.perform w = some w') :
    w'.lockSafe ∧ w'.guards = w.guards ∧ w'.issued = w.issued := by
  cases e with
  | release key stored =>
    refine ⟨lockSafe_release hi he, ?_⟩
    simp only [Env.perform] at he
    split at he
    · obtain rfl := Option.some.inj he
      exact ⟨rfl, rfl⟩
    · cases he
  | _ =>
    obtain rfl := Option.some.inj he
    exact ⟨hi, rfl, rfl⟩

theorem bind_upholds (hone : OneWorker calls) :
    Upholds (bridge cfg calls) (law.discipline cfg calls) (law.contract calls) where
  start := by
    intro t w hi hidle _
    have hstands : Stands law t [] .idle w := ⟨hidle, by rintro _ ⟨⟩, trivial⟩
    exact Prog.wp_mono (fun _ _ _ h => h.hand) (program_rests hone w hi hstands)
  env := by
    intro e w w' hi _ he
    have hi : law.Inv calls w := hi
    obtain ⟨htrace, users, locks, hstore⟩ := env_store he
    obtain ⟨hsafe, hguards, hissued⟩ := env_frame hi.locks he
    have hrooms : SameRooms w.store w'.store := by
      rw [hstore]
      exact ⟨fun _ => rfl, fun _ => rfl⟩
    have hfounded : ∀ i, w'.founded i = w.founded i := fun i => by
      rw [World.founded, htrace, World.founded]
    have hhand : ∀ i, w'.hand i = w.hand i := fun i => by rw [World.hand, hguards, World.hand]
    have hhomes : ∀ thread, w'.home calls thread = w.home calls thread := fun thread => by
      rw [World.home, htrace, World.home]
    have hsending : ∀ i, w'.sending i = w.sending i := fun i => by
      rw [World.sending, htrace, World.sending]
    have hstill : Still w w' := ⟨hrooms, fun i thread room hkey hroom =>
      ⟨hhand i ▸ hkey, hfounded i ▸ hroom⟩⟩
    refine ⟨⟨hsafe, ⟨fun i room h => ?_, fun i j room h h' => ?_⟩,
      hstill.holds hi.law fun hlaw => ?_⟩,
      fun i => ⟨hhand i, hfounded i, hsending i,
        hstill.leaves ⟨[], htrace⟩ fun _ _ thread _ _ hhome => (hhomes thread).trans hhome⟩⟩
    · rw [hissued]
      exact hi.founders.issued i room (hfounded i ▸ h)
    · exact hi.founders.single i j room (hfounded i ▸ h) (hfounded j ▸ h')
    · subst hlaw
      exact hstill.homed hi.law hhomes fun i _ _ _ _ h => hhand i ▸ h
  cancel := by
    intro t w hi _
    have hi : law.Inv calls w := hi
    have hhand : ∀ i key, key ∈ (drop t w).hand i → key ∈ w.hand i := by
      intro i key hkey
      by_cases hit : i = t
      · subst hit
        rw [guards_dropped w] at hkey
        cases hkey
      · rwa [guards_drop hit w] at hkey
    have hstill : Still w (drop t w) :=
      ⟨.refl _, fun i thread room hkey hroom => ⟨hhand i _ hkey, hroom⟩⟩
    refine ⟨⟨fun k => ?_, ⟨hi.founders.issued, hi.founders.single⟩,
      hstill.holds hi.law fun hlaw => ?_⟩,
      fun i hit => ⟨guards_drop hit w, rfl, rfl, hstill.leaves ⟨[], rfl⟩ fun _ _ _ _ _ h => h⟩,
      guards_dropped w⟩
    · change (drop t w).tokens k ≤ 1 ∧ (0 < (drop t w).tokens k → w.store.holds k)
      rw [tokens_drop]
      exact hi.locks k
    · subst hlaw
      exact hstill.homed hi.law (fun _ => rfl) fun i _ _ _ _ => hhand i _

/-! The laws over whole runs. -/

/-- No task has done anything yet. -/
structure World.Booted (w : World) : Prop where
  guards : w.guards = []
  releases : w.releases = []
  trace : w.trace = []

theorem World.Booted.founded {w : World} (hw : w.Booted) (i : Nat) : w.founded i = none := by
  rw [World.founded, hw.trace]
  rfl

theorem World.Booted.home {w : World} (hw : w.Booted) (thread : ThreadId) :
    w.home calls thread = none := by
  rw [World.home, hw.trace]
  rfl

theorem World.Booted.homed {w : World} (hw : w.Booted) : w.Homed calls := by
  refine ⟨fun i thread room _ h => ?_, fun thread room h => ?_, fun thread room h => ?_⟩
  · rw [hw.founded] at h
    cases h
  · rw [hw.home] at h
    cases h
  · rw [hw.home] at h
    cases h

theorem World.Booted.poolInv {w : World} (hw : w.Booted) (hlaw : law.holds calls w) :
    Upholds.PoolInv (bridge cfg calls) (law.discipline cfg calls) (law.contract calls)
      (Pool.boot w) := by
  have hsafe : w.lockSafe := by
    intro key
    have hnone : w.tokens key = 0 := by simp [World.tokens, hw.guards, hw.releases]
    rw [hnone]
    exact ⟨Nat.zero_le 1, fun h => absurd h (Nat.lt_irrefl 0)⟩
  have hfounders : Founders w := by
    refine ⟨fun i room h => ?_, fun i j room h _ => ?_⟩
    · rw [hw.founded] at h
      cases h
    · rw [hw.founded] at h
      cases h
  refine Upholds.poolInv_boot ⟨hsafe, hfounders, hlaw⟩ fun t => ?_
  change w.hand t = []
  rw [World.hand, hw.guards]
  rfl

/-- Every room a thread is mapped to has a ghost. -/
def Store.NoDangling (s : Store) : Prop := ∀ r ∈ s.threadMapping.entries, s.hasGhost r.2.roomId

instance (s : Store) : Decidable s.NoDangling :=
  inferInstanceAs (Decidable (∀ r ∈ s.threadMapping.entries, s.hasGhost r.2.roomId))

/-- No thread is mapped to a room without a ghost, provided that a room is unbridged only while no
thread is mapped to it, none is being given it and no message is being sent from it. -/
theorem no_dangling_thread (hone : OneWorker calls) {w : World} (hw : w.Booted)
    (hstore : w.store.NoDangling) {es : List (Event Answer Env)} {q : Pool Op World}
    (hrun : (bridge cfg calls).run es (Pool.boot w) = some q)
    (hD : (bridge cfg calls).Admits (Law.anchored.discipline cfg calls).meets es (Pool.boot w)) :
    q.world.store.NoDangling := by
  have hholds : Law.anchored.holds calls w := by
    intro thread room h
    obtain ⟨row, hrow, rfl⟩ := Option.map_eq_some_iff.mp h
    exact hstore ⟨thread, row⟩ (AList.mem_lookup_iff.mp hrow)
  have hpool := (bind_upholds hone).poolInv_of_run (hw.poolInv hholds) hrun hD
  rintro ⟨thread, row⟩ hmem
  have hlaw : Law.anchored.holds calls q.world := hpool.1.law
  refine hlaw thread row.roomId (Option.map_eq_some_iff.mpr ⟨row, ?_, rfl⟩)
  exact AList.mem_lookup_iff.mpr hmem

def Store.OneThreadEach (s : Store) : Prop := ∀ room, (s.threadsOf room).length ≤ 1

theorem oneThreadEach_iff {w : World} :
    w.store.OneThreadEach ↔ Law.exclusive.holds calls w := by
  constructor
  · intro h thread thread' room hbound hbound'
    have hmem := mem_threadsOf.mpr hbound
    have hmem' := mem_threadsOf.mpr hbound'
    match hl : w.store.threadsOf room with
    | [] => simp [hl] at hmem
    | [only] =>
      rw [hl, List.mem_singleton] at hmem hmem'
      rw [hmem, hmem']
    | _ :: _ :: _ =>
      have hlen := h room
      simp [hl] at hlen
  · intro h room
    have hnodup : (w.store.threadsOf room).Nodup := by
      have hkeys : (w.store.threadMapping.entries.map (·.1)).Nodup :=
        w.store.threadMapping.nodupKeys
      exact hkeys.sublist (List.filter_sublist.map _)
    match hl : w.store.threadsOf room with
    | [] => exact Nat.zero_le 1
    | [_] => exact Nat.le_refl 1
    | thread :: thread' :: _ =>
      have hsame : thread = thread' := by
        refine h thread thread' room (mem_threadsOf.mp ?_) (mem_threadsOf.mp ?_)
        · simp [hl]
        · simp [hl]
      simp [hl, hsame] at hnodup

/-- A room has one thread at most, provided that a message queued as the first of its room is
taken up only while the room has no thread and none is being given it, and that the homeserver
names a new room as no other. -/
theorem one_thread_each (hone : OneWorker calls) {w : World} (hw : w.Booted)
    (hstore : w.store.OneThreadEach) {es : List (Event Answer Env)} {q : Pool Op World}
    (hrun : (bridge cfg calls).run es (Pool.boot w) = some q)
    (hD : (bridge cfg calls).Admits (Law.exclusive.discipline cfg calls).meets es (Pool.boot w)) :
    q.world.store.OneThreadEach := by
  have hholds : Law.exclusive.holds calls w := oneThreadEach_iff.mp hstore
  have hpool := (bind_upholds hone).poolInv_of_run (hw.poolInv hholds) hrun hD
  exact oneThreadEach_iff.mpr hpool.1.law

/-- The thread of a message that was sent has no other room than the message, and is given no
other. -/
def World.NoSecondRoom (calls : Nat → Call) (w : World) : Prop :=
  ∀ thread room, w.home calls thread = some room →
    (w.store.boundTo thread = none ∨ w.store.boundTo thread = some room) ∧
      ∀ i other, .thread thread ∈ w.hand i → w.founded i = some other → other = room

end

def composedRoom : World where
  store :=
    { users := (∅ : Sql.Table _ _).insert "@a:localhost" ⟨"a", "token", "url"⟩
      jmapState := (∅ : Sql.Table _ _).insert ("@a:localhost", .emailSpaceRoom) "!s"
      roomGhostMapping := (∅ : Sql.Table _ _).insert "!c"
        { ghostEmail := "bob@x", matrixUserId := "@a:localhost" } }
  clients := (∅ : Sql.Table _ _).insert "@a:localhost" "a"
  issued := ["!c", "!s"]

def everybody : Config where
  level _ := some .user

/-- An email of a thread that was not bridged when it was looked up. -/
def arriving (email : EmailId) (thread : ThreadId) : Call :=
  .newThread ⟨"@a:localhost", "a"⟩ { id := some email, threadId := some thread }
    ⟨"bob@x", "@_jmap_bob=40x:localhost"⟩ ⟨"hi", none, .email email⟩

/-- Two messages are typed into a composed room, the worker sends them, mail arrives, and
the room is moved to the trash. -/
def composedCalls : Nat → Call
  | 0 => .transaction "1" ⟨[.message "@a:localhost" "!c" "$1" "hello" none none,
      .message "@a:localhost" "!c" "$2" "again" none none], []⟩
  | 1 => .worker
  | 2 => arriving "e2" "T"
  | 3 => arriving "e3" "U"
  | _ => .detached (.threadAction "@a:localhost" "!c" .trash)

def typed : List (Event Answer Env) :=
  (.start 0 :: List.replicate 14 (.step 0 .done) : List (Event Answer Env)) ++
    ([.tau 0, .start 1, .tau 1, .step 1 .done, .step 1 .done] : List (Event Answer Env))

/-- The worker sends a message and learns the thread of its copy. -/
def sends (email : EmailId) (thread : ThreadId) : List (Event Answer Env) :=
  [.step 1 .done, .step 1 .done, .step 1 (.name none), .step 1 .done,
    .step 1 (.reply (.queried { ids := ["sent"] })), .step 1 (.reply (.identities [])),
    .step 1 (.reply (.batch ⟨some email, true⟩)), .step 1 (.reply (.emailThread (some thread)))]

def records : List (Event Answer Env) := List.replicate 4 (.step 1 .done)

/-- Task `t` makes the room `!d` for its thread. -/
def makesRoom (t : Nat) : List (Event Answer Env) :=
  ([.start t, .tau t, .step t .done, .step t .done, .step t .done, .step t (.flag false),
      .step t (.id "!d")] : List (Event Answer Env)) ++ List.replicate 3 (.step t .done) ++
    (.tau t :: List.replicate 6 (.step t .done) : List (Event Answer Env)) ++
    ([.step t (.id "$d"), .step t .done, .step t .done] : List (Event Answer Env))

/-- The first message is sent and recorded. -/
def firstSent : List (Event Answer Env) := typed ++ sends "e0" "T" ++ records

/-- Its answer goes to the same room, and another thread gets a room of its own. -/
def answered : List (Event Answer Env) :=
  ([.start 2, .tau 2, .step 2 .done, .step 2 (.id "$a")] : List (Event Answer Env)) ++ makesRoom 3

/-- The room is moved to the trash, and the task is cancelled between the two deletions. -/
def halfUnbridged : List (Event Answer Env) :=
  [.start 4, .step 4 .done, .step 4 .done, .step 4 .done, .step 4 (.reply (.queried {})),
    .step 4 .done, .cancel 4]

theorem composedRoom_booted : composedRoom.Booted := ⟨rfl, rfl, rfl⟩

theorem composedCalls_oneWorker : OneWorker composedCalls := by
  have honly : ∀ i, composedCalls i = .worker → i = 1 := by
    intro i hi
    match i with
    | 0 => cases hi
    | 1 => rfl
    | 2 => cases hi
    | 3 => cases hi
    | _ + 4 => cases hi
  intro t i ht hi
  rw [honly t ht, honly i hi]

theorem no_dangling_thread_answered : ∃ q,
    (bridge everybody composedCalls).run (firstSent ++ answered) (Pool.boot composedRoom) =
      some q ∧ q.world.store.NoDangling := by
  have hends : ((bridge everybody composedCalls).run (firstSent ++ answered)
      (Pool.boot composedRoom)).isSome := by decide +kernel
  obtain ⟨q, hq⟩ := Option.isSome_iff_exists.mp hends
  exact ⟨q, hq, no_dangling_thread composedCalls_oneWorker composedRoom_booted (by decide) hq
    (by decide +kernel)⟩

/-- The thread keeps a room whose ghost is gone. -/
theorem half_unbridged_dangles : composedRoom.store.NoDangling ∧ ∃ q,
    (bridge everybody composedCalls).run (firstSent ++ halfUnbridged) (Pool.boot composedRoom) =
      some q ∧ ¬ q.world.store.NoDangling := by
  have hends : ((bridge everybody composedCalls).run (firstSent ++ halfUnbridged)
      (Pool.boot composedRoom)).map (fun q => decide q.world.store.NoDangling) =
        some false := by decide +kernel
  obtain ⟨q, hq, hdangling⟩ := Option.map_eq_some_iff.mp hends
  exact ⟨by decide, q, hq, of_decide_eq_false hdangling⟩

theorem composedRoom_oneThreadEach : composedRoom.store.OneThreadEach :=
  fun _ => Nat.zero_le 1

theorem one_thread_each_answered : ∃ q,
    (bridge everybody composedCalls).run (firstSent ++ answered) (Pool.boot composedRoom) =
      some q ∧ q.world.store.OneThreadEach := by
  have hends : ((bridge everybody composedCalls).run (firstSent ++ answered)
      (Pool.boot composedRoom)).isSome := by decide +kernel
  obtain ⟨q, hq⟩ := Option.isSome_iff_exists.mp hends
  exact ⟨q, hq, one_thread_each composedCalls_oneWorker composedRoom_booted
    composedRoom_oneThreadEach hq (by decide +kernel)⟩

/-- The second message was queued as a fresh one too, and makes a second thread of the room. -/
theorem composed_twice_shares : composedRoom.store.OneThreadEach ∧ ∃ q,
    (bridge everybody composedCalls).run (firstSent ++ sends "e1" "U" ++ records)
      (Pool.boot composedRoom) = some q ∧ q.world.store.threadsOf "!c" = ["U", "T"] := by
  have hends : ((bridge everybody composedCalls).run (firstSent ++ sends "e1" "U" ++ records)
      (Pool.boot composedRoom)).map (fun q => q.world.store.threadsOf "!c") =
        some ["U", "T"] := by decide +kernel
  exact ⟨composedRoom_oneThreadEach, Option.map_eq_some_iff.mp hends⟩

end JmapBridge
