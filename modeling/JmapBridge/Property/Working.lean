import JmapBridge.Model.Queue
import JmapBridge.Effect.Triple

/-! The shape of the worker: it takes a snapshot of the queue and makes one attempt on each
message of it. An attempt begins, is confirmed or fails, and what follows is the removal of
the row, a notice or another try later. -/

namespace JmapBridge

open Effect

inductive Stage where
  | begun
  | confirmed
  | failed
  | orphaned
  | noticed
  | ended

/-- Which stages end with the removal of the row. -/
def Stage.removes : Stage → Prop
  | confirmed => True
  | orphaned => True
  | noticed => True
  | _ => False

/-- `body` starts with `text`: a reply may have a quote behind it. -/
def Carries (text body : String) : Prop := ∃ rest, body = text ++ rest

theorem Carries.refl (text : String) : Carries text text := ⟨"", by simp⟩

def failureNotice (cfg : Config) (msg : OutboundMessage) : MatrixCmd :=
  .sendAsGhost msg.roomId cfg.botUserId (.message ⟨deliveryFailure, none, .queued msg.id⟩) none

/-- What the reply to a batch makes of an attempt. -/
def Stage.ofReply : Except Err BatchReply → Stage
  | .ok ⟨some _, true⟩ => confirmed
  | _ => failed

/-- The assertions of a worker `t` between rounds, with the messages left of a round, and
in the attempt on `msg` with `rest` left after it. -/
structure Working (S : System Op World Answer Env) (D : Discipline Op World Answer Env)
    (K : Contract World) (t : Nat) (cfg : Config) (idle : World → Prop)
    (todo : List OutboundMessage → World → Prop)
    (attempt : Stage → OutboundMessage → List OutboundMessage → World → Prop) : Prop where
  stable_idle : Stable K t idle
  stable_todo : ∀ {l}, Stable K t (todo l)
  stable : ∀ {s msg rest}, Stable K t (attempt s msg rest)
  sleep : ∀ n, Keeps S D K t idle _ (.mk (.task (.sleep n)))
  client : ∀ l u, Keeps S D K t (todo l) _ (.mk (.task (.getClient u)))
  ready : ∀ msg rest β o, o.cmd.aside → Keeps S D K t (todo (msg :: rest)) β o
  aside : ∀ s msg rest β o, o.cmd.aside → Keeps S D K t (attempt s msg rest) β o
  unbegun : ∀ msg rest w, todo (msg :: rest) w → attempt .failed msg rest w
  unsent : ∀ msg rest w, attempt .begun msg rest w → attempt .failed msg rest w
  idle_of_todo : ∀ w, todo [] w → idle w
  fetch : Step S D K t idle (.mk (.store .getPendingOutbound)) (post todo fun _ => idle)
  ghost : ∀ msg rest, Step S D K t (todo (msg :: rest))
    (.mk (.store (.getGhostEmailByRoom msg.roomId))) fun r w =>
      todo (msg :: rest) w ∧ (r = .ok none → attempt .orphaned msg rest w)
  begin : ∀ msg rest, Step S D K t (todo (msg :: rest)) (.mk (.task (.log (.sending msg))))
    fun _ => attempt .begun msg rest
  submit : ∀ msg rest account draft, draft.source = msg → Carries msg.bodyText draft.body →
    Step S D K t (attempt .begun msg rest) (.mk (.jmap account (.submitBatch draft)))
      fun r => attempt (.ofReply r) msg rest
  notice : ∀ msg rest s, s = .failed ∨ s = .noticed → 9 ≤ msg.retryCount →
    Step S D K t (attempt s msg rest) (.mk (.matrix (failureNotice cfg msg)))
      fun _ => attempt .noticed msg rest
  remove : ∀ s msg rest, s.removes → Step S D K t (attempt s msg rest)
    (.mk (.store (.removeFromOutboundQueue msg.id))) fun _ => attempt .ended msg rest
  retry : ∀ msg rest, Step S D K t (attempt .failed msg rest)
    (.mk (.store (.updateRetryCount msg.id))) fun _ => attempt .ended msg rest
  drop : ∀ msg rest, Step S D K t (attempt .ended msg rest) (.mk (.task (.dropMessage msg)))
    fun _ => todo rest

namespace Working

variable {S : System Op World Answer Env} {D : Discipline Op World Answer Env}
  {K : Contract World} {t : Nat} {cfg : Config} {idle : World → Prop}
  {todo : List OutboundMessage → World → Prop}
  {attempt : Stage → OutboundMessage → List OutboundMessage → World → Prop}
  {msg : OutboundMessage} {rest : List OutboundMessage} {α : Type}

variable (W : Working S D K t cfg idle todo attempt)
include W

theorem during {s : Stage} {x : Prog Op α} (hx : Aside x) :
    Triple S D K t (attempt s msg rest) x fun _ => attempt s msg rest :=
  .only (W.stable) (Prog.Only.mono (fun β o h => W.aside s msg rest β o h) hx)

theorem before {x : Bridge α} (hx : Aside x) :
    Triple S D K t (attempt .begun msg rest) x
      (post (fun _ => attempt .begun msg rest) fun _ => attempt .failed msg rest) := by
  refine .post (W.during hx) fun r w _ h => ?_
  cases r with
  | ok _ => exact h
  | error _ => exact W.unsent msg rest w h

theorem submit_triple {account : Account} {b : EmailBuilder} (hsource : b.source = msg)
    (hbody : Carries msg.bodyText b.body) :
    Triple S D K t (attempt .begun msg rest) (JmapBridge.submit account b)
      (post (fun _ => attempt .confirmed msg rest) fun _ => attempt .failed msg rest) := by
  have hfailed : ∀ _ : Err, Stable K t (attempt .failed msg rest) := fun _ => W.stable
  refine .andThen (W.before outgoingMailbox_remark.aside) hfailed fun mailboxId => ?_
  refine .andThen (W.before (.lift primaryIdentity_remark.aside)) hfailed fun identity => ?_
  refine .bind (.call W.stable (W.submit msg rest account _ hsource hbody)
    fun _ => W.stable) fun r => ?_
  match r with
  | .error e => exact .pure W.stable fun _ _ h => h
  | .ok ⟨none, _⟩ => exact .pure W.stable fun _ _ h => h
  | .ok ⟨some e, true⟩ => exact .pure W.stable fun _ _ h => h
  | .ok ⟨some e, false⟩ => exact .pure W.stable fun _ _ h => h

theorem quotedBody_triple {account : Account} {thread : ThreadId} {body : String} :
    Triple S D K t (attempt .begun msg rest) (quotedBody cfg account thread body)
      fun r w => attempt .begun msg rest w ∧ Carries body r := by
  rw [quotedBody]
  split
  · refine .bind (W.during replyQuote_remark.aside) fun quote => .pure W.stable fun w _ h => ⟨h, ?_⟩
    cases quote with
    | none => exact .refl body
    | some q => exact ⟨"\n\n" ++ q, String.append_assoc ..⟩
  · exact .pure W.stable fun w _ h => ⟨h, .refl body⟩

theorem submitReply_triple {account : Account} {email : String} {thread : ThreadId}
    {root : EventId} :
    Triple S D K t (todo (msg :: rest)) (submitReply cfg account email msg thread root)
      (post (fun _ => attempt .confirmed msg rest) fun _ => attempt .failed msg rest) := by
  have hfailed : ∀ _ : Err, Stable K t (attempt .failed msg rest) := fun _ => W.stable
  have hready : ∀ x : Bridge (Option String), Aside x →
      Triple S D K t (todo (msg :: rest)) x fun _ => todo (msg :: rest) := fun x hx =>
    .only W.stable_todo (Prog.Only.mono (fun β o h => W.ready msg rest β o h) hx)
  refine .andThen (.attempt (hready _ (.store rfl)) fun _ => W.stable_todo) hfailed
    fun stored => ?_
  refine .andThen (.lift (.call W.stable_todo (W.begin msg rest) fun _ => W.stable)
    fun _ => W.stable) hfailed fun _ => ?_
  refine .andThen ?_ hfailed fun _ => .ok W.stable fun _ _ h => h
  refine .andThen (W.before (.lift replyHeaders_remark.aside)) hfailed fun headers => ?_
  refine .andThen (.lift W.quotedBody_triple fun body => W.stable.and (Stable.const _))
    hfailed fun body => ?_
  intro w hi hw
  exact W.submit_triple rfl hw.2 w hi hw.1

theorem mapComposedThread_triple {account : Account} {subject : String} {emailId : EmailId} :
    Triple S D K t (attempt .confirmed msg rest) (mapComposedThread account msg subject emailId)
      (post (fun _ => attempt .confirmed msg rest) fun _ => attempt .failed msg rest) := by
  refine .andThen (.attempt (W.during (.jmap rfl)) fun _ => W.stable) (fun _ => W.stable)
    fun r => ?_
  split
  · exact .bind (W.during (.store rfl)) fun _ => .pure W.stable fun _ _ h => h
  · exact .ok W.stable fun _ _ h => h

theorem submitFresh_triple {account : Account} {email : String} :
    Triple S D K t (todo (msg :: rest)) (submitFresh account email msg)
      (post (fun _ => attempt .confirmed msg rest) fun _ => attempt .failed msg rest) := by
  have hfailed : ∀ _ : Err, Stable K t (attempt .failed msg rest) := fun _ => W.stable
  have hname : Triple S D K t (todo (msg :: rest)) (onMatrix (.roomName msg.roomId))
      fun _ => todo (msg :: rest) :=
    .only W.stable_todo (Prog.Only.mono (fun β o h => W.ready msg rest β o h)
      (Does.matrix (φ := fun c => c.aside) rfl))
  refine .andThen (.attempt hname fun _ => W.stable_todo) hfailed fun roomName => ?_
  refine .andThen (.lift (.call W.stable_todo (W.begin msg rest) fun _ => W.stable)
    fun _ => W.stable) hfailed fun _ => ?_
  exact .andThen (W.submit_triple rfl (.refl _)) hfailed fun emailId => W.mapComposedThread_triple

theorem sendQueued_triple {account : Account} {email : String} :
    Triple S D K t (todo (msg :: rest)) (sendQueued cfg account email msg)
      (post (fun _ => attempt .confirmed msg rest) fun _ => attempt .failed msg rest) := by
  unfold sendQueued
  split
  · exact W.submitReply_triple
  · exact W.submitFresh_triple

theorem remove_triple {s : Stage} (hs : s.removes) :
    Triple S D K t (attempt s msg rest) (onStore (.removeFromOutboundQueue msg.id))
      fun _ => attempt .ended msg rest :=
  .call W.stable (W.remove s msg rest hs) fun _ => W.stable

theorem deliver_triple {account : Account} {email : String} :
    Triple S D K t (todo (msg :: rest)) (deliver cfg account email msg)
      fun resolved => attempt (if resolved then .ended else .failed) msg rest := by
  refine .bind W.sendQueued_triple fun r => ?_
  cases r with
  | ok _ =>
    exact .bind (W.remove_triple (s := .confirmed) trivial) fun _ =>
      .bind (W.during markSubmitted_talk.aside) fun _ => .pure W.stable fun _ _ h => h
  | error _ => exact .pure W.stable fun _ _ h => h

theorem submitOne_triple :
    Triple S D K t (todo (msg :: rest)) (submitOne cfg msg)
      fun resolved => attempt (if resolved then .ended else .failed) msg rest := by
  have hclient : Triple S D K t (todo (msg :: rest)) (onTask (.getClient msg.matrixUserId))
      fun _ => todo (msg :: rest) :=
    .only W.stable_todo ⟨W.client _ _, fun _ => trivial⟩
  refine .bind hclient fun client => ?_
  cases client with
  | none => exact .pure W.stable_todo fun w _ h => W.unbegun msg rest w h
  | some account =>
    have hghost : ∀ r : Except Err (Option String), Stable K t fun w =>
        todo (msg :: rest) w ∧ (r = .ok none → attempt .orphaned msg rest w) := by
      intro r w w' h hr hi
      exact ⟨W.stable_todo w w' h.1 hr hi, fun hn => W.stable w w' (h.2 hn) hr hi⟩
    refine .bind (.call W.stable_todo (W.ghost msg rest) hghost) fun r => ?_
    match r with
    | .ok (some email) => exact .pre W.deliver_triple fun _ _ h => h.1
    | .ok none =>
      refine .bind (.pre (W.remove_triple (s := .orphaned) trivial) fun _ _ h => h.2 rfl)
        fun _ => ?_
      exact .pure W.stable fun _ _ h => h
    | .error _ => exact .pure (hghost _) fun w _ h => W.unbegun msg rest w h.1

theorem notice_triple (h9 : 9 ≤ msg.retryCount) :
    Triple S D K t (attempt .failed msg rest)
      (sendMessage cfg msg.roomId deliveryFailure (.queued msg.id))
      fun _ => attempt .noticed msg rest := by
  have hsend : ∀ s, s = .failed ∨ s = .noticed →
      Triple S D K t (attempt s msg rest) (onMatrix (failureNotice cfg msg))
        fun _ => attempt .noticed msg rest :=
    fun s hs => .call W.stable (W.notice msg rest s hs h9) fun _ => W.stable
  have hdone : ∀ _ : Err, Stable K t (attempt .noticed msg rest) := fun _ => W.stable
  have hresend : Triple S D K t (attempt .noticed msg rest) (onMatrix (failureNotice cfg msg))
      (post (fun _ => attempt .noticed msg rest) fun _ => attempt .noticed msg rest) :=
    .post (hsend _ (.inr rfl)) fun r _ _ h => by cases r <;> exact h
  have hjoin : Triple S D K t (attempt .noticed msg rest)
      (onMatrix (.joinRoomAs msg.roomId cfg.botUserId))
      (post (fun _ => attempt .noticed msg rest) fun _ => attempt .noticed msg rest) :=
    .post (W.during (.matrix rfl)) fun r _ _ h => by cases r <;> exact h
  have hnotice : Triple S D K t (attempt .failed msg rest)
      (sendMessage cfg msg.roomId deliveryFailure (.queued msg.id))
      (post (fun _ => attempt .noticed msg rest) fun _ => attempt .noticed msg rest) := by
    refine .andThen (.attempt (hsend _ (.inl rfl)) fun _ => W.stable) hdone fun r => ?_
    split
    · exact .ok W.stable fun _ _ h => h
    · refine .andThen (R := fun _ => attempt .noticed msg rest)
        (.bind (W.during (.matrix rfl)) fun _ => .ok W.stable fun _ _ h => h) hdone fun _ => ?_
      exact .andThen hjoin hdone fun _ => hresend
    · exact .fail W.stable fun _ _ h => h
  exact .post hnotice fun r _ _ h => by cases r <;> exact h

theorem giveUp_triple (h9 : 9 ≤ msg.retryCount) :
    Triple S D K t (attempt .failed msg rest) (giveUp cfg msg)
      fun _ => attempt .ended msg rest :=
  .bind (W.notice_triple h9) fun _ =>
    .bind (W.remove_triple (s := .noticed) trivial) fun _ => W.during markFailed_talk.aside

theorem handleUnresolved_triple :
    Triple S D K t (attempt .failed msg rest) (handleUnresolved cfg msg)
      fun _ => attempt .ended msg rest := by
  rw [handleUnresolved]
  split
  case isTrue h9 => exact W.giveUp_triple h9
  case isFalse =>
    refine .bind (.call W.stable (W.retry msg rest) fun _ => W.stable) fun _ => ?_
    exact .pure W.stable fun _ _ h => h

theorem workOff_triple :
    Triple S D K t (todo (msg :: rest)) (workOff cfg msg) fun _ => todo rest := by
  refine .bind W.submitOne_triple fun resolved => ?_
  refine .bind (R := fun _ => attempt .ended msg rest) ?_ fun _ =>
    .call W.stable (W.drop msg rest) fun _ => W.stable_todo
  cases resolved with
  | true => exact .pure W.stable fun _ _ h => h
  | false => exact W.handleUnresolved_triple

theorem retryRound_triple : Triple S D K t idle (retryRound cfg) fun _ => idle := by
  have hsleep : Triple S D K t idle (onTask (.sleep 2000)) fun _ => idle :=
    .only W.stable_idle ⟨W.sleep _, fun _ => trivial⟩
  have hfetched : ∀ r : Except Err (List OutboundMessage),
      Stable K t (post todo (fun _ => idle) r) := by
    intro r
    cases r with
    | ok l => exact W.stable_todo
    | error _ => exact W.stable_idle
  refine .bind hsleep fun _ => .bind (.call W.stable_idle W.fetch hfetched) fun r => ?_
  cases r with
  | error _ => exact .pure W.stable_idle fun _ _ h => h
  | ok messages =>
    exact .post (.forEachLeft W.stable_todo (fun msg rest => W.workOff_triple) messages)
      fun _ w _ h => W.idle_of_todo w h

theorem runRetryLoop_triple : Triple S D K t idle (runRetryLoop cfg) fun _ => idle := by
  refine .loop (J := fun _ => idle) (R := fun _ => idle) (fun _ => ?_) fun _ =>
    .pure W.stable_idle fun _ _ h => h
  exact .bind W.retryRound_triple fun _ => .pure W.stable_idle fun _ _ h => h

end Working

end JmapBridge
