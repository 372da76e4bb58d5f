import JmapBridge.Model.Exec
import JmapBridge.Model.Inbound
import JmapBridge.Effect.Triple

/-! The shape of bridging one email: nothing of it is sent, then its message is sent, then
its mappings are saved, and what fails in between ends the call. -/

namespace JmapBridge

open Effect

/-- The assertions of task `t` while it bridges the email `e`: before its message, between
the message and the mapping, with the mapping saved, and when the call ends with an error. -/
structure Bridging (S : System Op World Answer Env) (D : Discipline Op World Answer Env)
    (K : Contract World) (t : Nat) (p : Poller) (e : EmailId)
    (unsent sent mapped ended : World → Prop) : Prop where
  stable_unsent : Stable K t unsent
  stable_mapped : Stable K t mapped
  stable_ended : Stable K t ended
  ended_of_unsent : ∀ w, unsent w → ended w
  ended_of_mapped : ∀ w, mapped w → ended w
  before : ∀ {α : Type} (x : Bridge α), DoesInbound p (· ≠ e) x →
    Triple S D K t unsent x (post (fun _ => unsent) fun _ => ended)
  send : ∀ (room : RoomId) (body : EmailBody) (sender : UserId) (ts : Option Nat),
    body.origin = .email e →
      Triple S D K t unsent (sendMessageAs room body sender ts)
        (post (fun _ => sent) fun _ => ended)
  saveThread : ∀ (thread : ThreadId) (event : EventId) (room : RoomId) (subject : String),
    Triple S D K t sent (onStore (.saveThreadMappingAtomic thread event room subject))
      (post (fun _ => sent) fun _ => ended)
  saveMessage : ∀ event : EventId, Triple S D K t sent (onStore (.saveMessageMapping e event))
    (post (fun _ => mapped) fun _ => ended)
  after : ∀ {α : Type} (x : Task α), DoesInbound p (· ≠ e) x →
    Triple S D K t mapped x fun _ => mapped
  leaving : ∀ {α : Type} (x : Task α), DoesInbound p (· ≠ e) x →
    Triple S D K t ended x fun _ => ended

namespace Bridging

variable {S : System Op World Answer Env} {D : Discipline Op World Answer Env}
  {K : Contract World} {t : Nat} {cfg : Config} {p : Poller} {e : EmailId}
  {unsent sent mapped ended : World → Prop} {email : Email} {ghost : GhostUser} {body : EmailBody}

variable (B : Bridging S D K t p e unsent sent mapped ended)
include B

theorem rest {x : Bridge Unit} (hx : DoesInbound p (· ≠ e) x) :
    Triple S D K t mapped x (post (fun _ => mapped) fun _ => ended) := by
  refine .post (B.after x hx) fun r w _ h => ?_
  cases r with
  | ok _ => exact h
  | error _ => exact B.ended_of_mapped w h

theorem processReply {room : RoomId} (ho : body.origin = .email e) (hid : email.id = some e)
    (hthread : email.threadId.isSome) :
    Triple S D K t unsent (processReply p email ghost body room)
      (post (fun _ => mapped) fun _ => ended) := by
  obtain ⟨thread, hthread⟩ := Option.isSome_iff_exists.mp hthread
  refine .andThen (B.send room body ghost.userId email.timestamp ho) (fun _ => B.stable_ended)
    fun event => ?_
  rw [hid, hthread]
  refine .andThen (B.saveMessage event) (fun _ => B.stable_ended) fun _ => ?_
  exact B.rest (.andThen (.bestEffort (.store (.latest ..))) fun _ => handleAttachments_inbound)

theorem createThreadRoom {thread : ThreadId} (ho : body.origin = .email e) :
    Triple S D K t unsent (createThreadRoom cfg p email ghost body thread e)
      (post (fun _ => mapped) fun _ => ended) := by
  have hended : ∀ _ : Err, Stable K t ended := fun _ => B.stable_ended
  refine .andThen (B.before _ createContactRoom_inbound) hended fun room => ?_
  refine .andThen (B.before _ (.bestEffort (.matrix (.roomName ..)))) hended fun _ => ?_
  refine .andThen (B.before _ (.store (.getState _ rfl))) hended fun own => ?_
  refine .andThen (B.before _ (.bestEffort (.matrix (.roomTopic ..)))) hended fun _ => ?_
  refine .andThen (B.send room body ghost.userId email.timestamp ho) hended fun event => ?_
  refine .andThen (B.saveThread thread event room _) hended fun _ => ?_
  exact .andThen (B.saveMessage event) hended fun _ => B.rest handleAttachments_inbound

theorem processNewThread (ho : body.origin = .email e) (hid : email.id = some e)
    (hthread : email.threadId.isSome) :
    Triple S D K t unsent (processNewThread cfg p email ghost body)
      (post (fun _ => mapped) fun _ => ended) := by
  have hended : ∀ _ : Err, Stable K t ended := fun _ => B.stable_ended
  obtain ⟨thread, ht⟩ := Option.isSome_iff_exists.mp hthread
  rw [JmapBridge.processNewThread, ht, hid]
  refine .andThen (B.before _ awaitThreadLock_inbound) hended fun room => ?_
  cases room with
  | some room => exact B.processReply ho hid hthread
  | none =>
    refine .bind (R := post (fun _ => mapped) fun _ => ended)
      (.andThen (B.before _ (.store (.getThread _))) hended fun row => ?_) fun r => ?_
    · cases row with
      | some row => exact B.processReply ho hid hthread
      | none => exact B.createThreadRoom ho
    cases r with
    | ok _ =>
      exact .bind (B.after _ (.task (.unlockThread _))) fun _ =>
        .pure B.stable_mapped fun _ _ h => h
    | error _ =>
      exact .bind (B.leaving _ (.task (.unlockThread _))) fun _ =>
        .pure B.stable_ended fun _ _ h => h

theorem bridgeToRoom {thread : ThreadId} (ho : body.origin = .email e) (hid : email.id = some e)
    (hthread : email.threadId.isSome) :
    Triple S D K t unsent (bridgeToRoom cfg p email thread ghost body)
      (post (fun _ => mapped) fun _ => ended) := by
  refine .andThen (B.before _ (.store (.getThread _))) (fun _ => B.stable_ended) fun row => ?_
  cases row with
  | some row => exact B.processReply ho hid hthread
  | none => exact B.processNewThread ho hid hthread

theorem bridgeEmail {done : World → Prop} (hid : email.id = some e) (hdone : Stable K t done)
    (hmapped : ∀ w, mapped w → done w)
    (hskip : ∀ sender, Triple S D K t unsent (onTask (.log (.skipping e sender))) fun _ => done) :
    Triple S D K t unsent (bridgeEmail cfg p email e) (post (fun _ => done) fun _ => ended) := by
  have hended : ∀ _ : Err, Stable K t ended := fun _ => B.stable_ended
  refine .andThen (B.before _ (.store (.getState _ rfl))) hended fun own => ?_
  split
  · exact .lift (hskip _) fun _ => hdone
  · cases hthread : email.threadId with
    | none => exact .fail B.stable_unsent fun w _ h => B.ended_of_unsent w h
    | some thread =>
      have hsome : email.threadId.isSome := by simp [hthread]
      change Triple S D K t _ (Act.andThen (resolveGhost cfg email) _) _
      refine .andThen (B.before _ resolveGhost_inbound) hended fun ghost => ?_
      refine .andThen (B.bridgeToRoom (fromEmail_origin hid) hid hsome) hended fun _ => ?_
      exact .lift (.post (B.after _ syncReadState_inbound) fun _ w _ h => hmapped w h)
        fun _ => hdone

end Bridging

end JmapBridge
