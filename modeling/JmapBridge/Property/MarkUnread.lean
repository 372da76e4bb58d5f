import JmapBridge.Model.Frames
import JmapBridge.Property.ReadEcho

/-! The gate of a room's unread flag. It is stored when the request to clear `$seen` went
out, and the server may have refused to update the email. -/

namespace JmapBridge

open Effect Sql

/-- The statement stores the gate of the room. -/
structure Record.Gates (user : UserId) (w : World) (room : RoomId) (r : Record) : Prop where
  cmd : r.cmd = .store (.saveJmapState user (.markedUnread room) "1")
  done : r.answer ≠ .failed
  user : w.store.hasUser user

/-- The server clears `$seen` on a latest email of the room. -/
def Record.clears (user : UserId) (w : World) (room : RoomId) (r : Record) : Prop :=
  ∃ account email, w.clients.lookup user = some account ∧ email ∈ w.store.latestEmailIds room ∧
    r.cmd = .jmap account (.setSeen email false) ∧ r.answer = .reply .marked

/-- The response names no email that was updated. -/
def Record.refusal (r : Record) : Prop :=
  ∃ account email, r.cmd = .jmap account (.setSeen email false) ∧ r.answer = .reply (.updated [])

def World.gated (w : World) (user : UserId) (room : RoomId) : Bool :=
  (w.store.jmapState.lookup (user, .markedUnread room)).isSome

/-- A gate is stored after the server has cleared `$seen`, and else it is there only if it was
before; and while it is absent, the flag makes the bridge ask again. -/
structure GateOnSuccess (cfg : Config) (calls : Nat → Call) (user : UserId) (w w' : World) :
    Prop where
  stored : ∀ l, w'.trace = l ++ w.trace → ∀ l₁ s l₂ room, l = l₁ ++ s :: l₂ →
    s.Gates user w room → ∃ x l₃, l₂ = x :: l₃ ∧ x.clears user w room
  absent : ∀ l, w'.trace = l ++ w.trace → ∀ room, w'.gated user room →
    w.gated user room ∨ ∃ s ∈ l, s.Gates user w room
  retried : ∀ room account t w₁ r w₂, w₁.gated user room = false →
    w₁.clients.lookup user = some account → w₁.store.latestEmailIds room ≠ [] →
    Eval (bridge cfg calls) storeWorks t (syncMarkedUnread user room true) w₁ r w₂ →
    ∃ x ∈ w₂.trace, ∃ email ∈ w₁.store.latestEmailIds room, x.cmd = .jmap account
      (.setSeen email false)

/-- Every refusal comes before a statement that fails, or has no user to store a gate for. -/
def RefusalsUnsaved (user : UserId) (w w' : World) : Prop :=
  ∀ l, w'.trace = l ++ w.trace → ∀ l₁ s x l₂, l = l₁ ++ s :: x :: l₂ → x.refusal →
    s.answer = .failed ∨ w.store.hasUser user = false

/-! The records of a run. -/

/-- Every gate is saved right after a request that was answered, and every refusal comes right
before such a save. -/
inductive Gated (user : UserId) (w : World) : List Record → Prop
  | nil : Gated user w []
  | other {r : Record} {l : List Record}
      (hsave : ∀ room, r.cmd ≠ .store (.saveJmapState user (.markedUnread room) "1"))
      (hrefused : ¬ r.refusal) (hl : Gated user w l) : Gated user w (r :: l)
  | pair {s x : Record} {l : List Record} {room : RoomId}
      (hs : s.cmd = .store (.saveJmapState user (.markedUnread room) "1"))
      (hx : x.clears user w room ∨ x.refusal) (hl : Gated user w l) : Gated user w (s :: x :: l)

section

variable {cfg : Config} {calls : Nat → Call} {D : Discipline Op World Answer Env} {t : Nat}
  {user : UserId} {room : RoomId} {w₀ w w' : World} {a : Answer} {l l₁ l₂ : List Record}
  {s x : Record} {α : Type}

theorem asks_of (hx : x.clears user w room ∨ x.refusal) :
    ∃ account email, x.cmd = .jmap account (.setSeen email false) := by
  rcases hx with ⟨account, email, -, -, hcmd, -⟩ | ⟨account, email, hcmd, -⟩
  · exact ⟨account, email, hcmd⟩
  · exact ⟨account, email, hcmd⟩

theorem Gated.before_save (h : Gated user w l) (hl : l = l₁ ++ s :: l₂)
    (hs : s.cmd = .store (.saveJmapState user (.markedUnread room) "1")) :
    ∃ x l₃, l₂ = x :: l₃ ∧ (x.clears user w room ∨ x.refusal) := by
  induction h generalizing l₁ with
  | nil => simp at hl
  | other hsave hrefused h ih =>
    cases l₁ with
    | nil =>
      obtain ⟨rfl, rfl⟩ := List.cons.inj hl
      exact absurd hs (hsave room)
    | cons r l₁ => exact ih (List.cons.inj hl).2
  | pair hs' hx h ih =>
    match l₁, hl with
    | [], hl =>
      obtain ⟨rfl, rfl⟩ := List.cons.inj hl
      rw [hs'] at hs
      cases hs
      exact ⟨_, _, rfl, hx⟩
    | [_], hl =>
      obtain ⟨rfl, rfl⟩ := List.cons.inj (List.cons.inj hl).2
      obtain ⟨account, email, hcmd⟩ := asks_of hx
      rw [hcmd] at hs
      cases hs
    | _ :: _ :: l₁, hl => exact ih (List.cons.inj (List.cons.inj hl).2).2

theorem Gated.head_not_refused (h : Gated user w (x :: l)) : ¬ x.refusal := by
  cases h with
  | other hsave hrefused h => exact hrefused
  | pair hs hx h =>
    rintro ⟨account, email, hcmd, -⟩
    rw [hs] at hcmd
    cases hcmd

theorem Gated.after_refusal (h : Gated user w l) (hl : l = l₁ ++ s :: x :: l₂) (hx : x.refusal) :
    ∃ room, s.cmd = .store (.saveJmapState user (.markedUnread room) "1") := by
  induction h generalizing l₁ with
  | nil => simp at hl
  | other hsave hrefused h ih =>
    cases l₁ with
    | nil =>
      obtain ⟨rfl, rfl⟩ := List.cons.inj hl
      exact absurd hx h.head_not_refused
    | cons r l₁ => exact ih (List.cons.inj hl).2
  | pair hs hx' h ih =>
    match l₁, hl with
    | [], hl =>
      obtain ⟨rfl, -⟩ := List.cons.inj hl
      exact ⟨_, hs⟩
    | [_], hl =>
      obtain ⟨-, rfl⟩ := List.cons.inj (List.cons.inj hl).2
      exact absurd hx h.head_not_refused
    | _ :: _ :: l₁, hl => exact ih (List.cons.inj (List.cons.inj hl).2).2

/-! The run. -/

structure Trailed (user : UserId) (w₀ w : World) (l : List Record) : Prop where
  gated : Gated user w₀ l
  absent : ∀ room, w.gated user room → w₀.gated user room ∨ ∃ s ∈ l, s.Gates user w₀ room

structure Gating (user : UserId) (w₀ w : World) : Prop where
  routes : SameRoutes w₀ w
  users : w.store.users = w₀.store.users
  trail : ∃ l, w.trace = l ++ w₀.trace ∧ Trailed user w₀ w l

structure GatePending (user : UserId) (room : RoomId) (w₀ w : World) : Prop where
  routes : SameRoutes w₀ w
  users : w.store.users = w₀.store.users
  trail : ∃ x l, w.trace = x :: (l ++ w₀.trace) ∧ (x.clears user w₀ room ∨ x.refusal) ∧
    Trailed user w₀ w l

def Cmd.ungating : Cmd → Bool
  | store (.getJmapState _ _) => true
  | store (.deleteJmapState _ _) => true
  | store (.getLatestEmailIdByRoom _) => true
  | task (.getClient _) => true
  | _ => false

theorem Gating.start : Gating user w₀ w₀ :=
  ⟨⟨rfl, rfl, rfl⟩, rfl, [], rfl, .nil, fun _ h => .inl h⟩

theorem Gating.step {c : Cmd} {b : c.Ans} (h : Gating user w₀ w)
    (he : exec t (.mk c) a w = some (b, w')) (hroutes : SameRoutes w w')
    (husers : w'.store.users = w.store.users)
    (hgates : ∀ room, w'.gated user room → w.gated user room)
    (hsave : ∀ room, c ≠ .store (.saveJmapState user (.markedUnread room) "1"))
    (hrefused : ¬ (⟨t, c, a⟩ : Record).refusal) : Gating user w₀ w' := by
  obtain ⟨l, hl, hgated, habsent⟩ := h.trail
  refine ⟨h.routes.trans hroutes, husers.trans h.users, ⟨t, c, a⟩ :: l,
    by rw [exec_trace he, hl, List.cons_append], .other hsave hrefused hgated, fun room hgate => ?_⟩
  refine (habsent room (hgates room hgate)).imp_right ?_
  rintro ⟨s, hs, hgates⟩
  exact ⟨s, List.mem_cons_of_mem _ hs, hgates⟩

theorem ungating_exec {c : Cmd} {b : c.Ans} (hc : c.ungating)
    (he : exec t (.mk c) a w = some (b, w')) : w'.store.users = w.store.users ∧
      ∀ room, w'.gated user room → w.gated user room := by
  unfold World.gated
  rcases exec_run he with hstore | ⟨q, order, rfl, -, hstore⟩
  · rw [hstore]
    exact ⟨rfl, fun _ h => h⟩
  · rw [hstore]
    cases q with
    | getJmapState => exact ⟨rfl, fun _ h => h⟩
    | getLatestEmailIdByRoom => exact ⟨rfl, fun _ h => h⟩
    | deleteJmapState u key =>
      refine ⟨rfl, fun room h => ?_⟩
      simp only [StoreCmd.run] at h
      by_cases hkey : (user, StateKey.markedUnread room) = (u, key)
      · rw [hkey, AList.lookup_erase] at h
        cases h
      · rwa [AList.lookup_erase_ne hkey] at h
    | _ => cases hc

theorem Cmd.ungating.step {c : Cmd} {b : c.Ans} (hc : c.ungating) (h : Gating user w₀ w)
    (he : exec t (.mk c) a w = some (b, w')) : Gating user w₀ w' := by
  obtain ⟨husers, hgates⟩ := ungating_exec hc he
  have hoff : c.offMail := by
    match c, hc with
    | .store (.getJmapState _ _), _ => rfl
    | .store (.deleteJmapState _ _), _ => rfl
    | .store (.getLatestEmailIdByRoom _), _ => rfl
    | .task (.getClient _), _ => rfl
  refine h.step he (sameMail_exec hoff he).toSameRoutes husers hgates ?_ ?_
  · rintro room rfl
    cases hc
  · rintro ⟨account, email, hcmd, -⟩
    have hcmd : c = .jmap account (.setSeen email false) := hcmd
    subst hcmd
    cases hc

theorem Does.gating {x : Prog Op α} (hx : Does (fun c => c.ungating) x) :
    Ends (bridge cfg calls) D t (Gating user w₀) x fun _ => Gating user w₀ := by
  refine .only (φ := fun _ o => o.cmd.ungating) (fun β o a w b w' ho _ he hw => ?_) hx
  obtain ⟨c⟩ := o
  exact Cmd.ungating.step ho hw he

theorem latestEmail_ends {room : RoomId} : Ends (bridge cfg calls) D t (Gating user w₀)
    (onStore (.getLatestEmailIdByRoom room)) fun r w =>
      Gating user w₀ w ∧ ∀ email, r = .ok (some email) → email ∈ w₀.store.latestEmailIds room := by
  refine .call fun w a r w' hw _ he => ?_
  have he : exec t (.mk (.store (.getLatestEmailIdByRoom room))) a w = some (r, w') := he
  refine ⟨Cmd.ungating.step rfl hw he, ?_⟩
  rintro email rfl
  rw [← hw.routes.latest]
  rcases exec_store he with ⟨order, -, hr, -⟩ | ⟨-, hr, -⟩ | ⟨-, hr, -⟩
  · exact mem_of_choice (Except.ok.inj hr).symm
  · cases hr
  · cases hr

theorem session_ends : Ends (bridge cfg calls) D t (Gating user w₀) (onTask (.getClient user))
    fun client w => Gating user w₀ w ∧ client = w₀.clients.lookup user := by
  refine .call fun w a r w' hw _ he => ?_
  have he : exec t (.mk (.task (.getClient user))) a w = some (r, w') := he
  refine ⟨Cmd.ungating.step rfl hw he, ?_⟩
  obtain ⟨-, rfl, -⟩ := exec_task he
  rw [← hw.routes.clients]
  rfl

theorem setSeen_ends {account : Account} {email : EmailId}
    (hclient : w₀.clients.lookup user = some account)
    (hemail : email ∈ w₀.store.latestEmailIds room) :
    Ends (bridge cfg calls) D t (Gating user w₀) (onJmap account (.setSeen email false))
      (onResult (fun _ => GatePending user room w₀) fun _ => Gating user w₀) := by
  refine .call fun w a r w' hw _ he => ?_
  have he : exec t (.mk (.jmap account (.setSeen email false))) a w = some (r, w') := he
  have hroutes := (setSeen_exec he).1
  rcases exec_reply he with ⟨reply, v, rfl, rfl, hv⟩ | ⟨hreply, err, rfl⟩
  · obtain ⟨mail, rfl⟩ := exec_jmap he
    obtain ⟨l, hl, htrailed⟩ := hw.trail
    refine ⟨hw.routes.trans hroutes, hw.users, _, l,
      by rw [hl], ?_, htrailed.gated, htrailed.absent⟩
    match reply, hv with
    | .marked, _ => exact .inl ⟨account, email, hclient, hemail, rfl, rfl⟩
    | .updated [], _ => exact .inr ⟨account, email, rfl, rfl⟩
  · have hrefused : ¬ (⟨t, .jmap account (.setSeen email false), a⟩ : Record).refusal := by
      rintro ⟨_, _, -, ha⟩
      exact hreply _ ha
    obtain ⟨mail, hw'⟩ := exec_jmap he
    exact hw.step he hroutes
      (by rw [hw']) (fun _ h => by rwa [hw'] at h) (fun _ => by simp) hrefused

theorem save_ends : Ends (bridge cfg calls) D t (GatePending user room w₀)
    (onStore (.saveJmapState user (.markedUnread room) "1")) fun _ => Gating user w₀ := by
  refine .call fun w a r w' hw _ he => ?_
  have he : exec t (.mk (.store (.saveJmapState user (.markedUnread room) "1"))) a w =
    some (r, w') := he
  obtain ⟨x, l, hl, hx, hgated, habsent⟩ := hw.trail
  have hroutes := (sameMail_exec (c := .store (.saveJmapState user (.markedUnread room) "1")) rfl
    he).toSameRoutes
  have hrun : w'.store.users = w.store.users ∧ ∀ room', w'.gated user room' →
      w.gated user room' ∨ room' = room ∧ a ≠ .failed ∧ w.store.hasUser user := by
    unfold World.gated
    rcases exec_run he with hstore | ⟨q, order, hq, ha, hstore⟩
    · rw [hstore]
      exact ⟨rfl, fun _ h => .inl h⟩
    · cases hq
      rw [hstore]
      simp only [StoreCmd.run, Store.referring]
      split
      case isFalse => exact ⟨rfl, fun _ h => .inl h⟩
      case isTrue huser =>
        refine ⟨rfl, fun room' h => ?_⟩
        by_cases hroom : room' = room
        · exact .inr ⟨hroom, ha, huser⟩
        · have hkey : (user, StateKey.markedUnread room') ≠ (user, .markedUnread room) := by
            simpa using hroom
          rw [AList.lookup_insert_ne hkey] at h
          exact .inl h
  have huser : w.store.hasUser user = w₀.store.hasUser user := by
    unfold Store.hasUser
    rw [hw.users]
  refine ⟨hw.routes.trans hroutes, hrun.1.trans hw.users, _ :: x :: l,
    by rw [exec_trace he, hl, List.cons_append, List.cons_append], .pair rfl hx hgated, ?_⟩
  intro room' hgate
  rcases hrun.2 room' hgate with hgate | ⟨rfl, ha, hexists⟩
  · refine (habsent room' hgate).imp_right ?_
    rintro ⟨s, hs, hgates⟩
    exact ⟨s, List.mem_cons_of_mem _ (List.mem_cons_of_mem _ hs), hgates⟩
  · exact .inr ⟨_, List.mem_cons_self, rfl, ha, huser ▸ hexists⟩

theorem syncMarkedUnread_ends {unread : Bool} : Ends (bridge cfg calls) D t (Gating user w₀)
    (syncMarkedUnread user room unread) fun _ => Gating user w₀ := by
  refine .andThenAlways (.attemptAlways (Does.gating (.store rfl))) (fun gated => ?_) fun _ h => h
  split
  · exact .pure fun _ h => h
  · exact Does.gating (.store rfl)
  · refine .bind latestEmail_ends fun r => ?_
    match r with
    | .error _ => exact .pure fun _ h => h.1
    | .ok none => exact .pure fun _ h => h.1
    | .ok (some email) =>
      by_cases hemail : email ∈ w₀.store.latestEmailIds room
      case neg => exact fun w _ _ hw _ => absurd (hw.2 email rfl) hemail
      refine Ends.weaken (P := Gating user w₀) ?_ (fun _ h => h.1) fun _ _ h => h
      refine .bind (.lift (F := fun _ _ => False) session_ends) fun client => ?_
      match client with
      | .error _ => exact .pure fun _ h => h.elim
      | .ok none => exact .pure fun _ h => h.1
      | .ok (some account) =>
        by_cases hclient : w₀.clients.lookup user = some account
        case neg => exact fun w _ _ hw _ => absurd hw.2.symm hclient
        refine Ends.weaken (P := Gating user w₀) ?_ (fun _ h => h.1) fun _ _ h => h
        refine .bind (setSeen_ends hclient hemail) fun r => ?_
        cases r with
        | error _ => exact .pure fun _ h => h
        | ok _ => exact save_ends

theorem handleMarkedUnread_ends {joined : JoinedRooms} : Ends (bridge cfg calls) D t
    (Gating user w₀) (handleMarkedUnread user joined) fun _ => Gating user w₀ := by
  refine .forEach (J := fun _ => Gating user w₀) (fun data rest => ?_) joined
  unfold handleRoomData
  split
  · exact .pure fun _ h => h
  · exact .bind syncMarkedUnread_ends fun _ => .pure fun _ h => h

/-! The next report of the flag. -/

theorem asked_stays {P : Record → Prop} {c : Cmd} :
    Ends (bridge cfg calls) D t (fun w => ∃ x ∈ w.trace, P x) (Prog.call (.mk c)) fun _ w =>
      ∃ x ∈ w.trace, P x := by
  refine .call fun w a r w' hw _ he => ?_
  have he : exec t (.mk c) a w = some (r, w') := he
  obtain ⟨x, hx, hP⟩ := hw
  exact ⟨x, by rw [exec_trace he]; exact List.mem_cons_of_mem _ hx, hP⟩

theorem syncMarkedUnread_retries {account : Account} (hgate : w₀.gated user room = false)
    (hclient : w₀.clients.lookup user = some account)
    (hlatest : w₀.store.latestEmailIds room ≠ []) :
    Ends (bridge cfg calls) storeWorks t (· = w₀) (syncMarkedUnread user room true) fun _ w =>
      ∃ x ∈ w.trace, ∃ email ∈ w₀.store.latestEmailIds room,
        x.cmd = .jmap account (.setSeen email false) := by
  have hread : Ends (bridge cfg calls) storeWorks t (· = w₀)
      (onStore (.getJmapState user (.markedUnread room))) fun r w =>
        r = .ok none ∧ SameRoutes w₀ w := by
    refine .call fun w a r w' hw hd he => ?_
    have he :
        exec t (.mk (.store (.getJmapState user (.markedUnread room)))) a w = some (r, w') := he
    subst hw
    obtain ⟨order, rfl, -⟩ := exec_carriedOut hd he
    exact ⟨congrArg Except.ok (Option.isSome_eq_false_iff.mp hgate |> Option.isNone_iff_eq_none.mp),
      (sameMail_exec (c := .store (.getJmapState user (.markedUnread room))) rfl he).toSameRoutes⟩
  have hfind : Ends (bridge cfg calls) storeWorks t (SameRoutes w₀)
      (onStore (.getLatestEmailIdByRoom room)) fun r w =>
        (∃ email ∈ w₀.store.latestEmailIds room, r = .ok (some email)) ∧ SameRoutes w₀ w := by
    refine .call fun w a r w' hw hd he => ?_
    have he : exec t (.mk (.store (.getLatestEmailIdByRoom room))) a w = some (r, w') := he
    refine ⟨?_, hw.trans (sameMail_exec (c := .store (.getLatestEmailIdByRoom room)) rfl
      he).toSameRoutes⟩
    obtain ⟨order, rfl, -⟩ := exec_carriedOut hd he
    rw [← hw.latest] at hlatest ⊢
    obtain ⟨first, rest, hcons⟩ := List.exists_cons_of_ne_nil hlatest
    obtain ⟨email, hemail⟩ : ∃ email, (w.store.latestEmailIds room)[order.headD 0]?.or
        (w.store.latestEmailIds room).head? = some email := by
      refine Option.isSome_iff_exists.mp ?_
      rw [hcons]
      simp
    exact ⟨email, mem_of_choice hemail, congrArg Except.ok hemail⟩
  have hsession : Ends (bridge cfg calls) storeWorks t (SameRoutes w₀) (onTask (.getClient user))
      fun client _ => client = some account := by
    refine .call fun w a r w' hw _ he => ?_
    have he : exec t (.mk (.task (.getClient user))) a w = some (r, w') := he
    obtain ⟨-, rfl, -⟩ := exec_task he
    rw [← hclient, ← hw.clients]
    rfl
  refine .bind (.attempt (F := fun _ _ => False) hread) fun gated => ?_
  match gated with
  | .error _ => exact .pure fun _ h => h.elim
  | .ok (.error _) => exact fun _ _ _ h _ => nomatch h.1
  | .ok (.ok (some _)) => exact fun _ _ _ h _ => nomatch h.1
  | .ok (.ok none) =>
    refine .bind (hfind.weaken (fun _ h => h.2) fun _ _ h => h) fun r => ?_
    match r with
    | .error _ =>
      rintro _ _ _ ⟨⟨_, _, heq⟩, _⟩ _
      cases heq
    | .ok none =>
      rintro _ _ _ ⟨⟨_, _, heq⟩, _⟩ _
      cases heq
    | .ok (some email) =>
      by_cases hemail : email ∈ w₀.store.latestEmailIds room
      case neg =>
        rintro _ _ _ ⟨⟨_, hmem, heq⟩, _⟩ _
        cases heq
        exact absurd hmem hemail
      refine .bind
        ((Ends.lift (F := fun _ _ => False) hsession).weaken (fun _ h => h.2) fun _ _ h => h)
        fun client => ?_
      match client with
      | .error _ => exact .pure fun _ h => h.elim
      | .ok none => exact fun _ _ _ h _ => nomatch h
      | .ok (some account') =>
        by_cases haccount : account' = account
        case neg => exact fun _ _ _ h _ => absurd (Option.some.inj h) haccount
        subst haccount
        refine .andThenAlways (.call fun w a r w' _ _ he => ?_) (fun _ => asked_stays) fun _ h => h
        have he : exec t (.mk (.jmap account' (.setSeen email false))) a w = some (r, w') := he
        exact ⟨_, by rw [exec_trace he]; exact List.mem_cons_self, email, hemail, rfl⟩

end

/-- The gates of a `/sync` response are stored on success only, if and only if no request is
refused whose gate is then saved. -/
theorem gate_on_success_iff (cfg : Config) (calls : Nat → Call) (user : UserId)
    (joined : JoinedRooms) (w : World) (t : Nat) (w' : World)
    (h : Eval (bridge cfg calls) {} t (handleMarkedUnread user joined) w () w') :
    GateOnSuccess cfg calls user w w' ↔ RefusalsUnsaved user w w' := by
  have hgating : Gating user w w' := handleMarkedUnread_ends w () w' .start h
  obtain ⟨l, hl, hgated, habsent⟩ := hgating.trail
  have hunique : ∀ l', w'.trace = l' ++ w.trace → l' = l :=
    fun l' hl' => List.append_cancel_right (hl'.symm.trans hl)
  constructor
  · intro hgates l' hl' l₁ s x l₂ hsplit hrefused
    obtain rfl := hunique l' hl'
    obtain ⟨room, hs⟩ := hgated.after_refusal hsplit hrefused
    refine Decidable.byContradiction fun hsaved => ?_
    simp only [not_or, Bool.not_eq_false] at hsaved
    obtain ⟨x', l₃, hx, hclears⟩ :=
      hgates.stored l' hl l₁ s (x :: l₂) room hsplit ⟨hs, hsaved.1, hsaved.2⟩
    obtain ⟨rfl, -⟩ := List.cons.inj hx
    obtain ⟨_, _, _, _, _, hmarked⟩ := hclears
    obtain ⟨_, _, _, hanswer⟩ := hrefused
    rw [hmarked] at hanswer
    cases hanswer
  · intro hunsaved
    refine ⟨fun l' hl' l₁ s l₂ room hsplit hs => ?_, fun l' hl' => ?_, ?_⟩
    · obtain rfl := hunique l' hl'
      obtain ⟨x, l₃, rfl, hclears | hrefused⟩ := hgated.before_save hsplit hs.cmd
      · exact ⟨x, l₃, rfl, hclears⟩
      · rcases hunsaved l' hl l₁ s x l₃ hsplit hrefused with hfailed | huser
        · exact absurd hfailed hs.done
        · rw [hs.user] at huser
          cases huser
    · obtain rfl := hunique l' hl'
      exact habsent
    · intro room account t w₁ r w₂ hgate hclient hlatest he
      exact syncMarkedUnread_retries hgate hclient hlatest w₁ r w₂ rfl he

theorem gate_on_success_marked : ∃ w', Eval (bridge {} fun _ => .worker) {} 0
    (handleMarkedUnread reader.user flagged) twoSeen () w' ∧
    GateOnSuccess {} (fun _ => .worker) reader.user twoSeen w' := by
  have hclean : (replay (bridge {} fun _ => .worker) 0
      [some .done, some .done, some .done, some (.reply .marked), some .done]
      (handleMarkedUnread reader.user flagged) twoSeen).map
        (fun q => q.2.trace.all fun x => x.answer != .reply (.updated [])) = some true := by
    decide +kernel
  obtain ⟨⟨⟨⟩, w'⟩, hreplay, hall⟩ := Option.map_eq_some_iff.mp hclean
  have h : Eval (bridge {} fun _ => .worker) {} 0 (handleMarkedUnread reader.user flagged) twoSeen
      () w' := eval_of_replay (replayMeets_of_forall (fun _ _ _ => trivial) _ _ _) hreplay
  refine ⟨w', h, (gate_on_success_iff {} _ reader.user flagged twoSeen 0 w' h).mpr ?_⟩
  rintro l hl l₁ s x l₂ rfl ⟨_, _, _, hrefused⟩
  have hx := List.all_eq_true.mp hall x (by rw [hl]; simp)
  rw [hrefused] at hx
  exact absurd hx (by decide)

/-- The server refuses to update the email, and the gate is stored all the same. -/
theorem gate_after_refusal : ¬ ∀ t w', Eval (bridge {} fun _ => .worker) {} t
    (handleMarkedUnread reader.user flagged) twoSeen () w' →
    GateOnSuccess {} (fun _ => .worker) reader.user twoSeen w' := by
  intro hgates
  have hends : (replay (bridge {} fun _ => .worker) 0
      [some .done, some .done, some .done, some (.reply (.updated [])), some .done]
      (handleMarkedUnread reader.user flagged) twoSeen).map (fun q => q.2.trace.take 2) =
        some [⟨0, .store (.saveJmapState "@a:localhost" (.markedUnread "!r") "1"), .done⟩,
          ⟨0, .jmap "a" (.setSeen "e2" false), .reply (.updated [])⟩] := by
    decide +kernel
  obtain ⟨⟨⟨⟩, w'⟩, hreplay, htrace⟩ := Option.map_eq_some_iff.mp hends
  have h :=
    hgates 0 w' (eval_of_replay (replayMeets_of_forall (fun _ _ _ => trivial) _ _ _) hreplay)
  have hsplit := (List.take_append_drop 2 w'.trace).symm
  rw [htrace] at hsplit
  obtain ⟨x, l₃, hx, _, _, _, _, _, hmarked⟩ :=
    h.stored w'.trace (List.append_nil _).symm [] _ _ "!r"
    hsplit ⟨rfl, by decide, by decide +kernel⟩
  obtain ⟨rfl, -⟩ := List.cons.inj hx
  cases hmarked

end JmapBridge
