import JmapBridge.Model.Puppet
import JmapBridge.Property.LatestEmail

/-! The echo of a read state: an email that loses `$seen` makes the poller flag its room
unread as the user, and the puppet's `/sync` loop acts on that flag. -/

namespace JmapBridge

open Effect Sql

/-- The flag that the homeserver has set on a room of the user. -/
def Record.flags (user : UserId) (r : Record) : Option (RoomId × Bool) :=
  match r.cmd, r.answer with
  | .matrix (.setMarkedUnread u room unread _), .done =>
    if u = user then some (room, unread) else none
  | .matrix (.setMarkedUnread u room unread _), .lost _ =>
    if u = user then some (room, unread) else none
  | _, _ => none

/-- A `/sync` response that tells of no flag but those set. -/
def Tells (user : UserId) (l : List Record) (joined : JoinedRooms) : Prop :=
  ∀ room ∈ joined, ∀ unread, room.2.bind parseMarkedUnread = some unread →
    ∃ r ∈ l, r.flags user = some (room.1, unread)

/-- The reactions to the email's new read state: the poller mirrors it, and the puppet's loop
handles a response that tells of the flag. -/
def ReadEcho (cfg : Config) (calls : Nat → Call) (p : Poller) (email : Email)
    (w w' : World) : Prop :=
  ∃ t t' w₁ l joined, Eval (bridge cfg calls) {} t (syncReadState p email) w () w₁ ∧
    w₁.trace = l ++ w.trace ∧ Tells p.user l joined ∧
    Eval (bridge cfg calls) {} t' (handleMarkedUnread p.user joined) w₁ () w'

/-- The email was mirrored as read, the user's puppet and session are there, and the latest
email of the room is another one, which is seen. -/
def World.echoes (w : World) (p : Poller) (email : Email) (e : EmailId) : Prop :=
  ∃ thread row account x, email.threadId = some thread ∧
    w.store.threadMapping.lookup thread = some row ∧
    (w.store.jmapState.lookup (p.user, .readSynced e)).isSome ∧
    (w.store.jmapState.lookup (p.user, .matrixPuppetToken)).isSome ∧
    w.clients.lookup p.user = some account ∧ x ∈ w.store.latestEmailIds row.roomId ∧
    (account, x) ≠ (p.account, e) ∧ w.mail.seen account x = true

/-! What stays. -/

/-- The sessions and the mappings are the same. -/
structure SameRoutes (w w' : World) : Prop where
  clients : w'.clients = w.clients
  threads : w'.store.threadMapping = w.store.threadMapping
  messages : w'.store.messageMapping = w.store.messageMapping

/-- The mail is the same as well. -/
structure SameMail (w w' : World) : Prop extends SameRoutes w w' where
  mail : w'.mail = w.mail

/-- The commands that write no mail, no mapping and no session. -/
def Cmd.offMail : Cmd → Bool
  | jmap _ _ => false
  | task (.removeClient _) => false
  | c => c.offLatest

section

variable {cfg : Config} {calls : Nat → Call} {p : Poller} {t : Nat} {email : Email} {e : EmailId}
  {w w₁ w₂ w' : World} {α : Type} {user : UserId} {room : RoomId}

theorem SameRoutes.trans (h : SameRoutes w w₁) (h' : SameRoutes w₁ w₂) : SameRoutes w w₂ :=
  ⟨h'.clients.trans h.clients, h'.threads.trans h.threads, h'.messages.trans h.messages⟩

theorem SameMail.refl : SameMail w w := ⟨⟨rfl, rfl, rfl⟩, rfl⟩

theorem SameMail.trans (h : SameMail w w₁) (h' : SameMail w₁ w₂) : SameMail w w₂ :=
  ⟨h.toSameRoutes.trans h'.toSameRoutes, h'.mail.trans h.mail⟩

theorem SameRoutes.latest (h : SameRoutes w w') :
    w'.store.latestEmailIds room = w.store.latestEmailIds room := by
  simp only [Store.latestEmailIds, h.threads, h.messages]

theorem sameMail_exec {c : Cmd} {a : Answer} {b : c.Ans} (hc : c.offMail)
    (h : exec t (.mk c) a w = some (b, w')) : SameMail w w' := by
  cases c with
  | store c =>
    have hmappings := mappings_run (c := c) hc
    rcases exec_store h with ⟨order, -, -, rfl⟩ | ⟨-, -, rfl⟩ | ⟨-, -, rfl⟩
    · exact ⟨⟨rfl, (hmappings _ _ _).1, (hmappings _ _ _).2⟩, rfl⟩
    · exact ⟨⟨rfl, rfl, rfl⟩, rfl⟩
    · exact ⟨⟨rfl, (hmappings _ _ _).1, (hmappings _ _ _).2⟩, rfl⟩
  | matrix c =>
    obtain ⟨⟨issued, rfl⟩, -⟩ := exec_matrix h
    exact ⟨⟨rfl, rfl, rfl⟩, rfl⟩
  | jmap account c => cases hc
  | task c =>
    obtain ⟨-, -, rfl⟩ := exec_task h
    cases c with
    | removeClient _ => cases hc
    | _ => exact ⟨⟨rfl, rfl, rfl⟩, rfl⟩

theorem sameMail_eval {x : Prog Op α} {a : α} (hx : Does (fun c => c.offMail) x)
    (h : Eval (bridge cfg calls) {} t x w a w') : SameMail w w' := by
  refine h.only (P := fun w' => SameMail w w') (fun β o c w₁ b w₂ ho _ he hw => ?_) hx .refl
  obtain ⟨cmd⟩ := o
  exact hw.trans (sameMail_exec ho he)

theorem ReadStateCmd.offMail {email : Option EmailId} {c : Cmd} (h : ReadStateCmd user email c) :
    c.offMail := by
  cases h <;> rfl

theorem syncReadState_sameMail (h : Eval (bridge cfg calls) {} t (syncReadState p email) w () w') :
    SameMail w w' :=
  sameMail_eval (syncReadState_does.mono fun _ => ReadStateCmd.offMail) h

/-! The flag of the poller. -/

/-- Nothing done since sets a flag. -/
def Unflagged (user : UserId) (w w' : World) : Prop :=
  ∃ l, w'.trace = l ++ w.trace ∧ ∀ r ∈ l, r.flags user = none

def Cmd.unflagging : Cmd → Bool
  | matrix (.setMarkedUnread _ _ _ _) => false
  | _ => true

theorem unflagged_eval {x : Prog Op α} {a : α} (hx : Does (fun c => c.unflagging) x)
    (h : Eval (bridge cfg calls) {} t x w a w') : Unflagged user w w' := by
  refine h.only (P := fun w' => Unflagged user w w') (fun β o c w₁ b w₂ ho _ he hw => ?_) hx
    ⟨[], rfl, by simp⟩
  obtain ⟨cmd⟩ := o
  have he : exec t (.mk cmd) c w₁ = some (b, w₂) := he
  obtain ⟨l, htrace, hl⟩ := hw
  refine ⟨⟨t, cmd, c⟩ :: l, by rw [exec_trace he, htrace, List.cons_append], fun r hr => ?_⟩
  rcases List.mem_cons.mp hr with rfl | hr
  · have hcmd : cmd.unflagging := ho
    unfold Record.flags
    split <;> simp_all [Cmd.unflagging]
  · exact hl r hr

/-- The room may be flagged unread for the email. -/
def World.flagging (w : World) (p : Poller) (email : Email) (e : EmailId) (room : RoomId) : Prop :=
  ∃ thread row, email.threadId = some thread ∧
    w.store.threadMapping.lookup thread = some row ∧ row.roomId = room ∧
    (w.store.jmapState.lookup (p.user, .readSynced e)).isSome ∧
    (w.store.jmapState.lookup (p.user, .matrixPuppetToken)).isSome

theorem read_eval {c : StoreCmd} {r : Except Err c.Ans}
    (hc : ∀ now order s, (c.run now order s).2 = s)
    (h : Eval (bridge cfg calls) {} t (onStore c) w r w') : w'.store = w.store ∧
      ∀ v, r = .ok v → ∃ order, (c.run w.now order w.store).1 = .ok v := by
  obtain ⟨a, -, he⟩ := Eval.call_iff.mp h
  have he : exec t (.mk (.store c)) a w = some (r, w') := he
  rcases exec_store he with ⟨order, -, rfl, rfl⟩ | ⟨-, rfl, rfl⟩ | ⟨-, rfl, rfl⟩
  · exact ⟨hc _ _ _, fun v hv => ⟨order, hv⟩⟩
  · exact ⟨rfl, by rintro v ⟨⟩⟩
  · exact ⟨hc _ _ _, by rintro v ⟨⟩⟩

theorem letSome_eval {x : Bridge (Option α)} {k : α → Task Unit} {u : Unit}
    (h : Eval (bridge cfg calls) {} t (letSome x k) w u w') :
    (∃ a w₁, Eval (bridge cfg calls) {} t x w (.ok (some a)) w₁ ∧
      Eval (bridge cfg calls) {} t (k a) w₁ u w') ∨
    ∃ r, Eval (bridge cfg calls) {} t x w r w' := by
  obtain ⟨r, w₁, hx, hk⟩ := Eval.bind_iff.mp h
  match r with
  | .ok (some a) => exact .inl ⟨a, w₁, hx, hk⟩
  | .ok none =>
    obtain ⟨-, rfl⟩ := Eval.pure_iff.mp hk
    exact .inr ⟨_, hx⟩
  | .error err =>
    obtain ⟨-, rfl⟩ := Eval.pure_iff.mp hk
    exact .inr ⟨_, hx⟩

/-- The records flag the room as unread, and no other. -/
def FlagsOnly (user : UserId) (room : RoomId) (w w' : World) : Prop :=
  ∃ l, w'.trace = l ++ w.trace ∧ ∀ r ∈ l, ∀ f, r.flags user = some f → f = (room, true)

theorem Unflagged.trans (h : Unflagged user w w₁) (h' : Unflagged user w₁ w₂) :
    Unflagged user w w₂ := by
  obtain ⟨l, htrace, hl⟩ := h
  obtain ⟨l', htrace', hl'⟩ := h'
  exact ⟨l' ++ l, by rw [htrace', htrace, List.append_assoc],
    fun r hr => (List.mem_append.mp hr).elim (hl' r) (hl r)⟩

theorem Unflagged.flagsOnly (h : Unflagged user w w₁) (h' : FlagsOnly user room w₁ w₂) :
    FlagsOnly user room w w₂ := by
  obtain ⟨l, htrace, hl⟩ := h
  obtain ⟨l', htrace', hl'⟩ := h'
  refine ⟨l' ++ l, by rw [htrace', htrace, List.append_assoc], fun r hr f hf => ?_⟩
  rcases List.mem_append.mp hr with hr | hr
  · exact hl' r hr f hf
  · rw [hl r hr] at hf
    cases hf

theorem mirrorUnseen_flags {token : String}
    (h : Eval (bridge cfg calls) {} t (mirrorUnseen p e room token) w () w') :
    FlagsOnly p.user room w w' := by
  obtain ⟨r, w₁, hflag, hrest⟩ := Eval.bind_iff.mp h
  obtain ⟨a, -, he⟩ := Eval.call_iff.mp hflag
  have he :
      exec t (.mk (.matrix (.setMarkedUnread p.user room true token))) a w = some (r, w₁) := he
  have hrecord :
      ∀ f, Record.flags p.user ⟨t, .matrix (.setMarkedUnread p.user room true token), a⟩ =
      some f → f = (room, true) := by
    intro f hf
    cases a with
    | done => simpa [Record.flags, eq_comm] using hf
    | lost s => simpa [Record.flags, eq_comm] using hf
    | _ => cases hf
  have hafter : Unflagged p.user w₁ w' := by
    cases r with
    | error _ =>
      obtain ⟨-, rfl⟩ := Eval.pure_iff.mp hrest
      exact ⟨[], rfl, by simp⟩
    | ok _ => exact unflagged_eval (.bind (.result (.store rfl)) fun _ => .pure) hrest
  obtain ⟨l, htrace, hl⟩ := hafter
  refine ⟨l ++ [_], by rw [htrace, exec_trace he, List.append_assoc]; rfl, fun r hr f hf => ?_⟩
  rcases List.mem_append.mp hr with hr | hr
  · rw [hl r hr] at hf
    cases hf
  · obtain rfl := List.mem_singleton.mp hr
    exact hrecord f hf

theorem syncReadState_flags (hid : email.id = some e)
    (hunseen : email.keywords.contains "$seen" = false)
    (h : Eval (bridge cfg calls) {} t (syncReadState p email) w () w') :
    Unflagged p.user w w' ∨ ∃ room, w.flagging p email e room ∧ FlagsOnly p.user room w w' := by
  rw [syncReadState, hid] at h
  obtain ⟨synced, w₁, hsynced, hrest⟩ := Eval.bind_iff.mp h
  have hstate : Unflagged p.user w w₁ := unflagged_eval (.result (.store rfl)) hsynced
  obtain ⟨hstore₁, hlookup₁⟩ := read_eval (fun _ _ _ => rfl) hsynced
  rw [hunseen] at hrest
  split at hrest
  · obtain ⟨-, rfl⟩ := Eval.pure_iff.mp hrest
    exact .inl hstate
  · next hgate =>
    rcases letSome_eval hrest with ⟨token, w₂, htoken, hrest⟩ | ⟨r, htoken⟩
    case inr => exact .inl (hstate.trans (unflagged_eval (.store rfl) htoken))
    have hbefore : Unflagged p.user w w₂ := hstate.trans (unflagged_eval (.store rfl) htoken)
    obtain ⟨hstore₂, hlookup₂⟩ := read_eval (fun _ _ _ => rfl) htoken
    split at hrest
    · obtain ⟨-, rfl⟩ := Eval.pure_iff.mp hrest
      exact .inl hbefore
    · next thread hthread =>
      rcases letSome_eval hrest with ⟨row, w₃, hrow, hrest⟩ | ⟨r, hrow⟩
      case inr => exact .inl (hbefore.trans (unflagged_eval (.store rfl) hrow))
      have hbefore : Unflagged p.user w w₃ := hbefore.trans (unflagged_eval (.store rfl) hrow)
      obtain ⟨-, hlookup₃⟩ := read_eval (fun _ _ _ => rfl) hrow
      refine .inr ⟨row.roomId, ⟨thread, row, hthread, ?_, rfl, ?_, ?_⟩,
        hbefore.flagsOnly (mirrorUnseen_flags hrest)⟩
      · obtain ⟨_, hrow⟩ := hlookup₃ (some row) rfl
        rw [hstore₂, hstore₁] at hrow
        exact Except.ok.inj hrow
      · rcases synced with err | (_ | v)
        · exact absurd rfl hgate
        · exact absurd rfl hgate
        · obtain ⟨_, hv⟩ := hlookup₁ (some v) rfl
          rw [Except.ok.inj hv]
          rfl
      · obtain ⟨_, hv⟩ := hlookup₂ (some token) rfl
        rw [hstore₁] at hv
        rw [Except.ok.inj hv]
        rfl

/-! The reaction of the puppet's loop. -/

/-- The mail may have changed, but for the latest email of the room, which is unseen now. -/
structure Unseen (user : UserId) (room : RoomId) (w w' : World) : Prop extends SameRoutes w w' where
  seen : ∀ account x, w'.mail.seen account x = w.mail.seen account x ∨
    w.clients.lookup user = some account ∧ x ∈ w.store.latestEmailIds room ∧
      w'.mail.seen account x = false

theorem SameMail.unseen (h : SameMail w w') : Unseen user room w w' :=
  ⟨h.toSameRoutes, fun account x => .inl (by rw [h.mail])⟩

theorem Unseen.around (h : SameMail w w₁) (h' : Unseen user room w₁ w₂) (h'' : SameMail w₂ w') :
    Unseen user room w w' := by
  refine ⟨(h.toSameRoutes.trans h'.toSameRoutes).trans h''.toSameRoutes, fun account x => ?_⟩
  have hseen := h'.seen account x
  rwa [h.mail, h.clients, h.latest, ← h''.mail] at hseen

theorem setSeen_exec {account : Account} {x : EmailId} {a : Answer} {b : Except Err Unit}
    (h : exec t (.mk (.jmap account (.setSeen x false))) a w = some (b, w')) :
    SameRoutes w w' ∧ ∀ account' x', w'.mail.seen account' x' = w.mail.seen account' x' ∨
      account' = account ∧ x' = x ∧ w'.mail.seen account' x' = false := by
  obtain ⟨w₁, hp, rfl⟩ := exec_jmap_perform h
  have heffect : ∀ r account' x',
      ((JmapCmd.setSeen x false).effect account r w.mail).seen account' x' =
        w.mail.seen account' x' ∨ account' = account ∧ x' = x ∧
          ((JmapCmd.setSeen x false).effect account r w.mail).seen account' x' = false := by
    intro r account' x'
    cases r with
    | marked =>
      by_cases hx : account' = account ∧ x' = x
      · exact .inr ⟨hx.1, hx.2, if_pos hx⟩
      · exact .inl (if_neg hx)
    | _ => exact .inl rfl
  cases a with
  | failed =>
    obtain ⟨rfl, rfl⟩ := Prod.mk.inj (Option.some.inj hp)
    exact ⟨⟨rfl, rfl, rfl⟩, fun _ _ => .inl rfl⟩
  | cannotCalculateChanges =>
    obtain ⟨rfl, rfl⟩ := Prod.mk.inj (Option.some.inj hp)
    exact ⟨⟨rfl, rfl, rfl⟩, fun _ _ => .inl rfl⟩
  | reply r =>
    obtain ⟨v, -, he⟩ := Option.map_eq_some_iff.mp hp
    obtain ⟨rfl, rfl⟩ := Prod.mk.inj he
    exact ⟨⟨rfl, rfl, rfl⟩, heffect r⟩
  | lostReply r =>
    obtain ⟨v, -, he⟩ := Option.map_eq_some_iff.mp hp
    obtain ⟨rfl, rfl⟩ := Prod.mk.inj he
    exact ⟨⟨rfl, rfl, rfl⟩, heffect r⟩
  | _ => cases hp

theorem getLatest_eval {r : Except Err (Option EmailId)}
    (h : Eval (bridge cfg calls) {} t (onStore (.getLatestEmailIdByRoom room)) w r w') :
    SameMail w w' ∧ ∀ x, r = .ok (some x) → x ∈ w.store.latestEmailIds room := by
  refine ⟨sameMail_eval (.store rfl) h, ?_⟩
  rintro x rfl
  obtain ⟨-, hrun⟩ := read_eval (fun _ _ _ => rfl) h
  obtain ⟨order, hx⟩ := hrun (some x) rfl
  exact mem_of_choice (Except.ok.inj hx)

theorem getClient_eval {r : Option Account}
    (h : Eval (bridge cfg calls) {} t (onTask (.getClient user)) w r w') :
    SameMail w w' ∧ r = w.clients.lookup user := by
  refine ⟨sameMail_eval (.task rfl) h, ?_⟩
  obtain ⟨a, -, he⟩ := Eval.call_iff.mp h
  have he : exec t (.mk (.task (.getClient user))) a w = some (r, w') := he
  obtain ⟨-, rfl, -⟩ := exec_task he
  rfl

theorem markUnseen_eval {account : Account} {x : EmailId} {r : Except Err Unit}
    (hclient : w.clients.lookup user = some account) (hx : x ∈ w.store.latestEmailIds room)
    (h : Eval (bridge cfg calls) {} t (Act.andThen (onJmap account (.setSeen x false)) fun _ =>
      onStore (.saveJmapState user (.markedUnread room) "1")) w r w') : Unseen user room w w' := by
  have hmarked : ∀ {r w₁}, Eval (bridge cfg calls) {} t (onJmap account (.setSeen x false)) w r w₁ →
      Unseen user room w w₁ := by
    intro r w₁ h
    obtain ⟨a, -, he⟩ := Eval.call_iff.mp h
    have he : exec t (.mk (.jmap account (.setSeen x false))) a w = some (r, w₁) := he
    obtain ⟨hroutes, hseen⟩ := setSeen_exec he
    refine ⟨hroutes, fun account' x' => (hseen account' x').imp_right ?_⟩
    rintro ⟨rfl, rfl, hfalse⟩
    exact ⟨hclient, hx, hfalse⟩
  rcases Eval.andThen_iff.mp h with ⟨_, w₁, hset, hsave⟩ | ⟨_, hset, -⟩
  · exact .around .refl (hmarked hset) (sameMail_eval (.store rfl) hsave)
  · exact hmarked hset

theorem syncMarkedUnread_eval {unread : Bool} {r : Except Err Unit}
    (h : Eval (bridge cfg calls) {} t (syncMarkedUnread user room unread) w r w') :
    Unseen user room w w' := by
  rcases Eval.andThen_iff.mp h with ⟨gated, w₁, hgate, hrest⟩ | ⟨_, hgate, -⟩
  case inr => exact (sameMail_eval (.attempt (.store rfl)) hgate).unseen
  have hread : SameMail w w₁ := sameMail_eval (.attempt (.store rfl)) hgate
  split at hrest
  · obtain ⟨-, rfl⟩ := Eval.ok_iff.mp hrest
    exact hread.unseen
  · exact (hread.trans (sameMail_eval (.store rfl) hrest)).unseen
  · rcases Eval.andThen_iff.mp hrest with ⟨latest, w₂, hlatest, hrest⟩ | ⟨_, hlatest, -⟩
    case inr => exact (hread.trans (getLatest_eval hlatest).1).unseen
    obtain ⟨hquery, hfound⟩ := getLatest_eval hlatest
    cases latest with
    | none =>
      obtain ⟨-, rfl⟩ := Eval.ok_iff.mp hrest
      exact (hread.trans hquery).unseen
    | some x =>
      rcases Eval.andThen_iff.mp hrest with ⟨client, w₃, hclient, hrest⟩ | ⟨_, hclient, -⟩
      case inr =>
        exact ((hread.trans hquery).trans (sameMail_eval (.lift (.task rfl)) hclient)).unseen
      obtain ⟨client', hclient, heq⟩ := Eval.lift_iff.mp hclient
      obtain rfl := Except.ok.inj heq
      obtain ⟨hsession, hsame⟩ := getClient_eval hclient
      have hbefore := (hread.trans hquery).trans hsession
      cases client with
      | none =>
        obtain ⟨-, rfl⟩ := Eval.ok_iff.mp hrest
        exact hbefore.unseen
      | some account =>
        have hlast : x ∈ w₃.store.latestEmailIds room := by
          rw [hsession.latest, hquery.latest]
          exact hfound x rfl
        exact .around hbefore
          (markUnseen_eval (by rw [hsession.clients, ← hsame]) hlast hrest) .refl

/-! The echo. -/

/-- The mail has changed at most on the latest emails of the rooms, which are unseen now. -/
structure Cleared (user : UserId) (rooms : RoomId → Prop) (w w' : World) : Prop
    extends SameRoutes w w' where
  seen : ∀ account x, w'.mail.seen account x = w.mail.seen account x ∨
    ∃ room, rooms room ∧ w.clients.lookup user = some account ∧
      x ∈ w.store.latestEmailIds room ∧ w'.mail.seen account x = false

theorem Cleared.trans {rooms : RoomId → Prop} (h : Cleared user rooms w w₁)
    (h' : Cleared user rooms w₁ w₂) : Cleared user rooms w w₂ := by
  refine ⟨h.toSameRoutes.trans h'.toSameRoutes, fun account x => ?_⟩
  rcases h'.seen account x with hsame | ⟨room, hroom, hclient, hlatest, hfalse⟩
  · rw [hsame]
    exact h.seen account x
  · rw [h.clients] at hclient
    rw [h.latest] at hlatest
    exact .inr ⟨room, hroom, hclient, hlatest, hfalse⟩

theorem Unseen.cleared {rooms : RoomId → Prop} (hroom : rooms room) (h : Unseen user room w w') :
    Cleared user rooms w w' :=
  ⟨h.toSameRoutes, fun account x => (h.seen account x).imp_right fun ⟨hclient, hlatest, hfalse⟩ =>
    ⟨room, hroom, hclient, hlatest, hfalse⟩⟩

theorem handleRoomData_eval {rooms : RoomId → Prop} {data : RoomId × Option (List AccountDataEvent)}
    (hroom : ∀ unread, data.2.bind parseMarkedUnread = some unread → rooms data.1)
    (h : Eval (bridge cfg calls) {} t (handleRoomData user data) w () w') :
    Cleared user rooms w w' := by
  unfold handleRoomData at h
  split at h
  · obtain ⟨-, rfl⟩ := Eval.pure_iff.mp h
    exact ⟨⟨rfl, rfl, rfl⟩, fun _ _ => .inl rfl⟩
  · next unread hunread =>
    obtain ⟨r, w₁, hsync, hr⟩ := Eval.bind_iff.mp h
    obtain ⟨-, rfl⟩ := Eval.pure_iff.mp hr
    exact (syncMarkedUnread_eval hsync).cleared (hroom unread hunread)

theorem handleMarkedUnread_eval {joined : JoinedRooms} {rooms : RoomId → Prop}
    (hrooms : ∀ room ∈ joined, ∀ unread, room.2.bind parseMarkedUnread = some unread → rooms room.1)
    (h : Eval (bridge cfg calls) {} t (handleMarkedUnread user joined) w () w') :
    Cleared user rooms w w' := by
  have hinduct := Eval.forEach_induct (J := fun rest w' => Cleared user rooms w w' ∧
      ∀ room ∈ rest, ∀ unread, room.2.bind parseMarkedUnread = some unread → rooms room.1)
    (fun data rest w₁ w₂ hJ hdata => ?_) h ⟨⟨⟨rfl, rfl, rfl⟩, fun _ _ => .inl rfl⟩, hrooms⟩
  · exact hinduct.1
  · obtain ⟨hcleared, hrest⟩ := hJ
    exact ⟨hcleared.trans (handleRoomData_eval (hrest data List.mem_cons_self) hdata),
      fun room hroom => hrest room (List.mem_cons_of_mem _ hroom)⟩

theorem ReadEcho.stays (hid : email.id = some e) (hunseen : email.keywords.contains "$seen" = false)
    (hquiet : ¬ w.echoes p email e) (h : ReadEcho cfg calls p email w w') :
    ∀ account x, (account, x) ≠ (p.account, e) →
      w'.mail.seen account x = w.mail.seen account x := by
  obtain ⟨t, t', w₁, l, joined, hmirror, htrace, htells, hhandle⟩ := h
  have hsame := syncReadState_sameMail hmirror
  have hflags : ∀ r ∈ l, ∀ room unread, r.flags p.user = some (room, unread) →
      w.flagging p email e room := by
    intro r hr room unread hf
    rcases syncReadState_flags hid hunseen hmirror with ⟨l', htrace', hl'⟩ | ⟨room', hroom, l',
      htrace', hl'⟩
    · obtain rfl := List.append_cancel_right (htrace.symm.trans htrace')
      rw [hl' r hr] at hf
      cases hf
    · obtain rfl := List.append_cancel_right (htrace.symm.trans htrace')
      obtain rfl := congrArg Prod.fst (hl' r hr _ hf)
      exact hroom
  have hcleared : Cleared p.user (w.flagging p email e) w₁ w' :=
    handleMarkedUnread_eval (fun room hroom unread hunread => ?_) hhandle
  · intro account x hother
    rcases hcleared.seen account x with heq | ⟨room, ⟨thread, row, hthread, hrow, rfl, hsynced,
      htoken⟩, hclient, hlatest, hfalse⟩
    · rw [heq, hsame.mail]
    · rw [hsame.clients] at hclient
      rw [hsame.latest] at hlatest
      rw [hfalse]
      cases hseen : w.mail.seen account x with
      | false => rfl
      | true => exact absurd ⟨thread, row, account, x, hthread, hrow, hsynced, htoken, hclient,
          hlatest, hother, hseen⟩ hquiet
  · obtain ⟨r, hr, hf⟩ := htells room hroom unread hunread
    exact hflags r hr _ _ hf

/-! An echo that reaches another email. -/

section

variable (cfg calls t)

theorem may_eval {c : Cmd} {a : Answer} {b : c.Ans} (h : c.perform t a w = some (b, w₁)) :
    Eval (bridge cfg calls) {} t (Prog.call (.mk c)) w b
      { w₁ with trace := ⟨t, c, a⟩ :: w₁.trace } := by
  refine Eval.call_iff.mpr ⟨a, trivial, ?_⟩
  change (c.perform t a w).map _ = _
  rw [h]
  rfl

/-- A statement may be answered with what it returns, and changes nothing else of interest. -/
theorem answered_eval {c : StoreCmd} {r : Except Err c.Ans} (order : List Nat)
    (hr : (c.run w.now order w.store).1 = r) :
    ∃ w', Eval (bridge cfg calls) {} t (onStore c) w r w' ∧
      w'.store = (c.run w.now order w.store).2 ∧ w'.clients = w.clients ∧ w'.mail = w.mail ∧
      w'.trace = ⟨t, .store c, .rows order⟩ :: w.trace := by
  have hp : (Cmd.store c).perform t (.rows order) w = some (r, (c.commit t order w).2) :=
    congrArg some (Prod.ext hr rfl)
  exact ⟨_, may_eval cfg calls t hp, rfl, rfl, rfl, rfl⟩

theorem letSome_intro {x : Bridge (Option α)} {k : α → Task Unit} {a : α} {u : Unit}
    (hx : Eval (bridge cfg calls) {} t x w (.ok (some a)) w₁)
    (hk : Eval (bridge cfg calls) {} t (k a) w₁ u w') :
    Eval (bridge cfg calls) {} t (letSome x k) w u w' := hx.bind hk

theorem mirrorUnseen_intro (p : Poller) (e : EmailId) (room : RoomId) (token : String) (w : World) :
    ∃ w' l, Eval (bridge cfg calls) {} t (mirrorUnseen p e room token) w () w' ∧
      w'.trace = l ++ w.trace ∧ ∃ r ∈ l, r.flags p.user = some (room, true) := by
  have hp : (Cmd.matrix (.setMarkedUnread p.user room true token)).perform t .done w =
      some (.ok (), w) := rfl
  obtain ⟨w₂, hdelete, -, -, -, htrace⟩ := answered_eval cfg calls t
    (c := .deleteJmapState p.user (.readSynced e)) [] rfl
  refine ⟨w₂, [⟨t, .store (.deleteJmapState p.user (.readSynced e)), .rows []⟩,
    ⟨t, .matrix (.setMarkedUnread p.user room true token), .done⟩],
    Eval.bind (may_eval cfg calls t hp) (Eval.bind hdelete .pure), htrace, _,
    List.mem_cons_of_mem _ List.mem_cons_self, by simp [Record.flags]⟩

theorem syncReadState_intro (hid : email.id = some e)
    (hunseen : email.keywords.contains "$seen" = false) (hroom : w.flagging p email e room) :
    ∃ w' l, Eval (bridge cfg calls) {} t (syncReadState p email) w () w' ∧
      w'.trace = l ++ w.trace ∧ ∃ r ∈ l, r.flags p.user = some (room, true) := by
  obtain ⟨thread, row, hthread, hrow, rfl, hsynced, htoken⟩ := hroom
  obtain ⟨synced, hsynced⟩ := Option.isSome_iff_exists.mp hsynced
  obtain ⟨token, htoken⟩ := Option.isSome_iff_exists.mp htoken
  obtain ⟨w₁, hread₁, hstore₁, -, -, htrace₁⟩ := answered_eval cfg calls t (w := w)
    (c := .getJmapState p.user (.readSynced e)) (r := .ok (some synced)) []
    (congrArg Except.ok hsynced)
  obtain ⟨w₂, hread₂, hstore₂, -, -, htrace₂⟩ := answered_eval cfg calls t (w := w₁)
    (c := .getJmapState p.user .matrixPuppetToken) (r := .ok (some token)) []
    (congrArg Except.ok (hstore₁ ▸ htoken))
  obtain ⟨w₃, hread₃, -, -, -, htrace₃⟩ := answered_eval cfg calls t (w := w₂)
    (c := .getThreadInfo thread) (r := .ok (some row)) []
    (congrArg Except.ok (hstore₂ ▸ hstore₁ ▸ hrow))
  obtain ⟨w₄, l, hmirror, htrace, r, hr, hf⟩ :=
    mirrorUnseen_intro cfg calls t p e row.roomId token w₃
  refine ⟨w₄, l ++ [⟨t, .store (.getThreadInfo thread), .rows []⟩,
    ⟨t, .store (.getJmapState p.user .matrixPuppetToken), .rows []⟩,
    ⟨t, .store (.getJmapState p.user (.readSynced e)), .rows []⟩], ?_, ?_, r,
    List.mem_append_left _ hr, hf⟩
  · rw [syncReadState, hid]
    refine Eval.bind hread₁ ?_
    rw [hunseen, if_neg (by simp [isOkSome])]
    refine letSome_intro cfg calls t hread₂ ?_
    rw [hthread]
    exact letSome_intro cfg calls t hread₃ hmirror
  · rw [htrace, htrace₃, htrace₂, htrace₁, List.append_assoc]
    rfl

/-- The puppet's loop may clear any latest email of the room, even where the room's gate is
set: the gate may not be readable. -/
theorem syncMarkedUnread_intro {account : Account} {x : EmailId}
    (hclient : w.clients.lookup user = some account) (hx : x ∈ w.store.latestEmailIds room) :
    ∃ r w', Eval (bridge cfg calls) {} t (syncMarkedUnread user room true) w r w' ∧
      w'.mail.seen account x = false := by
  have hfailed : (Cmd.store (.getJmapState user (.markedUnread room))).perform t .failed w =
      some (.error .sqlx, w) := rfl
  have hgate := may_eval cfg calls t hfailed
  obtain ⟨i, hi⟩ := List.mem_iff_getElem?.mp hx
  have hquery :
      ((StoreCmd.getLatestEmailIdByRoom room).run w.now [i] w.store).1 = .ok (some x) := by
    simp [StoreCmd.run, hi]
  obtain ⟨w₂, hlatest, hstore, hclients, hmail, -⟩ := answered_eval cfg calls t
    (w := { w with trace := ⟨t, .store (.getJmapState user (.markedUnread room)),
      .failed⟩ :: w.trace })
    (c := .getLatestEmailIdByRoom room) (r := .ok (some x)) [i] hquery
  have hsession : (Cmd.task (.getClient user)).perform t .done w₂ = some (some account, w₂) :=
    congrArg (fun o => some (o, w₂)) (hclients ▸ hclient)
  have hget := may_eval cfg calls t hsession
  obtain ⟨w₄, hset, hseen⟩ : ∃ w₄, Eval (bridge cfg calls) {} t (onJmap account (.setSeen x false))
      { w₂ with trace := ⟨t, .task (.getClient user), .done⟩ :: w₂.trace } (.ok ()) w₄ ∧
      w₄.mail.seen account x = false :=
    ⟨_, may_eval cfg calls t (a := .reply .marked) rfl, if_pos ⟨rfl, rfl⟩⟩
  obtain ⟨r, hr⟩ : ∃ r, ((StoreCmd.saveJmapState user (.markedUnread room) "1").run w₄.now []
      w₄.store).1 = r := ⟨_, rfl⟩
  obtain ⟨w₅, hsave, -, -, hkept, -⟩ := answered_eval cfg calls t [] hr
  refine ⟨r, w₅, ?_, by rw [hkept, hseen]⟩
  refine Eval.andThen_iff.mpr (.inl ⟨_, _, Eval.attempt_iff.mpr ⟨_, hgate, rfl⟩, ?_⟩)
  refine Eval.andThen_iff.mpr (.inl ⟨some x, w₂, hlatest, ?_⟩)
  refine Eval.andThen_iff.mpr (.inl ⟨some account, _, Eval.lift_iff.mpr ⟨_, hget, rfl⟩, ?_⟩)
  exact Eval.andThen_iff.mpr (.inl ⟨(), w₄, hset, hsave⟩)

theorem ReadEcho.reaches (hid : email.id = some e)
    (hunseen : email.keywords.contains "$seen" = false) (h : w.echoes p email e) :
    ∃ w', ReadEcho cfg calls p email w w' ∧ ∃ account x, (account, x) ≠ (p.account, e) ∧
      w'.mail.seen account x ≠ w.mail.seen account x := by
  obtain ⟨thread, row, account, x, hthread, hrow, hsynced, htoken, hclient, hlatest, hother,
    hseen⟩ := h
  obtain ⟨w₁, l, hmirror, htrace, r, hr, hf⟩ := syncReadState_intro cfg calls 0 hid hunseen
    ⟨thread, row, hthread, hrow, rfl, hsynced, htoken⟩
  have hsame := syncReadState_sameMail hmirror
  have hlast : x ∈ w₁.store.latestEmailIds row.roomId := by
    rw [hsame.latest]
    exact hlatest
  obtain ⟨res, w₂, hsync, hcleared⟩ :=
    syncMarkedUnread_intro cfg calls 1 (hsame.clients ▸ hclient) hlast
  have hhandle : Eval (bridge cfg calls) {} 1
      (handleMarkedUnread p.user [(row.roomId, some [⟨"m.marked_unread", some true⟩])]) w₁ () w₂ :=
    Eval.bind (Eval.bind hsync .pure) .pure
  refine ⟨w₂, ⟨0, 1, w₁, l, _, hmirror, htrace, ?_, hhandle⟩, account, x, hother, ?_⟩
  · intro room hroom unread hunread
    obtain rfl := List.mem_singleton.mp hroom
    obtain rfl : true = unread := Option.some.inj hunread
    exact ⟨r, hr, hf⟩
  · rw [hcleared, hseen]
    exact Bool.false_ne_true

end

end

/-- When an email loses `$seen`, the reactions to it leave every other email as it is, in
every course they may take, exactly if it is not so that the email was mirrored as read, the
puppet's token and the session are there, and the room's latest email is another one that
is seen. -/
theorem read_echo_stays_iff {cfg : Config} {calls : Nat → Call} {p : Poller} {email : Email}
    {e : EmailId} {w : World} (hid : email.id = some e)
    (hunseen : email.keywords.contains "$seen" = false) :
    (∀ w', ReadEcho cfg calls p email w w' → ∀ account x, (account, x) ≠ (p.account, e) →
      w'.mail.seen account x = w.mail.seen account x) ↔ ¬ w.echoes p email e := by
  constructor
  · intro hstays hechoes
    obtain ⟨w', hecho, account, x, hother, hchanged⟩ :=
      ReadEcho.reaches cfg calls hid hunseen hechoes
    exact hchanged (hstays w' hecho account x hother)
  · intro hquiet w' hecho
    exact hecho.stays hid hunseen hquiet

/-- A thread of two emails, both seen and mirrored as read. -/
def twoSeen : World where
  store :=
    { users := (∅ : Table _ _).insert "@a:localhost" ⟨"a", "token", "url"⟩
      jmapState := (((∅ : Table _ _).insert ("@a:localhost", .matrixPuppetToken) "t").insert
        ("@a:localhost", .readSynced "e1") "1").insert ("@a:localhost", .readSynced "e2") "1"
      threadMapping := (∅ : Table _ _).insert "T" ⟨"$1", "!r", some "$2"⟩
      messageMapping := ((∅ : Table _ _).insert "e1" "$1").insert "e2" "$2" }
  mail := { seen := fun _ _ => true }
  clients := (∅ : Table _ _).insert "@a:localhost" "a"

def reader : Poller := ⟨"@a:localhost", "a"⟩

/-- The email as it is fetched once it has lost `$seen`. -/
def unseen (e : EmailId) : Email := { id := some e, threadId := some "T" }

/-- The latest email loses `$seen`. -/
theorem read_echo_stays_latest : ¬ twoSeen.echoes reader (unseen "e2") "e2" ∧
    ∀ w', ReadEcho {} (fun _ => .worker) reader (unseen "e2") twoSeen w' →
      ∀ account x, (account, x) ≠ (reader.account, "e2") →
        w'.mail.seen account x = twoSeen.mail.seen account x := by
  have hquiet : ¬ twoSeen.echoes reader (unseen "e2") "e2" := by
    rintro ⟨thread, row, account, x, hthread, hrow, -, -, hclient, hlatest, hother, -⟩
    obtain rfl : "T" = thread := Option.some.inj hthread
    obtain rfl : (⟨"$1", "!r", some "$2"⟩ : ThreadRow) = row := Option.some.inj hrow
    obtain rfl : "a" = account := Option.some.inj hclient
    have honly : twoSeen.store.latestEmailIds "!r" = ["e2"] := by decide +kernel
    rw [honly, List.mem_singleton] at hlatest
    exact hother (by rw [hlatest]; rfl)
  exact ⟨hquiet, (read_echo_stays_iff rfl rfl).mpr hquiet⟩

def flagged : JoinedRooms := [("!r", some [⟨"m.marked_unread", some true⟩])]

/-- The older email loses `$seen`, and the echo takes it from the latest one. -/
theorem older_email_unreads_latest :
    ∃ w', ReadEcho {} (fun _ => .worker) reader (unseen "e1") twoSeen w' ∧
    twoSeen.mail.seen "a" "e2" = true ∧ w'.mail.seen "a" "e2" = false := by
  have hrun : ((replay (bridge {} fun _ => .worker) 0 (List.replicate 5 (some .done))
      (syncReadState reader (unseen "e1")) twoSeen).bind fun r =>
      (replay (bridge {} fun _ => .worker) 1 [some .done, some .done, some .done,
        some (.reply .marked), some .done] (handleMarkedUnread reader.user flagged) r.2).map
          fun r' =>
        (r.2.trace.any fun rec => rec.flags reader.user == some ("!r", true),
          r'.2.mail.seen "a" "e2")) = some (true, false) := by decide +kernel
  obtain ⟨⟨⟨⟩, w₁⟩, hmirror, hrest⟩ := Option.bind_eq_some_iff.mp hrun
  obtain ⟨⟨⟨⟩, w₂⟩, hhandle, hends⟩ := Option.map_eq_some_iff.mp hrest
  obtain ⟨hflag, hseen⟩ := Prod.mk.inj hends
  obtain ⟨r, hr, hf⟩ := List.any_eq_true.mp hflag
  refine ⟨w₂, ⟨0, 1, w₁, w₁.trace, flagged, ?_, (List.append_nil _).symm, ?_, ?_⟩, rfl, hseen⟩
  · exact eval_of_replay (replayMeets_of_forall (fun _ _ _ => trivial) _ _ _) hmirror
  · intro room hroom unread hunread
    obtain rfl := List.mem_singleton.mp hroom
    obtain rfl : true = unread := Option.some.inj hunread
    exact ⟨r, hr, by simpa using hf⟩
  · exact eval_of_replay (replayMeets_of_forall (fun _ _ _ => trivial) _ _ _) hhandle

end JmapBridge
