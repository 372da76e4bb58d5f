import JmapBridge.Model.Commands
import JmapBridge.Model.Queue
import JmapBridge.Effect.Eval
import JmapBridge.Rust.Trim

/-! A command and its reaction. What they do to the mail, to the mappings and to the members
of rooms is compared over all outcomes that the servers may give them. -/

namespace JmapBridge

open Effect Rust

variable {cfg : Config} {calls : Nat → Call} {t : Nat} {room : RoomId} {w w' : World} {α : Type}

/-- The commands that change mail, or who is in a room. -/
def Cmd.moves : Cmd → Bool
  | jmap _ (.setMailboxIds _ _) => true
  | jmap _ (.setSeen _ _) => true
  | jmap _ (.submitBatch _) => true
  | matrix (.createRoomForContact _ _ _) => true
  | matrix (.createRoomForMailbox _) => true
  | matrix (.createSpace _ _ _) => true
  | matrix (.inviteToRoom _ _) => true
  | matrix (.joinRoomAs _ _) => true
  | matrix (.joinRoomViaToken _ _) => true
  | matrix (.leaveRoom _ _) => true
  | _ => false

def moves (trace : List Record) : List (Cmd × Answer) :=
  (trace.filter (·.cmd.moves)).map fun r => (r.cmd, r.answer)

/-- The mail, the mappings, and the commands given so far that move mail or members. -/
structure Effects where
  mail : MailServer
  rooms : Sql.Table MailboxId RoomId
  ghosts : Sql.Table RoomId GhostRow
  threads : Sql.Table ThreadId ThreadRow
  messages : Sql.Table EmailId EventId
  moves : List (Cmd × Answer)

def World.effects (w : World) : Effects where
  mail := w.mail
  rooms := w.store.mailboxMapping
  ghosts := w.store.roomGhostMapping
  threads := w.store.threadMapping
  messages := w.store.messageMapping
  moves := JmapBridge.moves w.trace

/-- The bot has left the room since it last joined it. -/
def botLeft (cfg : Config) (room : RoomId) : List (Cmd × Answer) → Bool
  | [] => false
  | (c, a) :: older =>
    if c = .matrix (.leaveRoom room cfg.botUserId) then true
    else if c = .matrix (.joinRoomAs room cfg.botUserId) ∧ a = .done then false
    else botLeft cfg room older

def Cmd.ofBot (cfg : Config) (room : RoomId) : Cmd → Bool
  | matrix (.sendAsGhost r sender _ _) => r == room && sender == cfg.botUserId
  | _ => false

/-- The homeserver lets the bot post in a room that it is in. -/
def inRoom (cfg : Config) (room : RoomId) : Discipline Op World Answer Env where
  step _ _ o a w := o.cmd.ofBot cfg room → a = .notJoined → botLeft cfg room (moves w.trace)

/-- `x` may come to these effects. -/
def Reaches (cfg : Config) (calls : Nat → Call) (t : Nat) (room : RoomId) (x : Prog Op α)
    (w : World) (e : Effects) : Prop :=
  ∃ r w', Eval (bridge cfg calls) (inRoom cfg room) t x w r w' ∧ w'.effects = e

/-- The task that a reaction stands for, of the command it is the twin of. -/
def GhostCommand.task (sender : UserId) (room : RoomId) (target : EventId) : GhostCommand → Detached
  | showImages => .loadImages sender room target
  | deleteRoom => .threadAction sender room .trash
  | spam => .threadAction sender room .junk

/-- The room is a conversation room, or neither of the two does anything. -/
def Agreeing (cfg : Config) (chat : Chat) (sender : UserId) (room : RoomId) (target : EventId)
    (action : GhostCommand) (w : World) : Prop :=
  (w.store.roomGhostMapping.lookup room).isSome ∨ isBridgeUser sender ∨ cfg.level sender = none ∨
    w.clients.lookup sender = none ∨
    action = .showImages ∧ (chat.loginState ≠ .none ∨
      w.store.messageMapping.findWhere (fun _ e => e == target) = none)

/-! The outcome of a program does not depend on the records before it. -/

theorem perform_retrace (c : Cmd) (a : Answer) (l : List Record) :
    c.perform t a { w with trace := l } =
      (c.perform t a w).map fun r => (r.1, { r.2 with trace := l }) := by
  cases c with
  | store c => cases a <;> rfl
  | matrix c =>
    cases a with
    | failed => rfl
    | notJoined => rfl
    | lost s =>
      simp only [Cmd.perform, MatrixCmd.perform]
      split
      · rfl
      · rfl
    | id s =>
      simp only [Cmd.perform, MatrixCmd.perform]
      split
      · rfl
      · cases c.value (.id s) <;> rfl
    | _ => simp only [Cmd.perform, MatrixCmd.perform, Option.map_map]; rfl
  | jmap account c =>
    cases a with
    | reply r =>
      simp only [Cmd.perform, JmapCmd.perform, Option.map_map]
      rfl
    | lostReply r =>
      simp only [Cmd.perform, JmapCmd.perform, Option.map_map]
      rfl
    | _ => rfl
  | task c =>
    cases a with
    | done => cases c <;> rfl
    | _ => rfl

theorem exec_retrace {β : Type} {o : Op β} {a : Answer} {b : β} (h : exec t o a w = some (b, w'))
    (l : List Record) : exec t o a { w with trace := l } =
      some (b, { w' with trace := ⟨t, o.cmd, a⟩ :: l }) := by
  obtain ⟨c⟩ := o
  obtain ⟨w₁, hp, rfl⟩ := exec_mk h
  change (c.perform t a { w with trace := l }).map _ = _
  rw [perform_retrace, hp]
  rfl

theorem moves_cons (r : Record) {l l' : List Record} (h : moves l = moves l') :
    moves (r :: l) = moves (r :: l') := by
  unfold moves at h ⊢
  rw [List.filter_cons, List.filter_cons]
  split
  · rw [List.map_cons, List.map_cons, h]
  · exact h

theorem eval_retrace {x : Prog Op α} {r : α}
    (h : Eval (bridge cfg calls) (inRoom cfg room) t x w r w') {l : List Record}
    (hl : moves l = moves w.trace) :
    ∃ l', Eval (bridge cfg calls) (inRoom cfg room) t x { w with trace := l } r
      { w' with trace := l' } ∧ moves l' = moves w'.trace := by
  induction h generalizing l with
  | pure => exact ⟨l, .pure, hl⟩
  | @op α β o k w w₁ w₂ c b a hd he _ ih =>
    have hexec : exec t o c w = some (b, w₁) := he
    have hnext : moves (⟨t, o.cmd, c⟩ :: l) = moves w₁.trace := by
      obtain ⟨cmd⟩ := o
      rw [exec_trace hexec]
      exact moves_cons _ hl
    obtain ⟨l', hk, hl'⟩ := ih hnext
    refine ⟨l', .op (fun hb ha => ?_) (exec_retrace hexec l) hk, hl'⟩
    have hleft := hd hb ha
    rwa [← hl] at hleft
  | again _ _ ihb ih =>
    obtain ⟨l₁, hb, hl₁⟩ := ihb hl
    obtain ⟨l', hk, hl'⟩ := ih hl₁
    exact ⟨l', .again hb hk, hl'⟩
  | done _ _ ihb ih =>
    obtain ⟨l₁, hb, hl₁⟩ := ihb hl
    obtain ⟨l', hk, hl'⟩ := ih hl₁
    exact ⟨l', .done hb hk, hl'⟩

theorem reaches_retrace {x : Prog Op α} {l : List Record} (hl : moves l = moves w.trace)
    (e : Effects) : Reaches cfg calls t room x { w with trace := l } e ↔
      Reaches cfg calls t room x w e := by
  constructor
  · rintro ⟨r, w', h, rfl⟩
    obtain ⟨l', h', hl'⟩ := eval_retrace h (l := w.trace) hl.symm
    exact ⟨r, _, h', by simp [World.effects, hl']⟩
  · rintro ⟨r, w', h, rfl⟩
    obtain ⟨l', h', hl'⟩ := eval_retrace h hl
    exact ⟨r, _, h', by simp [World.effects, hl']⟩

/-! Programs without effect. -/

/-- The statements that leave the store as it is. -/
def StoreCmd.reads : StoreCmd → Bool
  | getEmailIdFromEventId _ => true
  | getGhostEmailByRoom _ => true
  | getLatestThreadInRoom _ => true
  | getUserSignature _ => true
  | _ => false

/-- The commands that have no effect. -/
def Cmd.effectless : Cmd → Bool
  | store c => c.reads
  | task (.removeClient _) => false
  | c => !c.moves

theorem exec_store_reads {c : StoreCmd} {a : Answer} {b : Except Err c.Ans} (hc : c.reads)
    (h : exec t (.mk (.store c)) a w = some (b, w')) :
    w' = { w with trace := ⟨t, .store c, a⟩ :: w.trace } ∧
      (b = .error .sqlx ∨ ∃ order, b = (c.run w.now order w.store).1) := by
  rcases exec_store h with ⟨order, -, rfl, rfl⟩ | ⟨-, rfl, rfl⟩ | ⟨-, rfl, rfl⟩
  · refine ⟨?_, .inr ⟨order, rfl⟩⟩
    cases c with
    | getEmailIdFromEventId _ => rfl
    | getGhostEmailByRoom _ => rfl
    | getLatestThreadInRoom _ => rfl
    | getUserSignature _ => rfl
    | _ => cases hc
  · exact ⟨rfl, .inl rfl⟩
  · refine ⟨?_, .inl rfl⟩
    cases c with
    | getEmailIdFromEventId _ => rfl
    | getGhostEmailByRoom _ => rfl
    | getLatestThreadInRoom _ => rfl
    | getUserSignature _ => rfl
    | _ => cases hc

/-- The effects so far and the sessions are these. -/
structure Keeping (e : Effects) (clients : Sql.Table UserId Account) (w : World) : Prop where
  effects : w.effects = e
  clients : w.clients = clients

theorem keeping_exec {c : Cmd} {a : Answer} {b : c.Ans} {e : Effects}
    {clients : Sql.Table UserId Account} (hc : c.effectless)
    (h : exec t (.mk c) a w = some (b, w')) (hw : Keeping e clients w) : Keeping e clients w' := by
  cases c with
  | store c =>
    obtain ⟨rfl, -⟩ := exec_store_reads hc h
    exact ⟨hw.effects, hw.clients⟩
  | matrix c =>
    obtain ⟨⟨issued, rfl⟩, -⟩ := exec_matrix h
    have hmoves : (Cmd.matrix c).moves = false := by simpa [Cmd.effectless] using hc
    refine ⟨?_, hw.clients⟩
    rw [← hw.effects]
    simp [World.effects, moves, hmoves]
  | jmap account c =>
    have hmoves : (Cmd.jmap account c).moves = false := by simpa [Cmd.effectless] using hc
    have hmail : ∀ r m, c.effect account r m = m := by
      intro r m
      cases c <;> first | rfl | cases hmoves
    obtain ⟨w₁, hp, rfl⟩ := exec_jmap_perform h
    have hw₁ : w₁ = w := by
      cases a with
      | reply r =>
        obtain ⟨v, -, hv⟩ := Option.map_eq_some_iff.mp hp
        rw [hmail] at hv
        exact (congrArg Prod.snd hv).symm
      | lostReply r =>
        obtain ⟨v, -, hv⟩ := Option.map_eq_some_iff.mp hp
        rw [hmail] at hv
        exact (congrArg Prod.snd hv).symm
      | failed => exact (congrArg Prod.snd (Option.some.inj hp)).symm
      | cannotCalculateChanges => exact (congrArg Prod.snd (Option.some.inj hp)).symm
      | _ => cases hp
    subst hw₁
    refine ⟨?_, hw.clients⟩
    rw [← hw.effects]
    simp [World.effects, moves, hmoves]
  | task c =>
    obtain ⟨-, -, rfl⟩ := exec_task h
    cases c with
    | removeClient user => cases hc
    | _ => exact ⟨hw.effects, hw.clients⟩

section

variable {e : Effects} {clients : Sql.Table UserId Account} {β : Type}

/-- Every outcome of the program has no effect and `Q` of its value. -/
def Kept (cfg : Config) (calls : Nat → Call) (t : Nat) (room : RoomId) (e : Effects)
    (clients : Sql.Table UserId Account) (x : Prog Op α) (Q : α → Prop) : Prop :=
  ∀ w r w', Keeping e clients w → Eval (bridge cfg calls) (inRoom cfg room) t x w r w' →
    Keeping e clients w' ∧ Q r

namespace Kept

theorem pure {a : α} {Q : α → Prop} (h : Q a) :
    Kept cfg calls t room e clients (.pure a : Prog Op α) Q := by
  intro w r w' hw hx
  obtain ⟨rfl, rfl⟩ := Eval.pure_iff.mp hx
  exact ⟨hw, h⟩

theorem bind {x : Prog Op α} {f : α → Prog Op β} {R : α → Prop} {Q : β → Prop}
    (hx : Kept cfg calls t room e clients x R)
    (hf : ∀ a, R a → Kept cfg calls t room e clients (f a) Q) :
    Kept cfg calls t room e clients (x.bind f) Q := by
  intro w r w' hw h
  obtain ⟨a, w₁, ha, hr⟩ := Eval.bind_iff.mp h
  obtain ⟨hw₁, hR⟩ := hx w a w₁ hw ha
  exact hf a hR w₁ r w' hw₁ hr

theorem andThen {x : Bridge α} {f : α → Bridge β} {R : α → Prop}
    (hx : Kept cfg calls t room e clients x fun r => ∀ a, r = .ok a → R a)
    (hf : ∀ a, R a → Kept cfg calls t room e clients (f a) fun _ => True) :
    Kept cfg calls t room e clients (x.andThen f) fun _ => True := by
  refine bind hx fun r hr => ?_
  cases r with
  | ok a => exact hf a (hr a rfl)
  | error _ => exact pure trivial

theorem lift {x : Task α} {R : α → Prop} (hx : Kept cfg calls t room e clients x R) :
    Kept cfg calls t room e clients (Act.lift x : Bridge α) fun r => ∀ a, r = .ok a → R a :=
  bind hx fun _ ha => pure fun _ hb => Except.ok.inj hb ▸ ha

theorem done {x : Prog Op α} {R : α → Prop} (hx : Kept cfg calls t room e clients x R) :
    Kept cfg calls t room e clients x fun _ => True :=
  fun w r w' hw h => ⟨(hx w r w' hw h).1, trivial⟩

theorem call {c : Cmd} (hc : c.effectless) :
    Kept cfg calls t room e clients (Prog.call (.mk c)) fun _ => True := by
  intro w r w' hw h
  obtain ⟨a, -, hexec⟩ := Eval.call_iff.mp h
  exact ⟨keeping_exec hc hexec hw, trivial⟩

theorem read {c : StoreCmd} (hc : c.reads) {Q : c.Ans → Prop}
    (hQ : ∀ w order v, Keeping e clients w → (c.run w.now order w.store).1 = .ok v → Q v) :
    Kept cfg calls t room e clients (onStore c) fun r => ∀ a, r = .ok a → Q a := by
  intro w r w' hw h
  obtain ⟨a, -, hexec⟩ := Eval.call_iff.mp h
  have hrun : exec t (.mk (.store c)) a w = some (r, w') := hexec
  refine ⟨keeping_exec (c := .store c) hc hrun hw, fun v hv => ?_⟩
  rcases (exec_store_reads hc hrun).2 with rfl | ⟨order, rfl⟩
  · cases hv
  · exact hQ w order v hw hv

theorem ghostEmail : Kept cfg calls t room e clients (onStore (.getGhostEmailByRoom room))
    fun r => ∀ v, r = .ok v → v = (e.ghosts.lookup room).map (·.ghostEmail) := by
  refine read rfl fun w order v hw hv => ?_
  rw [← hw.effects]
  exact (Except.ok.inj hv).symm

theorem emailId {target : EventId} :
    Kept cfg calls t room e clients (onStore (.getEmailIdFromEventId target)) fun r => ∀ v,
      r = .ok v → v = (e.messages.findWhere fun _ x => x == target).map (·.1) := by
  refine read rfl fun w order v hw hv => ?_
  rw [← hw.effects]
  exact (Except.ok.inj hv).symm

theorem client {user : UserId} :
    Kept cfg calls t room e clients (onTask (.getClient user)) fun r =>
      r = clients.lookup user := by
  intro w r w' hw h
  obtain ⟨a, -, hexec⟩ := Eval.call_iff.mp h
  have hrun : exec t (.mk (.task (.getClient user))) a w = some (r, w') := hexec
  refine ⟨keeping_exec rfl hrun hw, ?_⟩
  obtain ⟨-, rfl, -⟩ := exec_task hrun
  rw [← hw.clients]
  rfl

theorem notify (hleft : botLeft cfg room e.moves = false) {msg : String} :
    Kept cfg calls t room e clients (notify cfg room msg) fun _ => True := by
  refine bind (R := fun _ => True) ?_ fun _ _ => pure trivial
  intro w r w' hw h
  obtain ⟨r₁, w₁, hsend, hrest⟩ := Eval.bind_iff.mp h
  obtain ⟨b, hcall, rfl⟩ := Eval.attempt_iff.mp hsend
  obtain ⟨a, hd, hexec⟩ := Eval.call_iff.mp hcall
  have hrun : exec t (.mk (.matrix (.sendAsGhost room cfg.botUserId
    (.message { plain := msg, html := none, origin := .notice }) none))) a w = some (b, w₁) := hexec
  have hw₁ : Keeping e clients w₁ := keeping_exec rfl hrun hw
  match b with
  | .ok event =>
    obtain ⟨rfl, rfl⟩ := Eval.pure_iff.mp hrest
    exact ⟨hw₁, trivial⟩
  | .error .notJoined =>
    have ha : a = .notJoined := exec_notJoined hrun
    have hmoves : moves w.trace = e.moves := congrArg Effects.moves hw.effects
    have hcontra := hd (by simp [Op.cmd, Cmd.ofBot]) ha
    rw [hmoves, hleft] at hcontra
    cases hcontra
  | .error .sqlx | .error .foreignKey | .error .matrix | .error .http | .error .jmap
  | .error .cannotCalculateChanges | .error (.context _) =>
    obtain ⟨rfl, rfl⟩ := Eval.pure_iff.mp hrest
    exact ⟨hw₁, trivial⟩

end Kept

end

/-! What the router makes of a text that is a command of the conversation rooms. -/

/-- How the texts begin that a command answers to; a reply may begin in any way. -/
def ChatCommand.names : ChatCommand → List String
  | help => ["help", "!help"]
  | status => ["status", "!status", "ping", "!ping"]
  | logout => ["logout", "!logout"]
  | sync => ["sync", "!sync"]
  | sendDelay => ["send-delay", "!send-delay", "send-delay ", "!send-delay "]
  | loginMatrix => ["login-matrix", "!login-matrix"]
  | login => ["login", "!login", "!login "]
  | compose => ["!compose", "!email-to"]
  | email => ["!email "]
  | signature => ["!signature", "signature"]
  | reply => []

/-- How a text begins that is a command of the conversation rooms, or quotes what it replies to. -/
def ghostNames : List String :=
  ["show-images", "!show-images", "delete-room", "!delete-room", "spam", "!spam", "> "]

/-- The text begins with one of these names, after white space. -/
def beginsWith (names : List String) (body : String) : Prop :=
  ∃ name ∈ names, name.toList <+: Str.trimStart body.toList

theorem beginsWith_trim {names : List String} {body : String} (h : names.contains (trim body)) :
    beginsWith names body := by
  refine ⟨trim body, by simpa using h, ?_⟩
  simpa [trim, Str.trim] using Str.trimEnd_starts (Str.trimStart body.toList)

theorem beginsWith_start {names : List String} {body : String} (name : String) (hmem : name ∈ names)
    (hhead : name.toList.head?.any fun c => !Str.isWhitespace c)
    (h : startsWith name body.toList) : beginsWith names body := by
  have hprefix : name.toList <+: body.toList := by simpa [startsWith] using h
  refine ⟨name, hmem, ?_⟩
  obtain ⟨c, hc, hblank⟩ := (Option.any_eq_true ..).mp hhead
  obtain ⟨rest, hrest⟩ := hprefix
  obtain ⟨cs, hcs⟩ := List.head?_eq_some_iff.mp hc
  have hkept : Str.trimStart body.toList = body.toList := by
    rw [← hrest, hcs]
    simp [Str.trimStart, (Bool.not_eq_true' _).mp hblank]
  rw [hkept]
  exact ⟨rest, hrest⟩

theorem beginsWith_mono {names names' : List String} {body : String} (h : names ⊆ names')
    (hb : beginsWith names body) : beginsWith names' body :=
  hb.imp fun _ ⟨hmem, hp⟩ => ⟨h hmem, hp⟩

theorem ChatCommand.matches_begins {body : String} {relation : Option Relation} {c : ChatCommand}
    (hc : c ≠ .reply) (h : c.matches body relation) : beginsWith c.names body := by
  have htrimmed : ∀ {name : String}, startsWith name (Str.trim body.toList) →
      name.toList <+: Str.trimStart body.toList := by
    intro name h
    have hprefix : name.toList <+: Str.trim body.toList := by simpa [startsWith] using h
    exact hprefix.trans (Str.trimEnd_starts _)
  have hword : ∀ {name : String}, isCommandWord (Str.trimStart body.toList) name →
      name.toList <+: Str.trimStart body.toList := by
    intro name h
    rcases Bool.or_eq_true_iff.mp h with h | h
    · exact (beq_iff_eq.mp h) ▸ List.prefix_rfl
    · simpa [startsWith] using (Bool.and_eq_true_iff.mp h).1
  have hstart : ∀ {name : String}, startsWith name (Str.trimStart body.toList) →
      name.toList <+: Str.trimStart body.toList := fun h => by simpa [startsWith] using h
  cases c with
  | help => exact beginsWith_trim h
  | status => exact beginsWith_trim h
  | logout => exact beginsWith_trim h
  | sync => exact beginsWith_trim h
  | sendDelay =>
    simp only [ChatCommand.matches, Bool.or_eq_true] at h
    rcases h with (h | h) | h
    · exact beginsWith_mono (by decide) (beginsWith_trim h)
    · exact ⟨_, by decide, htrimmed h⟩
    · exact ⟨_, by decide, htrimmed h⟩
  | loginMatrix =>
    rcases Bool.or_eq_true_iff.mp h with h | h
    · exact ⟨_, by decide, hstart h⟩
    · exact ⟨_, by decide, hstart h⟩
  | login =>
    rcases Bool.or_eq_true_iff.mp h with h | h
    · exact beginsWith_mono (by decide) (beginsWith_trim h)
    · exact beginsWith_start "!login " (by decide) (by decide) h
  | compose =>
    rcases Bool.or_eq_true_iff.mp h with h | h
    · exact ⟨_, by decide, hword h⟩
    · exact ⟨_, by decide, hword h⟩
  | email => exact beginsWith_start _ (by decide) (by decide) h
  | signature =>
    rcases Bool.or_eq_true_iff.mp h with h | h
    · exact beginsWith_start _ (by decide) (by decide) h
    · exact beginsWith_start _ (by decide) (by decide) h
  | reply => exact absurd rfl hc

theorem not_begins_both {names names' : List String} {body : String}
    (h : ∀ n ∈ names, ∀ m ∈ names', ¬ n.toList <+: m.toList ∧ ¬ m.toList <+: n.toList)
    (hb : beginsWith names body) : ¬ beginsWith names' body := by
  rintro ⟨m, hm, hmp⟩
  obtain ⟨n, hn, hnp⟩ := hb
  rcases List.prefix_or_prefix_of_prefix hnp hmp with hp | hp
  · exact (h n hn m hm).1 hp
  · exact (h n hn m hm).2 hp

theorem parse_begins {body : String} {action : GhostCommand}
    (hbody : parseGhostCommand cfg body = some action)
    (hfallback : cfg.removeReplyFallback body = body ∨ startsWith "> " body.toList) :
    beginsWith ghostNames body := by
  rcases hfallback with hbare | hquote
  · simp only [parseGhostCommand, hbare] at hbody
    have hmem : ghostNames.contains (trim body) := by
      split at hbody
      case isTrue h => rcases h with h | h <;> rw [h] <;> decide
      split at hbody
      case isTrue h => rcases h with h | h <;> rw [h] <;> decide
      split at hbody
      case isTrue h => rcases h with h | h <;> rw [h] <;> decide
      case isFalse => cases hbody
    exact beginsWith_trim hmem
  · exact beginsWith_start "> " (by decide) (by decide) hquote

theorem router_reply {body : String} {action : GhostCommand} {relation : Option Relation}
    (hbody : parseGhostCommand cfg body = some action) (hrelation : relation.isSome)
    (hfallback : cfg.removeReplyFallback body = body ∨ startsWith "> " body.toList) :
    ChatCommand.router.find? (ChatCommand.matches body relation) = some .reply := by
  have hbegins : beginsWith ghostNames body := parse_begins hbody hfallback
  have hother : ∀ c, c ≠ ChatCommand.reply → c.matches body relation = false := by
    intro c hc
    cases hm : c.matches body relation with
    | false => rfl
    | true =>
      refine absurd hbegins (not_begins_both ?_ (ChatCommand.matches_begins hc hm))
      cases c <;> decide
  have hreply : ChatCommand.reply.matches body relation = true := hrelation
  simp [ChatCommand.router, hother, hreply]

/-! The way of each to the function that they share. -/

theorem may_answer (cfg : Config) (calls : Nat → Call) (room : RoomId) {c : Cmd} {a : Answer}
    {b : c.Ans} {w₁ : World}
    (h : c.perform t a w = some (b, w₁)) (ha : a ≠ .notJoined) :
    Eval (bridge cfg calls) (inRoom cfg room) t (Prog.call (.mk c)) w b
      { w₁ with trace := ⟨t, c, a⟩ :: w₁.trace } := by
  refine Eval.call_iff.mpr ⟨a, fun _ hne => absurd hne ha, ?_⟩
  change (c.perform t a w).map _ = _
  rw [h]
  rfl

theorem reaches_bestEffort {x : Bridge α} (e : Effects) :
    Reaches cfg calls t room (bestEffort x) w e ↔ Reaches cfg calls t room x w e := by
  constructor
  · rintro ⟨r, w', h, he⟩
    obtain ⟨a, w₁, hx, hr⟩ := Eval.bind_iff.mp h
    obtain ⟨-, rfl⟩ := Eval.pure_iff.mp hr
    exact ⟨a, w', hx, he⟩
  · rintro ⟨r, w', h, he⟩
    exact ⟨_, w', h.bind .pure, he⟩

theorem reaches_attempt {β : Type} {x : Bridge α} {f : Except Err α → Bridge β}
    (hf : ∀ r, ∃ b, f r = .pure b) (e : Effects) :
    Reaches cfg calls t room (Act.andThen (Act.attempt x) f) w e ↔
      Reaches cfg calls t room x w e := by
  constructor
  · rintro ⟨r, w', h, he⟩
    rcases Eval.andThen_iff.mp h with ⟨a, w₁, hx, hr⟩ | ⟨err, hx, -⟩
    · obtain ⟨a', hx', -⟩ := Eval.attempt_iff.mp hx
      obtain ⟨b, hb⟩ := hf a
      rw [hb] at hr
      obtain ⟨-, rfl⟩ := Eval.pure_iff.mp hr
      exact ⟨a', w', hx', he⟩
    · obtain ⟨a', hx', -⟩ := Eval.attempt_iff.mp hx
      exact ⟨a', w', hx', he⟩
  · rintro ⟨r, w', h, he⟩
    obtain ⟨b, hb⟩ := hf r
    refine ⟨b, w', Eval.andThen_iff.mpr (.inl ⟨r, w', Eval.attempt_iff.mpr ⟨r, h, rfl⟩, ?_⟩), he⟩
    rw [hb]
    exact .pure

theorem reaches_task {c : TaskCmd} {f : c.Ans → Bridge α} (hc : (c.run t w).2 = w) (e : Effects) :
    Reaches cfg calls t room (Act.andThen (Act.lift (onTask c)) f) w e ↔
      Reaches cfg calls t room (f (c.run t w).1) w e := by
  have hmoves : moves (⟨t, .task c, .done⟩ :: w.trace) = moves w.trace := rfl
  refine Iff.trans ?_ (reaches_retrace hmoves e)
  constructor
  · rintro ⟨r, w', h, he⟩
    rcases Eval.andThen_iff.mp h with ⟨a, w₁, hx, hr⟩ | ⟨err, hx, -⟩
    · obtain ⟨b, hcall, hab⟩ := Eval.lift_iff.mp hx
      obtain ⟨x, -, hexec⟩ := Eval.call_iff.mp hcall
      have hrun : exec t (.mk (.task c)) x w = some (b, w₁) := hexec
      obtain ⟨rfl, rfl, rfl⟩ := exec_task hrun
      rw [hc] at hr
      exact ⟨r, w', Except.ok.inj hab ▸ hr, he⟩
    · obtain ⟨b, -, hb⟩ := Eval.lift_iff.mp hx
      cases hb
  · rintro ⟨r, w', h, he⟩
    have hcall : (Cmd.task c).perform t .done w = some ((c.run t w).1, w) :=
      congrArg some (Prod.ext rfl hc)
    exact ⟨r, w', Eval.andThen_iff.mpr
      (.inl ⟨_, _, Eval.lift_iff.mpr ⟨_, may_answer cfg calls room hcall nofun, rfl⟩, h⟩), he⟩

theorem reaches_lookup {f : Option String → Bridge α} (e : Effects) :
    Reaches cfg calls t room (Act.andThen (onStore (.getGhostEmailByRoom room)) f) w e ↔
      e = w.effects ∨
        Reaches cfg calls t room
          (f ((w.store.roomGhostMapping.lookup room).map (·.ghostEmail))) w e := by
  have hread : ∀ a, moves (⟨t, .store (.getGhostEmailByRoom room), a⟩ :: w.trace) = moves w.trace :=
    fun _ => rfl
  constructor
  · rintro ⟨r, w', h, rfl⟩
    rcases Eval.andThen_iff.mp h with ⟨a, w₁, hx, hr⟩ | ⟨err, hx, -⟩
    · obtain ⟨x, -, hexec⟩ := Eval.call_iff.mp hx
      have hrun : exec t (.mk (.store (.getGhostEmailByRoom room))) x w = some (.ok a, w₁) := hexec
      obtain ⟨rfl, herr | ⟨order, hok⟩⟩ := exec_store_reads rfl hrun
      · cases herr
      · obtain rfl := Except.ok.inj hok
        exact .inr ((reaches_retrace (hread x) _).mp ⟨r, w', hr, rfl⟩)
    · obtain ⟨x, -, hexec⟩ := Eval.call_iff.mp hx
      have hrun : exec t (.mk (.store (.getGhostEmailByRoom room))) x w =
        some (.error err, w') := hexec
      obtain ⟨rfl, -⟩ := exec_store_reads rfl hrun
      exact .inl rfl
  · rintro (rfl | h)
    · have hfailed : (Cmd.store (.getGhostEmailByRoom room)).perform t .failed w =
        some (.error .sqlx, w) := rfl
      exact ⟨.error .sqlx, _, Eval.andThen_iff.mpr
        (.inr ⟨.sqlx, may_answer cfg calls room hfailed nofun, rfl⟩), rfl⟩
    · obtain ⟨r, w', hr, he⟩ := (reaches_retrace (hread .done) e).mpr h
      have hdone : (Cmd.store (.getGhostEmailByRoom room)).perform t .done w =
        some (.ok ((w.store.roomGhostMapping.lookup room).map (·.ghostEmail)), w) := rfl
      exact ⟨r, w',
        Eval.andThen_iff.mpr (.inl ⟨_, _, may_answer cfg calls room hdone nofun, hr⟩), he⟩

section

variable {chat : Chat} {sender : UserId} {target event : EventId} {key body : String}
  {relation : Option Relation} {action : GhostCommand}

theorem reacting_reaches {task : Detached} (hsender : isBridgeUser sender = false)
    (hkey : reactionTask sender room target key = some task) (e : Effects) :
    Reaches cfg calls t room (reacting cfg sender room target key) w e ↔
      Reaches cfg calls t room (task.program cfg) w e := by
  have hprogram : reacting cfg sender room target key =
      Act.andThen (Act.lift (onTask (.spawn task))) fun _ => bestEffort (task.program cfg) := by
    simp only [reacting, handleReaction, hsender, hkey, Bool.false_eq_true, if_false]
    rfl
  rw [hprogram]
  exact (reaches_task rfl e).trans (reaches_bestEffort e)

theorem handleGhostOutbound_action (hbody : parseGhostCommand cfg body = some action)
    (hrelation : replyTargetEvent relation = some target) :
    handleGhostOutbound cfg ⟨sender, room, event⟩ body relation =
      (action.task sender room target).program cfg := by
  simp only [handleGhostOutbound, hbody]
  cases action with
  | showImages =>
    simp only [handleShowImages, hrelation]
    split
    case isTrue hlevel =>
      change _ = handleLoadImages cfg sender room target
      rw [handleLoadImages, if_pos hlevel]
    case isFalse => rfl
  | deleteRoom => rfl
  | spam => rfl

theorem typing_ghost (hsender : isBridgeUser sender = false)
    (hbody : parseGhostCommand cfg body = some action)
    (hrelation : replyTargetEvent relation = some target)
    (hghost : (w.store.roomGhostMapping.lookup room).isSome) (e : Effects) :
    Reaches cfg calls t room (typing cfg chat ⟨sender, room, event⟩ body relation) w e ↔
      e = w.effects ∨
        Reaches cfg calls t room ((action.task sender room target).program cfg) w e := by
  obtain ⟨row, hrow⟩ := Option.isSome_iff_exists.mp hghost
  rw [typing, if_neg (by simp [hsender]), handleText]
  refine (reaches_lookup e).trans (or_congr_right ?_)
  rw [hrow]
  change Reaches cfg calls t room
    (routeGhostMessage cfg ⟨sender, room, event⟩ body none relation) w e ↔ _
  rw [routeGhostMessage]
  refine (reaches_attempt (fun r => ?_) e).trans ?_
  · cases r with
    | ok _ => exact ⟨_, rfl⟩
    | error err =>
      by_cases hr : redeliverable err
      · exact ⟨_, if_pos hr⟩
      · exact ⟨_, if_neg hr⟩
  · rw [handleGhostOutbound_action hbody hrelation]

theorem typing_other (hsender : isBridgeUser sender = false)
    (hghost : w.store.roomGhostMapping.lookup room = none) (e : Effects) :
    Reaches cfg calls t room (typing cfg chat ⟨sender, room, event⟩ body relation) w e ↔
      e = w.effects ∨ Reaches cfg calls t room
        (handleCommand cfg chat ⟨sender, room, event⟩ body relation) w e := by
  rw [typing, if_neg (by simp [hsender]), handleText]
  refine (reaches_lookup e).trans (or_congr_right ?_)
  rw [hghost]
  exact (reaches_task rfl e).trans (reaches_bestEffort e)

end

/-! Where neither of the two does anything. -/

section

variable {e : Effects} {clients : Sql.Table UserId Account} {chat : Chat} {sender : UserId}
  {target event : EventId} {key body : String} {relation : Option Relation} {action : GhostCommand}

theorem threadAction_kept {role : MailboxRole} (hleft : botLeft cfg room e.moves = false)
    (h : cfg.level sender = none ∨ clients.lookup sender = none) :
    Kept cfg calls t room e clients (handleThreadAction cfg sender room role) fun _ => True := by
  rw [handleThreadAction]
  split
  case isTrue => exact .pure trivial
  case isFalse hlevel =>
    have hnone : clients.lookup sender = none := by
      rcases h with h | h
      · exact absurd (by rw [h]; rfl) hlevel
      · exact h
    refine .andThen (.lift .client) fun client hclient => ?_
    obtain rfl : client = none := hclient.trans hnone
    exact (Kept.lift (.notify hleft)).done

theorem loadImages_kept (h : cfg.level sender = none ∨ e.ghosts.lookup room = none) :
    Kept cfg calls t room e clients (handleLoadImages cfg sender room target) fun _ => True := by
  rw [handleLoadImages]
  split
  case isTrue => exact .pure trivial
  case isFalse hlevel =>
    have hnone : e.ghosts.lookup room = none := by
      rcases h with h | h
      · exact absurd (by rw [h]; rfl) hlevel
      · exact h
    refine .andThen .emailId fun email _ => ?_
    cases email with
    | none => exact .pure trivial
    | some email =>
      refine .andThen .ghostEmail fun ghostEmail hghost => ?_
      obtain rfl : ghostEmail = none := by rw [hghost, hnone]; rfl
      exact .pure trivial

theorem replyCommand_kept (hrelation : replyTargetEvent relation = some target)
    (h : clients.lookup sender = none ∨ e.messages.findWhere (fun _ x => x == target) = none) :
    Kept cfg calls t room e clients (replyCommand cfg ⟨sender, room, event⟩ body relation)
      fun _ => True := by
  rw [replyCommand, hrelation]
  refine .andThen .emailId fun email hemail => ?_
  cases email with
  | none => exact .pure trivial
  | some email =>
    refine .andThen (.lift .client) fun client hclient => ?_
    have hnone : clients.lookup sender = none := by
      rcases h with h | h
      · exact h
      · rw [h] at hemail
        cases hemail
    obtain rfl : client = none := hclient.trans hnone
    exact .pure trivial

theorem handleCommand_reply {e : QueuedEvent} (hstate : chat.loginState = .none)
    (hlevel : cfg.level e.user ≠ none)
    (hrouter : ChatCommand.router.find? (ChatCommand.matches body relation) = some .reply) :
    handleCommand cfg chat e body relation = replyCommand cfg e body relation := by
  obtain ⟨level, hlevel⟩ := Option.ne_none_iff_exists'.mp hlevel
  rw [handleCommand, hstate, hlevel, TextHandlers.receive, TextHandlers.handleLoginNone,
    TextHandlers.dispatch, hrouter]
  rfl

/-- What is typed outside the conversation rooms has no effect but through the reply. -/
theorem handleCommand_kept (hleft : botLeft cfg room e.moves = false)
    (hrouter : ChatCommand.router.find? (ChatCommand.matches body relation) = some .reply)
    (h : chat.loginState ≠ .none ∨ cfg.level sender = none ∨
      Kept cfg calls t room e clients (replyCommand cfg ⟨sender, room, event⟩ body relation)
        fun _ => True) :
    Kept cfg calls t room e clients (handleCommand cfg chat ⟨sender, room, event⟩ body relation)
      fun _ => True := by
  have hnotify : ∀ msg, Kept cfg calls t room e clients
      (Act.lift (notify cfg room msg) : Bridge Unit) fun _ => True :=
    fun _ => (Kept.lift (.notify hleft)).done
  by_cases hreply : chat.loginState = .none ∧ cfg.level sender ≠ none
  case pos =>
    obtain ⟨hstate, hlevel⟩ := hreply
    have hcommand : handleCommand cfg chat ⟨sender, room, event⟩ body relation =
        replyCommand cfg ⟨sender, room, event⟩ body relation :=
      handleCommand_reply hstate hlevel hrouter
    rw [hcommand]
    rcases h with h | h | h
    · exact absurd hstate h
    · exact absurd h hlevel
    · exact h
  unfold handleCommand
  cases hstate : chat.loginState with
  | none =>
    have hlevel : cfg.level sender = none := not_not.mp fun h => hreply ⟨hstate, h⟩
    refine TextHandlers.handleLoginNone_of (fun x => Kept cfg calls t room e clients x
      fun _ => True) (.pure trivial) hnotify fun c hsome _ => ?_
    rw [hlevel] at hsome
    cases hsome
  | waitingForEmail => exact hnotify _
  | waitingForPassword _ =>
    refine .andThen (R := fun _ => True) ?_ fun _ _ => hnotify _
    refine .bind (R := fun _ => True) ?_ fun _ _ => .pure fun _ _ => trivial
    exact .call (c := .matrix (.redactEvent room event "Removing password")) rfl
  | waitingForUrl _ _ =>
    exact .andThen (R := fun _ => True) (.lift (.notify hleft)) fun _ _ => hnotify _

end

/-! Outcomes that the two may have. -/

section

variable {e : Effects} {clients : Sql.Table UserId Account} {β : Type} {sender : UserId}
  {target event : EventId} {body : String} {relation : Option Relation} {action : GhostCommand}
  {account : Account} {thread : ThreadId}

/-- Some outcome of the program leaves a world like this. -/
def Outcome (cfg : Config) (calls : Nat → Call) (t : Nat) (room : RoomId) (e : Effects)
    (clients : Sql.Table UserId Account) (x : Prog Op α) (R : α → World → Prop) : Prop :=
  ∀ w, Keeping e clients w →
    ∃ r w', Eval (bridge cfg calls) (inRoom cfg room) t x w r w' ∧ R r w'

/-- Some outcome of the program has no effect and `Q` of its value. -/
abbrev May (cfg : Config) (calls : Nat → Call) (t : Nat) (room : RoomId) (e : Effects)
    (clients : Sql.Table UserId Account) (x : Prog Op α) (Q : α → Prop) : Prop :=
  Outcome cfg calls t room e clients x fun r w => Keeping e clients w ∧ Q r

namespace May

theorem pure {a : α} {Q : α → Prop} (h : Q a) :
    May cfg calls t room e clients (.pure a : Prog Op α) Q :=
  fun w hw => ⟨a, w, .pure, hw, h⟩

theorem bind {x : Prog Op α} {f : α → Prog Op β} {Q : α → Prop} {R : β → World → Prop}
    (hx : May cfg calls t room e clients x Q)
    (hf : ∀ a, Q a → Outcome cfg calls t room e clients (f a) R) :
    Outcome cfg calls t room e clients (x.bind f) R := by
  intro w hw
  obtain ⟨a, w₁, ha, hw₁, hQ⟩ := hx w hw
  obtain ⟨r, w', hr, hR⟩ := hf a hQ w₁ hw₁
  exact ⟨r, w', ha.bind hr, hR⟩

theorem andThen {x : Bridge α} {f : α → Bridge β} {Q : α → Prop} {R : Except Err β → World → Prop}
    (hx : May cfg calls t room e clients x fun r => ∃ a, r = .ok a ∧ Q a)
    (hf : ∀ a, Q a → Outcome cfg calls t room e clients (f a) R) :
    Outcome cfg calls t room e clients (x.andThen f) R := by
  refine bind hx fun r hr => ?_
  obtain ⟨a, rfl, ha⟩ := hr
  exact hf a ha

theorem lift {x : Task α} {Q : α → Prop} (hx : May cfg calls t room e clients x Q) :
    May cfg calls t room e clients (Act.lift x : Bridge α) fun r => ∃ a, r = .ok a ∧ Q a :=
  bind hx fun a ha => pure ⟨a, rfl, ha⟩

theorem error {x : Bridge α} {f : α → Bridge β} {err : Err}
    (hx : May cfg calls t room e clients x fun r => r = .error err) :
    May cfg calls t room e clients (x.andThen f) fun _ => True := by
  refine bind hx fun r hr => ?_
  subst hr
  exact pure trivial

theorem mono {x : Prog Op α} {Q Q' : α → Prop} (hx : May cfg calls t room e clients x Q)
    (h : ∀ a, Q a → Q' a) : May cfg calls t room e clients x Q' := by
  intro w hw
  obtain ⟨r, w', hr, hw', hQ⟩ := hx w hw
  exact ⟨r, w', hr, hw', h r hQ⟩

theorem answer {c : Cmd} (a : Answer) {Q : c.Ans → Prop} (hc : c.effectless) (ha : a ≠ .notJoined)
    (hp : ∀ w, Keeping e clients w → ∃ b w₁, c.perform t a w = some (b, w₁) ∧ Q b) :
    May cfg calls t room e clients (Prog.call (.mk c)) Q := by
  intro w hw
  obtain ⟨b, w₁, hb, hQ⟩ := hp w hw
  have hcall := may_answer cfg calls room hb ha
  obtain ⟨x, -, hexec⟩ := Eval.call_iff.mp hcall
  exact ⟨b, _, hcall, keeping_exec hc hexec hw, hQ⟩

theorem storeFails {c : StoreCmd} (hc : c.reads) :
    May cfg calls t room e clients (onStore c) fun r => r = .error .sqlx :=
  answer .failed (c := .store c) hc nofun fun w _ => ⟨_, w, rfl, rfl⟩

theorem jmapFails {c : JmapCmd} (hc : (Cmd.jmap account c).effectless) :
    May cfg calls t room e clients (onJmap account c) fun r => r = .error .jmap :=
  answer .failed (c := .jmap account c) hc nofun fun _ _ => ⟨_, _, rfl, rfl⟩

theorem jmapReplies {c : JmapCmd} (r : JmapReply) {v : c.Ans}
    (hc : (Cmd.jmap account c).effectless) (hv : ∀ m, c.value m account r = some v) :
    May cfg calls t room e clients (onJmap account c) fun r => ∃ a, r = .ok a ∧ a = v := by
  refine answer (.reply r) (c := .jmap account c) hc nofun fun w _ => ?_
  have hp : (Cmd.jmap account c).perform t (.reply r) w = some (.ok v,
      { w with mail := c.effect account r w.mail, snapshot := c.settled t w.snapshot }) := by
    simp only [Cmd.perform, JmapCmd.perform, hv]
    rfl
  exact ⟨.ok v, _, hp, v, rfl, rfl⟩

theorem client {user : UserId} :
    May cfg calls t room e clients (onTask (.getClient user)) fun r => r = clients.lookup user :=
  answer .done (c := .task (.getClient user)) rfl nofun fun w hw =>
    ⟨w.clients.lookup user, w, rfl, by rw [hw.clients]⟩

theorem ghostEmail : May cfg calls t room e clients (onStore (.getGhostEmailByRoom room))
    fun r => ∃ v, r = .ok v ∧ v = (e.ghosts.lookup room).map (·.ghostEmail) :=
  answer .done (c := .store (.getGhostEmailByRoom room)) rfl nofun fun w hw =>
    ⟨_, w, rfl, _, rfl, by rw [← hw.effects]; rfl⟩

theorem emailId : May cfg calls t room e clients (onStore (.getEmailIdFromEventId target))
    fun r => ∃ v, r = .ok v ∧ v = (e.messages.findWhere fun _ x => x == target).map (·.1) :=
  answer .done (c := .store (.getEmailIdFromEventId target)) rfl nofun fun w hw =>
    ⟨_, w, rfl, _, rfl, by rw [← hw.effects]; rfl⟩

theorem notify {msg : String} :
    May cfg calls t room e clients (notify cfg room msg) fun _ => True := by
  have hsend : May cfg calls t room e clients (onMatrix (.sendAsGhost room cfg.botUserId
      (.message { plain := msg, html := none, origin := .notice }) none))
      fun r => r = .error .matrix :=
    answer .failed rfl nofun fun w _ => ⟨_, w, rfl, rfl⟩
  have hattempt : May cfg calls t room e clients (Act.attempt (onMatrix (.sendAsGhost room
      cfg.botUserId (.message { plain := msg, html := none, origin := .notice }) none)))
      fun r => r = .ok (.error .matrix) :=
    bind hsend fun r hr => pure (congrArg Except.ok hr)
  refine bind (Q := fun _ => True) ?_ fun _ _ => pure trivial
  refine bind hattempt fun r hr => ?_
  subst hr
  exact pure trivial

end May

theorem may_notify (cfg : Config) (calls : Nat → Call) (t : Nat) (room : RoomId) (msg : String)
    (w : World) : ∃ w', Eval (bridge cfg calls) (inRoom cfg room) t (notify cfg room msg) w () w' ∧
      w'.effects = w.effects := by
  have hmay : May cfg calls t room w.effects w.clients (notify cfg room msg) fun _ => True :=
    May.notify
  obtain ⟨⟨⟩, w', hrun, hw', -⟩ := hmay w ⟨rfl, rfl⟩
  exact ⟨w', hrun, hw'.effects⟩

theorem action_may_fail :
    May cfg calls t room e clients ((action.task sender room target).program cfg) fun _ =>
      True := by
  have hthread : ∀ role,
      May cfg calls t room e clients (handleThreadAction cfg sender room role) fun _ => True := by
    intro role
    rw [handleThreadAction]
    split
    · exact May.pure trivial
    · refine May.andThen (May.lift (May.client.mono fun _ _ => trivial)) fun client _ => ?_
      cases client with
      | none => exact (May.lift May.notify).mono fun _ _ => trivial
      | some account => exact May.error (May.storeFails rfl)
  cases action with
  | showImages =>
    change May cfg calls t room e clients (handleLoadImages cfg sender room target) fun _ => True
    rw [handleLoadImages]
    split
    · exact May.pure trivial
    · exact May.error (May.storeFails rfl)
  | deleteRoom => exact hthread _
  | spam => exact hthread _

theorem may_moveRoomThread {role : MailboxRole} :
    May cfg calls t room e clients (moveRoomThread account room role)
      fun r => ∃ moved, r = .ok moved ∧ moved.isSome := by
  have hlatest : May cfg calls t room e clients (onStore (.getLatestThreadInRoom room))
      fun r => ∃ latest, r = .ok latest ∧ True :=
    May.answer .done (c := .store (.getLatestThreadInRoom room)) rfl nofun fun w _ =>
      ⟨_, w, rfl, _, rfl, trivial⟩
  refine May.andThen hlatest fun latest _ => ?_
  match latest with
  | none => exact May.pure ⟨_, rfl, rfl⟩
  | some (thread, _, _) =>
    have hmove : May cfg calls t room e clients (moveThreadToRole account thread role)
        fun r => ∃ moved, r = .ok moved ∧ True := by
      refine May.andThen (Q := fun target => target = none) ?_ fun target htarget => ?_
      · refine May.andThen (May.jmapReplies (.queried {}) rfl fun _ => rfl) fun reply hreply => ?_
        subst hreply
        exact May.pure ⟨none, rfl, rfl⟩
      · subst htarget
        exact May.pure ⟨false, rfl, trivial⟩
    refine May.andThen (May.bind hmove fun r hr => May.pure ⟨r, rfl, hr⟩) fun r hr => ?_
    obtain ⟨moved, rfl, -⟩ := hr
    exact May.pure ⟨_, rfl, rfl⟩

theorem threadAction_leaves {role : MailboxRole} (hlevel : cfg.level sender ≠ none)
    (hclient : clients.lookup sender = some account) (hghost : e.ghosts.lookup room = none) :
    Outcome cfg calls t room e clients (handleThreadAction cfg sender room role) fun _ w =>
      moves w.trace = (.matrix (.leaveRoom room cfg.botUserId), .done) :: e.moves := by
  rw [handleThreadAction, if_neg (by simpa using hlevel)]
  refine May.andThen (May.lift May.client) fun client hlookup => ?_
  obtain rfl : client = some account := hlookup.trans hclient
  refine May.andThen May.ghostEmail fun ghostEmail hemail => ?_
  obtain rfl : ghostEmail = none := by rw [hemail, hghost]; rfl
  refine May.andThen may_moveRoomThread fun moved hmoved => ?_
  obtain ⟨had, rfl⟩ := Option.isSome_iff_exists.mp hmoved
  intro w hw
  have hmoves : moves w.trace = e.moves := congrArg Effects.moves hw.effects
  have hdelete := may_answer cfg calls room (t := t) (w := w)
    (c := .store (.deleteRoomGhostMapping room)) (a := .done) rfl (fun h => by cases h)
  have hthreads := fun w => may_answer cfg calls room (t := t)
    (w := w) (c := .store (.deleteThreadMappings room)) (a := .done) rfl (fun h => by cases h)
  have hleave := fun w => may_answer cfg calls room (t := t)
    (w := w) (c := .matrix (.leaveRoom room cfg.botUserId)) (a := .done) rfl (fun h => by cases h)
  obtain ⟨w', hnotify, hw'⟩ := may_notify cfg calls t room _ _
  refine ⟨_, w', Eval.bind (Eval.bind hdelete (hthreads _))
    (Eval.bind (Eval.bind (Eval.bind (hleave _) .pure) .pure) (Eval.bind hnotify .pure)), ?_⟩
  exact (congrArg Effects.moves hw').trans (congrArg _ hmoves)

theorem submit_outcome {b : EmailBuilder} :
    Outcome cfg calls t room e clients (submit account b) fun _ w => ∃ draft a,
      moves w.trace = (.jmap account (.submitBatch draft), a) :: e.moves := by
  have hmailbox : May cfg calls t room e clients (outgoingMailbox account)
      fun r => ∃ id, r = .ok id ∧ True := by
    refine May.andThen (Q := fun id => id = some "S") ?_ fun id hid => ?_
    · refine May.andThen (May.jmapReplies (.queried { ids := ["S"] }) rfl fun _ => rfl)
        fun reply hreply => ?_
      subst hreply
      exact May.pure ⟨_, rfl, rfl⟩
    · subst hid
      exact May.pure ⟨_, rfl, trivial⟩
  have hidentity : May cfg calls t room e clients (primaryIdentity account) fun _ => True := by
    refine May.bind (May.jmapFails rfl) fun r hr => ?_
    subst hr
    exact May.pure trivial
  refine May.andThen hmailbox fun mailboxId _ => ?_
  refine May.andThen (May.lift hidentity) fun identity _ => ?_
  intro w hw
  have hmoves : moves w.trace = e.moves := congrArg Effects.moves hw.effects
  have hbatch := fun draft => may_answer cfg calls room (t := t)
    (w := w) (c := .jmap account (.submitBatch draft)) (a := .reply (.batch ⟨some "E", true⟩))
    rfl nofun
  exact ⟨_, _, Eval.bind (hbatch _) .pure, _, _, congrArg _ hmoves⟩

theorem may_threadEmailIds :
    May cfg calls t room e clients (threadEmailIds account thread) fun ids => ids = [] := by
  refine May.bind (May.jmapFails rfl) fun r hr => ?_
  subst hr
  exact May.pure rfl

theorem replyToEmail_outcome {b : EmailBuilder} :
    Outcome cfg calls t room e clients (replyToEmail cfg account thread b) fun _ w =>
      ∃ draft a, moves w.trace = (.jmap account (.submitBatch draft), a) :: e.moves := by
  have hheaders : May cfg calls t room e clients (replyHeaders account thread) fun _ => True := by
    refine May.bind may_threadEmailIds fun ids hids => ?_
    subst hids
    exact May.pure trivial
  have hquote : May cfg calls t room e clients (quotedBody cfg account thread b.body)
      fun _ => True := by
    rw [quotedBody]
    split
    · refine May.bind (Q := fun _ => True) ?_ fun _ _ => May.pure trivial
      refine May.bind may_threadEmailIds fun ids hids => ?_
      subst hids
      exact May.pure trivial
    · exact May.pure trivial
  refine May.andThen (May.lift hheaders) fun headers _ => ?_
  exact May.andThen (May.lift hquote) fun quoted _ => submit_outcome

theorem replyCommand_mails {row : EmailId × EventId}
    (hclient : clients.lookup sender = some account)
    (hrelation : replyTargetEvent relation = some target)
    (hmapped : e.messages.findWhere (fun _ x => x == target) = some row) :
    Outcome cfg calls t room e clients (replyCommand cfg ⟨sender, room, event⟩ body relation)
      fun _ w => ∃ draft a, moves w.trace = (.jmap account (.submitBatch draft), a) :: e.moves := by
  rw [replyCommand, hrelation]
  refine May.andThen May.emailId fun email hemail => ?_
  obtain rfl : email = some row.1 := by rw [hemail, hmapped]; rfl
  refine May.andThen (May.lift May.client) fun client hlookup => ?_
  obtain rfl : client = some account := hlookup.trans hclient
  refine May.andThen (May.jmapReplies (.emails [{ threadId := some "T" }]) rfl fun _ => rfl)
    fun emails hemails => ?_
  subst hemails
  have hsigned :
      May cfg calls t room e clients (appendUserSignature sender body) fun _ => True := by
    refine May.bind (May.storeFails rfl) fun r hr => ?_
    subst hr
    exact May.pure trivial
  refine May.andThen (Q := fun _ => True) (May.pure ⟨"T", rfl, trivial⟩) fun thread _ => ?_
  refine May.andThen (May.lift hsigned) fun signed _ => ?_
  intro w hw
  obtain ⟨sent, w₁, hsent, draft, a, hmoves⟩ :=
    (replyToEmail_outcome : Outcome cfg calls t room e clients
      (replyToEmail cfg account thread _) _) w hw
  have hnotify : ∀ msg, ∃ w', Eval (bridge cfg calls) (inRoom cfg room) t (notify cfg room msg) w₁
      () w' ∧ moves w'.trace = moves w₁.trace := by
    intro msg
    obtain ⟨w', hrun, hw'⟩ := may_notify cfg calls t room msg w₁
    exact ⟨w', hrun, congrArg Effects.moves hw'⟩
  cases sent with
  | ok id =>
    obtain ⟨w', hrun, hlast⟩ := hnotify replySent
    exact ⟨_, w', Eval.bind (Eval.bind hsent .pure) (Eval.bind hrun .pure), draft, a,
      hlast.trans hmoves⟩
  | error err =>
    obtain ⟨w', hrun, hlast⟩ := hnotify (replyNotSent err)
    exact ⟨_, w', Eval.bind (Eval.bind hsent .pure) (Eval.bind hrun .pure), draft, a,
      hlast.trans hmoves⟩

end

/-! The reply makes nobody leave. -/

theorem leaves_kept {x : Prog Op α} {r : α} (hx : Does (fun c => c.leaving = false) x)
    (h : Eval (bridge cfg calls) (inRoom cfg room) t x w r w') :
    (moves w'.trace).countP (·.1.leaving) = (moves w.trace).countP (·.1.leaving) := by
  refine Eval.only (P := fun v => (moves v.trace).countP (·.1.leaving) =
    (moves w.trace).countP (·.1.leaving)) ?_ h hx rfl
  intro β o a v b v' hleave _ he hv
  obtain ⟨c⟩ := o
  have hexec : exec t (.mk c) a v = some (b, v') := he
  have hcmd : c.leaving = false := hleave
  rw [exec_trace hexec, ← hv, moves, List.filter_cons]
  split
  · rw [List.map_cons, List.countP_cons_of_neg (by simp [hcmd])]
    rfl
  · rfl

theorem talk_stays {x : Prog Op α} (h : Talk x) : Does (fun c => c.leaving = false) x :=
  h.mono fun _ => Cmd.talk.not_leaving

theorem replyCommand_stays {e : QueuedEvent} {body : String} {relation : Option Relation} :
    Does (fun c => c.leaving = false) (replyCommand cfg e body relation) := by
  have hsubmit : ∀ account b, Does (fun c => c.leaving = false) (submit account b) := by
    intro account b
    refine .andThen (talk_stays outgoingMailbox_remark.talk) fun _ => ?_
    refine .andThen (.lift (talk_stays primaryIdentity_remark.talk)) fun _ => ?_
    refine .andThen (.jmap rfl) fun _ => .andThen .ofOption fun _ => ?_
    split
    · exact .ok
    · exact .fail
  rw [replyCommand]
  split
  · exact .ok
  · refine .andThen (.store rfl) fun email => ?_
    split
    · exact .ok
    · refine .andThen (.lift (.task rfl)) fun client => ?_
      split
      · exact .ok
      · refine .andThen (.jmap rfl) fun emails => ?_
        split
        · exact .ok
        · refine .andThen .ofOption fun thread => ?_
          refine .andThen (.lift (talk_stays appendUserSignature_remark.talk)) fun signed => ?_
          refine .andThen (.attempt ?_) fun sent => ?_
          · exact .andThen (.lift (talk_stays replyHeaders_remark.talk)) fun _ =>
              .andThen (.lift (talk_stays quotedBody_remark.talk)) fun _ => hsubmit _ _
          · split
            · exact .lift (talk_stays notify_remark.talk)
            · exact .lift (talk_stays notify_remark.talk)

/-! Command and reaction. -/

section

variable {chat : Chat} {sender : UserId} {target event : EventId} {key body : String}
  {relation : Option Relation} {action : GhostCommand} {account : Account}

theorem Kept.reaches {x : Prog Op α} {e : Effects}
    (hx : Kept cfg calls t room w.effects w.clients x fun _ => True)
    (h : Reaches cfg calls t room x w e) : e = w.effects := by
  obtain ⟨r, w', hr, rfl⟩ := h
  exact (hx w r w' ⟨rfl, rfl⟩ hr).1.effects

theorem not_effects_of_moves {e : Effects} {m : Cmd × Answer} (h : e.moves = m :: w.effects.moves) :
    e ≠ w.effects := by
  rintro rfl
  exact absurd (congrArg List.length h) (by simp)

theorem action_kept (hghost : w.store.roomGhostMapping.lookup room = none)
    (hleft : botLeft cfg room (moves w.trace) = false)
    (h : cfg.level sender = none ∨ w.clients.lookup sender = none ∨ action = .showImages) :
    Kept cfg calls t room w.effects w.clients ((action.task sender room target).program cfg)
      fun _ => True := by
  have hthread : action ≠ .showImages → ∀ role, Kept cfg calls t room w.effects w.clients
      (handleThreadAction cfg sender room role) fun _ => True := by
    intro hne role
    refine threadAction_kept hleft ?_
    rcases h with h | h | h
    · exact .inl h
    · exact .inr h
    · exact absurd h hne
  cases action with
  | showImages => exact loadImages_kept (.inr hghost)
  | deleteRoom => exact hthread nofun _
  | spam => exact hthread nofun _

/-- Outside the conversation rooms the mail, the mappings and the members stay as they are if
the two agree. -/
theorem not_agreeing (hsender : isBridgeUser sender = false)
    (hkey : reactionTask sender room target key = some (action.task sender room target))
    (hrouter : ChatCommand.router.find? (ChatCommand.matches body relation) = some .reply)
    (hrelation : replyTargetEvent relation = some target)
    (hghost : w.store.roomGhostMapping.lookup room = none)
    (hleft : botLeft cfg room (moves w.trace) = false) (hlevel : cfg.level sender ≠ none)
    (hclient : w.clients.lookup sender = some account)
    (hsame : ∀ e, Reaches cfg calls t room (reacting cfg sender room target key) w e ↔
      Reaches cfg calls t room (typing cfg chat ⟨sender, room, event⟩ body relation) w e) :
    action = .showImages ∧ (chat.loginState ≠ .none ∨
      w.store.messageMapping.findWhere (fun _ e => e == target) = none) := by
  have hthread : ∀ role, action ≠ .showImages →
      (action.task sender room target).program cfg = handleThreadAction cfg sender room role →
      False := by
    intro role hne hprogram
    obtain ⟨r, w', hrun, hmoves⟩ := (threadAction_leaves hlevel hclient hghost : Outcome cfg calls t
      room w.effects w.clients (handleThreadAction cfg sender room role) _) w ⟨rfl, rfl⟩
    have hnew : w'.effects ≠ w.effects := not_effects_of_moves hmoves
    have hreact : Reaches cfg calls t room (reacting cfg sender room target key) w w'.effects :=
      (reacting_reaches hsender hkey _).mpr ⟨r, w', hprogram ▸ hrun, rfl⟩
    rcases (typing_other hsender hghost _).mp ((hsame _).mp hreact) with heq | htyped
    · exact hnew heq
    · by_cases hstate : chat.loginState = .none
      · rw [handleCommand_reply hstate hlevel hrouter] at htyped
        obtain ⟨r', w'', hrun', heffects⟩ := htyped
        have hcount := leaves_kept replyCommand_stays hrun'
        have hsameMoves : moves w''.trace = moves w'.trace := congrArg Effects.moves heffects
        rw [hsameMoves, hmoves, List.countP_cons_of_pos (by rfl)] at hcount
        exact absurd hcount (Nat.succ_ne_self _)
      · exact hnew ((handleCommand_kept hleft hrouter (.inl hstate)).reaches htyped)
  cases action with
  | deleteRoom => exact (hthread .trash nofun rfl).elim
  | spam => exact (hthread .junk nofun rfl).elim
  | showImages =>
    refine ⟨rfl, ?_⟩
    by_cases hstate : chat.loginState = .none
    case neg => exact .inl hstate
    refine .inr ?_
    cases hmapped : w.store.messageMapping.findWhere (fun _ e => e == target) with
    | none => rfl
    | some row =>
      obtain ⟨r, w', hrun, draft, a, hmoves⟩ :=
        (replyCommand_mails hclient hrelation hmapped : Outcome cfg calls t room w.effects w.clients
          (replyCommand cfg ⟨sender, room, event⟩ body relation) _) w ⟨rfl, rfl⟩
      have hcommand : handleCommand cfg chat ⟨sender, room, event⟩ body relation =
          replyCommand cfg ⟨sender, room, event⟩ body relation :=
        handleCommand_reply hstate hlevel hrouter
      have htype : Reaches cfg calls t room (typing cfg chat ⟨sender, room, event⟩ body relation) w
          w'.effects :=
        (typing_other hsender hghost _).mpr (.inr ⟨r, w', hcommand ▸ hrun, rfl⟩)
      have hreact := (reacting_reaches hsender hkey _).mp ((hsame _).mpr htype)
      have hkept : Kept cfg calls t room w.effects w.clients
          ((GhostCommand.showImages.task sender room target).program cfg) fun _ => True :=
        action_kept hghost hleft (.inr (.inr rfl))
      exact absurd (hkept.reaches hreact) (not_effects_of_moves hmoves)

/-- For the target of a reply and the emoji of its command, the reaction may come to what the
command may come to exactly in the conversation rooms, and where neither does anything. -/
theorem twins_agree_iff
    (hkey : reactionTask sender room target key = some (action.task sender room target))
    (hbody : parseGhostCommand cfg body = some action)
    (hrelation : replyTargetEvent relation = some target)
    (hfallback : cfg.removeReplyFallback body = body ∨ startsWith "> " body.toList)
    (hbot : w.store.roomGhostMapping.lookup room = none →
      botLeft cfg room (moves w.trace) = false) :
    (∀ e, Reaches cfg calls t room (reacting cfg sender room target key) w e ↔
      Reaches cfg calls t room (typing cfg chat ⟨sender, room, event⟩ body relation) w e) ↔
    Agreeing cfg chat sender room target action w := by
  by_cases hbridge : isBridgeUser sender = true
  case pos =>
    refine iff_of_true (fun e => ?_) (.inr (.inl hbridge))
    rw [reacting, if_pos hbridge, typing, if_pos hbridge]
  have hsender : isBridgeUser sender = false := by simpa using hbridge
  have hnothing : Reaches cfg calls t room ((action.task sender room target).program cfg) w
      w.effects := by
    obtain ⟨r, w', hrun, hw', -⟩ := (action_may_fail : May cfg calls t room w.effects w.clients
      ((action.task sender room target).program cfg) _) w ⟨rfl, rfl⟩
    exact ⟨r, w', hrun, hw'.effects⟩
  cases hghost : w.store.roomGhostMapping.lookup room with
  | some row =>
    refine iff_of_true (fun e => ?_) (.inl (by rw [hghost]; rfl))
    refine (reacting_reaches hsender hkey e).trans (Iff.symm ?_)
    refine (typing_ghost hsender hbody hrelation (by rw [hghost]; rfl) e).trans ?_
    exact or_iff_right_of_imp fun he => he ▸ hnothing
  | none =>
    have hrouter : ChatCommand.router.find? (ChatCommand.matches body relation) = some .reply :=
      router_reply hbody (by cases relation <;> [cases hrelation; rfl]) hfallback
    have hleft : botLeft cfg room (moves w.trace) = false := hbot hghost
    constructor
    · intro hsame
      by_cases hlevel : cfg.level sender = none
      · exact .inr (.inr (.inl hlevel))
      cases hclient : w.clients.lookup sender with
      | none => exact .inr (.inr (.inr (.inl hclient)))
      | some account =>
        exact .inr (.inr (.inr (.inr (not_agreeing hsender hkey hrouter hrelation hghost hleft
          hlevel hclient hsame))))
    · intro hagree e
      have hagree' : cfg.level sender = none ∨ w.clients.lookup sender = none ∨
          action = .showImages ∧ (chat.loginState ≠ .none ∨
            w.store.messageMapping.findWhere (fun _ e => e == target) = none) := by
        rcases hagree with h | h | h
        · rw [hghost] at h
          cases h
        · exact absurd h hbridge
        · exact h
      have hreact : Kept cfg calls t room w.effects w.clients
          ((action.task sender room target).program cfg) fun _ => True :=
        action_kept hghost hleft (hagree'.imp_right (Or.imp_right And.left))
      have htype : Kept cfg calls t room w.effects w.clients
          (handleCommand cfg chat ⟨sender, room, event⟩ body relation) fun _ => True := by
        refine handleCommand_kept hleft hrouter ?_
        rcases hagree' with h | h | ⟨-, h | h⟩
        · exact .inr (.inl h)
        · exact .inr (.inr (replyCommand_kept hrelation (.inl h)))
        · exact .inl h
        · exact .inr (.inr (replyCommand_kept hrelation (.inr h)))
      refine (reacting_reaches hsender hkey e).trans
        (Iff.trans ?_ (typing_other hsender hghost e).symm)
      constructor
      · exact fun h => .inl (hreact.reaches h)
      · rintro (rfl | h)
        · exact hnothing
        · exact htype.reaches h ▸ hnothing

end

/-- A user with a session, and one room with a ghost. -/
def twinWorld : World where
  store :=
    { roomGhostMapping := (∅ : Sql.Table _ _).insert "!g" ⟨"b@y", none, "@a:localhost"⟩ }
  clients := (∅ : Sql.Table _ _).insert "@a:localhost" "A@x"

def twinConfig : Config := { level := fun _ => some .user }

/-- In the conversation room the wastebasket is `delete-room`. -/
theorem twins_agree_ghost : Agreeing twinConfig {} "@a:localhost" "!g" "$m" .deleteRoom twinWorld ∧
    ∀ e, Reaches twinConfig (fun _ => .worker) 0 "!g"
        (reacting twinConfig "@a:localhost" "!g" "$m" "🗑") twinWorld e ↔
      Reaches twinConfig (fun _ => .worker) 0 "!g" (typing twinConfig {}
        ⟨"@a:localhost", "!g", "$c"⟩ "delete-room" (some (.reply "$m"))) twinWorld e := by
  have hagree : Agreeing twinConfig {} "@a:localhost" "!g" "$m" .deleteRoom twinWorld :=
    .inl (by decide +kernel)
  exact ⟨hagree, (twins_agree_iff (by decide +kernel) (by decide +kernel) rfl (.inl rfl)
    (fun _ => rfl)).mpr hagree⟩

/-- In the room with the bot the wastebasket makes the bot leave, and `delete-room` does nothing. -/
theorem twins_differ : ¬ Agreeing twinConfig {} "@a:localhost" "!dm" "$m" .deleteRoom twinWorld ∧
    ¬ ∀ e, Reaches twinConfig (fun _ => .worker) 0 "!dm"
        (reacting twinConfig "@a:localhost" "!dm" "$m" "🗑") twinWorld e ↔
      Reaches twinConfig (fun _ => .worker) 0 "!dm" (typing twinConfig {}
        ⟨"@a:localhost", "!dm", "$c"⟩ "delete-room" (some (.reply "$m"))) twinWorld e := by
  have hghost : twinWorld.store.roomGhostMapping.lookup "!dm" = none := by decide +kernel
  have hclient : twinWorld.clients.lookup "@a:localhost" = some "A@x" := by decide +kernel
  refine ⟨?_, fun hsame => ?_⟩
  · rintro (h | h | h | h | ⟨h, -⟩)
    · rw [hghost] at h
      cases h
    · exact absurd h (by decide +kernel)
    · cases h
    · rw [hclient] at h
      cases h
    · cases h
  · have hkey : reactionTask "@a:localhost" "!dm" "$m" "🗑" =
        some (GhostCommand.deleteRoom.task "@a:localhost" "!dm" "$m") := by decide +kernel
    have himages := not_agreeing (by decide +kernel) hkey (by decide +kernel) rfl hghost rfl
      (by decide +kernel) hclient hsame
    cases himages.1

end JmapBridge
