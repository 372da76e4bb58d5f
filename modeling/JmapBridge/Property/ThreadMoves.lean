import JmapBridge.Model.Queue
import JmapBridge.Effect.Ends

/-! The trash and junk of a conversation is all or nothing, but where the thread cannot be
read or the server declines to move it: then the room is given up, and the mail stays. -/

namespace JmapBridge

open Effect

/-- How a call to the mail server ends: it is not carried out, it is carried out and its reply
is lost, its method is refused, or it is answered. -/
inductive CallOutcome (α : Type) where
  | unreachable
  | lost (a : α)
  | refused
  | answered (a : α)
deriving DecidableEq, Repr

/-- What becomes of the three calls of a thread action. `update` are the emails in `notUpdated`. -/
structure ThreadOutcomes where
  mailbox : CallOutcome QueryReply
  thread : CallOutcome Unit
  update : CallOutcome (List EmailId)
deriving DecidableEq, Repr

/-- A refused method is an error where the code looks into the reply. -/
def CallOutcome.answer {α : Type} (reply : α → JmapReply) : CallOutcome α → Answer
  | unreachable => .failed
  | lost a => .lostReply (reply a)
  | refused => .failed
  | answered a => .reply (reply a)

/-- The code does not look into the reply of `Email/set`: a refused method is a reply that
reports nothing as updated. -/
def CallOutcome.updateAnswer (ids : List EmailId) : CallOutcome (List EmailId) → Answer
  | unreachable => .failed
  | lost l => .lostReply (.updated (ids.filter fun e => e ∉ l))
  | refused => .reply (.updated [])
  | answered l => .reply (.updated (ids.filter fun e => e ∉ l))

/-- The thread as `Thread/get` finds it; there is no thread without emails. -/
def foundThread (ids : List EmailId) : JmapReply := .thread (if ids.isEmpty then none else some ids)

def ThreadOutcomes.gives (o : ThreadOutcomes) (w : World) : Cmd → Answer → Prop
  | .store _, a => a = .done
  | .jmap _ (.queryMailboxRole _), a => a = o.mailbox.answer .queried
  | .jmap account (.getThread thread), a =>
    a = o.thread.answer fun _ => foundThread (w.mail.threads account thread)
  | .jmap _ (.setMailboxIds ids _), a => a = o.update.updateAnswer ids
  | _, _ => True

def ThreadOutcomes.discipline (o : ThreadOutcomes) : Discipline Op World Answer Env where
  step _ _ op a w := o.gives w op.cmd a

def Cmd.notice : Cmd → Option String
  | matrix (.sendAsGhost _ _ (.message ⟨text, _, .notice⟩) _) => some text
  | _ => none

def Told (text : String) (l : List Record) : Prop := ∃ r ∈ l, r.cmd.notice = some text

def movedText (role : MailboxRole) : String :=
  s!"Moved this conversation to {role.label} and unbridged the room."

def noMailboxText (role : MailboxRole) : String :=
  s!"No {role.label} mailbox on your account, so I unbridged this room locally but couldn't move the mail server-side."

def threadOf (s : Store) (room : RoomId) : Option ThreadId :=
  (s.threadMapping.findWhere fun _ r => r.roomId == room).map (·.1)

/-- Every email of the room's thread is in the mailbox of the role. -/
def Filed (o : ThreadOutcomes) (account : Account) (room : RoomId) (w w' : World) : Prop :=
  ∀ thread, threadOf w.store room = some thread → ∃ found target, o.mailbox = .answered found ∧
    found.ids.head? = some target ∧
    ∀ e ∈ w.mail.threads account thread, w'.mail.mailboxOf account e = some target

def Homeless (o : ThreadOutcomes) : Prop := ∃ found, o.mailbox = .answered found ∧ found.ids = []

/-- Nothing is unbridged, nobody leaves, and one who may act and has a session is told so. -/
structure LeftAlone (cfg : Config) (sender : UserId) (role : MailboxRole) (w w' : World)
    (l : List Record) : Prop where
  store : w'.store = w.store
  stays : ∀ r ∈ l, r.cmd.leaving = false
  told : cfg.level sender ≠ none → w.clients.lookup sender ≠ none → Told (nothingMoved role) l
  silent : ∀ text, Told text l → text = nothingMoved role ∨ text = "You are not logged in."

/-- The action gives the room up only over mail that is in its place or has none to go to, and
says which; else it leaves everything as it was. -/
def AllOrNothing (cfg : Config) (sender : UserId) (room : RoomId) (role : MailboxRole)
    (o : ThreadOutcomes) (w w' : World) : Prop :=
  ∃ l, w'.trace = l ++ w.trace ∧
    ((∃ account, cfg.level sender ≠ none ∧ w.clients.lookup sender = some account ∧
      (Filed o account room w w' ∧ Told (movedText role) l ∨
        Homeless o ∧ Told (noMailboxText role) l)) ∨
      LeftAlone cfg sender role w w' l)

def CallOutcome.Moves (e : EmailId) : CallOutcome (List EmailId) → Prop
  | unreachable => False
  | lost l => e ∉ l
  | refused => False
  | answered l => e ∉ l

def CallOutcome.Trusted {α : Type} : CallOutcome α → Prop
  | unreachable => False
  | lost _ => False
  | refused => True
  | answered _ => True

/-- There is a mailbox of the role, an email of the room's thread is not in it, and either the
thread cannot be read or the server replies to `Email/set` without moving that email. -/
def Misled (cfg : Config) (sender : UserId) (room : RoomId) (o : ThreadOutcomes) (w : World) :
    Prop :=
  cfg.level sender ≠ none ∧ ∃ account, w.clients.lookup sender = some account ∧
    ∃ thread, threadOf w.store room = some thread ∧
    ∃ found target, o.mailbox = .answered found ∧ found.ids.head? = some target ∧
    ∃ e ∈ w.mail.threads account thread, w.mail.mailboxOf account e ≠ some target ∧
      (o.thread ≠ .answered () ∨ o.update.Trusted ∧ ¬o.update.Moves e)

section

variable {cfg : Config} {calls : Nat → Call} {t : Nat} {o : ThreadOutcomes} {w₀ : World}
  {account : Account} {room : RoomId} {role : MailboxRole} {thread : ThreadId}

def RecordsSince (w₀ : World) (Q : List Record → Prop) (w : World) : Prop :=
  ∃ l, w.trace = l ++ w₀.trace ∧ Q l

theorem recordsSince_exec {Q Q' : List Record → Prop} {c : Cmd} {a : Answer} {b : c.Ans}
    {w w' : World}
    (h : exec t (.mk c) a w = some (b, w')) (hw : RecordsSince w₀ Q w)
    (hQ : ∀ l, Q l → Q' (⟨t, c, a⟩ :: l)) : RecordsSince w₀ Q' w' := by
  obtain ⟨l, hl, hq⟩ := hw
  refine ⟨⟨t, c, a⟩ :: l, ?_, hQ l hq⟩
  rw [exec_trace h, hl, List.cons_append]

def Uneventful (l : List Record) : Prop := ∀ r ∈ l, r.cmd.leaving = false ∧ r.cmd.notice = none

theorem uneventful_cons {c : Cmd} {a : Answer} {l : List Record} (hleave : c.leaving = false)
    (hnotice : c.notice = none) (h : Uneventful l) : Uneventful (⟨t, c, a⟩ :: l) := by
  intro r hr
  rcases List.mem_cons.mp hr with rfl | hr
  · exact ⟨hleave, hnotice⟩
  · exact h r hr

structure Asking (w₀ w : World) : Prop where
  store : w.store = w₀.store
  clients : w.clients = w₀.clients
  since : RecordsSince w₀ Uneventful w

theorem Asking.start (w₀ : World) : Asking w₀ w₀ :=
  ⟨rfl, rfl, [], rfl, fun _ hr => by cases hr⟩

structure Reading (w₀ w : World) : Prop extends Asking w₀ w where
  mail : w.mail = w₀.mail

theorem client_reads (sender : UserId) :
    Ends (bridge cfg calls) o.discipline t (Reading w₀) (onTask (.getClient sender))
      fun client w => client = w₀.clients.lookup sender ∧ Reading w₀ w := by
  refine .call fun w a client w' hw _ he => ?_
  have hexec : exec t (.mk (.task (.getClient sender))) a w = some (client, w') := he
  obtain ⟨-, rfl, rfl⟩ := exec_task hexec
  refine ⟨congrArg (·.lookup sender) hw.clients, ⟨⟨hw.store, hw.clients, ?_⟩, hw.mail⟩⟩
  exact recordsSince_exec hexec hw.since fun _ => uneventful_cons rfl rfl

theorem store_reads {c : StoreCmd} {v : c.Ans}
    (hrun : ∀ now, c.run now [] w₀.store = (.ok v, w₀.store)) :
    Ends (bridge cfg calls) o.discipline t (Reading w₀) (onStore c)
      (onResult (fun r w => r = v ∧ Reading w₀ w) fun _ _ => False) := by
  refine .call fun w a r w' hw hstep he => ?_
  have hexec : exec t (.mk (.store c)) a w = some (r, w') := he
  have ha : a = .done := hstep
  subst ha
  have hsince := recordsSince_exec hexec hw.since fun _ => uneventful_cons (c := .store c) rfl rfl
  rcases exec_store hexec with ⟨order, horder, rfl, rfl⟩ | ⟨hfail, -⟩ | ⟨⟨s, hlost⟩, -⟩
  · rcases horder with ⟨-, rfl⟩ | horder
    · have hv := hrun w.now
      rw [← hw.store] at hv
      have hstore : (c.run w.now [] w.store).2 = w₀.store := by rw [hv, hw.store]
      rw [hv]
      exact ⟨rfl, ⟨⟨hw.store, hw.clients, hsince⟩, hw.mail⟩⟩
    · cases horder
  · cases hfail
  · cases hlost

theorem mailbox_reads : Ends (bridge cfg calls) o.discipline t (Reading w₀)
    (mailboxIdForRole account role)
    (onResult (fun target w => (∃ found, o.mailbox = .answered found ∧ target = found.ids.head?) ∧
      Reading w₀ w) fun _ w => (∀ found, o.mailbox ≠ .answered found) ∧ Reading w₀ w) := by
  refine .andThen (Q := fun found w => o.mailbox = .answered found ∧ Reading w₀ w) ?_ fun found =>
    .ok fun w hw => ⟨⟨found, hw.1, rfl⟩, hw.2⟩
  refine .call fun w a r w' hw hstep he => ?_
  have hexec : exec t (.mk (.jmap account (.queryMailboxRole role))) a w = some (r, w') := he
  have ha : a = o.mailbox.answer .queried := hstep
  have hsince := recordsSince_exec hexec hw.since fun _ => uneventful_cons rfl rfl
  cases ho : o.mailbox with
  | unreachable =>
    rw [ha, ho] at hexec
    obtain ⟨rfl, rfl⟩ := Prod.mk.inj (Option.some.inj hexec)
    exact ⟨fun _ h => (by cases h), ⟨⟨hw.store, hw.clients, hsince⟩, hw.mail⟩⟩
  | lost found =>
    rw [ha, ho] at hexec
    obtain ⟨rfl, rfl⟩ := Prod.mk.inj (Option.some.inj hexec)
    exact ⟨fun _ h => (by cases h), ⟨⟨hw.store, hw.clients, hsince⟩, hw.mail⟩⟩
  | refused =>
    rw [ha, ho] at hexec
    obtain ⟨rfl, rfl⟩ := Prod.mk.inj (Option.some.inj hexec)
    exact ⟨fun _ h => (by cases h), ⟨⟨hw.store, hw.clients, hsince⟩, hw.mail⟩⟩
  | answered found =>
    rw [ha, ho] at hexec
    obtain ⟨rfl, rfl⟩ := Prod.mk.inj (Option.some.inj hexec)
    exact ⟨rfl, ⟨⟨hw.store, hw.clients, hsince⟩, hw.mail⟩⟩

theorem threadEmailIds_reads : Ends (bridge cfg calls) o.discipline t (Reading w₀)
    (threadEmailIds account thread) fun ids w => Reading w₀ w ∧
      (o.thread = .answered () ∧ ids = w₀.mail.threads account thread ∨
        o.thread ≠ .answered () ∧ ids = []) := by
  refine .bind (Q := onResult (fun found w => Reading w₀ w ∧ o.thread = .answered () ∧
    found.getD [] = w₀.mail.threads account thread) fun _ w => Reading w₀ w ∧
      o.thread ≠ .answered ()) ?_ fun found => ?_
  · refine .call fun w a r w' hw hstep he => ?_
    have hexec : exec t (.mk (.jmap account (.getThread thread))) a w = some (r, w') := he
    have ha : a = o.thread.answer fun _ => foundThread (w.mail.threads account thread) := hstep
    have hsince := recordsSince_exec hexec hw.since fun _ => uneventful_cons rfl rfl
    have hget : (JmapCmd.getThread thread).value w.mail account
        (foundThread (w.mail.threads account thread)) =
          some (if (w.mail.threads account thread).isEmpty then none
            else some (w.mail.threads account thread)) := by
      by_cases hnil : (w.mail.threads account thread).isEmpty = true
      · simp [JmapCmd.value, foundThread, List.isEmpty_iff.mp hnil]
      · simp [JmapCmd.value, foundThread, hnil]
    obtain ⟨w₁, hp, rfl⟩ := exec_jmap_perform hexec
    cases ho : o.thread with
    | unreachable =>
      rw [ha, ho] at hp
      obtain ⟨rfl, rfl⟩ := Prod.mk.inj (Option.some.inj hp)
      exact ⟨⟨⟨hw.store, hw.clients, hsince⟩, hw.mail⟩, fun h => by cases h⟩
    | lost a =>
      rw [ha, ho] at hp
      simp only [CallOutcome.answer, JmapCmd.perform, hget] at hp
      obtain ⟨rfl, rfl⟩ := Prod.mk.inj (Option.some.inj hp)
      exact ⟨⟨⟨hw.store, hw.clients, hsince⟩, hw.mail⟩, fun h => by cases h⟩
    | refused =>
      rw [ha, ho] at hp
      obtain ⟨rfl, rfl⟩ := Prod.mk.inj (Option.some.inj hp)
      exact ⟨⟨⟨hw.store, hw.clients, hsince⟩, hw.mail⟩, fun h => by cases h⟩
    | answered a =>
      rw [ha, ho] at hp
      simp only [CallOutcome.answer, JmapCmd.perform, hget] at hp
      obtain ⟨rfl, rfl⟩ := Prod.mk.inj (Option.some.inj hp)
      refine ⟨⟨⟨hw.store, hw.clients, hsince⟩, hw.mail⟩, rfl, ?_⟩
      rw [← hw.mail]
      by_cases hnil : (w.mail.threads account thread).isEmpty = true
      · rw [if_pos hnil, List.isEmpty_iff.mp hnil]
        rfl
      · rw [if_neg hnil]
        rfl
  · cases found with
    | ok found => exact .pure fun w hw => ⟨hw.1, .inl hw.2⟩
    | error _ => exact .pure fun w hw => ⟨hw.1, .inr ⟨hw.2, rfl⟩⟩

theorem setMailboxIds_asks {ids : List EmailId} {target : MailboxId} :
    Ends (bridge cfg calls) o.discipline t (Reading w₀) (onJmap account (.setMailboxIds ids target))
      (onResult (fun _ w => Asking w₀ w ∧ o.update.Trusted ∧
        ∀ e ∈ ids, w.mail.mailboxOf account e = some target ↔
          w₀.mail.mailboxOf account e = some target ∨ o.update.Moves e)
        fun _ w => Asking w₀ w ∧ ¬o.update.Trusted) := by
  refine .call fun w a r w' hw hstep he => ?_
  have hexec : exec t (.mk (.jmap account (.setMailboxIds ids target))) a w = some (r, w') := he
  have ha : a = o.update.updateAnswer ids := hstep
  have hsince := recordsSince_exec hexec hw.since fun _ => uneventful_cons rfl rfl
  have hset : ∀ l : List EmailId, (JmapCmd.setMailboxIds ids target).value w.mail account
      (.updated (ids.filter fun e => e ∉ l)) = some () := by
    intro l
    exact if_pos (List.filter_subset_self ids)
  obtain ⟨w₁, hp, rfl⟩ := exec_jmap_perform hexec
  cases ho : o.update with
  | unreachable =>
    rw [ha, ho] at hp
    obtain ⟨rfl, rfl⟩ := Prod.mk.inj (Option.some.inj hp)
    exact ⟨⟨hw.store, hw.clients, hsince⟩, fun h => h⟩
  | lost l =>
    rw [ha, ho] at hp
    simp only [CallOutcome.updateAnswer, JmapCmd.perform, hset] at hp
    obtain ⟨rfl, rfl⟩ := Prod.mk.inj (Option.some.inj hp)
    exact ⟨⟨hw.store, hw.clients, hsince⟩, fun h => h⟩
  | refused =>
    rw [ha, ho] at hp
    obtain ⟨rfl, rfl⟩ := Prod.mk.inj (Option.some.inj hp)
    refine ⟨⟨hw.store, hw.clients, hsince⟩, trivial, fun e he => ?_⟩
    rw [← hw.mail]
    simp [JmapCmd.effect, CallOutcome.Moves]
  | answered l =>
    rw [ha, ho] at hp
    simp only [CallOutcome.updateAnswer, JmapCmd.perform, hset] at hp
    obtain ⟨rfl, rfl⟩ := Prod.mk.inj (Option.some.inj hp)
    refine ⟨⟨hw.store, hw.clients, hsince⟩, trivial, fun e he => ?_⟩
    rw [← hw.mail]
    by_cases hl : e ∈ l
    · simp [JmapCmd.effect, CallOutcome.Moves, hl]
    · simp [JmapCmd.effect, CallOutcome.Moves, hl, he]

def Placed (o : ThreadOutcomes) (account : Account) (thread : ThreadId) (w₀ w : World) : Prop :=
  ∃ found target, o.mailbox = .answered found ∧ found.ids.head? = some target ∧
    ∀ e ∈ w₀.mail.threads account thread, w.mail.mailboxOf account e = some target ↔
      w₀.mail.mailboxOf account e = some target ∨
        o.thread = .answered () ∧ (o.update.Trusted → o.update.Moves e)

def ThreadOutcomes.Stopped (o : ThreadOutcomes) : Prop :=
  (∀ found, o.mailbox ≠ .answered found) ∨ o.thread = .answered () ∧ ¬o.update.Trusted

theorem moveThreadToRole_asks : Ends (bridge cfg calls) o.discipline t (Reading w₀)
    (moveThreadToRole account thread role)
    (onResult (fun had w => Asking w₀ w ∧
      if had = true then Placed o account thread w₀ w else Homeless o)
        fun _ w => Asking w₀ w ∧ o.Stopped) := by
  have hmailbox :
      Ends (bridge cfg calls) o.discipline t (Reading w₀) (mailboxIdForRole account role)
      (onResult (fun target w => (∃ found, o.mailbox = .answered found ∧
        target = found.ids.head?) ∧ Reading w₀ w) fun _ w => Asking w₀ w ∧ o.Stopped) := by
    refine mailbox_reads.post fun r w hr => ?_
    cases r with
    | ok target => exact hr
    | error _ => exact ⟨hr.2.toAsking, .inl hr.1⟩
  refine .andThen hmailbox fun target => ?_
  cases target with
  | none =>
    refine .ok fun w hw => ?_
    obtain ⟨⟨found, ho, htarget⟩, hread⟩ := hw
    exact ⟨hread.toAsking, found, ho, List.head?_eq_none_iff.mp htarget.symm⟩
  | some target =>
    intro w r w' hw he
    obtain ⟨⟨found, ho, htarget⟩, hread⟩ := hw
    refine Ends.andThen (P := Reading w₀) (.lift threadEmailIds_reads)
      (fun ids => ?_) w r w' hread he
    by_cases hnil : ids.isEmpty = true
    · rw [if_pos hnil]
      refine .ok fun w hw => ⟨hw.1.toAsking, found, target, ho, htarget.symm, fun e he => ?_⟩
      rw [hw.1.mail]
      rcases hw.2 with ⟨-, hids⟩ | ⟨hthread, -⟩
      · rw [← hids, List.isEmpty_iff.mp hnil] at he
        cases he
      · simp [hthread]
    · rw [if_neg hnil]
      intro w r w' hw he
      obtain ⟨hread, hids⟩ := hw
      have hids : o.thread = .answered () ∧ ids = w₀.mail.threads account thread := by
        rcases hids with hids | ⟨-, rfl⟩
        · exact hids
        · exact absurd rfl hnil
      have hset : Ends (bridge cfg calls) o.discipline t (Reading w₀)
          (onJmap account (.setMailboxIds ids target)) (onResult (fun _ w => Asking w₀ w ∧
            o.update.Trusted ∧ ∀ e ∈ ids, w.mail.mailboxOf account e = some target ↔
              w₀.mail.mailboxOf account e = some target ∨ o.update.Moves e)
            fun _ w => Asking w₀ w ∧ o.Stopped) := by
        refine setMailboxIds_asks.post fun r w hr => ?_
        cases r with
        | ok _ => exact hr
        | error _ => exact ⟨hr.1, .inr ⟨hids.1, hr.2⟩⟩
      refine Ends.andThen (P := Reading w₀) hset (fun _ => .ok fun w hw => ?_) w r w' hread he
      obtain ⟨hask, htrusted, hmoved⟩ := hw
      refine ⟨hask, found, target, ho, htarget.symm, fun e he => ?_⟩
      rw [hmoved e (by rw [hids.2]; exact he)]
      simp [hids.1, htrusted]

/-! ### The end of the action -/

theorem mail_matrix {c : MatrixCmd} {a : Answer} {b : Except Err c.Ans} {w w' : World}
    (h : exec t (.mk (.matrix c)) a w = some (b, w')) :
    w'.mail = w.mail ∧ w'.store = w.store ∧ w'.clients = w.clients := by
  obtain ⟨⟨issued, rfl⟩, -⟩ := exec_matrix h
  exact ⟨rfl, rfl, rfl⟩

structure Closing (w₀ : World) (M : MailServer) (S : Store) (Q : List Record → Prop) (w : World) :
    Prop where
  mail : w.mail = M
  store : w.store = S
  since : RecordsSince w₀ Q w

variable {M : MailServer} {S : Store} {Q R : List Record → Prop}

theorem matrix_closing {c : MatrixCmd}
    (hQ : ∀ a l, Q l → R (⟨t, .matrix c, a⟩ :: l)) :
    Ends (bridge cfg calls) o.discipline t (Closing w₀ M S Q) (onMatrix c)
      fun _ => Closing w₀ M S R := by
  refine .call fun w a r w' hw _ he => ?_
  have hexec : exec t (.mk (.matrix c)) a w = some (r, w') := he
  obtain ⟨hmail, hstore, -⟩ := mail_matrix hexec
  exact ⟨hmail.trans hw.mail, hstore.trans hw.store, recordsSince_exec hexec hw.since (hQ a)⟩

theorem store_closing {c : StoreCmd} {v : c.Ans} (hrun : ∀ now s, (c.run now [] s).1 = .ok v)
    (hQ : ∀ a l, Q l → Q (⟨t, .store c, a⟩ :: l)) :
    Ends (bridge cfg calls) o.discipline t (fun w => ∃ S, Closing w₀ M S Q w) (onStore c)
      (onResult (fun _ w => ∃ S, Closing w₀ M S Q w) fun _ _ => False) := by
  refine .call fun w a r w' hw hstep he => ?_
  obtain ⟨S, hw⟩ := hw
  have hexec : exec t (.mk (.store c)) a w = some (r, w') := he
  have ha : a = .done := hstep
  subst ha
  have hsince := recordsSince_exec hexec hw.since (hQ .done)
  rcases exec_store hexec with ⟨order, horder, rfl, rfl⟩ | ⟨hfail, -⟩ | ⟨⟨s, hlost⟩, -⟩
  · rcases horder with ⟨-, rfl⟩ | horder
    · rw [hrun]
      exact ⟨_, hw.mail, rfl, hsince⟩
    · cases horder
  · cases hfail
  · cases hlost

theorem notify_closing {text : String}
    (hsay : ∀ c a l, c.notice = some text → c.leaving = false → Q l → R (⟨t, c, a⟩ :: l))
    (hmore : ∀ c a l, (c.notice = none ∨ c.notice = some text) → c.leaving = false → R l →
      R (⟨t, c, a⟩ :: l)) :
    Ends (bridge cfg calls) o.discipline t (Closing w₀ M S Q) (notify cfg room text)
      fun _ => Closing w₀ M S R := by
  refine .bind (Q := fun _ => Closing w₀ M S R) ?_ fun _ => .pure fun _ h => h
  refine .andThenAlways (.attemptAlways (matrix_closing fun a l => hsay _ a l rfl rfl))
    (fun sent => ?_)
    fun _ h => h
  cases sent with
  | ok event => exact .pure fun _ h => h
  | error err =>
    cases err with
    | notJoined =>
      refine .andThenAlways (.bind (matrix_closing fun a l => hmore _ a l (.inl rfl) rfl) fun _ =>
        .pure fun _ h => h) (fun _ => ?_) fun _ h => h
      refine .andThenAlways (matrix_closing fun a l => hmore _ a l (.inl rfl) rfl) (fun _ => ?_)
        fun _ h => h
      exact matrix_closing fun a l => hmore _ a l (.inr rfl) rfl
    | _ => exact .pure fun _ h => h

def Leaves (l : List Record) : Prop := ∃ r ∈ l, r.cmd.leaving = true

theorem teardown_closing {ghost : Option String} {had : Bool} :
    Ends (bridge cfg calls) o.discipline t (Closing w₀ M S fun _ => True)
      (teardown cfg room role ghost had) (onResult (fun _ w => ∃ S, Closing w₀ M S
        (fun l => Leaves l ∧ Told (if had then movedText role else noMailboxText role) l) w)
        fun _ _ => False) := by
  have hleaves : ∀ (c : Cmd) (a : Answer) (l : List Record), Leaves l →
    Leaves (⟨t, c, a⟩ :: l) := by
    rintro c a l ⟨r, hr, hleave⟩
    exact ⟨r, List.mem_cons_of_mem _ hr, hleave⟩
  refine .andThen (Q := fun _ w => ∃ S, Closing w₀ M S (fun _ => True) w) ?_ fun _ => ?_
  · refine .andThen ((store_closing (v := ()) (fun _ _ => rfl) fun _ _ h => h).weaken
      (fun w hw => ⟨S, hw⟩) fun _ _ h => h) fun _ => ?_
    exact store_closing (v := ()) (fun _ _ => rfl) fun _ _ h => h
  · intro w r w' hw he
    obtain ⟨S', hw⟩ := hw
    refine Ends.andThen (P := Closing w₀ M S' fun _ => True)
      (Q := fun _ => Closing w₀ M S' Leaves) ?_ (fun _ => ?_) w r w' hw he
    · refine .andThen (Q := fun _ => Closing w₀ M S' Leaves) ?_ fun _ => ?_
      · refine .bind (Q := fun _ => Closing w₀ M S' Leaves) (matrix_closing fun a l _ => ?_)
          fun _ =>
          .pure fun _ h => h
        exact ⟨_, List.mem_cons_self, rfl⟩
      · cases ghost with
        | none => exact .pure fun _ h => h
        | some email =>
          refine .bind (Q := fun _ => Closing w₀ M S' Leaves)
            (matrix_closing fun a l => hleaves _ a l) fun _ => .pure fun _ h => h
    · have htext : (if had then s!"Moved this conversation to {role.label} and unbridged the room."
          else s!"No {role.label} mailbox on your account, so I unbridged this room locally but couldn't move the mail server-side.") =
            if had then movedText role else noMailboxText role := rfl
      rw [htext]
      refine .lift ((notify_closing (fun c a l hnotice _ hl => ?_) fun c a l _ _ hl => ?_).post
        fun _ w hw => ⟨S', hw⟩)
      · exact ⟨hleaves c a l hl, _, List.mem_cons_self, hnotice⟩
      · obtain ⟨hl, r, hr, htold⟩ := hl
        exact ⟨hleaves c a l hl, r, List.mem_cons_of_mem _ hr, htold⟩

/-! ### The whole action -/

def Verdict (o : ThreadOutcomes) (account : Account) (room : RoomId) (w₀ w : World) :
    Option Bool → Prop
  | some true => ∀ thread, threadOf w₀.store room = some thread → Placed o account thread w₀ w
  | some false => Homeless o
  | none => o.Stopped

theorem moveRoomThread_asks : Ends (bridge cfg calls) o.discipline t (Reading w₀)
    (moveRoomThread account room role)
    (onResult (fun moved w => Asking w₀ w ∧ Verdict o account room w₀ w moved)
      fun _ _ => False) := by
  intro w r w' hw he
  refine Ends.andThen (P := Reading w₀) (store_reads fun _ => rfl) (fun latest => ?_) w r w' hw he
  intro w r w' hw he
  obtain ⟨rfl, hread⟩ := hw
  cases hfind : w₀.store.threadMapping.findWhere fun _ r => r.roomId == room with
  | none =>
    rw [hfind] at he
    obtain ⟨rfl, rfl⟩ := Eval.ok_iff.mp he
    refine ⟨hread.toAsking, fun thread hthread => ?_⟩
    rw [threadOf, hfind] at hthread
    cases hthread
  | some row =>
    rw [hfind] at he
    have hthread : threadOf w₀.store room = some row.1 := by
      rw [threadOf, hfind]
      rfl
    have hasks : Ends (bridge cfg calls) o.discipline t (Reading w₀)
        (moveThreadToRole account row.1 role) (onResult (fun had w => Asking w₀ w ∧
          if had = true then Placed o account row.1 w₀ w else Homeless o)
          fun _ w => Asking w₀ w ∧ o.Stopped) := moveThreadToRole_asks
    refine Ends.andThen (P := Reading w₀) (.attempt hasks)
      (fun moved => .ok fun w hw => ?_) w r w' hread he
    cases moved with
    | error err => exact ⟨hw.1, hw.2⟩
    | ok had =>
      refine ⟨hw.1, ?_⟩
      cases had with
      | false => exact hw.2
      | true =>
        intro thread h
        obtain rfl := Option.some.inj (hthread.symm.trans h)
        exact hw.2

inductive Ending (cfg : Config) (sender : UserId) (room : RoomId) (role : MailboxRole)
    (o : ThreadOutcomes) (w₀ w : World) : Prop where
  | untouched (l : List Record) : w.trace = l ++ w₀.trace → LeftAlone cfg sender role w₀ w l →
    ¬Misled cfg sender room o w₀ → Ending cfg sender room role o w₀ w
  | closed (account : Account) (had : Bool) (l : List Record) : cfg.level sender ≠ none →
    w₀.clients.lookup sender = some account → Verdict o account room w₀ w (some had) →
    w.trace = l ++ w₀.trace → Leaves l →
    Told (if had then movedText role else noMailboxText role) l →
    Ending cfg sender room role o w₀ w

def Says (text : String) (l : List Record) : Prop :=
  (∀ r ∈ l, r.cmd.leaving = false ∧ ∀ x, r.cmd.notice = some x → x = text) ∧ Told text l

theorem notify_leftAlone {sender : UserId} {text : String} (hmisled : ¬Misled cfg sender room o w₀)
    (htext : text = nothingMoved role ∨
      text = "You are not logged in." ∧ w₀.clients.lookup sender = none) :
    Ends (bridge cfg calls) o.discipline t (Asking w₀) (notify cfg room text)
      fun _ => Ending cfg sender room role o w₀ := by
  intro w r w' hw he
  have hcons : ∀ (c : Cmd) (a : Answer) (l : List Record), c.leaving = false →
      (c.notice = none ∨ c.notice = some text) →
      (∀ r ∈ l, r.cmd.leaving = false ∧ ∀ x, r.cmd.notice = some x → x = text) →
      ∀ r ∈ (⟨t, c, a⟩ :: l : List Record),
        r.cmd.leaving = false ∧ ∀ x, r.cmd.notice = some x → x = text := by
    intro c a l hleave hnotice hl r hr
    rcases List.mem_cons.mp hr with rfl | hr
    · refine ⟨hleave, fun x hx => ?_⟩
      have hx : c.notice = some x := hx
      rcases hnotice with hnone | hsome
      · rw [hnone] at hx
        cases hx
      · exact Option.some.inj (hx.symm.trans hsome)
    · exact hl r hr
  have hclosing : Closing w₀ w.mail w₀.store Uneventful w := ⟨rfl, hw.store, hw.since⟩
  obtain ⟨-, hstore, l, hl, hspoke, htold⟩ := notify_closing (R := Says text)
    (fun c a l hnotice hleave hcalm => ⟨hcons c a l hleave (.inr hnotice) fun r hr =>
      ⟨(hcalm r hr).1, fun x hx => by rw [(hcalm r hr).2] at hx; cases hx⟩,
      _, List.mem_cons_self, hnotice⟩)
    (fun c a l hnotice hleave hspoke => ⟨hcons c a l hleave hnotice hspoke.1, by
      obtain ⟨r, hr, htold⟩ := hspoke.2
      exact ⟨r, List.mem_cons_of_mem _ hr, htold⟩⟩) w r w' hclosing he
  refine .untouched l hl ⟨hstore, fun r hr => (hspoke r hr).1, fun _ hclient => ?_, ?_⟩ hmisled
  · rcases htext with rfl | ⟨-, hnone⟩
    · exact htold
    · exact absurd hnone hclient
  · rintro x ⟨r, hr, hx⟩
    rw [(hspoke r hr).2 x hx]
    exact htext.imp_right fun h => h.1

theorem handleThreadAction_ends {sender : UserId} :
    Ends (bridge cfg calls) o.discipline t (fun w => w = w₀)
      (handleThreadAction cfg sender room role)
      (onResult (fun _ => Ending cfg sender room role o w₀) fun _ _ => False) := by
  rw [handleThreadAction]
  by_cases hlevel : cfg.level sender = none
  · rw [if_pos (by rw [hlevel]; rfl)]
    refine .ok ?_
    rintro w rfl
    refine .untouched [] rfl ⟨rfl, fun r hr => (by cases hr), fun h => absurd hlevel h, ?_⟩ fun h =>
      h.1 hlevel
    rintro text ⟨r, hr, -⟩
    cases hr
  · rw [if_neg (by simpa using hlevel)]
    have hstart : ∀ w, w = w₀ → Reading w₀ w := by
      rintro w rfl
      exact ⟨Asking.start w, rfl⟩
    refine .andThen (.lift ((client_reads sender).weaken hstart fun _ _ h => h)) fun client => ?_
    intro w r w' hw he
    obtain ⟨hclient, hread⟩ := hw
    cases client with
    | none =>
      have hmisled : ¬Misled cfg sender room o w₀ := by
        rintro ⟨-, account, haccount, -⟩
        cases hclient.trans haccount
      exact Ends.lift (notify_leftAlone hmisled (.inr ⟨rfl, hclient.symm⟩)) w r w' hread.toAsking he
    | some account =>
      refine Ends.andThen (P := Reading w₀) (store_reads fun _ => rfl)
        (fun ghost => ?_) w r w' hread he
      intro w r w' hw he
      obtain ⟨-, hread⟩ := hw
      refine Ends.andThen (P := Reading w₀) moveRoomThread_asks (fun moved => ?_) w r w' hread he
      intro w r w' hw he
      obtain ⟨hask, hverdict⟩ := hw
      cases moved with
      | none =>
        have hmisled : ¬Misled cfg sender room o w₀ := by
          rintro ⟨-, _, -, _, -, found, _, ho, -, _, -, -, hwrong⟩
          rcases hverdict with hquery | ⟨hthread, htrusted⟩
          · exact hquery found ho
          · rcases hwrong with hunread | ⟨htrust, -⟩
            · exact hunread hthread
            · exact htrusted htrust
        exact Ends.lift (notify_leftAlone hmisled (.inl rfl)) w r w' hask he
      | some had =>
        have hclosing : Closing w₀ w.mail w.store (fun _ => True) w := by
          obtain ⟨l, hl, -⟩ := hask.since
          exact ⟨rfl, rfl, l, hl, trivial⟩
        refine (teardown_closing.post fun r w' hr => ?_) w r w' hclosing he
        cases r with
        | error _ => exact hr
        | ok _ =>
          obtain ⟨S, hmail, -, l, hl, hleaves, htold⟩ := hr
          refine .closed account had l hlevel hclient.symm ?_ hl hleaves htold
          cases had with
          | false => exact hverdict
          | true =>
            intro thread hthread
            have hplaced := hverdict thread hthread
            rw [Placed, ← hmail] at hplaced
            exact hplaced

/-! ### The action comes to an end -/

theorem notify_straight {text : String} : (notify cfg room text).Straight := by
  refine .bind (.andThen (.attempt .call) fun sent => ?_) fun _ => trivial
  cases sent with
  | ok event => trivial
  | error err =>
    cases err with
    | notJoined =>
      exact .andThen (.bind .call fun _ => trivial) fun _ => .andThen .call fun _ => .call
    | _ => trivial

theorem moveThreadToRole_straight : (moveThreadToRole account thread role).Straight := by
  refine .andThen (.andThen .call fun _ => trivial) fun target => ?_
  cases target with
  | none => trivial
  | some target =>
    have hids : (threadEmailIds account thread).Straight :=
      .bind .call fun found => by cases found <;> trivial
    refine .andThen (.lift hids) fun ids => ?_
    by_cases hnil : ids.isEmpty = true
    · rw [if_pos hnil]
      trivial
    · rw [if_neg hnil]
      exact .andThen .call fun _ => trivial

theorem teardown_straight {ghost : Option String} {had : Bool} :
    (teardown cfg room role ghost had).Straight := by
  refine .andThen (.andThen .call fun _ => .call) fun _ => .andThen ?_ fun _ =>
    .lift notify_straight
  refine .andThen (.bind .call fun _ => trivial) fun _ => ?_
  cases ghost with
  | none => trivial
  | some email => exact .bind .call fun _ => trivial

theorem handleThreadAction_straight {sender : UserId} :
    (handleThreadAction cfg sender room role).Straight := by
  rw [handleThreadAction]
  split
  · trivial
  · refine .andThen (.lift .call) fun client => ?_
    cases client with
    | none => exact .lift notify_straight
    | some account =>
      refine .andThen .call fun ghost => .andThen (.andThen .call fun latest => ?_) fun moved => ?_
      · cases latest with
        | none => trivial
        | some latest => exact .andThen (.attempt moveThreadToRole_straight) fun _ => trivial
      · cases moved with
        | none => exact .lift notify_straight
        | some had => exact teardown_straight

theorem outcome_answers {β : Type} (op : Op β) (w : World) :
    ∃ a r, o.discipline.step t op a w ∧ (bridge cfg calls).exec t op a w = some r := by
  obtain ⟨c⟩ := op
  have hperform : ∀ a, o.gives w c a → (c.perform t a w).isSome →
      ∃ a r, o.discipline.step t (.mk c) a w ∧ (bridge cfg calls).exec t (.mk c) a w = some r := by
    intro a ha hsome
    obtain ⟨r, hr⟩ := Option.isSome_iff_exists.mp hsome
    refine ⟨a, (r.1, { r.2 with trace := ⟨t, c, a⟩ :: r.2.trace }), ha, ?_⟩
    show (c.perform t a w).map _ = _
    rw [hr]
    rfl
  cases c with
  | store c => exact hperform .done rfl rfl
  | matrix c => exact hperform .failed trivial rfl
  | task c => exact hperform .done trivial rfl
  | jmap account c =>
    cases c with
    | queryMailboxRole role =>
      refine hperform _ rfl ?_
      cases o.mailbox <;> rfl
    | getThread thread =>
      refine hperform _ rfl ?_
      have hget : ((JmapCmd.getThread thread).value w.mail account
          (foundThread (w.mail.threads account thread))).isSome := by
        by_cases hnil : (w.mail.threads account thread).isEmpty = true
        · simp [JmapCmd.value, foundThread, List.isEmpty_iff.mp hnil]
        · simp [JmapCmd.value, foundThread, hnil]
      obtain ⟨v, hv⟩ := Option.isSome_iff_exists.mp hget
      cases o.thread with
      | lost a => simp [CallOutcome.answer, Cmd.perform, JmapCmd.perform, hv]
      | answered a => simp [CallOutcome.answer, Cmd.perform, JmapCmd.perform, hv]
      | _ => rfl
    | setMailboxIds ids target =>
      refine hperform _ rfl ?_
      have hset : ∀ l : List EmailId, (JmapCmd.setMailboxIds ids target).value w.mail account
          (.updated (ids.filter fun e => e ∉ l)) = some () :=
        fun l => if_pos (List.filter_subset_self ids)
      cases o.update with
      | lost l =>
        simp only [CallOutcome.updateAnswer, Cmd.perform, JmapCmd.perform, hset]
        rfl
      | answered l =>
        simp only [CallOutcome.updateAnswer, Cmd.perform, JmapCmd.perform, hset]
        rfl
      | _ => rfl
    | _ => exact hperform .failed trivial rfl

theorem handleThreadAction_can (sender : UserId) (w : World) :
    Can (bridge cfg calls) o.discipline t (handleThreadAction cfg sender room role) w
      fun _ _ => True := handleThreadAction_straight.can outcome_answers w

theorem Ending.allOrNothing_iff {sender : UserId} {w w' : World}
    (h : Ending cfg sender room role o w w') :
    AllOrNothing cfg sender room role o w w' ↔ ¬Misled cfg sender room o w := by
  cases h with
  | untouched l hl huntouched hmisled => exact iff_of_true ⟨l, hl, .inr huntouched⟩ hmisled
  | closed account had l hlevel hclient hverdict hl hleaves htold =>
    constructor
    · rintro ⟨l', hl', hcase⟩ ⟨-, account', haccount, thread, hthread, found, target, ho, htarget,
        e, he, hplace, hwrong⟩
      obtain rfl := List.append_cancel_right (hl'.symm.trans hl)
      obtain rfl := Option.some.inj (haccount.symm.trans hclient)
      have hhomeless : ¬Homeless o := by
        rintro ⟨found', ho', hnil⟩
        obtain rfl := CallOutcome.answered.inj (ho.symm.trans ho')
        rw [hnil] at htarget
        cases htarget
      rcases hcase with ⟨account'', -, haccount', ⟨hfiled, -⟩ | ⟨hnone, -⟩⟩ | huntouched
      · obtain rfl := Option.some.inj (haccount'.symm.trans hclient)
        have hplaced : Placed o account'' thread w w' := by
          cases had with
          | false => exact absurd hverdict hhomeless
          | true => exact hverdict thread hthread
        obtain ⟨found₁, target₁, ho₁, htarget₁, hall⟩ := hfiled thread hthread
        obtain rfl := CallOutcome.answered.inj (ho.symm.trans ho₁)
        obtain rfl := Option.some.inj (htarget.symm.trans htarget₁)
        obtain ⟨found₂, target₂, ho₂, htarget₂, hiff⟩ := hplaced
        obtain rfl := CallOutcome.answered.inj (ho.symm.trans ho₂)
        obtain rfl := Option.some.inj (htarget.symm.trans htarget₂)
        rcases (hiff e he).mp (hall e he) with hbefore | ⟨hread, hmoves⟩
        · exact hplace hbefore
        · rcases hwrong with hunread | ⟨htrust, hstays⟩
          · exact hunread hread
          · exact hstays (hmoves htrust)
      · exact hhomeless hnone
      · obtain ⟨r, hr, hleave⟩ := hleaves
        rw [huntouched.stays r hr] at hleave
        cases hleave
    · intro hmisled
      refine ⟨l, hl, .inl ⟨account, hlevel, hclient, ?_⟩⟩
      cases had with
      | false => exact .inr ⟨hverdict, htold⟩
      | true =>
        refine .inl ⟨fun thread hthread => ?_, htold⟩
        obtain ⟨found, target, ho, htarget, hiff⟩ := hverdict thread hthread
        refine ⟨found, target, ho, htarget, fun e he => (hiff e he).mpr ?_⟩
        by_cases hbefore : w.mail.mailboxOf account e = some target
        · exact .inl hbefore
        · have hright : ¬(o.thread ≠ .answered () ∨ o.update.Trusted ∧ ¬o.update.Moves e) :=
            fun hwrong => hmisled ⟨hlevel, account, hclient, thread, hthread, found, target, ho,
              htarget, e, he, hbefore, hwrong⟩
          refine .inr ⟨Decidable.byContradiction fun hne => hright (.inl hne), fun htrust => ?_⟩
          by_cases hmoves : o.update.Moves e
          · exact hmoves
          · exact absurd (.inr ⟨htrust, hmoves⟩) hright

theorem handleThreadAction_ending {sender : UserId} {w w' : World} {r : Except Err Unit}
    (h : Eval (bridge cfg calls) o.discipline t (handleThreadAction cfg sender room role) w r w') :
    Ending cfg sender room role o w w' := by
  have hends := handleThreadAction_ends w r w' rfl h
  cases r with
  | ok _ => exact hends
  | error _ => exact hends.elim

end

/-- However the three calls end, the action can be carried out, and what it comes to is all or
nothing if and only if it is not misled. -/
theorem handleThreadAction_allOrNothing_iff (cfg : Config) (calls : Nat → Call) (t : Nat)
    (sender : UserId) (room : RoomId) (role : MailboxRole) (o : ThreadOutcomes) (w : World) :
    (Can (bridge cfg calls) o.discipline t (handleThreadAction cfg sender room role) w
      fun _ _ => True) ∧
    ∀ r w', Eval (bridge cfg calls) o.discipline t
      (handleThreadAction cfg sender room role) w r w' →
      (AllOrNothing cfg sender room role o w w' ↔ ¬Misled cfg sender room o w) :=
  ⟨handleThreadAction_can sender w, fun _ _ h => (handleThreadAction_ending h).allOrNothing_iff⟩

def trashing : Config where
  level _ := some .user

/-- Alice has a conversation of one email, which is in no Trash. -/
def aliceInbox : World where
  store := {
    roomGhostMapping := (∅ : Sql.Table _ _).insert "!r"
      { ghostEmail := "bob@example.org", matrixUserId := "@alice:localhost" }
    threadMapping := (∅ : Sql.Table _ _).insert "T" ⟨"$e", "!r", some "$e"⟩ }
  mail := { threads := fun _ _ => ["e"], mailboxOf := fun _ _ => some "inbox" }
  clients := (∅ : Sql.Table _ _).insert "@alice:localhost" "A"

/-- All three calls are answered, and the email goes to the Trash. -/
theorem allOrNothing_inbox : ∃ r w', Eval (bridge trashing fun _ => .worker)
    (ThreadOutcomes.discipline ⟨.answered { ids := ["trash"] }, .answered (), .answered []⟩) 0
      (handleThreadAction trashing "@alice:localhost" "!r" .trash) aliceInbox r w' ∧
    AllOrNothing trashing "@alice:localhost" "!r" .trash
      ⟨.answered { ids := ["trash"] }, .answered (), .answered []⟩ aliceInbox w' := by
  obtain ⟨⟨r, w', heval, -⟩, hiff⟩ :=
    handleThreadAction_allOrNothing_iff trashing (fun _ => .worker)
    0 "@alice:localhost" "!r" .trash
    ⟨.answered { ids := ["trash"] }, .answered (), .answered []⟩ aliceInbox
  refine ⟨r, w', heval, (hiff r w' heval).mpr ?_⟩
  rintro ⟨-, account, -, thread, -, found, target, -, -, e, -, -, hunread | ⟨-, hstays⟩⟩
  · exact hunread rfl
  · exact hstays List.not_mem_nil

/-- The thread cannot be read, and the room is given up with the mail where it was. -/
theorem unread_thread_unbridged : ¬∀ (cfg : Config) (calls : Nat → Call) (t : Nat) (sender : UserId)
    (room : RoomId) (role : MailboxRole) (o : ThreadOutcomes) (w : World) (r : Except Err Unit)
    (w' : World),
    Eval (bridge cfg calls) o.discipline t (handleThreadAction cfg sender room role) w r w' →
      AllOrNothing cfg sender room role o w w' := by
  intro h
  let o : ThreadOutcomes := ⟨.answered { ids := ["trash"] }, .unreachable, .answered []⟩
  obtain ⟨r, w', heval, -⟩ : Can (bridge trashing fun _ => .worker) o.discipline 0
      (handleThreadAction trashing "@alice:localhost" "!r" .trash) aliceInbox fun _ _ => True :=
    handleThreadAction_can "@alice:localhost" aliceInbox
  refine (handleThreadAction_ending heval).allOrNothing_iff.mp (h _ _ _ _ _ _ _ _ _ _ heval) ?_
  refine ⟨by decide, "A", rfl, "T", rfl, { ids := ["trash"] }, "trash", rfl, rfl, "e", ?_, ?_, ?_⟩
  · exact List.mem_singleton.mpr rfl
  · decide
  · exact .inl (by decide)

end JmapBridge
