import JmapBridge.Model.Inbound
import JmapBridge.Model.Frames

/-! The mail of one user when nothing fails: every email is in the room of its thread, once. -/

namespace JmapBridge

open Effect Sql

/-- The room in which a message made from the email is posted. -/
def Record.postRoom (e : EmailId) (r : Record) : Option RoomId :=
  match r.cmd, r.answer with
  | .matrix (.sendAsGhost room _ (.message body) _), .id _ =>
    if body.origin = .email e then some room else none
  | .matrix (.sendAsGhost room _ (.message body) _), .lost _ =>
    if body.origin = .email e then some room else none
  | _, _ => none

def World.postsOf (e : EmailId) (w : World) : List RoomId := w.trace.filterMap (Record.postRoom e)

/-- The emails that an answer of the mail server describes. -/
def Record.reports (r : Record) : List Email :=
  match r.cmd, r.answer with
  | .jmap _ (.getEmail _), .reply (.emails l) => l
  | _, _ => []

def World.reported (w : World) : List Email := w.trace.flatMap Record.reports

/-- What has been done about the mail of one user. -/
structure MailView where
  room : ThreadId → Option RoomId
  mapped : EmailId → Bool
  destroyed : EmailId → Bool
  posts : EmailId → List RoomId
  reported : List Email
  own : Option String
  known : Bool

def World.mailView (user : UserId) (w : World) : MailView where
  room := w.store.boundTo
  mapped e := (w.store.messageMapping.lookup e).isSome
  destroyed e := (w.store.destroyedEmails.lookup e).isSome
  posts e := w.postsOf e
  reported := w.reported
  own := w.store.jmapState.lookup (user, .userEmail)
  known := w.store.hasUser user

/-- The mail server has the email in one thread. -/
def InThread (threadOf : EmailId → ThreadId) (email : Email) : Prop :=
  ∀ e ∈ email.id, ∀ thread ∈ email.threadId, threadOf e = thread

/-- The homeserver accepts the request. -/
def Cmd.accepted : Cmd → Answer → Bool
  | matrix _, .failed => false
  | matrix _, .notJoined => false
  | matrix _, .lost _ => false
  | _, _ => true

/-- The store works, the homeserver accepts every request, and the mail server has every email
in one thread. -/
def obliging (threadOf : EmailId → ThreadId) : Discipline Op World Answer Env where
  step t _ o a _ := o.cmd.carriedOut a ∧ o.cmd.accepted a ∧
    ∀ email ∈ (⟨t, o.cmd, a⟩ : Record).reports, InThread threadOf email

instance decidableInThread (threadOf : EmailId → ThreadId) (email : Email) :
    Decidable (InThread threadOf email) :=
  inferInstanceAs (Decidable (∀ e ∈ email.id, ∀ thread ∈ email.threadId, threadOf e = thread))

instance decidableObliging (threadOf : EmailId → ThreadId) (t : Nat) (β : Type) (o : Op β)
    (a : Answer) (w : World) : Decidable ((obliging threadOf).step t o a w) :=
  inferInstanceAs (Decidable (o.cmd.carriedOut a ∧ o.cmd.accepted a ∧
    ∀ email ∈ (⟨t, o.cmd, a⟩ : Record).reports, InThread threadOf email))

/-- Complete runs of the live sync and complete batches of the backfill, one after the other.
In the pauses anything may happen that leaves the mail of the user alone. -/
inductive MailRuns (cfg : Config) (calls : Nat → Call) (threadOf : EmailId → ThreadId) (p : Poller)
    (w₀ : World) : World → Prop where
  | start : MailRuns cfg calls threadOf p w₀ w₀
  | sync (t : Nat) (w w' : World) : MailRuns cfg calls threadOf p w₀ w →
    Eval (bridge cfg calls) (obliging threadOf) t (syncEmails cfg p) w (.ok ()) w' →
      MailRuns cfg calls threadOf p w₀ w'
  | batch (t pos : Nat) (more : Bool) (w w' : World) : MailRuns cfg calls threadOf p w₀ w →
    Eval (bridge cfg calls) (obliging threadOf) t (backfillBatch cfg p pos) w (.ok more) w' →
      MailRuns cfg calls threadOf p w₀ w'
  | pause (w w' : World) : MailRuns cfg calls threadOf p w₀ w →
    w'.mailView p.user = w.mailView p.user → w.issued ⊆ w'.issued →
      MailRuns cfg calls threadOf p w₀ w'

/-- The user is registered, and none of the mail has been bridged yet. -/
structure Unbridged (p : Poller) (w : World) : Prop where
  threads : w.store.threadMapping = ∅
  messages : w.store.messageMapping = ∅
  trace : w.trace = []
  user : w.store.hasUser p.user

/-- The server has reported the email in this thread, from another sender than the user, and it
is not marked as destroyed. -/
def Bridgeable (p : Poller) (w : World) (e : EmailId) (thread : ThreadId) : Prop :=
  (∃ email ∈ w.reported, email.id = some e ∧ email.threadId = some thread ∧
    shouldSkipInbound (senderEmail email) (w.store.jmapState.lookup (p.user, .userEmail)) = false) ∧
  w.store.destroyedEmails.lookup e = none

/-! ### Commands that leave the mail alone -/

def Cmd.sparing : Cmd → Bool
  | store (.saveThreadMappingAtomic _ _ _ _) => false
  | store (.deleteThreadMappings _) => false
  | store (.saveMessageMapping _ _) => false
  | store (.markEmailDestroyed _) => false
  | store (.saveJmapState _ key _) => key != .userEmail
  | store (.deleteJmapState _ key) => key != .userEmail
  | matrix (.sendAsGhost _ _ (.message _) _) => false
  | jmap _ (.getEmail _) => false
  | _ => true

/-- The mail is as in the view, and these ids at least have been given out. -/
structure ViewedAs (user : UserId) (V : MailView) (L : List String) (w : World) : Prop where
  view : w.mailView user = V
  issued : L ⊆ w.issued

section

variable {cfg : Config} {calls : Nat → Call} {threadOf : EmailId → ThreadId} {p : Poller}
  {t : Nat} {w w' : World} {α β : Type} {V : MailView} {L : List String} {user : UserId}
  {thread : ThreadId} {e : EmailId} {email : Email} {room : RoomId}

theorem run_sparing {c : StoreCmd} (hc : (Cmd.store c).sparing) (now : Nat) (order : List Nat)
    (s : Store) (user : UserId) :
    (c.run now order s).2.boundTo = s.boundTo ∧
      (c.run now order s).2.messageMapping = s.messageMapping ∧
      (c.run now order s).2.destroyedEmails = s.destroyedEmails ∧
      (c.run now order s).2.jmapState.lookup (user, .userEmail) =
        s.jmapState.lookup (user, .userEmail) := by
  have hkey : ∀ (u : UserId) (key : StateKey), (key != .userEmail) = true →
      (user, StateKey.userEmail) ≠ (u, key) := by
    rintro u key hkey ⟨⟩
    simp at hkey
  cases c with
  | saveThreadMappingAtomic => cases hc
  | deleteThreadMappings => cases hc
  | saveMessageMapping => cases hc
  | markEmailDestroyed => cases hc
  | saveJmapState u key state =>
    simp only [StoreCmd.run, Store.referring]
    split
    · exact ⟨rfl, rfl, rfl, AList.lookup_insert_ne (hkey u key hc)⟩
    · exact ⟨rfl, rfl, rfl, rfl⟩
  | deleteJmapState u key =>
    exact ⟨rfl, rfl, rfl, AList.lookup_erase_ne (hkey u key hc)⟩
  | saveRoomGhostMapping =>
    simp only [StoreCmd.run, Store.referring]
    split
    · exact ⟨rfl, rfl, rfl, rfl⟩
    · exact ⟨rfl, rfl, rfl, rfl⟩
  | addToOutboundQueue =>
    simp only [StoreCmd.run, Store.referring]
    split
    · exact ⟨rfl, rfl, rfl, rfl⟩
    · exact ⟨rfl, rfl, rfl, rfl⟩
  | tryAcquireRoomCreationLock key =>
    simp only [StoreCmd.run]
    split
    · exact ⟨rfl, rfl, rfl, rfl⟩
    · exact ⟨rfl, rfl, rfl, rfl⟩
  | updateThreadLatestEvent th latest =>
    refine ⟨funext fun thread => ?_, rfl, rfl, rfl⟩
    show ((s.threadMapping.modify th _).lookup thread).map _ = (s.threadMapping.lookup thread).map _
    rw [Table.lookup_modify, Option.map_map]
    refine congrArg (Option.map · _) (funext fun row => ?_)
    by_cases h : thread = th
    · simp [h]
    · simp [h]
  | _ => exact ⟨rfl, rfl, rfl, rfl⟩

theorem sparing_record {c : Cmd} {a : Answer} (hc : c.sparing) :
    (⟨t, c, a⟩ : Record).postRoom e = none ∧ (⟨t, c, a⟩ : Record).reports = [] := by
  cases c with
  | matrix c =>
    cases c with
    | sendAsGhost room sender content ts =>
      cases content with
      | message => cases hc
      | _ => exact ⟨rfl, rfl⟩
    | _ => exact ⟨rfl, rfl⟩
  | jmap account c =>
    cases c with
    | getEmail => cases hc
    | _ => exact ⟨rfl, rfl⟩
  | _ => exact ⟨rfl, rfl⟩

theorem sparing_exec {c : Cmd} {a : Answer} {b : c.Ans} (hc : c.sparing)
    (h : exec t (.mk c) a w = some (b, w')) (hw : ViewedAs user V L w) : ViewedAs user V L w' := by
  refine ⟨?_, fun s hs => issued_exec h (hw.issued hs)⟩
  have hposts : w'.postsOf = fun e => w.postsOf e := funext fun e => by
    rw [World.postsOf, exec_trace h, List.filterMap_cons_none (sparing_record hc).1]
    rfl
  have hreported : w'.reported = w.reported := by
    rw [World.reported, exec_trace h, List.flatMap_cons, (sparing_record (e := "") hc).2]
    rfl
  obtain ⟨hroom, hmessages, hdestroyed, hown⟩ : w'.store.boundTo = w.store.boundTo ∧
      w'.store.messageMapping = w.store.messageMapping ∧
      w'.store.destroyedEmails = w.store.destroyedEmails ∧
      w'.store.jmapState.lookup (user, .userEmail) = w.store.jmapState.lookup (user,
        .userEmail) := by
    rcases exec_run h with hsame | ⟨q, order, rfl, -, hrun⟩
    · rw [hsame]
      exact ⟨rfl, rfl, rfl, rfl⟩
    · rw [hrun]
      exact run_sparing hc w.now order w.store user
  rw [← hw.view]
  simp only [World.mailView, hroom, hmessages, hdestroyed, hown, hposts, hreported, hasUser_exec h]

theorem sparing_ends {x : Prog Op α} (hx : Does (fun c => c.sparing) x) :
    Ends (bridge cfg calls) (obliging threadOf) t (ViewedAs user V L) x fun _ =>
      ViewedAs user V L := by
  refine .only (φ := fun _ o => o.cmd.sparing) (fun β o a w b w' ho _ he hw => ?_) hx
  obtain ⟨c⟩ := o
  exact sparing_exec ho he hw

theorem answered_ends {c : StoreCmd} (hc : (Cmd.store c).sparing) :
    Ends (bridge cfg calls) (obliging threadOf) t (ViewedAs user V L) (onStore c) fun r w' =>
      ViewedAs user V L w' ∧ ∃ w order, ViewedAs user V L w ∧
        r = (c.run w.now order w.store).1 := by
  refine .call fun w a r w' hw hd he => ?_
  have hexec : exec t (.mk (.store c)) a w = some (r, w') := he
  obtain ⟨order, hr, -⟩ := exec_carriedOut hd.1 hexec
  exact ⟨sparing_exec hc hexec hw, w, order, hw, hr⟩

theorem succeeds_ends {c : StoreCmd} (hc : (Cmd.store c).sparing)
    (hok : ∀ now order s, s.hasUser user → ∃ v, (c.run now order s).1 = .ok v)
    (hknown : V.known = true) :
    Ends (bridge cfg calls) (obliging threadOf) t (ViewedAs user V L) (onStore c)
      (onResult (fun _ => ViewedAs user V L) fun _ _ => False) := by
  refine (answered_ends hc).post fun r w' hr => ?_
  obtain ⟨hw', w, order, hw, hvalue⟩ := hr
  have huser : w.store.hasUser user := by
    rw [← hknown, ← hw.view]
    rfl
  obtain ⟨v, hv⟩ := hok w.now order w.store huser
  rw [hvalue, hv]
  exact hw'

theorem exec_accepted {c : MatrixCmd} {a : Answer} {r : Except Err c.Ans}
    (ha : (Cmd.matrix c).accepted a) (h : exec t (.mk (.matrix c)) a w = some (r, w')) :
    ∃ v, r = .ok v ∧ c.value a = some v := by
  rcases exec_matrix_cases h with hok | ⟨rfl, -⟩ | ⟨rfl, -⟩ | ⟨s, rfl, -⟩
  · exact hok
  · cases ha
  · cases ha
  · cases ha

theorem accepted_ends {c : MatrixCmd} (hc : (Cmd.matrix c).sparing) :
    Ends (bridge cfg calls) (obliging threadOf) t (ViewedAs user V L) (onMatrix c)
      (onResult (fun _ => ViewedAs user V L) fun _ _ => False) := by
  refine .call fun w a r w' hw hd he => ?_
  have hexec : exec t (.mk (.matrix c)) a w = some (r, w') := he
  obtain ⟨v, rfl, -⟩ := exec_accepted hd.2.1 hexec
  exact sparing_exec hc hexec hw

theorem createRoom_ends {name address : String} {u : UserId} :
    Ends (bridge cfg calls) (obliging threadOf) t (ViewedAs user V L)
      (onMatrix (.createRoomForContact name address u))
      (onResult (fun room w => ViewedAs user V (room :: L) w ∧ room ∉ L) fun _ _ => False) := by
  refine .call fun w a r w' hw hd he => ?_
  have hexec : exec t (.mk (.matrix (.createRoomForContact name address u))) a w =
    some (r, w') := he
  obtain ⟨room, rfl, hvalue⟩ := exec_accepted hd.2.1 hexec
  have hat := sparing_exec (c := .matrix (.createRoomForContact name address u)) rfl hexec hw
  obtain rfl : a = .id room := by
    cases a with
    | id s =>
      cases hvalue
      rfl
    | _ => cases hvalue
  obtain ⟨hnew, hissued⟩ := exec_issues hexec (.inl rfl)
  refine ⟨⟨hat.view, ?_⟩, fun hmem => hnew (hw.issued hmem)⟩
  rw [hissued]
  exact List.cons_subset_cons _ hw.issued

/-! ### Commands that concern the mail -/

def MailView.post (V : MailView) (e : EmailId) (room : RoomId) : MailView :=
  { V with posts := fun i => if i = e then room :: V.posts e else V.posts i }

def MailView.bind (V : MailView) (thread : ThreadId) (room : RoomId) : MailView :=
  { V with room := fun i => if i = thread then some room else V.room i }

def MailView.map (V : MailView) (e : EmailId) : MailView :=
  { V with mapped := fun i => if i = e then true else V.mapped i }

def MailView.destroy (V : MailView) (e : EmailId) : MailView :=
  { V with destroyed := fun i => if i = e then true else V.destroyed i }

def MailView.report (V : MailView) (l : List Email) : MailView :=
  { V with reported := l ++ V.reported }

theorem post_ends {body : EmailBody} {sender : UserId} {ts : Option Nat}
    (ho : body.origin = .email e) :
    Ends (bridge cfg calls) (obliging threadOf) t (ViewedAs user V L)
      (onMatrix (.sendAsGhost room sender (.message body) ts))
      (onResult (fun _ => ViewedAs user (V.post e room) L) fun _ _ => False) := by
  refine .call fun w a r w' hw hd he => ?_
  have hexec : exec t (.mk (.matrix (.sendAsGhost room sender (.message body) ts))) a w =
    some (r, w') := he
  obtain ⟨event, rfl, hvalue⟩ := exec_accepted hd.2.1 hexec
  have htrace := exec_trace hexec
  have hissued := issued_exec hexec
  obtain ⟨⟨issued, hw'⟩, -⟩ := exec_matrix hexec
  obtain rfl : a = .id event := by
    cases a with
    | id s =>
      cases hvalue
      rfl
    | _ => cases hvalue
  refine ⟨?_, fun s hs => hissued (hw.issued hs)⟩
  have hposts : w'.postsOf = (V.post e room).posts := by
    funext i
    rw [World.postsOf, htrace, List.filterMap_cons, ← hw.view]
    by_cases hi : i = e
    · subst hi
      simp [Record.postRoom, ho, MailView.post, World.mailView, World.postsOf]
    · have hne : e ≠ i := fun h => hi h.symm
      simp [Record.postRoom, ho, MailView.post, World.mailView, World.postsOf, hi, hne]
  have hreported : w'.reported = w.reported := by
    rw [World.reported, htrace]
    rfl
  have hstore : w'.store = w.store := by rw [hw']
  have hrest : w'.mailView user = { w.mailView user with posts := w'.postsOf } := by
    simp only [World.mailView, hreported, hstore]
  rw [hrest, hposts, hw.view]
  rfl

/-- The tables are as in the view. -/
structure Shows (user : UserId) (V : MailView) (s : Store) : Prop where
  room : s.boundTo = V.room
  mapped : (fun e => (s.messageMapping.lookup e).isSome) = V.mapped
  destroyed : (fun e => (s.destroyedEmails.lookup e).isSome) = V.destroyed
  own : s.jmapState.lookup (user, .userEmail) = V.own
  known : s.hasUser user = V.known

theorem ViewedAs.shows (h : ViewedAs user V L w) : Shows user V w.store := by
  rw [← h.view]
  exact ⟨rfl, rfl, rfl, rfl, rfl⟩

theorem store_ends {c : StoreCmd} {U : MailView} {P : Except Err c.Ans → Prop}
    (hrun : ∀ now order s, Shows user V s →
      P (c.run now order s).1 ∧ Shows user U (c.run now order s).2)
    (hposts : U.posts = V.posts) (hreported : U.reported = V.reported) :
    Ends (bridge cfg calls) (obliging threadOf) t (ViewedAs user V L) (onStore c) fun r w' =>
      ViewedAs user U L w' ∧ P r := by
  refine .call fun w a r w' hw hd he => ?_
  have hexec : exec t (.mk (.store c)) a w = some (r, w') := he
  obtain ⟨order, hr, hstore, -⟩ := exec_carriedOut hd.1 hexec
  obtain ⟨hP, hshows⟩ := hrun w.now order w.store hw.shows
  rw [← hstore] at hshows
  refine ⟨⟨?_, fun s hs => issued_exec hexec (hw.issued hs)⟩, by rw [hr]; exact hP⟩
  have hsameposts : (fun e => w'.postsOf e) = U.posts := by
    funext e
    rw [World.postsOf, exec_trace hexec, hposts, ← hw.view]
    rfl
  have hsamereported : w'.reported = U.reported := by
    rw [World.reported, exec_trace hexec, hreported, ← hw.view]
    rfl
  rw [World.mailView, hsameposts, hsamereported, hshows.room, hshows.mapped, hshows.destroyed,
    hshows.own, hshows.known]

theorem saveMessage_ends {event : EventId} :
    Ends (bridge cfg calls) (obliging threadOf) t (ViewedAs user V L)
      (onStore (.saveMessageMapping e event)) (onResult (fun _ => ViewedAs user (V.map e) L)
        fun _ _ => False) := by
  have hstore : Ends (bridge cfg calls) (obliging threadOf) t (ViewedAs user V L)
      (onStore (.saveMessageMapping e event)) fun r w => ViewedAs user (V.map e) L w ∧
      r = .ok () := by
    refine store_ends (c := .saveMessageMapping e event) (fun now order s hs => ⟨rfl, hs.room, ?_,
      hs.destroyed, hs.own, hs.known⟩) rfl rfl
    funext i
    show ((s.messageMapping.insert e event).lookup i).isSome = if i = e then true else V.mapped i
    by_cases hi : i = e
    · rw [hi, AList.lookup_insert, if_pos rfl]
      rfl
    · rw [AList.lookup_insert_ne hi, if_neg hi, ← hs.mapped]
  refine hstore.post fun r w' hr => ?_
  rw [hr.2]
  exact hr.1

theorem saveThread_ends {event : EventId} {subject : String} :
    Ends (bridge cfg calls) (obliging threadOf) t (ViewedAs user V L)
      (onStore (.saveThreadMappingAtomic thread event room subject))
      (onResult (fun _ => ViewedAs user (V.bind thread room) L) fun _ _ => False) := by
  have hstore : Ends (bridge cfg calls) (obliging threadOf) t (ViewedAs user V L)
      (onStore (.saveThreadMappingAtomic thread event room subject))
      fun r w => ViewedAs user (V.bind thread room) L w ∧ r = .ok () := by
    refine store_ends (c := .saveThreadMappingAtomic thread event room subject)
      (fun now order s hs => ⟨rfl, ?_, hs.mapped, hs.destroyed, hs.own, hs.known⟩) rfl rfl
    funext i
    show ((s.threadMapping.insert thread _).lookup i).map _ = if i =
      thread then some room else V.room i
    by_cases hi : i = thread
    · rw [hi, AList.lookup_insert, if_pos rfl]
      rfl
    · rw [AList.lookup_insert_ne hi, if_neg hi, ← hs.room]
      rfl
  refine hstore.post fun r w' hr => ?_
  rw [hr.2]
  exact hr.1

theorem markDestroyed_ends :
    Ends (bridge cfg calls) (obliging threadOf) t (ViewedAs user V L)
      (onStore (.markEmailDestroyed e))
      fun _ => ViewedAs user (V.destroy e) L := by
  refine Ends.post (Q := fun _ w => ViewedAs user (V.destroy e) L w ∧ True) (store_ends
    (c := .markEmailDestroyed e) (fun now order s hs => ⟨trivial, hs.room, hs.mapped, ?_, hs.own,
      hs.known⟩) rfl rfl) fun _ _ hr => hr.1
  funext i
  show (AList.lookup i (if (s.destroyedEmails.lookup e).isSome then s.destroyedEmails
    else s.destroyedEmails.insert e ())).isSome = if i = e then true else V.destroyed i
  by_cases hi : i = e
  · rw [hi, if_pos rfl]
    split
    case isTrue h => exact h
    case isFalse =>
      rw [AList.lookup_insert]
      rfl
  · rw [if_neg hi, ← hs.destroyed]
    split
    · rfl
    · rw [AList.lookup_insert_ne hi]

theorem fetch_ends {l : List EmailId} :
    Ends (bridge cfg calls) (obliging threadOf) t (ViewedAs user V L) (fetchEmails p l)
      (onResult (fun emails w => ViewedAs user (V.report emails) L w ∧
          ∀ email ∈ emails, InThread threadOf email)
        fun _ => ViewedAs user V L) := by
  refine .call fun w a r w' hw hd he => ?_
  have hexec : exec t (.mk (.jmap p.account (.getEmail l))) a w = some (r, w') := he
  have htrace := exec_trace hexec
  have hissued := issued_exec hexec
  have hposts : (fun e => w'.postsOf e) = fun e => w.postsOf e := by
    funext e
    rw [World.postsOf, htrace]
    rfl
  obtain ⟨mail, hw'⟩ := exec_jmap hexec
  have hstore : w'.store = w.store := by rw [hw']
  have hreported : w'.reported =
      (⟨t, .jmap p.account (.getEmail l), a⟩ : Record).reports ++ w.reported := by
    rw [World.reported, htrace, List.flatMap_cons]
    rfl
  have hview : w'.mailView user =
      V.report (⟨t, .jmap p.account (.getEmail l), a⟩ : Record).reports := by
    rw [← hw.view, World.mailView, hposts, hstore, hreported]
    rfl
  have hat :
      ViewedAs user (V.report (⟨t, .jmap p.account (.getEmail l), a⟩ : Record).reports) L w' :=
    ⟨hview, fun s hs => hissued (hw.issued hs)⟩
  rcases exec_reply hexec with ⟨x, v, rfl, rfl, hv⟩ | ⟨hno, err, rfl⟩
  · cases x with
    | emails emails =>
      obtain rfl := Option.some.inj hv
      exact ⟨hat, hd.2.2⟩
    | _ => cases hv
  · cases a with
    | reply x => exact absurd rfl (hno x)
    | _ => exact hat

/-! ### One email -/

/-- Every bridged email has one message, in the room of its thread; no two threads share a
room. -/
structure Partitioned (threadOf : EmailId → ThreadId) (V : MailView) (L : List String) : Prop where
  once : ∀ e, V.mapped e = true → ∃ room, V.posts e = [room] ∧ V.room (threadOf e) = some room
  unposted : ∀ e, V.mapped e = false → V.posts e = []
  apart : ∀ thread thread' room, V.room thread = some room → V.room thread' = some room →
    thread = thread'
  issued : ∀ thread room, V.room thread = some room → room ∈ L
  known : V.known = true

/-- What is bridged stays bridged. -/
structure Grows (V V' : MailView) : Prop where
  mapped : ∀ e, V.mapped e = true → V'.mapped e = true
  destroyed : V'.destroyed = V.destroyed
  reported : V'.reported = V.reported
  own : V'.own = V.own

/-- The email is bridged, unless it is not to be. -/
def Handled (V : MailView) (email : Email) : Prop :=
  ∀ e, email.id = some e → email.threadId.isSome →
  shouldSkipInbound (senderEmail email) V.own = false →
    V.mapped e = true ∨ V.destroyed e = true

/-- From the view on these emails have been handled. -/
def Advanced (threadOf : EmailId → ThreadId) (user : UserId) (V : MailView) (done : List Email)
    (w : World) : Prop :=
  ∃ V' L', ViewedAs user V' L' w ∧ Partitioned threadOf V' L' ∧ Grows V V' ∧
  ∀ email ∈ done, Handled V' email

theorem Grows.refl : Grows V V := ⟨fun _ h => h, rfl, rfl, rfl⟩

theorem Grows.trans {V₁ V₂ : MailView} (h : Grows V V₁) (h' : Grows V₁ V₂) : Grows V V₂ :=
  ⟨fun e he => h'.mapped e (h.mapped e he), h'.destroyed.trans h.destroyed,
    h'.reported.trans h.reported, h'.own.trans h.own⟩

theorem Handled.further {V' : MailView} (h : Handled V email) (hV : Grows V V') :
    Handled V' email := by
  intro e he hthread hskip
  rw [hV.own] at hskip
  rw [hV.destroyed]
  exact (h e he hthread hskip).imp_left (hV.mapped e)

theorem Grows.map {V' : MailView} (hV : Grows V V') : Grows V (V'.map e) := by
  refine ⟨fun i hi => ?_, hV.destroyed, hV.reported, hV.own⟩
  show (if i = e then true else V'.mapped i) = true
  split
  · rfl
  · exact hV.mapped i hi

theorem Grows.post {V' : MailView} (hV : Grows V V') : Grows V (V'.post e room) :=
  ⟨hV.mapped, hV.destroyed, hV.reported, hV.own⟩

theorem Grows.bind {V' : MailView} (hV : Grows V V') : Grows V (V'.bind thread room) :=
  ⟨hV.mapped, hV.destroyed, hV.reported, hV.own⟩

theorem Partitioned.reply (hV : Partitioned threadOf V L) (hnew : V.mapped e = false)
    (hroom : V.room (threadOf e) = some room) : Partitioned threadOf ((V.post e room).map e) L where
  once i hi := by
    by_cases hie : i = e
    · subst hie
      refine ⟨room, ?_, hroom⟩
      show (if i = i then room :: V.posts i else V.posts i) = [room]
      rw [if_pos rfl, hV.unposted i hnew]
    · have hi : (if i = e then true else V.mapped i) = true := hi
      rw [if_neg hie] at hi
      obtain ⟨r, hposts, hr⟩ := hV.once i hi
      refine ⟨r, ?_, hr⟩
      show (if i = e then room :: V.posts e else V.posts i) = [r]
      rw [if_neg hie, hposts]
  unposted i hi := by
    have hi : (if i = e then true else V.mapped i) = false := hi
    by_cases hie : i = e
    · rw [if_pos hie] at hi
      cases hi
    · rw [if_neg hie] at hi
      show (if i = e then room :: V.posts e else V.posts i) = []
      rw [if_neg hie, hV.unposted i hi]
  apart := hV.apart
  issued := hV.issued
  known := hV.known

theorem Partitioned.bind (hV : Partitioned threadOf V L) (hnone : V.room thread = none)
    (hnew : room ∉ L) :
    Partitioned threadOf (V.bind thread room) (room :: L) where
  once i hi := by
    obtain ⟨r, hposts, hr⟩ := hV.once i hi
    refine ⟨r, hposts, ?_⟩
    show (if threadOf i = thread then some room else V.room (threadOf i)) = some r
    by_cases h : threadOf i = thread
    · rw [h, hnone] at hr
      cases hr
    · rw [if_neg h, hr]
  unposted := hV.unposted
  apart th th' r hr hr' := by
    have hr : (if th = thread then some room else V.room th) = some r := hr
    have hr' : (if th' = thread then some room else V.room th') = some r := hr'
    by_cases h : th = thread
    · by_cases h' : th' = thread
      · rw [h, h']
      · rw [if_pos h] at hr
        rw [if_neg h'] at hr'
        obtain rfl := Option.some.inj hr
        exact absurd (hV.issued th' room hr') hnew
    · rw [if_neg h] at hr
      by_cases h' : th' = thread
      · rw [if_pos h'] at hr'
        obtain rfl := Option.some.inj hr'
        exact absurd (hV.issued th room hr) hnew
      · rw [if_neg h'] at hr'
        exact hV.apart th th' r hr hr'
  issued th r hr := by
    have hr : (if th = thread then some room else V.room th) = some r := hr
    by_cases h : th = thread
    · rw [if_pos h] at hr
      obtain rfl := Option.some.inj hr
      exact List.mem_cons_self
    · rw [if_neg h] at hr
      exact List.mem_cons_of_mem _ (hV.issued th r hr)
  known := hV.known

theorem advanced_ends {done : List Email} {x : Prog Op α} (hx : Does (fun c => c.sparing) x) :
    Ends (bridge cfg calls) (obliging threadOf) t (Advanced threadOf user V done) x
      fun _ => Advanced threadOf user V done := by
  rintro w r w' ⟨V', L', hat, hrest⟩ he
  exact ⟨V', L', sparing_ends hx w r w' hat he, hrest⟩

theorem SpaceCmd.sparing {c : Cmd} (h : SpaceCmd user c) : c.sparing := by
  cases h <;> rfl

theorem AttachmentCmd.sparing {c : Cmd} (h : AttachmentCmd p room c) : c.sparing := by
  cases h <;> rfl

theorem ReadStateCmd.sparing {id : Option EmailId} {c : Cmd} (h : ReadStateCmd user id c) :
    c.sparing := by
  cases h <;> rfl

theorem registerGhost_files {address name : String} :
    Ends (bridge cfg calls) (obliging threadOf) t (ViewedAs user V L)
      (registerGhost cfg address name)
      (onResult (fun _ => ViewedAs user V L) fun _ _ => False) := by
  refine .andThen (accepted_ends rfl) fun b => ?_
  split
  · exact .bind (sparing_ends (.matrix rfl)) fun _ => .ok fun _ h => h
  · exact .ok fun _ h => h

theorem sendMessageAs_files {body : EmailBody} {sender : UserId} {ts : Option Nat}
    (ho : body.origin = .email e) :
    Ends (bridge cfg calls) (obliging threadOf) t (ViewedAs user V L)
      (sendMessageAs room body sender ts)
      (onResult (fun _ => ViewedAs user (V.post e room) L) fun _ _ => False) := by
  refine .andThen (Q := fun r w => (∃ event, r = .ok event) ∧ ViewedAs user (V.post e room) L w)
    (.attempt ((post_ends ho).post fun r w hr => ?_)) fun r => ?_
  · cases r with
    | ok event => exact ⟨⟨event, rfl⟩, hr⟩
    | error _ => exact hr.elim
  · cases r with
    | ok event => exact .ok fun _ h => h.2
    | error err =>
      rintro w r w' ⟨⟨event, hevent⟩, -⟩ -
      cases hevent

theorem bestEffort_files {x : Bridge α} (hx : Does (fun c => c.sparing) x) :
    Ends (bridge cfg calls) (obliging threadOf) t (ViewedAs user V L) (bestEffort x)
      (onResult (fun _ => ViewedAs user V L) fun _ _ => False) :=
  .bind (sparing_ends hx) fun _ => .ok fun _ h => h

theorem lift_files {x : Task α} (hx : Does (fun c => c.sparing) x) :
    Ends (bridge cfg calls) (obliging threadOf) t (ViewedAs user V L) (Act.lift x : Bridge α)
      (onResult (fun _ => ViewedAs user V L) fun _ _ => False) := .lift (sparing_ends hx)

theorem processReply_files {ghost : GhostUser} {body : EmailBody} (hid : email.id = some e)
    (hthread : email.threadId = some thread) (ho : body.origin = .email e) :
    Ends (bridge cfg calls) (obliging threadOf) t (ViewedAs p.user V L)
      (processReply p email ghost body room)
      fun _ => ViewedAs p.user ((V.post e room).map e) L := by
  rw [processReply, hthread, hid]
  refine .after (sendMessageAs_files ho) fun event => .after saveMessage_ends fun _ => ?_
  refine .after (bestEffort_files (.store rfl)) fun _ => ?_
  exact sparing_ends (handleAttachments_does.mono fun _ => AttachmentCmd.sparing)

theorem createContactRoom_files {address name : String} (hknown : V.known = true) :
    Ends (bridge cfg calls) (obliging threadOf) t (ViewedAs user V L)
      (createContactRoom cfg user address name)
      (onResult (fun room w => ViewedAs user V (room :: L) w ∧ room ∉ L) fun _ _ => False) := by
  refine .after registerGhost_files fun _ => .after createRoom_ends fun room => ?_
  by_cases hnew : room ∈ L
  · rintro w r w' ⟨-, hno⟩ -
    exact absurd hnew hno
  have hsave : Ends (bridge cfg calls) (obliging threadOf) t (ViewedAs user V (room :: L))
      (onStore (.saveRoomGhostMapping room address user))
      (onResult (fun _ => ViewedAs user V (room :: L)) fun _ _ => False) :=
    succeeds_ends rfl
      (fun now order s hs => ⟨(), by simp [StoreCmd.run, Store.referring, hs]⟩) hknown
  have hrest : Ends (bridge cfg calls) (obliging threadOf) t (ViewedAs user V (room :: L))
      (Act.andThen (onStore (.saveRoomGhostMapping room address user)) fun _ =>
        Act.andThen (bestEffort (onMatrix (.joinRoomAs room (cfg.ghostUserId address)))) fun _ =>
          Act.andThen (Act.lift (joinRealUser user room)) fun _ =>
            Act.andThen (bestEffort (ensureRoomInEmailSpace user room)) fun _ => Act.ok room)
      (onResult (fun room w => ViewedAs user V (room :: L) w ∧ room ∉ L) fun _ _ => False) := by
    refine .after hsave fun _ => .after (bestEffort_files (.matrix rfl)) fun _ => ?_
    refine .after (lift_files (.letSome (.store rfl) fun _ => .bind (.matrix rfl) fun _ => .pure))
      fun _ => ?_
    refine .after (bestEffort_files (ensureRoomInEmailSpace_space.mono fun _ => SpaceCmd.sparing))
      fun _ => ?_
    exact .ok fun _ h => ⟨h, hnew⟩
  exact hrest.weaken (fun _ h => h.1) fun _ _ h => h

theorem createThreadRoom_files {ghost : GhostUser} {body : EmailBody} (ho : body.origin = .email e)
    (hV : Partitioned threadOf V L) (hnew : V.mapped e = false)
    (hnone : V.room (threadOf e) = none) :
    Ends (bridge cfg calls) (obliging threadOf) t (ViewedAs p.user V L)
      (createThreadRoom cfg p email ghost body (threadOf e) e) fun _ w =>
        ∃ V' L', ViewedAs p.user V' L' w ∧ Partitioned threadOf V' L' ∧ Grows V V' ∧
          V'.mapped e = true := by
  refine .after (createContactRoom_files hV.known) fun room => ?_
  by_cases hroom : room ∈ L
  · rintro w r w' ⟨-, hno⟩ -
    exact absurd hroom hno
  have hfiled : Partitioned threadOf (((V.post e room).bind (threadOf e) room).map e) (room :: L) :=
    (hV.bind hnone hroom).reply hnew (if_pos rfl)
  have hown : Ends (bridge cfg calls) (obliging threadOf) t (ViewedAs p.user V (room :: L))
      (onStore (.getJmapState p.user .userEmail))
      (onResult (fun _ => ViewedAs p.user V (room :: L)) fun _ _ => False) :=
    succeeds_ends rfl (fun now order s _ => ⟨_, rfl⟩) hV.known
  refine Ends.weaken (P := ViewedAs p.user V (room :: L)) ?_ (fun w hw => hw.1) fun r w hw =>
    ⟨_, _, hw, hfiled, Grows.refl.post.bind.map, if_pos rfl⟩
  refine .after (bestEffort_files (.matrix rfl)) fun _ => .after hown fun own => ?_
  refine .after (bestEffort_files (.matrix rfl)) fun _ =>
    .after (sendMessageAs_files ho) fun event => ?_
  refine .after saveThread_ends fun _ => .after saveMessage_ends fun _ => ?_
  exact sparing_ends (handleAttachments_does.mono fun _ => AttachmentCmd.sparing)

theorem threadInfo_files :
    Ends (bridge cfg calls) (obliging threadOf) t (ViewedAs user V L)
      (onStore (.getThreadInfo thread))
      (onResult (fun row w => ViewedAs user V L w ∧ V.room thread = row.map (·.roomId))
        fun _ _ => False) := by
  refine (answered_ends (c := .getThreadInfo thread) rfl).post ?_
  rintro r w' ⟨hw', w, order, hw, rfl⟩
  refine ⟨hw', ?_⟩
  rw [← hw.view]
  rfl

theorem awaitThreadLock_files (hknown : V.known = true) :
    Ends (bridge cfg calls) (obliging threadOf) t (ViewedAs user V L) (awaitThreadLock thread)
      (onResult (fun room w => ViewedAs user V L w ∧ ∀ r ∈ room, V.room thread = some r)
        fun _ _ => False) := by
  have hacquire : Ends (bridge cfg calls) (obliging threadOf) t (ViewedAs user V L)
      (onStore (.tryAcquireRoomCreationLock (.thread thread)))
      (onResult (fun _ => ViewedAs user V L) fun _ _ => False) := by
    refine succeeds_ends rfl (fun now order s _ => ?_) hknown
    simp only [StoreCmd.run]
    split
    · exact ⟨_, rfl⟩
    · exact ⟨_, rfl⟩
  refine .actLoop (J := fun _ => ViewedAs user V L) fun _ => ?_
  refine .andThen threadInfo_files fun row => ?_
  cases row with
  | some row =>
    refine .ok fun w hw => ⟨hw.1, fun r hr => ?_⟩
    obtain rfl := Option.some.inj hr
    exact hw.2
  | none =>
    refine Ends.weaken (P := ViewedAs user V L) ?_ (fun w hw => hw.1) fun _ _ h => h
    refine .andThen hacquire fun b => ?_
    split
    · exact .ok fun w hw => ⟨hw, fun r hr => by cases hr⟩
    · exact .andThen (lift_files (.task rfl)) fun _ => .ok fun w hw => hw

theorem processNewThread_files {ghost : GhostUser} {body : EmailBody} (ho : body.origin = .email e)
    (hid : email.id = some e) (hthread : email.threadId = some (threadOf e))
    (hV : Partitioned threadOf V L) (hnew : V.mapped e = false) :
    Ends (bridge cfg calls) (obliging threadOf) t (ViewedAs p.user V L)
      (processNewThread cfg p email ghost body) fun _ w =>
        ∃ V' L', ViewedAs p.user V' L' w ∧ Partitioned threadOf V' L' ∧ Grows V V' ∧
          V'.mapped e = true := by
  have hreply : ∀ room, V.room (threadOf e) = some room →
      Ends (bridge cfg calls) (obliging threadOf) t (ViewedAs p.user V L)
        (processReply p email ghost body room) fun _ w => ∃ V' L', ViewedAs p.user V' L' w ∧
          Partitioned threadOf V' L' ∧ Grows V V' ∧ V'.mapped e = true := by
    intro room hroom
    exact (processReply_files hid hthread ho).post fun r w hw =>
      ⟨_, _, hw, hV.reply hnew hroom, Grows.refl.post.map, if_pos rfl⟩
  rw [processNewThread, hthread, hid]
  refine .after (awaitThreadLock_files hV.known) fun room => ?_
  cases room with
  | some room =>
    intro w r w' hw he
    exact hreply room (hw.2 room rfl) w r w' hw.1 he
  | none =>
    refine Ends.weaken (P := ViewedAs p.user V L) ?_ (fun w hw => hw.1) fun _ _ h => h
    refine .bind (Q := fun _ w => ∃ V' L', ViewedAs p.user V' L' w ∧ Partitioned threadOf V' L' ∧
      Grows V V' ∧
      V'.mapped e = true) (.after threadInfo_files fun row => ?_) fun r => ?_
    · cases row with
      | some row =>
        intro w r w' hw he
        exact hreply row.roomId hw.2 w r w' hw.1 he
      | none =>
        intro w r w' hw he
        exact createThreadRoom_files ho hV hnew hw.2 w r w' hw.1 he
    · rintro w r' w' ⟨V', L', hat, hrest⟩ he
      exact ⟨V', L', sparing_ends (.bind (.task rfl) fun _ => .pure) w r' w' hat he, hrest⟩

theorem bridgeToRoom_files {ghost : GhostUser} {body : EmailBody} (ho : body.origin = .email e)
    (hid : email.id = some e) (hthread : email.threadId = some (threadOf e))
    (hV : Partitioned threadOf V L) (hnew : V.mapped e = false) :
    Ends (bridge cfg calls) (obliging threadOf) t (ViewedAs p.user V L)
      (bridgeToRoom cfg p email (threadOf e) ghost body) fun _ w =>
        ∃ V' L', ViewedAs p.user V' L' w ∧ Partitioned threadOf V' L' ∧ Grows V V' ∧
          V'.mapped e = true := by
  refine .after threadInfo_files fun row => ?_
  cases row with
  | some row =>
    intro w r w' hw he
    have hat := processReply_files hid hthread ho w r w' hw.1 he
    refine ⟨_, _, hat, hV.reply hnew hw.2, Grows.refl.post.map, if_pos rfl⟩
  | none =>
    intro w r w' hw he
    exact processNewThread_files ho hid hthread hV hnew w r w' hw.1 he

theorem ownEmail_files :
    Ends (bridge cfg calls) (obliging threadOf) t (ViewedAs user V L)
      (onStore (.getJmapState user .userEmail))
      (onResult (fun own w => ViewedAs user V L w ∧ own = V.own) fun _ _ => False) := by
  refine (answered_ends (c := .getJmapState user .userEmail) rfl).post ?_
  rintro r w' ⟨hw', w, order, hw, rfl⟩
  refine ⟨hw', ?_⟩
  rw [← hw.view]
  rfl

theorem Partitioned.advanced (hV : Partitioned threadOf V L) (hw : ViewedAs user V L w)
    (h : Handled V email) :
    Advanced threadOf user V [email] w :=
  ⟨V, L, hw, hV, .refl, fun x hx => by rwa [List.mem_singleton.mp hx]⟩

theorem bridgeEmail_files (hid : email.id = some e)
    (hthread : ∀ thread ∈ email.threadId, threadOf e = thread) (hV : Partitioned threadOf V L)
    (hnew : V.mapped e = false) :
    Ends (bridge cfg calls) (obliging threadOf) t (ViewedAs p.user V L) (bridgeEmail cfg p email e)
      fun _ => Advanced threadOf p.user V [email] := by
  refine .after ownEmail_files fun own => ?_
  split
  case isTrue hskip =>
    have hlog : Ends (bridge cfg calls) (obliging threadOf) t (ViewedAs p.user V L)
        (Act.lift (onTask (.log (.skipping e (senderEmail email)))) : Bridge Unit)
        fun _ => ViewedAs p.user V L := .liftAlways (sparing_ends (.task rfl))
    rintro w r w' ⟨hw, rfl⟩ he
    refine hV.advanced (hlog w r w' hw he) fun i _ _ hno => ?_
    rw [hskip] at hno
    cases hno
  case isFalse hskip =>
    cases hth : email.threadId with
    | none =>
      refine .pure fun w hw => hV.advanced hw.1 fun i _ hsome => ?_
      rw [hth] at hsome
      cases hsome
    | some thread =>
      obtain rfl := hthread thread hth
      have hghost : Ends (bridge cfg calls) (obliging threadOf) t (ViewedAs p.user V L)
          (resolveGhost cfg email) (onResult (fun _ => ViewedAs p.user V L) fun _ _ => False) :=
        .after registerGhost_files fun _ => .ok fun _ h => h
      have hbridge : ∀ ghost, Ends (bridge cfg calls) (obliging threadOf) t (ViewedAs p.user V L)
          (bridgeToRoom cfg p email (threadOf e) ghost (EmailBody.fromEmail cfg email))
          fun _ => Advanced threadOf p.user V [email] := fun ghost => by
        have ho : (EmailBody.fromEmail cfg email).origin = .email e := by
          rw [EmailBody.fromEmail, hid]
          rfl
        refine (bridgeToRoom_files ho hid hth hV hnew).post ?_
        rintro r w ⟨V', L', hat, hfiled, hfurther, hmapped⟩
        refine ⟨V', L', hat, hfiled, hfurther, fun x hx i hi _ _ => ?_⟩
        rw [List.mem_singleton.mp hx, hid] at hi
        obtain rfl := Option.some.inj hi
        exact .inl hmapped
      have hrest : Ends (bridge cfg calls) (obliging threadOf) t (ViewedAs p.user V L)
          (Act.andThen (resolveGhost cfg email) fun ghost =>
            Act.andThen
              (bridgeToRoom cfg p email (threadOf e) ghost (EmailBody.fromEmail cfg email))
              fun _ => Act.lift (syncReadState p email))
          fun _ => Advanced threadOf p.user V [email] :=
        .after hghost fun ghost => .andThenAlways (hbridge ghost) (fun _ => .liftAlways
          (advanced_ends (syncReadState_does.mono fun _ => ReadStateCmd.sparing))) fun _ h => h
      exact hrest.weaken (fun _ h => h.1) fun _ _ h => h

theorem processEmail_files (hthread : InThread threadOf email)
    (hV : Partitioned threadOf V L) :
    Ends (bridge cfg calls) (obliging threadOf) t (ViewedAs p.user V L) (processEmail cfg p email)
      fun _ => Advanced threadOf p.user V [email] := by
  refine .bind (sparing_ends (.task rfl)) fun _ =>
    .bind (Q := fun _ => Advanced threadOf p.user V [email])
    ?_ fun _ => .bind (advanced_ends (.task rfl)) fun _ => .pure fun _ h => h
  cases hid : email.id with
  | none =>
    refine .pure fun w hw => hV.advanced hw fun i hi => ?_
    rw [hid] at hi
    cases hi
  | some e =>
    have hmapped : Ends (bridge cfg calls) (obliging threadOf) t (ViewedAs p.user V L)
        (onStore (.hasMessageMapped e)) (onResult (fun b w => ViewedAs p.user V L w ∧
          b = (V.mapped e || V.destroyed e)) fun _ _ => False) := by
      refine (answered_ends (c := .hasMessageMapped e) rfl).post ?_
      rintro r w' ⟨hw', w, order, hw, rfl⟩
      refine ⟨hw', ?_⟩
      rw [← hw.view]
      rfl
    have hrest : Ends (bridge cfg calls) (obliging threadOf) t (ViewedAs p.user V L)
        (Act.andThen (onStore (.hasMessageMapped e)) fun b =>
          if b = true then Act.lift (syncReadState p email) else bridgeEmail cfg p email e)
        fun _ => Advanced threadOf p.user V [email] := by
      refine .after hmapped fun b => ?_
      split
      case isTrue hb =>
        have hread : Ends (bridge cfg calls) (obliging threadOf) t (ViewedAs p.user V L)
            (Act.lift (syncReadState p email) : Bridge Unit) fun _ => ViewedAs p.user V L :=
          .liftAlways (sparing_ends (syncReadState_does.mono fun _ => ReadStateCmd.sparing))
        rintro w r w' ⟨hw, hv⟩ he
        refine hV.advanced (hread w r w' hw he) fun i hi _ _ => ?_
        obtain rfl := Option.some.inj (hid.symm.trans hi)
        rw [hb, eq_comm, Bool.or_eq_true] at hv
        exact hv
      case isFalse hb =>
        rintro w r w' ⟨hw, hv⟩ he
        have hnew : V.mapped e = false := by
          cases hm : V.mapped e with
          | false => rfl
          | true =>
            rw [hm] at hv
            exact absurd hv hb
        exact bridgeEmail_files hid (hthread e hid) hV hnew w r w' hw he
    exact hrest

/-! ### A page, and the walks -/

theorem Advanced.snoc {done : List Email} (h : Advanced threadOf user V done w)
    (hnext : ∀ V' L', ViewedAs user V' L' w → Partitioned threadOf V' L' →
      Advanced threadOf user V' [email] w') : Advanced threadOf user V (email :: done) w' := by
  obtain ⟨V', L', hat, hfiled, hfurther, hdone⟩ := h
  obtain ⟨V'', L'', hat', hfiled', hfurther', hemail⟩ := hnext V' L' hat hfiled
  refine ⟨V'', L'', hat', hfiled', hfurther.trans hfurther', fun x hx => ?_⟩
  rcases List.mem_cons.mp hx with rfl | hx
  · exact hemail x (List.mem_singleton.mpr rfl)
  · exact (hdone x hx).further hfurther'

theorem processLogged_files {done : List Email}
    (hthread : InThread threadOf email) :
    Ends (bridge cfg calls) (obliging threadOf) t (Advanced threadOf p.user V done)
      (processLogged cfg p email) fun _ => Advanced threadOf p.user V (email :: done) := by
  refine .bind (Q := fun _ => Advanced threadOf p.user V (email :: done)) ?_ fun r => ?_
  · intro w r w' hw he
    exact hw.snoc fun V' L' hat hfiled => processEmail_files hthread hfiled w r w' hat he
  · cases r with
    | ok _ => exact .pure fun _ h => h
    | error _ => exact advanced_ends (.task rfl)

theorem processAll_files {emails done : List Email}
    (hthread : ∀ email ∈ emails, InThread threadOf email) :
    Ends (bridge cfg calls) (obliging threadOf) t (Advanced threadOf p.user V done)
      (Prog.forEach (processLogged cfg p) emails)
      fun _ => Advanced threadOf p.user V (emails.reverse ++ done) := by
  induction emails generalizing done with
  | nil => exact .pure fun _ h => h
  | cons email emails ih =>
    refine .bind (processLogged_files (hthread email List.mem_cons_self)) fun _ => ?_
    rw [List.reverse_cons, List.append_assoc]
    exact ih fun x hx => hthread x (List.mem_cons_of_mem _ hx)

/-- Every email the server has reported is handled. -/
def Tidy (threadOf : EmailId → ThreadId) (user : UserId) (w : World) : Prop :=
  ∃ V L, ViewedAs user V L w ∧ Partitioned threadOf V L ∧
    ∀ email ∈ V.reported, InThread threadOf email ∧ Handled V email

theorem page_files {l : List EmailId} :
    Ends (bridge cfg calls) (obliging threadOf) t (Tidy threadOf p.user)
      (Act.andThen (fetchEmails p l) (processAll cfg p)) fun _ => Tidy threadOf p.user := by
  rintro w r w' ⟨V, L, hat, hV, hdone⟩ he
  rcases Eval.andThen_iff.mp he with ⟨emails, w₁, hfetch, hall⟩ | ⟨err, hfetch, -⟩
  · obtain ⟨hat₁, hthread⟩ := fetch_ends w _ w₁ hat hfetch
    have hfiled : Partitioned threadOf (V.report emails) L :=
      ⟨hV.once, hV.unposted, hV.apart, hV.issued, hV.known⟩
    have hstart : Advanced threadOf p.user (V.report emails) [] w₁ :=
      ⟨_, L, hat₁, hfiled, .refl, fun x hx => by cases hx⟩
    have hends : Ends (bridge cfg calls) (obliging threadOf) t
        (Advanced threadOf p.user (V.report emails) []) (processAll cfg p emails)
        fun _ => Advanced threadOf p.user (V.report emails) (emails.reverse ++ []) :=
      .liftAlways (processAll_files hthread)
    obtain ⟨V', L', hat', hfiled', hfurther, hhandled⟩ := hends w₁ r w' hstart hall
    refine ⟨V', L', hat', hfiled', fun x hx => ?_⟩
    rw [hfurther.reported] at hx
    rcases List.mem_append.mp hx with hx | hx
    · exact ⟨hthread x hx, hhandled x (by simpa using hx)⟩
    · have hold : Handled (V.report emails) x := (hdone x hx).2
      exact ⟨(hdone x hx).1, hold.further hfurther⟩
  · exact ⟨V, L, fetch_ends w _ w' hat hfetch, hV, hdone⟩

theorem tidy_sparing {c : Cmd} (hc : c.sparing) :
    Ends (bridge cfg calls) (obliging threadOf) t (Tidy threadOf user) (Prog.call (.mk c))
      fun _ => Tidy threadOf user := by
  rintro w r w' ⟨V, L, hat, hrest⟩ he
  have hx : Does (fun c => c.sparing) (Prog.call (.mk c)) := Prog.only_call.mpr hc
  exact ⟨V, L, sparing_ends hx w r w' hat he, hrest⟩

theorem tidy_destroyed :
    Ends (bridge cfg calls) (obliging threadOf) t (Tidy threadOf user)
      (onStore (.markEmailDestroyed e)) fun _ => Tidy threadOf user := by
  rintro w r w' ⟨V, L, hat, hV, hdone⟩ he
  refine ⟨V.destroy e, L, markDestroyed_ends w r w' hat he,
    ⟨hV.once, hV.unposted, hV.apart, hV.issued, hV.known⟩, fun x hx =>
      ⟨(hdone x hx).1, fun i hi hthread hskip => ?_⟩⟩
  refine ((hdone x hx).2 i hi hthread hskip).imp_right fun hdestroyed => ?_
  show (if i = e then true else V.destroyed i) = true
  split
  · rfl
  · exact hdestroyed

theorem pace_not_email {k : StateKey} (hk : k.ofPace) : (k != .userEmail) = true := by
  cases k <;> first | rfl | cases hk

theorem tidy_closed : Prog.Closed (fun _ o => PageCmd p o.cmd) fun _ x =>
    Ends (bridge cfg calls) (obliging threadOf) t (Tidy threadOf p.user) x
      fun _ => Tidy threadOf p.user := by
  refine Ends.closed fun β o a w b w' ho hd he hw => ?_
  obtain ⟨c⟩ := o
  have hcall : ∀ hends : Ends (bridge cfg calls) (obliging threadOf) t (Tidy threadOf p.user)
      (Prog.call (.mk c)) fun _ => Tidy threadOf p.user, Tidy threadOf p.user w' :=
    fun hends => hends w b w' hw (Eval.call_iff.mpr ⟨a, hd, he⟩)
  cases ho with
  | round c h =>
    cases h with
    | saveState k v hk => exact hcall (tidy_sparing (pace_not_email hk))
    | deleteState k hk => exact hcall (tidy_sparing (pace_not_email hk))
    | destroyed e => exact hcall tidy_destroyed
    | _ => exact hcall (tidy_sparing rfl)
  | _ => exact hcall (tidy_sparing rfl)

theorem syncEmails_tidy :
    Ends (bridge cfg calls) (obliging threadOf) t (Tidy threadOf p.user) (syncEmails cfg p)
      fun _ => Tidy threadOf p.user :=
  syncEmails_closed (C := fun _ x => Ends (bridge cfg calls) (obliging threadOf) t
    (Tidy threadOf p.user) x fun _ => Tidy threadOf p.user) tidy_closed fun _ => page_files

theorem backfillBatch_tidy {pos : Nat} :
    Ends (bridge cfg calls) (obliging threadOf) t (Tidy threadOf p.user) (backfillBatch cfg p pos)
      fun _ => Tidy threadOf p.user :=
  backfillBatch_closed (C := fun _ x => Ends (bridge cfg calls) (obliging threadOf) t
    (Tidy threadOf p.user) x fun _ => Tidy threadOf p.user) tidy_closed (fun _ => page_files) pos

theorem MailRuns.tidy {w₀ : World} (h : MailRuns cfg calls threadOf p w₀ w)
    (h₀ : Tidy threadOf p.user w₀) :
    Tidy threadOf p.user w := by
  induction h with
  | start => exact h₀
  | sync t w w' _ he ih => exact syncEmails_tidy w _ w' ih he
  | batch t pos more w w' _ he ih => exact backfillBatch_tidy w _ w' ih he
  | pause w w' _ hview hissued ih =>
    obtain ⟨V, L, hat, hrest⟩ := ih
    exact ⟨V, L, ⟨hview.trans hat.view, fun s hs => hissued (hat.issued hs)⟩, hrest⟩

theorem Unbridged.tidy (h : Unbridged p w) : Tidy threadOf p.user w := by
  refine ⟨w.mailView p.user, [], ⟨rfl, List.nil_subset _⟩, ⟨fun e he => ?_, fun e _ => ?_,
    fun thread thread' room hr => ?_, fun thread room hr => ?_, h.user⟩, fun x hx => ?_⟩
  · have he : (w.store.messageMapping.lookup e).isSome = true := he
    rw [h.messages] at he
    cases he
  · show w.trace.filterMap _ = []
    rw [h.trace]
    rfl
  · have hr : (w.store.threadMapping.lookup thread).map _ = some room := hr
    rw [h.threads] at hr
    cases hr
  · have hr : (w.store.threadMapping.lookup thread).map _ = some room := hr
    rw [h.threads] at hr
    cases hr
  · have hx : x ∈ w.trace.flatMap _ := hx
    rw [h.trace] at hx
    cases hx

theorem Tidy.filed (h : Tidy threadOf p.user w) (hb : Bridgeable p w e thread) :
    ∃ room, w.postsOf e = [room] ∧ w.store.boundTo thread = some room := by
  obtain ⟨V, L, hat, hV, hdone⟩ := h
  obtain ⟨⟨email, hreported, hid, hthread, hskip⟩, hundestroyed⟩ := hb
  rw [← hat.view] at hdone hV
  obtain ⟨hin, hhandled⟩ := hdone email hreported
  have hof : threadOf e = thread := hin e hid thread hthread
  rcases hhandled e hid (by rw [hthread]; rfl) hskip with hmapped | hdestroyed
  · obtain ⟨room, hposts, hroom⟩ := hV.once e hmapped
    rw [hof] at hroom
    exact ⟨room, hposts, hroom⟩
  · have hd : (w.store.destroyedEmails.lookup e).isSome = true := hdestroyed
    rw [hundestroyed] at hd
    cases hd

theorem Tidy.apart (h : Tidy threadOf p.user w) {thread' : ThreadId}
    (hroom : w.store.boundTo thread = some room) (hroom' : w.store.boundTo thread' = some room) :
    thread = thread' := by
  obtain ⟨V, L, hat, hV, -⟩ := h
  rw [← hat.view] at hV
  exact hV.apart thread thread' room hroom hroom'

end

/-- After any sequence of complete runs every email the server has reported, of another sender
than the user and not destroyed, has one message, which is in the room of its thread; and two of
them are in one room if and only if they are of one thread. -/
theorem rooms_partition_threads (cfg : Config) (calls : Nat → Call) (threadOf : EmailId → ThreadId)
    (p : Poller) (w₀ w : World) (hstart : Unbridged p w₀)
    (hruns : MailRuns cfg calls threadOf p w₀ w) :
    (∀ e thread, Bridgeable p w e thread →
      ∃ room, w.postsOf e = [room] ∧ w.store.boundTo thread = some room) ∧
    ∀ e thread e' thread', Bridgeable p w e thread → Bridgeable p w e' thread' →
      (w.postsOf e = w.postsOf e' ↔ thread = thread') := by
  have htidy : Tidy threadOf p.user w := hruns.tidy hstart.tidy
  refine ⟨fun e thread => htidy.filed, fun e thread e' thread' hb hb' => ?_⟩
  obtain ⟨room, hposts, hroom⟩ := htidy.filed hb
  obtain ⟨room', hposts', hroom'⟩ := htidy.filed hb'
  rw [hposts, hposts']
  constructor
  · intro hsame
    obtain rfl := List.singleton_inj.mp hsame
    exact htidy.apart hroom hroom'
  · rintro rfl
    rw [Option.some.inj (hroom.symm.trans hroom')]

def alice : Poller := ⟨"@alice:localhost", "A"⟩

/-- Alice has synced before, and nothing is bridged. -/
def aliceSynced : World where
  store := {
    users := (∅ : Sql.Table _ _).insert alice.user ⟨"alice", "token", "https://mail"⟩
    jmapState := (∅ : Sql.Table _ _).insert (alice.user, .changes) "s0" }

def fromBob (e : EmailId) : Email where
  id := some e
  threadId := some "T"
  fromAddrs := some [⟨none, "bob@example.org"⟩]

def acks (n : Nat) : List (Option Answer) := List.replicate n (some .done)

/-- The server tells of two emails of a thread: the first is given a room, the second is a reply. -/
def twoOfAThread : List (Option Answer) := List.flatten [
  [some .done, none, some (.reply (.changes { newState := "s1", created := ["e1", "e2"] })),
    some (.reply (.emails [fromBob "e1", fromBob "e2"]))],
  acks 3, [some (.flag false), some .done, none],
  acks 3, [some (.flag false), some (.id "!r")], acks 3, [none], acks 4, [some (.id "!s")],
  acks 8, [some (.id "$1")], acks 8, [some (.flag false), some .done, some (.id "$2")], acks 5]

def syncAlice : Prog Op (Except Err Unit) := syncEmails {} alice

theorem rooms_partition_threads_two : ∃ w,
    MailRuns {} (fun _ => .worker) (fun _ => "T") alice aliceSynced w ∧
    Bridgeable alice w "e1" "T" ∧ Bridgeable alice w "e2" "T" ∧
      w.postsOf "e1" = w.postsOf "e2" := by
  have hends : (replay (bridge {} fun _ => .worker) 0 twoOfAThread syncAlice
      aliceSynced).map (fun q => (q.1, q.2.reported, q.2.store.destroyedEmails.entries,
        q.2.store.jmapState.lookup (alice.user, .userEmail))) =
      some (.ok (), [fromBob "e1", fromBob "e2"], [], none) := by
    decide +kernel
  obtain ⟨⟨r, w⟩, hreplay, hresult⟩ := Option.map_eq_some_iff.mp hends
  obtain ⟨rfl, hrest⟩ := Prod.mk.inj hresult
  obtain ⟨hreported, hrest⟩ := Prod.mk.inj hrest
  obtain ⟨hdestroyed, hown⟩ := Prod.mk.inj hrest
  have hmeets : ReplayMeets (bridge {} fun _ => .worker) (obliging fun _ => "T") 0 twoOfAThread
      syncAlice aliceSynced := by decide +kernel
  have hruns : MailRuns {} (fun _ => .worker) (fun _ => "T") alice aliceSynced w :=
    .sync 0 _ _ .start (eval_of_replay hmeets hreplay)
  have hempty : w.store.destroyedEmails = ∅ := AList.ext hdestroyed
  have hbridgeable : ∀ e, fromBob e ∈ w.reported → Bridgeable alice w e "T" := by
    intro e he
    refine ⟨⟨fromBob e, he, rfl, rfl, ?_⟩, by rw [hempty]; rfl⟩
    have hown : w.store.jmapState.lookup (alice.user, .userEmail) = none := hown
    rw [hown]
    rfl
  have hreported : w.reported = [fromBob "e1", fromBob "e2"] := hreported
  have h₁ := hbridgeable "e1" (by rw [hreported]; exact List.mem_cons_self)
  have h₂ := hbridgeable "e2" (by rw [hreported]; exact List.mem_cons_of_mem _ List.mem_cons_self)
  have hstart : Unbridged alice aliceSynced := ⟨rfl, rfl, rfl, by decide⟩
  exact ⟨w, hruns, h₁, h₂,
    ((rooms_partition_threads _ _ _ _ _ _ hstart hruns).2 "e1" "T" "e2" "T" h₁ h₂).mpr rfl⟩

end JmapBridge
