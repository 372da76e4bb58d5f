import JmapBridge.Model.Calls
import JmapBridge.Model.Exec
import JmapBridge.Model.Inbound

/-! The requests that are built from a list of the mail server. The limits that the server
advertises are not looked at: a request names the list that the server gave the task last,
whole and in its order. -/

namespace JmapBridge

open Effect Sql

/-- The emails that an `Email/get` or an `Email/set` names. A draft that it creates has no id. -/
def Cmd.names : Cmd → Option (Account × List EmailId)
  | jmap account .getEmailState => some (account, [])
  | jmap account (.getEmail ids) => some (account, ids)
  | jmap account (.getMessageIds ids) => some (account, ids)
  | jmap account (.setMailboxIds ids _) => some (account, ids)
  | jmap account (.getQuote e) => some (account, [e])
  | jmap account (.getEmailThread e) => some (account, [e])
  | jmap account (.getBodies e) => some (account, [e])
  | jmap account (.setSeen e _) => some (account, [e])
  | _ => none

/-- The list in the response to `Email/changes`, `Email/query` or `Thread/get`. -/
def Record.list (r : Record) : Option (Account × List EmailId) :=
  match r.cmd, r.answer with
  | .jmap account (.changesEmail _), .reply (.changes c) => some (account, c.created ++ c.updated)
  | .jmap account (.queryEmail _ _ _), .reply (.queried q) => some (account, q.ids)
  | .jmap account (.getThread _), .reply (.thread emails) => some (account, emails.getD [])
  | _, _ => none

/-- The list that the server gave task `t` last. -/
def lastList (t : Nat) : List Record → Option (Account × List EmailId)
  | [] => none
  | r :: l => (if r.task = t then r.list else none).or (lastList t l)

/-- A request that names emails names those of the last list. -/
def Record.Forwards (l : List Record) (r : Record) : Prop :=
  ∀ account ids, r.cmd.names = some (account, ids) →
    ids = [] ∨ lastList r.task l = some (account, ids)

def Forwards : List Record → Prop
  | [] => True
  | r :: l => r.Forwards l ∧ Forwards l

theorem mem_of_lastList {t : Nat} {l : List Record} {x : Account × List EmailId}
    (h : lastList t l = some x) : ∃ r ∈ l, r.task = t ∧ r.list = some x := by
  induction l with
  | nil => cases h
  | cons r l ih =>
    rw [lastList] at h
    rcases Option.or_eq_some_iff.mp h with hr | ⟨-, hl⟩
    · by_cases ht : r.task = t
      · rw [if_pos ht] at hr
        exact ⟨r, List.mem_cons_self, ht, hr⟩
      · rw [if_neg ht] at hr
        cases hr
    · obtain ⟨s, hs, htask, hlist⟩ := ih hl
      exact ⟨s, List.mem_cons_of_mem r hs, htask, hlist⟩

theorem Forwards.within {l : List Record} (h : Forwards l) {account : Account} {max : Nat}
    (hlists : ∀ r ∈ l, ∀ ids, r.list = some (account, ids) → ids.length ≤ max) :
    ∀ r ∈ l, ∀ ids, r.cmd.names = some (account, ids) → ids.length ≤ max := by
  induction l with
  | nil => exact fun r hr => by cases hr
  | cons s l ih =>
    intro r hr ids hnames
    have hrest : ∀ r ∈ l, ∀ ids, r.list = some (account, ids) → ids.length ≤ max :=
      fun r hr => hlists r (List.mem_cons_of_mem s hr)
    rcases List.mem_cons.mp hr with rfl | hr
    · rcases h.1 account ids hnames with rfl | hlast
      · exact Nat.zero_le max
      · obtain ⟨s, hs, -, hlist⟩ := mem_of_lastList hlast
        exact hrest s hs ids hlist
    · exact ih h.2 hrest r hr ids hnames

/-- The work that builds requests from lists. The functions of the sender are run by
themselves. -/
inductive Fetcher where
  | poll (p : Poller)
  | backfill (p : Poller)
  | replyHeaders (account : Account) (thread : ThreadId)
  | moveThreadToRole (account : Account) (thread : ThreadId) (role : MailboxRole)

def Fetcher.program (cfg : Config) : Fetcher → Task Unit
  | poll p => ignore (JmapBridge.poll cfg p)
  | backfill p => runBackfillLoop cfg p
  | replyHeaders account thread =>
    Prog.bind (JmapBridge.replyHeaders account thread) fun _ => .pure ()
  | moveThreadToRole account thread role =>
    Prog.bind (JmapBridge.moveThreadToRole account thread role) fun _ => .pure ()

/-- The process in which task `t` does the work `fetchers t`. -/
def fetching (cfg : Config) (fetchers : Nat → Fetcher) : System Op World Answer Env :=
  system fun t => (fetchers t).program cfg

def listContract : Contract World where
  inv w := Forwards w.trace
  rely t w w' := lastList t w'.trace = lastList t w.trace
  refl _ _ := rfl
  trans h h' := h'.trans h

section

variable {α : Type} {cfg : Config} {fetchers : Nat → Fetcher} {t : Nat} {w w' : World}
  {account : Account} {ids : List EmailId}

abbrev ListTriple (cfg : Config) (fetchers : Nat → Fetcher) (t : Nat) (P : World → Prop)
    (p : Prog Op α) (Q : α → World → Prop) : Prop :=
  Triple (fetching cfg fetchers) {} listContract t P p Q

abbrev Lawful (cfg : Config) (fetchers : Nat → Fetcher) (t : Nat) (α : Type) (p : Prog Op α) :
    Prop := ListTriple cfg fetchers t (fun _ => True) p fun _ _ => True

def Given (t : Nat) (account : Account) (ids : List EmailId) (w : World) : Prop :=
  lastList t w.trace = some (account, ids)

theorem heard_stable {P : Option (Account × List EmailId) → Prop} :
    Stable listContract t fun w => P (lastList t w.trace) := by
  intro w w' h hr _
  have hr : lastList t w'.trace = lastList t w.trace := hr
  rw [hr]
  exact h

theorem given_stable : Stable listContract t (Given t account ids) :=
  heard_stable (P := fun x => x = some (account, ids))

theorem answer_stable {β : Type} {b : Except Err β} {l : β → List EmailId} :
    Stable listContract t fun w => ∀ v, b = .ok v → Given t account (l v) w :=
  fun w w' h hr hi v hv => given_stable w w' (h v hv) hr hi

theorem list_step {P : World → Prop} {c : Cmd} {R : c.Ans → World → Prop}
    (hnames : ∀ w account ids, P w → c.names = some (account, ids) →
      ids = [] ∨ Given t account ids w)
    (hR : ∀ w a b w', P w → exec t (.mk c) a w = some (b, w') →
      lastList t w'.trace = (Record.list ⟨t, c, a⟩).or (lastList t w.trace) → R b w') :
    Step (fetching cfg fetchers) {} listContract t P (.mk c) R := by
  intro w a b w' hi hw _ he
  have he : exec t (.mk c) a w = some (b, w') := he
  have htrace : w'.trace = ⟨t, c, a⟩ :: w.trace := exec_trace he
  refine ⟨?_, fun i hit => ?_, hR w a b w' hw he ?_⟩
  · show Forwards w'.trace
    rw [htrace]
    exact ⟨fun account ids h => hnames w account ids hw h, hi⟩
  · show lastList i w'.trace = lastList i w.trace
    rw [htrace, lastList, if_neg (Ne.symm hit), Option.none_or]
  · rw [htrace, lastList, if_pos rfl]

/-- The commands that name no email and are not answered with a list. -/
def Cmd.unlisted : Cmd → Bool
  | jmap _ (.changesEmail _) => false
  | jmap _ (.queryEmail _ _ _) => false
  | jmap _ (.getThread _) => false
  | c => (c.names.all fun x => x.2.isEmpty)

theorem Cmd.unlisted.names {c : Cmd} (hc : c.unlisted) (h : c.names = some (account, ids)) :
    ids = [] := by
  unfold Cmd.unlisted at hc
  split at hc
  · cases hc
  · cases hc
  · cases hc
  · rw [h] at hc
    exact List.isEmpty_iff.mp hc

theorem Cmd.unlisted.list {c : Cmd} {a : Answer} (hc : c.unlisted) :
    Record.list ⟨t, c, a⟩ = none := by
  cases c with
  | jmap account c =>
    cases c with
    | changesEmail s => cases hc
    | queryEmail after position limit => cases hc
    | getThread thread => cases hc
    | _ => rfl
  | _ => rfl

theorem unlisted_closed {P : Option (Account × List EmailId) → Prop} :
    Prog.Closed (fun _ o => o.cmd.unlisted) fun _ p =>
      ListTriple cfg fetchers t (fun w => P (lastList t w.trace)) p
        fun _ w => P (lastList t w.trace) := by
  refine (Triple.closed heard_stable).mono fun β o hc => ?_
  obtain ⟨c⟩ := o
  intro w a b w' hw hi hd he
  refine list_step (P := fun w => P (lastList t w.trace)) (R := fun _ w => P (lastList t w.trace))
    (fun w account ids _ h => .inl (Cmd.unlisted.names hc h))
    (fun w a b w' hw _ hlast => ?_) w a b w' hi hw hd he
  rw [hlast, Cmd.unlisted.list hc, Option.none_or]
  exact hw

theorem lawful_closed : Prog.Closed (fun _ o => o.cmd.unlisted) (Lawful cfg fetchers t) :=
  unlisted_closed (P := fun _ => True)

theorem given_keeps {p : Prog Op α} (hp : Does (fun c => c.unlisted) p) :
    ListTriple cfg fetchers t (Given t account ids) p fun _ => Given t account ids :=
  (unlisted_closed (P := fun x => x = some (account, ids))).of_only hp

theorem lawful_post {P : World → Prop} {x : Bridge α}
    (hx : ListTriple cfg fetchers t P x fun _ _ => True) :
    ListTriple cfg fetchers t P x (post (fun _ _ => True) fun _ _ => True) :=
  .post hx fun r _ _ _ => by cases r <;> trivial

theorem given_post {P : World → Prop} {x : Bridge α}
    (hx : ListTriple cfg fetchers t P x fun _ => P) :
    ListTriple cfg fetchers t P x (post (fun _ => P) fun _ _ => True) := by
  refine .post hx fun r w _ h => ?_
  cases r with
  | ok _ => exact h
  | error _ => trivial

theorem andThen_lawful {γ : Type} {P : World → Prop} {R : α → World → Prop} {x : Bridge α}
    {f : α → Bridge γ} (hx : ListTriple cfg fetchers t P x (post R fun _ _ => True))
    (hf : ∀ a, ListTriple cfg fetchers t (R a) (f a) fun _ _ => True) :
    ListTriple cfg fetchers t P (x.andThen f) fun _ _ => True := by
  have hlaw : ListTriple cfg fetchers t P (x.andThen f) (post (fun _ _ => True) fun _ _ => True) :=
    .andThen hx (fun _ => Stable.const True) fun a => lawful_post (hf a)
  exact .post hlaw fun _ _ _ _ => trivial

theorem request_lawful {c : JmapCmd} (hc : (Cmd.jmap account c).names = some (account, ids)) :
    ListTriple cfg fetchers t (Given t account ids) (onJmap account c) fun _ _ => True := by
  refine .call given_stable (list_step (fun w account' ids' hw h => .inr ?_)
    fun _ _ _ _ _ _ _ => trivial) fun _ => Stable.const True
  obtain ⟨rfl, rfl⟩ := Prod.mk.inj (Option.some.inj (hc.symm.trans h))
  exact hw

theorem response_gives {c : JmapCmd} {l : c.Ans → List EmailId}
    (hnames : (Cmd.jmap account c).names = none)
    (hlist : ∀ m r v, c.value m account r = some v →
      Record.list ⟨t, .jmap account c, .reply r⟩ = some (account, l v)) :
    ListTriple cfg fetchers t (fun _ => True) (onJmap account c)
      fun b w => ∀ v, b = .ok v → Given t account (l v) w := by
  refine .call (Stable.const True) (list_step (fun w account' ids' _ h => ?_)
    fun w a b w' _ he hlast v hb => ?_) fun _ => answer_stable
  · rw [hnames] at h
    cases h
  · rcases exec_reply he with ⟨r, v', rfl, hv', hvalue⟩ | ⟨-, err, herr⟩
    · obtain rfl : v' = v := Except.ok.inj (hv'.symm.trans hb)
      rw [Given, hlast, hlist w.mail r v' hvalue, Option.some_or]
    · rw [hb] at herr
      cases herr

variable {p : Poller}

/-! The poll and the backfill. -/

theorem InboundCmd.unlisted {ids : EmailId → Prop} {c : Cmd} (h : InboundCmd p ids c) :
    c.unlisted := by cases h <;> rfl

theorem RoundCmd.unlisted {c : Cmd} (h : RoundCmd p c) : c.unlisted := by cases h <;> rfl

theorem MailboxCmd.unlisted {ids : EmailId → Prop} {c : Cmd} (h : MailboxCmd p ids c) :
    c.unlisted := by
  cases h with
  | contact c h => cases h <;> rfl
  | _ => rfl

theorem processLogged_unlisted {email : Email} :
    Does (fun c => c.unlisted) (processLogged cfg p email) := by
  obtain ⟨rest, heq, hrest⟩ : ∃ rest : Bridge Unit,
      processEmail cfg p email = Prog.bind (onTask (.enter email.id)) (fun _ => rest) ∧
        DoesInbound p (fun _ => True) rest := processEmail_enters fun _ _ => trivial
  have hemail : Does (fun c => c.unlisted) (processEmail cfg p email) := by
    rw [heq]
    exact .bind (.task rfl) fun _ => hrest.mono fun _ => InboundCmd.unlisted
  refine .bind (.result hemail) fun r => ?_
  cases r with
  | ok _ => exact .pure
  | error _ => exact .task rfl

theorem processAll_unlisted {emails : List Email} :
    Does (fun c => c.unlisted) (processAll cfg p emails) :=
  .lift (Prog.only_closed.forEach emails fun _ _ => processLogged_unlisted)

theorem fetchEmails_lawful :
    ListTriple cfg fetchers t (Given t p.account ids) (fetchEmails p ids) fun _ _ => True :=
  request_lawful rfl

theorem processPage_lawful :
    ListTriple cfg fetchers t (Given t p.account ids) (processPage cfg p ids) fun _ _ => True := by
  rw [processPage]
  split
  · exact .pure given_stable fun _ _ _ => trivial
  · exact andThen_lawful (lawful_post fetchEmails_lawful) fun emails =>
      lawful_closed.of_only processAll_unlisted

theorem finishPage_lawful {newState : String} {hasMore : Bool} :
    ListTriple cfg fetchers t (Given t p.account ids) (finishPage cfg p ids newState hasMore)
      fun _ _ => True := by
  refine andThen_lawful (lawful_post processPage_lawful) fun _ => ?_
  split
  · exact lawful_closed.pure _
  · exact lawful_closed.pure _

theorem changesPage_lawful {state : String} :
    Lawful cfg fetchers t _ (changesPage cfg p state) := by
  have hgives : ListTriple cfg fetchers t (fun _ => True) (onJmap p.account (.changesEmail state))
      fun b w => ∀ v, b = .ok v → Given t p.account (v.created ++ v.updated) w :=
    response_gives rfl fun m r v hv => by
      cases r with
      | changes c => cases hv; rfl
      | _ => cases hv
  refine andThen_lawful (.attempt hgives fun _ => answer_stable) fun r => ?_
  rcases r with err | response
  · have hreset : Lawful cfg fetchers t _ (Act.andThen (onStore (.deleteJmapState p.user .changes))
        fun _ => Act.ok (.inl none : Option String ⊕ String)) :=
      lawful_closed.andThen (lawful_closed.call rfl) fun _ => lawful_closed.pure _
    cases err with
    | cannotCalculateChanges => exact .pre hreset fun _ _ _ => trivial
    | _ => exact .pre (lawful_closed.pure _) fun _ _ _ => trivial
  · have hdestroyed : Does (fun c => c.unlisted) (Act.forEach
        (fun id => bestEffort (onStore (.markEmailDestroyed id))) response.destroyed) :=
      .forEach _ fun _ => .bestEffort (.store rfl)
    have hpage :
        ListTriple cfg fetchers t (Given t p.account (response.created ++ response.updated))
        (Act.andThen (Act.forEach (fun id => bestEffort (onStore (.markEmailDestroyed id)))
          response.destroyed) fun _ => finishPage cfg p (response.created ++ response.updated)
            response.newState response.hasMoreChanges) fun _ _ => True :=
      andThen_lawful (given_post (given_keeps hdestroyed)) fun _ => finishPage_lawful
    exact .pre hpage fun w _ h => h response rfl

theorem query_gives {after : Option Int} {position : Option Nat} {limit : Nat} :
    ListTriple cfg fetchers t (fun _ => True) (onJmap p.account (.queryEmail after position limit))
      (post (fun response => Given t p.account response.ids) fun _ _ => True) := by
  have hgives : ListTriple cfg fetchers t (fun _ => True)
      (onJmap p.account (.queryEmail after position limit))
      fun b w => ∀ v, b = .ok v → Given t p.account v.ids w :=
    response_gives rfl fun m r v hv => by
      cases r with
      | queried q => cases hv; rfl
      | _ => cases hv
  refine .post hgives fun r w _ h => ?_
  cases r with
  | ok response => exact h response rfl
  | error _ => trivial

theorem bootstrapPage_lawful : Lawful cfg fetchers t _ (bootstrapPage cfg p) := by
  refine lawful_closed.andThen (lawful_closed.lift (lawful_closed.of_only
    (resolveBackfillCutoff_round.mono fun _ => RoundCmd.unlisted))) fun cutoff => ?_
  refine andThen_lawful query_gives fun response => ?_
  have hregister : Does (fun c => c.unlisted) (registerBackfill cfg p response.ids) :=
    registerBackfill_round.mono fun _ => RoundCmd.unlisted
  refine andThen_lawful (given_post (given_keeps hregister)) fun _ => ?_
  refine andThen_lawful (given_post (given_keeps (.bestEffort (.store rfl)))) fun _ => ?_
  exact andThen_lawful (given_post (given_keeps (.jmap rfl))) fun _ => finishPage_lawful

theorem syncEmails_lawful : Lawful cfg fetchers t _ (syncEmails cfg p) := by
  refine lawful_closed.andThen (lawful_closed.call rfl) fun lastState => ?_
  refine lawful_closed.andThen (lawful_closed.actLoop fun current => ?_) fun _ =>
    lawful_closed.call rfl
  cases current with
  | some state => exact changesPage_lawful
  | none => exact bootstrapPage_lawful

theorem backfillBatch_lawful {pos : Nat} :
    Lawful cfg fetchers t _ (backfillBatch cfg p pos) := by
  refine lawful_closed.andThen (lawful_closed.lift (lawful_closed.of_only
    (resolveBackfillCutoff_round.mono fun _ => RoundCmd.unlisted))) fun cutoff => ?_
  split
  · exact lawful_closed.pure _
  · refine andThen_lawful query_gives fun response => ?_
    split
    · exact .pure given_stable fun _ _ _ => trivial
    · refine andThen_lawful (lawful_post fetchEmails_lawful) fun emails => ?_
      refine lawful_closed.andThen (lawful_closed.of_only processAll_unlisted) fun _ => ?_
      split
      · exact lawful_closed.pure _
      · exact lawful_closed.andThen (lawful_closed.call rfl) fun _ => lawful_closed.pure _

theorem poll_lawful : Lawful cfg fetchers t _ (poll cfg p) :=
  poll_syncs (lawful_closed.mono fun _ _ => RoundCmd.unlisted)
    (lawful_closed.of_only (pollMailboxes_does.mono
      fun _ (h : MailboxCmd p (fun _ => True) _) => h.unlisted)) syncEmails_lawful

theorem runBackfillLoop_lawful : Lawful cfg fetchers t _ (runBackfillLoop cfg p) :=
  runBackfillLoop_batches (lawful_closed.mono fun _ _ => RoundCmd.unlisted) fun _ =>
    backfillBatch_lawful

/-! The sender. -/

theorem threadEmailIds_gives {thread : ThreadId} :
    ListTriple cfg fetchers t (fun _ => True) (threadEmailIds account thread)
      fun ids w => ids = [] ∨ Given t account ids w := by
  have hgives : ListTriple cfg fetchers t (fun _ => True) (onJmap account (.getThread thread))
      fun b w => ∀ v, b = .ok v → Given t account (v.getD []) w :=
    response_gives rfl fun m r v hv => by
      cases r with
      | thread l =>
        have hv : (if l.getD [] = m.threads account thread then some l else none) = some v := hv
        split at hv
        · cases hv
          rfl
        · cases hv
      | _ => cases hv
  refine .bind hgives fun r => ?_
  cases r with
  | ok emails => exact .pure answer_stable fun w _ h => .inr (h emails rfl)
  | error _ => exact .pure answer_stable fun _ _ _ => .inl rfl

theorem replyHeaders_lawful {thread : ThreadId} :
    Lawful cfg fetchers t _ (replyHeaders account thread) := by
  refine .bind threadEmailIds_gives fun ids => ?_
  by_cases hnil : ids.isEmpty = true
  · rw [if_pos hnil]
    exact .pre (lawful_closed.pure _) fun _ _ _ => trivial
  · rw [if_neg hnil]
    refine .pre (.bind (request_lawful rfl) fun r => ?_)
      fun w _ h => h.resolve_left fun he => hnil (List.isEmpty_iff.mpr he)
    cases r with
    | ok _ => exact lawful_closed.pure _
    | error _ => exact lawful_closed.pure _

theorem moveThreadToRole_lawful {thread : ThreadId} {role : MailboxRole} :
    Lawful cfg fetchers t _ (moveThreadToRole account thread role) := by
  have hrole : Does (fun c => c.unlisted) (mailboxIdForRole account role) :=
    .andThen (.jmap rfl) fun _ => .ok
  refine lawful_closed.andThen (lawful_closed.of_only hrole) fun target => ?_
  cases target with
  | none => exact lawful_closed.pure _
  | some target =>
    refine andThen_lawful (.lift threadEmailIds_gives fun _ =>
      (Stable.const _).or given_stable) fun ids => ?_
    by_cases hnil : ids.isEmpty = true
    · rw [if_pos hnil]
      exact .pre (lawful_closed.pure _) fun _ _ _ => trivial
    · rw [if_neg hnil]
      exact .pre (andThen_lawful (lawful_post (request_lawful rfl)) fun _ => lawful_closed.pure _)
        fun w _ h => h.resolve_left fun he => hnil (List.isEmpty_iff.mpr he)

theorem program_lawful (f : Fetcher) : Lawful cfg fetchers t _ (f.program cfg) := by
  cases f with
  | poll p => exact lawful_closed.bind poll_lawful fun _ => lawful_closed.pure _
  | backfill p => exact runBackfillLoop_lawful
  | replyHeaders account thread =>
    exact lawful_closed.bind replyHeaders_lawful fun _ => lawful_closed.pure _
  | moveThreadToRole account thread role =>
    exact lawful_closed.bind moveThreadToRole_lawful fun _ => lawful_closed.pure _

theorem list_upholds (cfg : Config) (fetchers : Nat → Fetcher) :
    Upholds (fetching cfg fetchers) {} listContract where
  start t w hi _ _ := program_lawful (fetchers t) w hi trivial
  env e w w' hi _ he := by
    have htrace : w'.trace = w.trace := (env_store he).1
    refine ⟨?_, fun i => ?_⟩
    · show Forwards w'.trace
      rw [htrace]
      exact hi
    · show lastList i w'.trace = lastList i w.trace
      rw [htrace]
  cancel _ _ hi _ := ⟨hi, fun _ _ => rfl, trivial⟩

/-- Whatever the server answers and wherever a task is cancelled, a request names the list
that its task was given last. It names no more than `max` emails where the lists have no more. -/
theorem requests_name_lists {w : World} (hw : w.trace = []) {es : List (Event Answer Env)}
    {q : Pool Op World} (hrun : (fetching cfg fetchers).run es (Pool.boot w) = some q) :
    Forwards q.world.trace ∧ ∀ account max,
      (∀ r ∈ q.world.trace, ∀ ids, r.list = some (account, ids) → ids.length ≤ max) →
        ∀ r ∈ q.world.trace, ∀ ids, r.cmd.names = some (account, ids) → ids.length ≤ max := by
  have hinit : listContract.inv w := by
    show Forwards w.trace
    rw [hw]
    trivial
  have hlaw : Forwards q.world.trace := (list_upholds cfg fetchers).inv_of_run hinit
    (fun _ => trivial) hrun (System.admits_free es _)
  exact ⟨hlaw, fun account max hlists => hlaw.within hlists⟩

end

/-- One user, synced up to `s0`. -/
def syncedWorld : World where
  clients := (∅ : Table _ _).insert "@a:localhost" "a@x"
  store :=
    { users := (∅ : Table _ _).insert "@a:localhost" ⟨"a@x", "token", "url"⟩
      jmapState := (∅ : Table _ _).insert ("@a:localhost", .changes) "s0" }

def onlyPolls (_ : Nat) : Fetcher := .poll ⟨"@a:localhost", "a@x"⟩

/-- Two emails have been created, and the request for both of them fails. -/
def twoCreated : List (Event Answer Env) :=
  [.start 0, .step 0 .done, .tau 0,
    .step 0 (.reply (.changes { newState := "s1", created := ["e1", "e2"] })), .step 0 .failed,
    .tau 0]

theorem requests_name_lists_two : ∃ q,
    (fetching {} onlyPolls).run twoCreated (Pool.boot syncedWorld) = some q ∧
      Forwards q.world.trace := by
  have hends : ((fetching {} onlyPolls).run twoCreated (Pool.boot syncedWorld)).isSome := by
    decide +kernel
  obtain ⟨q, hq⟩ := Option.isSome_iff_exists.mp hends
  exact ⟨q, hq, (requests_name_lists rfl hq).1⟩

/-- A server that serves one object a request is asked for two emails at once. It refuses, and
the poll ends where it started. -/
theorem both_requested :
    ((fetching {} onlyPolls).run twoCreated (Pool.boot syncedWorld)).map (fun q =>
      (q.world.trace.any (fun r => r.cmd.names.any fun x => 1 < x.2.length),
        (q.tasks 0).isNone, q.world.store.jmapState.lookup ("@a:localhost", .changes))) =
      some (true, true, some "s0") := by
  decide +kernel

end JmapBridge
