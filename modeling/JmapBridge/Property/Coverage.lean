import JmapBridge.Listing.Positional
import JmapBridge.Property.Paging

/-! What the first page, the walk behind it and the changes token together cover, while mail
arrives. The first page and the batches of the walk offer what the mailbox held when the
state of the account was read, and `Email/changes` reports what has come since then. -/

namespace JmapBridge

open Effect

/-- The floor of the queries, the page with which every walk begins, the mail in the window
when the state is read, and the mail known at each state. -/
structure Handoff where
  floor : Option Int := none
  first : List EmailId
  read : List EmailId
  known : String → List EmailId

def Record.offers (e : EmailId) (r : Record) : Bool :=
  match r.cmd with
  | .task (.enter i) => i == some e
  | _ => false

/-- The email has been handed to `process_email`. -/
def World.offered (e : EmailId) (w : World) : Bool := w.trace.any (Record.offers e)

def Page.stop (g : Page) : Nat := g.position.getD 0 + g.ids.length

/-- Where the pages returned so far end. -/
def World.reach (w : World) : Nat := (w.pages.map Page.stop).foldr max 0

/-- Every page so far was full, so a walk goes on. -/
def World.unfinished (cfg : Config) (w : World) : Bool :=
  w.pages.all fun g => decide (cfg.syncLimit ≤ g.ids.length) && !g.ids.isEmpty

def World.changesToken (w : World) (user : UserId) : Option String :=
  w.store.jmapState.lookup (user, .changes)

/-- Where the stored position lets the walk go on. -/
def World.ahead (w : World) (user : UserId) : Option Nat :=
  (w.position user).bind fun s => Rust.Str.parseUsize s.toList

def Answer.reliable : Answer → Bool
  | done => true
  | rows _ => true
  | _ => false

section

variable (cfg : Config) (p : Poller) (h : Handoff)

/-- The mail in the window. -/
def World.held (w : World) : List EmailId := w.mail.results p.account h.floor

/-- The store is reliable, a query returns as much as there is up to the limit, `Email/get`
returns what it is asked for, and `Email/changes` reports what is new at its state. -/
def Cmd.handing (c : Cmd) (a : Answer) (w : World) : Prop :=
  match c, a with
  | .store _, a => a.reliable
  | .jmap account (.queryEmail after position limit), .reply (.queried q) =>
    (cfg.backfillWindow.isSome → after = h.floor) ∧
      q.ids = ((w.mail.results account after).drop (position.getD 0)).take limit ∧
      position.getD 0 + q.ids.length < 2 ^ 64 ∧
      (account = p.account → after = h.floor → limit = cfg.syncLimit → position = none →
        q.ids = h.first)
  | .jmap _ (.getEmail ids), .reply (.emails l) => ∀ e ∈ ids, ∃ m ∈ l, m.id = some e
  | .jmap _ .getEmailState, .reply (.state s) => w.held p h = h.read ∧ h.known s = h.read
  | .jmap _ (.changesEmail s), .reply (.changes r) =>
    ∀ e ∈ h.known r.newState, e ∈ h.known s ∨ e ∈ r.created ++ r.updated
  | _, _ => True

/-- Mail only arrives, and what arrives before the state is read lies behind the pages of a
walk that goes on. -/
def Env.arriving (e : Env) (w : World) : Prop :=
  match e with
  | .mail m =>
    (w.held p h).Sublist (m.results p.account h.floor) ∧
      ((∀ i ∈ m.results p.account h.floor, i ∈ w.held p h ∨ i ∉ h.read) ∨
        w.unfinished cfg ∧
          (m.results p.account h.floor).take w.reach = (w.held p h).take w.reach)
  | _ => True

def handing : Discipline Op World Answer Env where
  step _ _ o a w := o.cmd.handing cfg p h a w
  env e w := e.arriving cfg p h w

/-- What was in the window when the state was read is on the first page, has been offered, is
in hand, or lies ahead. -/
def Remaining (ahead : Option Nat) (hand : List EmailId) (w : World) : Prop :=
  ∀ e ∈ w.held p h, e ∈ h.read →
    e ∈ h.first ∨ w.offered e ∨ e ∈ hand ∨ ∃ n ∈ ahead, e ∈ (w.held p h).drop n

/-- A walk over the rest is under way or has come to its end. -/
structure Registered (w : World) : Prop where
  remaining : Remaining p h (w.ahead p.user) [] w
  ended : w.ahead p.user = none → w.unfinished cfg = false

/-- The token may be saved. -/
structure Ready (s : String) (w : World) : Prop where
  first : ∀ e ∈ h.first, w.offered e
  registered : Registered cfg p h w
  known : ∀ e ∈ h.known s, e ∈ h.read ∨ w.offered e

structure HandoffInv (w : World) : Prop where
  user : w.store.hasUser p.user
  position : ∀ s, w.position p.user = some s → ∃ n, s = toString n ∧ n < 2 ^ 64 ∧ n ≤ w.reach
  walk : (w.position p.user).isSome → Registered cfg p h w
  changes : ∀ s, w.changesToken p.user = some s → Ready cfg p h s w

/-- Nothing that was offered, returned or remaining is taken back. -/
structure Onward (w w' : World) : Prop where
  offered : ∀ e, w.offered e → w'.offered e
  reach : w.reach ≤ w'.reach
  ended : w.unfinished cfg = false → w'.unfinished cfg = false
  remaining : ∀ ahead hand, (∀ n ∈ ahead, n ≤ w.reach) → (ahead = none → w.unfinished cfg = false) →
    Remaining p h ahead hand w → Remaining p h ahead hand w'

variable {cfg p h}

theorem Onward.refl (w : World) : Onward cfg p h w w :=
  ⟨fun _ he => he, Nat.le_refl _, fun he => he, fun _ _ _ _ hr => hr⟩

theorem Onward.trans {a b c : World} (hab : Onward cfg p h a b) (hbc : Onward cfg p h b c) :
    Onward cfg p h a c where
  offered e he := hbc.offered e (hab.offered e he)
  reach := Nat.le_trans hab.reach hbc.reach
  ended he := hbc.ended (hab.ended he)
  remaining ahead hand hn hend hr :=
    hbc.remaining ahead hand (fun n hmem => Nat.le_trans (hn n hmem) hab.reach)
      (fun hnone => hab.ended (hend hnone)) (hab.remaining ahead hand hn hend hr)

variable (cfg p h) in
def handoffContract : Contract World where
  inv := HandoffInv cfg p h
  rely _ w w' := Onward cfg p h w w' ∧ (Registered cfg p h w → Registered cfg p h w')
  refl _ w := ⟨.refl w, fun hr => hr⟩
  trans hab hbc := ⟨hab.1.trans hbc.1, fun hr => hbc.2 (hab.2 hr)⟩

variable {calls : Nat → Call} {t : Nat} {w w' : World} {α : Type}

/-- The commands that neither move the position nor save a changes token. -/
def Cmd.offCursors (user : UserId) : Cmd → Bool
  | store (.saveJmapState u key _) => u != user || (key != .backfillPosition && key != .changes)
  | store (.deleteJmapState u key) => u != user || key != .backfillPosition
  | _ => true

theorem InboundCmd.offCursors {I : EmailId → Prop} {c : Cmd} (hc : InboundCmd p I c) :
    c.offCursors p.user := by
  cases hc with
  | saveState k v hk =>
    have hwalk : k ≠ .backfillPosition := fun he => by simp [he, StateKey.ofWalk] at hk
    have hchanges : k ≠ .changes := fun he => by simp [he, StateKey.ofWalk] at hk
    simp [Cmd.offCursors, hwalk, hchanges]
  | deleteState k hk =>
    have hwalk : k ≠ .backfillPosition := fun he => by simp [he, StateKey.ofWalk] at hk
    simp [Cmd.offCursors, hwalk]
  | _ => rfl

theorem MailboxCmd.offCursors {I : EmailId → Prop} {c : Cmd} (hc : MailboxCmd p I c) :
    c.offCursors p.user := by
  cases hc with
  | contact c hc => exact (RoomCmd.inbound hc : InboundCmd p I c).offCursors
  | _ => simp [Cmd.offCursors]

theorem pages_exec {c : Cmd} {a : Answer} {b : c.Ans} (he : exec t (.mk c) a w = some (b, w')) :
    w'.pages = w.pages ∨ ∃ g, w'.pages = g :: w.pages := by
  rw [World.pages, exec_trace he]
  cases hp : Record.page ⟨t, c, a⟩ with
  | none => exact .inl (by rw [List.filterMap_cons_none hp, World.pages])
  | some g => exact .inr ⟨g, by rw [List.filterMap_cons_some hp, World.pages]⟩

theorem offered_exec {c : Cmd} {a : Answer} {b : c.Ans} (he : exec t (.mk c) a w = some (b, w'))
    (e : EmailId) (ho : w.offered e) : w'.offered e := by
  rw [World.offered, exec_trace he, List.any_cons, Bool.or_eq_true]
  exact .inr ho

theorem Remaining.mono {ahead : Option Nat} {hand hand' : List EmailId} {w w' : World}
    (hr : Remaining p h ahead hand w) (hheld : w'.held p h = w.held p h)
    (ho : ∀ e, w.offered e → w'.offered e) (hhand : ∀ e ∈ hand, e ∈ hand' ∨ w'.offered e) :
    Remaining p h ahead hand' w' := by
  intro e he hread
  rw [hheld] at he ⊢
  rcases hr e he hread with hfirst | hoff | hmem | hahead
  · exact .inl hfirst
  · exact .inr (.inl (ho e hoff))
  · rcases hhand e hmem with hmem | hoff
    · exact .inr (.inr (.inl hmem))
    · exact .inr (.inl hoff)
  · exact .inr (.inr (.inr hahead))

theorem held_exec {c : Cmd} {a : Answer} {b : c.Ans} (he : exec t (.mk c) a w = some (b, w')) :
    w'.held p h = w.held p h := by rw [World.held, results_exec he, World.held]

theorem onward_exec {c : Cmd} {a : Answer} {b : c.Ans} (he : exec t (.mk c) a w = some (b, w')) :
    Onward cfg p h w w' where
  offered := offered_exec he
  reach := by
    rcases pages_exec he with hp | ⟨g, hp⟩
    · rw [World.reach, World.reach, hp]
    · rw [World.reach, World.reach, hp, List.map_cons, List.foldr_cons]
      exact Nat.le_max_right _ _
  ended hend := by
    rcases pages_exec he with hp | ⟨g, hp⟩
    · rwa [World.unfinished, hp]
    · rw [World.unfinished, hp, List.all_cons, Bool.and_eq_false_iff]
      exact .inr hend
  remaining ahead hand _ _ hr := hr.mono (held_exec he) (offered_exec he) fun e hmem => .inl hmem

theorem changesToken_exec {c : Cmd} {a : Answer} {b : c.Ans}
    (hc : ∀ u v, c = .store (.saveJmapState u .changes v) → u ≠ p.user)
    (he : exec t (.mk c) a w = some (b, w')) (s : String) (hs : w'.changesToken p.user = some s) :
    w.changesToken p.user = some s := by
  by_cases hdelete : c = .store (.deleteJmapState p.user .changes)
  · subst hdelete
    rcases exec_store he with ⟨order, -, -, rfl⟩ | ⟨-, -, rfl⟩ | ⟨-, -, rfl⟩
    · simp [World.changesToken, StoreCmd.run] at hs
    · exact hs
    · simp [World.changesToken, StoreCmd.run] at hs
  · have hsame : w'.changesToken p.user = w.changesToken p.user :=
      state_exec (fun v hv => hc _ _ hv rfl) hdelete he
    rwa [hsame] at hs

theorem Registered.onward (hr : Registered cfg p h w) (ho : Onward cfg p h w w')
    (hpos : w'.position p.user = w.position p.user) (hn : ∀ n ∈ w.ahead p.user, n ≤ w.reach) :
    Registered cfg p h w' := by
  have hahead : w'.ahead p.user = w.ahead p.user := by rw [World.ahead, hpos, World.ahead]
  refine ⟨?_, fun hnone => ho.ended (hr.ended (hahead ▸ hnone))⟩
  rw [hahead]
  exact ho.remaining _ _ hn hr.ended hr.remaining

theorem Ready.onward {s : String} (hr : Ready cfg p h s w) (ho : Onward cfg p h w w')
    (hreg : Registered cfg p h w') : Ready cfg p h s w' where
  first e he := ho.offered e (hr.first e he)
  registered := hreg
  known e he := (hr.known e he).imp_right (ho.offered e)

theorem HandoffInv.ahead_le (hi : HandoffInv cfg p h w) : ∀ n ∈ w.ahead p.user, n ≤ w.reach := by
  intro n hn
  obtain ⟨s, hs, hparse⟩ := Option.bind_eq_some_iff.mp hn
  obtain ⟨m, rfl, -, hle⟩ := hi.position s hs
  rwa [Rust.Str.parseUsize_toString hparse]

theorem HandoffInv.onward (hi : HandoffInv cfg p h w) (ho : Onward cfg p h w w')
    (hpos : w'.position p.user = w.position p.user)
    (hchanges : ∀ s, w'.changesToken p.user = some s → w.changesToken p.user = some s)
    (huser : w'.store.hasUser p.user = w.store.hasUser p.user) :
    HandoffInv cfg p h w' ∧ ∀ i, (handoffContract cfg p h).rely i w w' := by
  have hreg : Registered cfg p h w → Registered cfg p h w' := fun hr =>
    hr.onward ho hpos hi.ahead_le
  refine ⟨⟨huser ▸ hi.user, fun s hs => ?_, fun hs => ?_, fun s hs => ?_⟩, fun _ => ⟨ho, hreg⟩⟩
  · obtain ⟨n, hn, hlt, hle⟩ := hi.position s (hpos ▸ hs)
    exact ⟨n, hn, hlt, Nat.le_trans hle ho.reach⟩
  · exact hreg (hi.walk (hpos ▸ hs))
  · have hready := hi.changes s (hchanges s hs)
    exact hready.onward ho (hreg hready.registered)

theorem aside_exec {c : Cmd} {a : Answer} {b : c.Ans} (hc : c.offCursors p.user)
    (he : exec t (.mk c) a w = some (b, w')) (hi : HandoffInv cfg p h w) :
    HandoffInv cfg p h w' ∧ ∀ i, (handoffContract cfg p h).rely i w w' := by
  refine hi.onward (onward_exec he) (position_exec (fun c' hc' => ?_) he)
    (changesToken_exec (fun u v hsave hu => ?_) he) (hasUser_exec he)
  · subst hc'
    unfold Cmd.offWalk
    unfold Cmd.offCursors at hc
    split <;> simp_all
    rcases hc with hu | ⟨hk, -⟩
    · exact .inl hu
    · exact .inr hk
  · subst hsave hu
    simp [Cmd.offCursors] at hc

theorem store_answered {c : StoreCmd} {a : Answer} {b : Except Err c.Ans} (ha : a.reliable)
    (he : exec t (.mk (.store c)) a w = some (b, w')) :
    ∃ order, b = (c.run w.now order w.store).1 ∧ w'.store = (c.run w.now order w.store).2 := by
  rcases exec_store he with ⟨order, -, hb, rfl⟩ | ⟨rfl, -, -⟩ | ⟨⟨s, rfl⟩, -, -⟩
  · exact ⟨order, hb, rfl⟩
  · cases ha
  · cases ha

theorem save_exec {key : StateKey} {v : String} {a : Answer} {b : Except Err Unit}
    (huser : w.store.hasUser p.user) (ha : a.reliable)
    (he : exec t (.mk (.store (.saveJmapState p.user key v))) a w = some (b, w')) :
    b = .ok () ∧ w'.store.jmapState = w.store.jmapState.insert (p.user, key) v := by
  obtain ⟨order, hb, hstore⟩ := store_answered ha he
  rw [hb, hstore]
  simp [StoreCmd.run, Store.referring, huser]

theorem Registered.of_saved {n : Nat} (hn : n < 2 ^ 64)
    (hpos : w.position p.user = some (toString n)) (hr : Remaining p h (some n) [] w) :
    Registered cfg p h w := by
  have hahead : w.ahead p.user = some n := by
    rw [World.ahead, hpos, Option.bind_some, Rust.Str.parseUsize_toString_of_lt hn]
  refine ⟨by rwa [hahead], fun hnone => ?_⟩
  rw [hahead] at hnone
  cases hnone

abbrev HandoffTriple (cfg : Config) (p : Poller) (h : Handoff) (calls : Nat → Call) (t : Nat)
    (P : World → Prop) (x : Prog Op α) (Q : α → World → Prop) : Prop :=
  Triple (bridge cfg calls) (handing cfg p h) (handoffContract cfg p h) t P x Q

abbrev HandoffStep (cfg : Config) (p : Poller) (h : Handoff) (calls : Nat → Call) (t : Nat)
    (P : World → Prop) (c : Cmd) (R : c.Ans → World → Prop) : Prop :=
  Step (bridge cfg calls) (handing cfg p h) (handoffContract cfg p h) t P (.mk c) R

theorem handoffStep_intro {c : Cmd} {P : World → Prop} {R : c.Ans → World → Prop}
    (hstep : ∀ w a b w', HandoffInv cfg p h w → P w → c.handing cfg p h a w →
      exec t (.mk c) a w = some (b, w') →
        HandoffInv cfg p h w' ∧ (∀ i, (handoffContract cfg p h).rely i w w') ∧ R b w') :
    HandoffStep cfg p h calls t P c R := by
  intro w a b w' hi hw hd he
  obtain ⟨hinv, hrely, hpost⟩ := hstep w a b w' hi hw hd he
  exact ⟨hinv, fun i _ => hrely i, hpost⟩

theorem aside_step {c : Cmd} (hc : c.offCursors p.user) {P : World → Prop}
    {V : c.Ans → World → Prop}
    (hP : Stable (handoffContract cfg p h) t P)
    (hV : ∀ w a b w', HandoffInv cfg p h w → P w → c.handing cfg p h a w →
      exec t (.mk c) a w = some (b, w') → V b w') :
    HandoffStep cfg p h calls t P c fun b w => P w ∧ V b w := by
  refine handoffStep_intro fun w a b w' hi hw hd he => ?_
  obtain ⟨hinv, hrely⟩ := aside_exec hc he hi
  exact ⟨hinv, hrely, hP w w' hw (hrely t) hinv, hV w a b w' hi hw hd he⟩

theorem aside_triple {x : Prog Op α} {P : World → Prop}
    (hP : Stable (handoffContract cfg p h) t P) (hx : Does (fun c => c.offCursors p.user) x) :
    HandoffTriple cfg p h calls t P x fun _ => P := by
  refine .only hP (Prog.Only.mono (fun β o hc => ?_) hx)
  obtain ⟨c⟩ := o
  intro w a b w' hw hi _ he
  obtain ⟨hinv, hrely⟩ := aside_exec hc he hi
  exact ⟨hinv, fun i _ => hrely i, hP w w' hw (hrely t) hinv⟩

theorem aside_act {x : Bridge α} {P : World → Prop} (hP : Stable (handoffContract cfg p h) t P)
    (hx : Does (fun c => c.offCursors p.user) x) :
    HandoffTriple cfg p h calls t P x (post (fun _ => P) fun _ _ => True) :=
  .post (aside_triple hP hx) fun r _ _ hw => by
    cases r with
    | ok _ => exact hw
    | error _ => trivial

theorem inbound_aside {x : Bridge α} {P : World → Prop} {I : EmailId → Prop}
    (hP : Stable (handoffContract cfg p h) t P) (hx : DoesInbound p I x) :
    HandoffTriple cfg p h calls t P x (post (fun _ => P) fun _ _ => True) :=
  aside_act hP (hx.mono fun _ => InboundCmd.offCursors)

/-! The assertions of the tasks. -/

/-- Mail remains only ahead of a position that the pages have reached, or, once a page has
shown the end, nowhere. -/
def Walking (cfg : Config) (p : Poller) (h : Handoff) (ahead : Option Nat) (hand : List EmailId)
    (w : World) : Prop :=
  Remaining p h ahead hand w ∧ (∀ n ∈ ahead, n < 2 ^ 64 ∧ n ≤ w.reach) ∧
    (ahead = none → w.unfinished cfg = false)

theorem Walking.stable {ahead : Option Nat} {hand : List EmailId} :
    Stable (handoffContract cfg p h) t (Walking cfg p h ahead hand) := by
  intro w w' ⟨hr, hn, hend⟩ ⟨ho, _⟩ _
  refine ⟨ho.remaining ahead hand (fun n hmem => (hn n hmem).2) hend hr, fun n hmem => ?_,
    fun hnone =>
    ho.ended (hend hnone)⟩
  exact ⟨(hn n hmem).1, Nat.le_trans (hn n hmem).2 ho.reach⟩

theorem Registered.stable : Stable (handoffContract cfg p h) t (Registered cfg p h) :=
  fun _ _ hr hrely _ => hrely.2 hr

theorem Ready.stable {s : String} : Stable (handoffContract cfg p h) t (Ready cfg p h s) :=
  fun _ _ hr hrely _ => hr.onward hrely.1 (hrely.2 hr.registered)

/-- All of these have been offered. -/
def AllOffered (ids : List EmailId) (w : World) : Prop := ∀ e ∈ ids, w.offered e

theorem AllOffered.stable {ids : List EmailId} :
    Stable (handoffContract cfg p h) t (AllOffered ids) :=
  fun _ _ hw hrely _ e he => hrely.1.offered e (hw e he)

theorem Walking.offered {ahead : Option Nat} {hand : List EmailId}
    (hw : Walking cfg p h ahead hand w) (ho : AllOffered hand w) : Walking cfg p h ahead [] w :=
  ⟨hw.1.mono rfl (fun _ he => he) fun e he => .inr (ho e he), hw.2⟩

/-! The statements that move the cursors. -/

theorem moved_exec {c : Cmd} {a : Answer} {b : c.Ans} (he : exec t (.mk c) a w = some (b, w'))
    (hi : HandoffInv cfg p h w) (hreg : Registered cfg p h w')
    (hpos : ∀ s, w'.position p.user = some s → ∃ n, s = toString n ∧ n < 2 ^ 64 ∧ n ≤ w.reach)
    (hchanges : ∀ s, w'.changesToken p.user = some s →
      w.changesToken p.user = some s ∨ Ready cfg p h s w) :
    HandoffInv cfg p h w' ∧ ∀ i, (handoffContract cfg p h).rely i w w' := by
  have ho : Onward cfg p h w w' := onward_exec he
  refine ⟨⟨hasUser_exec he ▸ hi.user, fun s hs => ?_, fun _ => hreg, fun s hs => ?_⟩, fun _ =>
    ⟨ho, fun _ => hreg⟩⟩
  · obtain ⟨n, hn, hlt, hle⟩ := hpos s hs
    exact ⟨n, hn, hlt, Nat.le_trans hle ho.reach⟩
  · have hready : Ready cfg p h s w := (hchanges s hs).elim (hi.changes s) fun hr => hr
    exact hready.onward ho hreg

theorem savePosition_step {n : Nat} :
    HandoffStep cfg p h calls t (Walking cfg p h (some n) [])
      (.store (.saveJmapState p.user .backfillPosition (toString n))) fun _ =>
        Registered cfg p h := by
  refine handoffStep_intro fun w a b w' hi ⟨hr, hn, _⟩ hd he => ?_
  obtain ⟨hlt, hle⟩ := hn n rfl
  obtain ⟨-, hsaved⟩ := save_exec hi.user hd he
  have hpos : w'.position p.user = some (toString n) := by
    rw [World.position, hsaved]
    exact AList.lookup_insert _
  have hreg : Registered cfg p h w' :=
    .of_saved hlt hpos (hr.mono (held_exec he) (offered_exec he) fun _ hmem => .inl hmem)
  have hsame : w'.changesToken p.user = w.changesToken p.user := by
    rw [World.changesToken, hsaved]
    exact AList.lookup_insert_ne (by simp)
  obtain ⟨hinv, hrely⟩ := moved_exec he hi hreg
    (fun s hs => ⟨n, Option.some.inj (hs.symm.trans hpos), hlt, hle⟩) fun s hs => .inl (hsame ▸ hs)
  exact ⟨hinv, hrely, hreg⟩

theorem deletePosition_step :
    HandoffStep cfg p h calls t (Walking cfg p h none [])
      (.store (.deleteJmapState p.user .backfillPosition)) fun _ => Registered cfg p h := by
  refine handoffStep_intro fun w a b w' hi ⟨hr, _, hend⟩ hd he => ?_
  obtain ⟨order, -, hstore⟩ := store_answered hd he
  have hpos : w'.position p.user = none := by
    rw [World.position, hstore]
    simp [StoreCmd.run]
  have hahead : w'.ahead p.user = none := by rw [World.ahead, hpos, Option.bind_none]
  have ho : Onward cfg p h w w' := onward_exec he
  have hreg : Registered cfg p h w' := by
    refine ⟨?_, fun _ => ho.ended (hend rfl)⟩
    rw [hahead]
    exact ho.remaining none [] (fun n hn => by cases hn) (fun _ => hend rfl) hr
  have hsame : w'.changesToken p.user = w.changesToken p.user := by
    rw [World.changesToken, hstore]
    exact AList.lookup_erase_ne (by simp)
  obtain ⟨hinv, hrely⟩ := moved_exec he hi hreg (fun s hs => by rw [hpos] at hs; cases hs)
    fun s hs => .inl (hsame ▸ hs)
  exact ⟨hinv, hrely, hreg⟩

theorem saveChanges_step {s : String} :
    HandoffStep cfg p h calls t (Ready cfg p h s) (.store (.saveJmapState p.user .changes s))
      fun _ _ => True := by
  refine handoffStep_intro fun w a b w' hi hw hd he => ?_
  obtain ⟨-, hsaved⟩ := save_exec hi.user hd he
  have hpos : w'.position p.user = w.position p.user := by
    rw [World.position, hsaved]
    exact AList.lookup_insert_ne (by simp)
  have hreg : Registered cfg p h w' := hw.registered.onward (onward_exec he) hpos hi.ahead_le
  have hready : ∀ s', w'.changesToken p.user = some s' → Ready cfg p h s' w := by
    intro s' hs
    rw [World.changesToken, hsaved, AList.lookup_insert] at hs
    obtain rfl := Option.some.inj hs
    exact hw
  obtain ⟨hinv, hrely⟩ := moved_exec he hi hreg (fun s hs => hi.position s (hpos ▸ hs))
    fun s' hs => .inr (hready s' hs)
  exact ⟨hinv, hrely, trivial⟩

/-! One page. -/

theorem processLogged_offers (email : Email) (rest : List Email) {P : World → Prop}
    (hP : Stable (handoffContract cfg p h) t P) {ids : List EmailId} :
    HandoffTriple cfg p h calls t
      (fun w => P w ∧ ∀ e ∈ ids, w.offered e ∨ ∃ m ∈ email :: rest, m.id = some e)
      (processLogged cfg p email) fun _ w => P w ∧ ∀ e ∈ ids, w.offered e ∨
        ∃ m ∈ rest, m.id = some e := by
  have hstable : ∀ l : List Email, Stable (handoffContract cfg p h) t
      fun w => P w ∧ ∀ e ∈ ids, w.offered e ∨ ∃ m ∈ l, m.id = some e := fun l =>
    hP.and fun _ _ hw hrely _ e he => (hw e he).imp_left (hrely.1.offered e)
  have henter : HandoffTriple cfg p h calls t
      (fun w => P w ∧ ∀ e ∈ ids, w.offered e ∨ ∃ m ∈ email :: rest, m.id = some e)
      (onTask (.enter email.id))
      fun _ w => P w ∧ ∀ e ∈ ids, w.offered e ∨ ∃ m ∈ rest, m.id = some e := by
    refine .call (hstable _) ((aside_step (c := .task (.enter email.id)) rfl (hstable _)
      (V := fun _ w => ∀ e ∈ email.id, w.offered e) fun w a b w' _ _ _ he => ?_).post
        fun _ w _ hw => ?_) fun _ => hstable rest
    · intro e hid
      rw [World.offered, exec_trace he, List.any_cons, Bool.or_eq_true]
      exact .inl (by simpa [Record.offers] using hid)
    · refine ⟨hw.1.1, fun e he => ?_⟩
      rcases hw.1.2 e he with hoff | ⟨m, hm, hid⟩
      · exact .inl hoff
      · rcases List.mem_cons.mp hm with rfl | hm
        · exact .inl (hw.2 e hid)
        · exact .inr ⟨m, hm, hid⟩
  obtain ⟨body, heq, hbody⟩ : ∃ body : Bridge Unit,
      processEmail cfg p email = Prog.bind (onTask (.enter email.id)) (fun _ => body) ∧
        DoesInbound p (fun _ => True) body := processEmail_enters fun _ _ => trivial
  have hemail : HandoffTriple cfg p h calls t
      (fun w => P w ∧ ∀ e ∈ ids, w.offered e ∨ ∃ m ∈ email :: rest, m.id = some e)
      (processEmail cfg p email)
      fun _ w => P w ∧ ∀ e ∈ ids, w.offered e ∨ ∃ m ∈ rest, m.id = some e := by
    rw [heq]
    exact .bind henter fun _ =>
      aside_triple (hstable rest) (hbody.mono fun _ => InboundCmd.offCursors)
  refine .bind hemail fun r => ?_
  cases r with
  | ok _ => exact .pure (hstable rest) fun _ _ hw => hw
  | error _ => exact aside_triple (hstable rest) (.task rfl)

theorem processAll_offers (emails : List Email) {P : World → Prop}
    (hP : Stable (handoffContract cfg p h) t P) {ids : List EmailId} :
    HandoffTriple cfg p h calls t
      (fun w => P w ∧ ∀ e ∈ ids, w.offered e ∨ ∃ m ∈ emails, m.id = some e)
      (processAll cfg p emails) (post (fun _ w => P w ∧ AllOffered ids w) fun _ _ => True) := by
  have hstable : ∀ l : List Email, Stable (handoffContract cfg p h) t
      fun w => P w ∧ ∀ e ∈ ids, w.offered e ∨ ∃ m ∈ l, m.id = some e := fun l =>
    hP.and fun _ _ hw hrely _ e he => (hw e he).imp_left (hrely.1.offered e)
  refine .lift (.post (.forEachLeft (J := fun l w => P w ∧ ∀ e ∈ ids, w.offered e ∨
    ∃ m ∈ l, m.id = some e) (hstable []) (fun m l => processLogged_offers m l hP) emails)
      fun _ w _ hw => ⟨hw.1, fun e he => ?_⟩) fun _ => hP.and AllOffered.stable
  rcases hw.2 e he with hoff | ⟨m, hm, -⟩
  · exact hoff
  · cases hm

theorem fetchEmails_finds (ids : List EmailId) {P : World → Prop}
    (hP : Stable (handoffContract cfg p h) t P) :
    HandoffTriple cfg p h calls t P (fetchEmails p ids)
      (post (fun emails w => P w ∧ ∀ e ∈ ids, w.offered e ∨ ∃ m ∈ emails, m.id = some e)
        fun _ _ => True) := by
  have hstable : ∀ l : List Email, Stable (handoffContract cfg p h) t
      fun w => P w ∧ ∀ e ∈ ids, w.offered e ∨ ∃ m ∈ l, m.id = some e := fun l =>
    hP.and fun _ _ hw hrely _ e he => (hw e he).imp_left (hrely.1.offered e)
  have hget : ∀ w a (b : Except Err (List Email)) w', HandoffInv cfg p h w → P w →
      (Cmd.jmap p.account (.getEmail ids)).handing cfg p h a w →
      exec t (.mk (.jmap p.account (.getEmail ids))) a w = some (b, w') →
      ∀ l, b = .ok l → ∀ e ∈ ids, ∃ m ∈ l, m.id = some e := by
    intro w a b w' _ _ hd he l hl
    rcases exec_reply he with ⟨r, v, rfl, hb, hv⟩ | ⟨-, err, hb⟩
    · cases r <;> cases hv
      obtain rfl : v = l := Except.ok.inj (hb.symm.trans hl)
      exact hd
    · rw [hb] at hl
      cases hl
  refine .call hP ((aside_step (c := .jmap p.account (.getEmail ids)) rfl hP hget).post
    fun r w _ hw => ?_) fun r => ?_
  · cases r with
    | ok l => exact ⟨hw.1, fun e he => .inr (hw.2 l rfl e he)⟩
    | error _ => trivial
  · cases r with
    | ok l => exact hstable l
    | error _ => exact Stable.const True

theorem processPage_offers (ids : List EmailId) {P : World → Prop}
    (hP : Stable (handoffContract cfg p h) t P) :
    HandoffTriple cfg p h calls t P (processPage cfg p ids)
      (post (fun _ w => P w ∧ AllOffered ids w) fun _ _ => True) := by
  rw [processPage]
  split
  · next hempty =>
    refine .ok hP fun w _ hw => ⟨hw, fun e he => ?_⟩
    rw [List.isEmpty_iff.mp hempty] at he
    cases he
  · exact .andThen (fetchEmails_finds ids hP) (fun _ => Stable.const True) fun emails =>
      processAll_offers emails hP

/-! The queries. -/

/-- Where the walk stands after a page. -/
def stop (cfg : Config) (n : Nat) (ids : List EmailId) : Option Nat :=
  if cfg.syncLimit ≤ ids.length then some (n + ids.length) else none

theorem walking_zero : Walking cfg p h (some 0) [] w := by
  refine ⟨fun e he _ =>
    .inr (.inr (.inr ⟨0, rfl, by rwa [List.drop_zero]⟩)), fun n hn => ?_, fun hnone => ?_⟩
  · obtain rfl : 0 = n := Option.some.inj hn
    exact ⟨by decide, Nat.zero_le _⟩
  · cases hnone

theorem Walking.registered (hw : Walking cfg p h none [] w) : Registered cfg p h w := by
  refine ⟨fun e he hread => ?_, fun _ => hw.2.2 rfl⟩
  rcases hw.1 e he hread with hfirst | hoff | hmem | ⟨n, hn, -⟩
  · exact .inl hfirst
  · exact .inr (.inl hoff)
  · cases hmem
  · cases hn

theorem query_leaves (hlimit : 1 ≤ cfg.syncLimit) {n : Nat} {position : Option Nat}
    {after : Option Int} {q : QueryReply} (hw : Walking cfg p h (some n) [] w)
    (hheld : w'.held p h = w.held p h) (ho : ∀ e, w.offered e → w'.offered e)
    (hpages : w'.pages = ⟨after, position, q.ids⟩ :: w.pages) (hn : n = position.getD 0)
    (hids : q.ids = ((w.held p h).drop n).take cfg.syncLimit) (hlt : n + q.ids.length < 2 ^ 64) :
    Walking cfg p h (stop cfg n q.ids) q.ids w' := by
  have hlen : q.ids.length = min cfg.syncLimit ((w.held p h).length - n) := by simp [hids]
  have hpage : ∀ e ∈ (w.held p h).drop n,
      e ∈ q.ids ∨ ∃ m ∈ stop cfg n q.ids, e ∈ (w.held p h).drop m := by
    intro e he
    rw [stop]
    split
    · rw [hids]
      exact (Positional.mem_page_or_drop he).imp_right fun hdrop => ⟨_, rfl, hdrop⟩
    · left
      rwa [hids, Positional.page_eq_drop (by omega)]
  refine ⟨fun e he hread => ?_, fun m hm => ?_, fun hnone => ?_⟩
  · rw [hheld] at he ⊢
    rcases hw.1 e he hread with hfirst | hoff | hmem | ⟨m, hm, hahead⟩
    · exact .inl hfirst
    · exact .inr (.inl (ho e hoff))
    · cases hmem
    · obtain rfl : n = m := Option.some.inj hm
      exact .inr (.inr (hpage e hahead))
  · rw [stop] at hm
    split at hm
    · obtain rfl := Option.some.inj hm
      refine ⟨hlt, ?_⟩
      rw [World.reach, hpages, List.map_cons, List.foldr_cons, Page.stop, hn]
      exact Nat.le_max_left _ _
    · cases hm
  · rw [stop] at hnone
    split at hnone
    · cases hnone
    · rename_i hshort
      simp [World.unfinished, hpages, hshort]

theorem queryPage_step (hlimit : 1 ≤ cfg.syncLimit) {n : Nat} {position : Option Nat}
    {after : Option Int} (hn : n = position.getD 0)
    (hafter : cfg.backfillWindow.isSome = false → after = h.floor) :
    HandoffStep cfg p h calls t (Walking cfg p h (some n) [])
      (.jmap p.account (.queryEmail after position cfg.syncLimit))
      (post (fun q w => Walking cfg p h (stop cfg n q.ids) q.ids w ∧
        (q.ids.length ≤ cfg.syncLimit ∧ (position = none → q.ids = h.first))) fun _ _ => True) := by
  refine handoffStep_intro fun w a b w' hi hw hd he => ?_
  obtain ⟨hinv, hrely⟩ := aside_exec rfl he hi
  refine ⟨hinv, hrely, ?_⟩
  rcases exec_reply he with ⟨r, v, rfl, rfl, hv⟩ | ⟨-, err, rfl⟩
  · cases r <;> cases hv
    obtain ⟨hfloor, hids, hlt, hfirst⟩ := hd
    obtain rfl : after = h.floor := by
      cases hwindow : cfg.backfillWindow.isSome with
      | true => exact hfloor hwindow
      | false => exact hafter hwindow
    rw [← hn] at hids hlt
    have hpages : w'.pages = ⟨h.floor, position, v.ids⟩ :: w.pages := by
      rw [World.pages, exec_trace he]
      rfl
    exact ⟨query_leaves hlimit hw (held_exec he) (offered_exec he) hpages hn hids hlt,
      by rw [hids, List.length_take]; exact Nat.min_le_left _ _, hfirst rfl rfl rfl⟩
  · trivial

theorem query_handoff (position : Option Nat) (hlimit : 1 ≤ cfg.syncLimit) {n : Nat}
    {after : Option Int} (hn : n = position.getD 0)
    (hafter : cfg.backfillWindow.isSome = false → after = h.floor) :
    HandoffTriple cfg p h calls t (Walking cfg p h (some n) [])
      (onJmap p.account (.queryEmail after position cfg.syncLimit))
      (post (fun q w => Walking cfg p h (stop cfg n q.ids) q.ids w ∧
        (q.ids.length ≤ cfg.syncLimit ∧ (position = none → q.ids = h.first))) fun _ _ => True) := by
  refine .call Walking.stable (queryPage_step hlimit hn hafter) fun r => ?_
  cases r with
  | ok q => exact Walking.stable.and (Stable.const _)
  | error _ => exact Stable.const True

theorem cutoff_handoff {P : World → Prop} (hP : Stable (handoffContract cfg p h) t P)
    (hfloor : cfg.backfillWindow.isSome = false → h.floor = none) :
    HandoffTriple cfg p h calls t P (Act.lift (resolveBackfillCutoff cfg p) : Bridge (Option Int))
      (post (fun after w => P w ∧ (cfg.backfillWindow.isSome = false → after = h.floor))
        fun _ _ => True) := by
  cases hwindow : cfg.backfillWindow with
  | none =>
    have hpure : resolveBackfillCutoff cfg p = .pure none := by
      rw [resolveBackfillCutoff, hwindow]
      rfl
    rw [hpure]
    exact .ok hP fun w _ hw => ⟨hw, fun _ => (hfloor (by rw [hwindow]; rfl)).symm⟩
  | some window =>
    refine .post (inbound_aside (p := p) (I := fun _ => True) hP
      (.lift resolveBackfillCutoff_inbound)) fun r w _ hw => ?_
    cases r with
    | ok after => exact ⟨hw, fun hnone => by cases hnone⟩
    | error _ => trivial

/-! The walks. -/

theorem Walking.first {ahead : Option Nat} (hw : Walking cfg p h ahead h.first w) :
    Walking cfg p h ahead [] w := by
  refine ⟨fun e he hread => ?_, hw.2⟩
  rcases hw.1 e he hread with hfirst | hoff | hmem | hahead
  · exact .inl hfirst
  · exact .inr (.inl hoff)
  · exact .inl hmem
  · exact .inr (.inr (.inr hahead))

theorem registerBackfill_handoff {ids : List EmailId} (hle : ids.length ≤ cfg.syncLimit) :
    HandoffTriple cfg p h calls t (Walking cfg p h (stop cfg 0 ids) []) (registerBackfill cfg p ids)
      (post (fun _ => Registered cfg p h) fun _ _ => True) := by
  rw [registerBackfill, stop]
  by_cases hfull : ids.length = cfg.syncLimit
  · rw [if_pos hfull, if_pos (Nat.le_of_eq hfull.symm), hfull, Nat.zero_add]
    refine .bind (.call Walking.stable savePosition_step fun _ => Registered.stable) fun r => ?_
    exact .pure Registered.stable fun _ _ hw => hw
  · rw [if_neg hfull, if_neg (fun hge => hfull (Nat.le_antisymm hle hge))]
    exact .ok Walking.stable fun _ _ hw => hw.registered

/-- Where a walk over the changes stands: at a token that may be saved, or at its start. -/
def Standing (cfg : Config) (p : Poller) (h : Handoff) : Option String → World → Prop
  | some s => Ready cfg p h s
  | none => fun _ => True

theorem Standing.stable (s : Option String) :
    Stable (handoffContract cfg p h) t (Standing cfg p h s) := by
  cases s with
  | some s => exact Ready.stable
  | none => exact Stable.const True

theorem finishPage_handoff {P : World → Prop} (hP : Stable (handoffContract cfg p h) t P)
    (ids : List EmailId) (s : String) (more : Bool)
    (hready : ∀ w, P w → AllOffered ids w → Ready cfg p h s w) :
    HandoffTriple cfg p h calls t P (finishPage cfg p ids s more)
      (post (Sum.elim (Standing cfg p h) (Ready cfg p h)) fun _ _ => True) := by
  refine .andThen (processPage_offers ids hP) (fun _ => Stable.const True) fun _ => ?_
  split
  · exact .ok (hP.and AllOffered.stable) fun w _ hw => hready w hw.1 hw.2
  · exact .ok (hP.and AllOffered.stable) fun w _ hw => hready w hw.1 hw.2

theorem changes_handoff (s : String) :
    HandoffTriple cfg p h calls t (Ready cfg p h s) (onJmap p.account (.changesEmail s))
      fun r w => Ready cfg p h s w ∧ ∀ c : ChangesReply, r = .ok c →
        ∀ e ∈ h.known c.newState, e ∈ h.known s ∨ e ∈ c.created ++ c.updated := by
  refine .call Ready.stable (aside_step (c := .jmap p.account (.changesEmail s)) rfl Ready.stable
    fun w a b w' _ _ hd he c hb => ?_) fun r => Ready.stable.and (Stable.const _)
  rcases exec_reply he with ⟨r, v, rfl, hv', hv⟩ | ⟨-, err, hv'⟩
  · cases r <;> cases hv
    obtain rfl : v = c := Except.ok.inj (hv'.symm.trans hb)
    exact hd
  · rw [hv'] at hb
    cases hb

theorem changesPage_handoff (s : String) :
    HandoffTriple cfg p h calls t (Ready cfg p h s) (changesPage cfg p s)
      (post (Sum.elim (Standing cfg p h) (Ready cfg p h)) fun _ _ => True) := by
  have htrue : ∀ _ : Err, Stable (handoffContract cfg p h) t fun _ => True :=
    fun _ => Stable.const True
  refine .andThen (.attempt (changes_handoff s) fun r => Ready.stable.and (Stable.const _)) htrue
    fun r => ?_
  have hstable : Stable (handoffContract cfg p h) t fun w => Ready cfg p h s w ∧
      ∀ c : ChangesReply, r = .ok c →
        ∀ e ∈ h.known c.newState, e ∈ h.known s ∨ e ∈ c.created ++ c.updated :=
    Ready.stable.and (Stable.const _)
  split
  · exact .andThen (aside_act hstable (.store (by simp [Cmd.offCursors]))) htrue fun _ =>
      .ok hstable fun _ _ _ => trivial
  · exact .fail hstable fun _ _ _ => trivial
  · next response =>
    refine .andThen (aside_act hstable (.forEach _ fun _ => .bestEffort (.store rfl))) htrue
      fun _ => finishPage_handoff hstable _ _ _ fun w hw hoff => ?_
    refine ⟨hw.1.first, hw.1.registered, fun e he => ?_⟩
    rcases hw.2 response rfl e he with hold | hnew
    · exact hw.1.known e hold
    · exact .inr (hoff e hnew)

theorem state_handoff {P : World → Prop} (hP : Stable (handoffContract cfg p h) t P) :
    HandoffTriple cfg p h calls t P (onJmap p.account .getEmailState)
      (post (fun s w => P w ∧ h.known s = h.read) fun _ _ => True) := by
  refine .call hP ((aside_step (c := .jmap p.account .getEmailState)
    (V := fun r _ => ∀ s : String, r = .ok s → h.known s = h.read) rfl hP
    fun w a b w' _ _ hd he s hb => ?_).post fun r w _ hw => ?_) fun r => ?_
  · rcases exec_reply he with ⟨r, v, rfl, hv', hv⟩ | ⟨-, err, hv'⟩
    · cases r <;> cases hv
      obtain rfl : v = s := Except.ok.inj (hv'.symm.trans hb)
      exact hd.2
    · rw [hv'] at hb
      cases hb
  · cases r with
    | ok s => exact ⟨hw.1, hw.2 s rfl⟩
    | error _ => trivial
  · cases r with
    | ok s => exact hP.and (Stable.const _)
    | error _ => exact Stable.const True

theorem bootstrapPage_handoff (hlimit : 1 ≤ cfg.syncLimit)
    (hfloor : cfg.backfillWindow.isSome = false → h.floor = none) :
    HandoffTriple cfg p h calls t (fun _ => True) (bootstrapPage cfg p)
      (post (Sum.elim (Standing cfg p h) (Ready cfg p h)) fun _ _ => True) := by
  have htrue : ∀ _ : Err, Stable (handoffContract cfg p h) t fun _ => True :=
    fun _ => Stable.const True
  refine .andThen (cutoff_handoff (Stable.const True) hfloor) htrue fun after =>
    .assume fun hafter => ?_
  refine .andThen (.pre (query_handoff none hlimit rfl hafter) fun _ _ _ =>
    walking_zero) htrue fun q => .assume fun ⟨hle, hfirst⟩ => ?_
  have hids : q.ids = h.first := hfirst rfl
  refine .andThen (.pre (registerBackfill_handoff hle) fun w _ hw => ?_) htrue fun _ => ?_
  · rw [hids] at hw ⊢
    exact hw.first
  · refine .andThen
      (aside_act Registered.stable (.bestEffort (.store (by simp [Cmd.offCursors])))) htrue
      fun _ => ?_
    refine .andThen (state_handoff Registered.stable) htrue fun s => .assume fun hknown => ?_
    refine finishPage_handoff Registered.stable _ _ _ fun w hw hoff => ?_
    rw [hids] at hoff
    exact ⟨hoff, hw, fun e he => .inl (hknown ▸ he)⟩

theorem readChanges_handoff :
    HandoffTriple cfg p h calls t (fun _ => True) (onStore (.getJmapState p.user .changes))
      (post (Standing cfg p h) fun _ _ => True) := by
  refine .call (Stable.const True) (handoffStep_intro fun w a b w' hi _ hd he => ?_) fun r => ?_
  · obtain ⟨hinv, hrely⟩ := aside_exec rfl he hi
    refine ⟨hinv, hrely, ?_⟩
    obtain ⟨order, hb, -⟩ := store_answered hd he
    obtain rfl : b = .ok (w.changesToken p.user) := hb
    cases hs : w.changesToken p.user with
    | none => trivial
    | some s => exact Ready.stable (t := t) w w' (hi.changes s hs) (hrely t) hinv
  · cases r with
    | ok s => exact Standing.stable s
    | error _ => exact Stable.const True

theorem syncEmails_handoff (hlimit : 1 ≤ cfg.syncLimit)
    (hfloor : cfg.backfillWindow.isSome = false → h.floor = none) :
    HandoffTriple cfg p h calls t (fun _ => True) (syncEmails cfg p) fun _ _ => True := by
  have htrue : ∀ _ : Err, Stable (handoffContract cfg p h) t fun _ => True :=
    fun _ => Stable.const True
  refine .post (Q := post (fun _ _ => True) fun _ _ => True) ?_ fun _ _ _ _ => trivial
  refine .andThen readChanges_handoff htrue fun lastState => ?_
  refine .andThen (R := Ready cfg p h) (.actLoop (J := Standing cfg p h) Standing.stable
    (fun _ => Ready.stable) htrue fun current => ?_) htrue fun finalState => ?_
  · cases current with
    | some state => exact changesPage_handoff state
    | none => exact bootstrapPage_handoff hlimit hfloor
  · exact .post (.call Ready.stable saveChanges_step fun _ => Stable.const True)
      fun r _ _ _ => by cases r <;> trivial

theorem poll_handoff (hlimit : 1 ≤ cfg.syncLimit)
    (hfloor : cfg.backfillWindow.isSome = false → h.floor = none) :
    HandoffTriple cfg p h calls t (fun _ => True) (poll cfg p) fun _ _ => True := by
  have htrue : ∀ _ : Err, Stable (handoffContract cfg p h) t fun _ => True :=
    fun _ => Stable.const True
  refine .post (Q := post (fun _ _ => True) fun _ _ => True) ?_ fun _ _ _ _ => trivial
  have hmailboxes : Does (MailboxCmd p fun _ => True) (pollMailboxes cfg p) := pollMailboxes_does
  refine .andThen (aside_act (Stable.const True) (hmailboxes.mono fun _ =>
    MailboxCmd.offCursors)) htrue fun _ => ?_
  refine .andThen (R := fun _ _ => True) ?_ htrue fun _ => ?_
  · refine .bind (syncEmails_handoff hlimit hfloor) fun r => ?_
    cases r with
    | ok _ => exact .pure (Stable.const True) fun _ _ _ => trivial
    | error _ => exact .pure (Stable.const True) fun _ _ _ => trivial
  · refine .andThen (.lift (aside_triple (Stable.const True) (.task rfl)) fun _ =>
      Stable.const True)
      htrue fun _ => aside_act (Stable.const True) (.bestEffort (.store (by simp [Cmd.offCursors])))

/-- A batch that says that more may follow leaves a registered walk; one that says that
nothing follows has shown the end. -/
theorem backfillBatch_handoff (hlimit : 1 ≤ cfg.syncLimit)
    (hfloor : cfg.backfillWindow.isSome = false → h.floor = none) (n : Nat) :
    HandoffTriple cfg p h calls t (Walking cfg p h (some n) []) (backfillBatch cfg p n)
      (post (fun more w => more = false → Walking cfg p h none [] w) fun _ _ => True) := by
  have htrue : ∀ _ : Err, Stable (handoffContract cfg p h) t fun _ => True :=
    fun _ => Stable.const True
  refine .andThen (cutoff_handoff Walking.stable hfloor) htrue fun after => .assume fun hafter => ?_
  split
  · exact .fail Walking.stable fun _ _ _ => trivial
  · refine .andThen (query_handoff (some n) hlimit rfl hafter) htrue fun q =>
      .assume fun _ => ?_
    split
    · next hempty =>
      refine .ok Walking.stable fun w _ hw _ => ?_
      have hids : q.ids = [] := List.isEmpty_iff.mp hempty
      rw [hids, stop, if_neg (by simp; omega)] at hw
      exact hw
    · refine .andThen (fetchEmails_finds q.ids Walking.stable) htrue fun emails => ?_
      refine .andThen (processAll_offers emails Walking.stable) htrue fun _ => ?_
      have hstable : Stable (handoffContract cfg p h) t fun w =>
          Walking cfg p h (stop cfg n q.ids) q.ids w ∧ AllOffered q.ids w :=
        Walking.stable.and AllOffered.stable
      split
      · next hshort =>
        refine .ok hstable fun w _ hw _ => ?_
        have hdone := hw.1.offered hw.2
        rwa [stop, if_neg (by omega)] at hdone
      · next hfull =>
        have hmore : stop cfg n q.ids = some (n + q.ids.length) := if_pos (by omega)
        refine .andThen (R := fun _ _ => True) (.pre (.post (.call Walking.stable savePosition_step
          fun _ => Registered.stable) fun r _ _ _ => by cases r <;> trivial) fun w _ hw => ?_) htrue
          fun _ => .ok (Stable.const True) fun _ _ _ hmore => by cases hmore
        have hdone := hw.1.offered hw.2
        rwa [hmore] at hdone

/-- A position that was read is where a walk goes on. -/
def Found (cfg : Config) (p : Poller) (h : Handoff) (r : Except Err (Option String)) (w : World) :
    Prop :=
  ∀ s, r = .ok (some s) → ∃ n, Rust.Str.parseUsize s.toList = some n ∧ Walking cfg p h (some n) [] w

theorem Found.stable (r : Except Err (Option String)) :
    Stable (handoffContract cfg p h) t (Found cfg p h r) := by
  intro w w' hw hrely hi s hs
  obtain ⟨n, hn, hwalk⟩ := hw s hs
  exact ⟨n, hn, Walking.stable w w' hwalk hrely hi⟩

theorem readPosition_handoff :
    HandoffTriple cfg p h calls t (fun _ => True) (onStore (.getJmapState p.user .backfillPosition))
      (Found cfg p h) := by
  refine .call (Stable.const True) (handoffStep_intro fun w a b w' hi _ hd he => ?_) Found.stable
  obtain ⟨hinv, hrely⟩ := aside_exec rfl he hi
  refine ⟨hinv, hrely, fun s hs => ?_⟩
  obtain ⟨order, hb, -⟩ := store_answered hd he
  have hpos : w.position p.user = some s := Except.ok.inj (hb.symm.trans hs)
  obtain ⟨n, rfl, hlt, hle⟩ := hi.position s hpos
  have hparse : Rust.Str.parseUsize (toString n).toList = some n :=
    Rust.Str.parseUsize_toString_of_lt hlt
  have hahead : w.ahead p.user = some n := by rw [World.ahead, hpos, Option.bind_some, hparse]
  have hreg : Registered cfg p h w := hi.walk (by rw [hpos]; rfl)
  have hwalk : Walking cfg p h (some n) [] w := by
    refine ⟨hahead ▸ hreg.remaining, fun m hm => ?_, fun hnone => by cases hnone⟩
    obtain rfl := Option.some.inj hm
    exact ⟨hlt, hle⟩
  exact ⟨n, hparse, Walking.stable (t := t) w w' hwalk (hrely t) hinv⟩

theorem backfillRound_handoff (hlimit : 1 ≤ cfg.syncLimit)
    (hfloor : cfg.backfillWindow.isSome = false → h.floor = none) :
    HandoffTriple cfg p h calls t (fun _ => True) (backfillRound cfg p) fun _ _ => True := by
  have htrue : Stable (handoffContract cfg p h) t fun _ => True := Stable.const True
  refine .bind (aside_triple htrue (.store rfl)) fun changes => ?_
  extract_lets hasInitialSync
  refine .bind readPosition_handoff fun position => ?_
  split
  · next posStr =>
    have hfound : ∀ n w, Rust.Str.parseUsize posStr.toList = some n →
        Found cfg p h (.ok (some posStr)) w → Walking cfg p h (some n) [] w := by
      intro n w hn hw
      obtain ⟨m, hm, hwalk⟩ := hw posStr rfl
      rwa [hn.symm.trans hm |> Option.some.inj]
    split
    · next hnone =>
      intro w hi hw
      obtain ⟨n, hn, -⟩ := hw posStr rfl
      rw [hnone] at hn
      cases hn
    · next pos hpos =>
      refine .bind (.pre (backfillBatch_handoff hlimit hfloor pos) fun w _ hw =>
        hfound pos w hpos hw)
        fun r => ?_
      split
      · exact .pre (aside_triple htrue (.bind (.task rfl) fun _ => .pure)) fun _ _ _ => trivial
      · refine .bind (.pre (.call Walking.stable deletePosition_step fun _ => Registered.stable)
          fun w _ hw => hw rfl) fun _ => ?_
        exact .pre (aside_triple htrue (.bind (.result (.store (by simp [Cmd.offCursors]))) fun _ =>
          .pure)) fun _ _ _ => trivial
      · exact .pre (aside_triple htrue (.bind (.task rfl) fun _ => .pure)) fun _ _ _ => trivial
  · split
    · exact .pure (Found.stable _) fun _ _ _ => trivial
    · exact .pre (aside_triple htrue (.bind (.task rfl) fun _ => .pure)) fun _ _ _ => trivial

theorem runBackfillLoop_handoff (hlimit : 1 ≤ cfg.syncLimit)
    (hfloor : cfg.backfillWindow.isSome = false → h.floor = none) :
    HandoffTriple cfg p h calls t (fun _ => True) (runBackfillLoop cfg p) fun _ _ => True := by
  have htrue : Stable (handoffContract cfg p h) t fun _ => True := Stable.const True
  refine .bind (aside_triple htrue (.task rfl)) fun _ => ?_
  refine .loop (J := fun _ _ => True) (R := fun _ _ => True) (fun _ => ?_) fun _ =>
    .pure htrue fun _ _ hw => hw
  refine .bind (backfillRound_handoff hlimit hfloor) fun ended => .pure htrue fun _ _ _ => ?_
  cases ended <;> trivial

theorem env_quiet {ev : Env} (he : ev.perform w = some w') :
    w'.trace = w.trace ∧ w'.store.jmapState = w.store.jmapState ∧
      (∀ u, w.store.hasUser u → w'.store.hasUser u) ∧
      (w'.mail = w.mail ∨ ∃ m, ev = .mail m ∧ w' = { w with mail := m }) := by
  cases ev with
  | release key stored =>
    simp only [Env.perform] at he
    split at he
    · obtain rfl := Option.some.inj he
      exact ⟨rfl, rfl, fun _ hu => hu, .inl rfl⟩
    · cases he
  | advance secs =>
    obtain rfl := Option.some.inj he
    exact ⟨rfl, rfl, fun _ hu => hu, .inl rfl⟩
  | mail m =>
    obtain rfl := Option.some.inj he
    exact ⟨rfl, rfl, fun _ hu => hu, .inr ⟨m, rfl, rfl⟩⟩
  | login user row account =>
    obtain rfl := Option.some.inj he
    refine ⟨rfl, rfl, fun u hu => ?_, .inl rfl⟩
    by_cases hu' : u = user
    · subst hu'
      simp [Store.hasUser]
    · simpa [Store.hasUser, AList.lookup_insert_ne hu'] using hu

/-- Mail that arrives before the state is read lies behind the pages, so the walk still has it
ahead. -/
theorem onward_mail {m : MailServer} (hm : (Env.mail m).arriving cfg p h w) :
    Onward cfg p h w { w with mail := m } := by
  obtain ⟨hsub, hnew⟩ := hm
  refine ⟨fun _ he => he, Nat.le_refl _, fun he => he, fun ahead hand hn hend hr e he hread => ?_⟩
  have hold : e ∈ w.held p h → e ∈ h.first ∨ w.offered e ∨ e ∈ hand ∨
      ∃ n ∈ ahead, e ∈ (m.results p.account h.floor).drop n := by
    intro hmem
    rcases hr e hmem hread with hfirst | hoff | hhand | ⟨n, hmem, hdrop⟩
    · exact .inl hfirst
    · exact .inr (.inl hoff)
    · exact .inr (.inr (.inl hhand))
    · exact .inr (.inr (.inr ⟨n, hmem, Positional.Stays.of_sublist n hsub e hdrop he⟩))
  rcases hnew with hlate | ⟨hmore, hfront⟩
  · exact hold ((hlate e he).resolve_right fun hno => hno hread)
  · cases ahead with
    | none => exact absurd (hend rfl) (by simp [hmore])
    | some n =>
      have hmem : e ∈ (m.results p.account h.floor).take w.reach ++
          (m.results p.account h.floor).drop w.reach := by rwa [List.take_append_drop]
      rcases List.mem_append.mp hmem with htake | hdrop
      · rw [hfront] at htake
        exact hold (List.mem_of_mem_take htake)
      · have hle : n ≤ w.reach := hn n rfl
        exact .inr (.inr (.inr ⟨n, rfl, (List.drop_sublist_drop_left _ hle).subset hdrop⟩))

theorem handoff_upholds (hlimit : 1 ≤ cfg.syncLimit)
    (hfloor : cfg.backfillWindow.isSome = false → h.floor = none)
    (hcalls : ∀ t, calls t = .poll p ∨ calls t = .backfill p) :
    Upholds (bridge cfg calls) (handing cfg p h) (handoffContract cfg p h) where
  start := fun t w hi _ _ => by
    have htriple : HandoffTriple cfg p h calls t (fun _ => True) ((calls t).program cfg)
        fun _ _ => True := by
      rcases hcalls t with hc | hc
      · rw [hc]
        exact .bind (poll_handoff hlimit hfloor) fun _ => .pure (Stable.const True) fun _ _ hw => hw
      · rw [hc]
        exact runBackfillLoop_handoff hlimit hfloor
    exact htriple w hi trivial
  env := by
    intro ev w w' hi hd he
    obtain ⟨htrace, hstate, huser, hmail⟩ := env_quiet he
    have ho : Onward cfg p h w w' := by
      rcases hmail with hmail | ⟨m, rfl, rfl⟩
      · have hheld : w'.held p h = w.held p h := by rw [World.held, hmail, World.held]
        have hpages : w'.pages = w.pages := by rw [World.pages, htrace, World.pages]
        have hoff : ∀ e, w.offered e → w'.offered e := by
          intro e he
          rwa [World.offered, htrace]
        exact ⟨hoff, by rw [World.reach, World.reach, hpages], fun hend => by
          rwa [World.unfinished, hpages], fun _ _ _ _ hr => hr.mono hheld hoff fun _ hmem =>
            .inl hmem⟩
      · exact onward_mail hd
    have hpos : w'.position p.user = w.position p.user := by
      rw [World.position, hstate, World.position]
    have hreg : Registered cfg p h w → Registered cfg p h w' := fun hr =>
      hr.onward ho hpos hi.ahead_le
    refine ⟨⟨huser _ hi.user, fun s hs => ?_, fun hs => hreg (hi.walk (hpos ▸ hs)), fun s hs => ?_⟩,
      fun _ => ⟨ho, hreg⟩⟩
    · obtain ⟨n, hn, hlt, hle⟩ := hi.position s (hpos ▸ hs)
      exact ⟨n, hn, hlt, Nat.le_trans hle ho.reach⟩
    · rw [World.changesToken, hstate] at hs
      have hready := hi.changes s hs
      exact hready.onward ho (hreg hready.registered)
  cancel := fun t w hi _ => by
    have ho : Onward cfg p h w (drop t w) :=
      ⟨fun _ he => he, Nat.le_refl _, fun he => he, fun _ _ _ _ hr => hr⟩
    obtain ⟨hinv, hrely⟩ := hi.onward ho rfl (fun _ hs => hs) rfl
    exact ⟨hinv, fun i _ => hrely i, trivial⟩

theorem handoffInv_of_run (hlimit : 1 ≤ cfg.syncLimit)
    (hfloor : cfg.backfillWindow.isSome = false → h.floor = none)
    (hcalls : ∀ t, calls t = .poll p ∨ calls t = .backfill p) {w : World}
    (huser : w.store.hasUser p.user) (hposition : w.position p.user = none)
    (hchanges : w.changesToken p.user = none) {es : List (Event Answer Env)} {q : Pool Op World}
    (hrun : (bridge cfg calls).run es (Pool.boot w) = some q)
    (hD : (bridge cfg calls).Admits (handing cfg p h).meets es (Pool.boot w)) :
    HandoffInv cfg p h q.world := by
  have hinv : HandoffInv cfg p h w := by
    refine ⟨huser, fun s hs => ?_, fun hs => ?_, fun s hs => ?_⟩
    · rw [hposition] at hs
      cases hs
    · rw [hposition] at hs
      cases hs
    · rw [hchanges] at hs
      cases hs
  exact (handoff_upholds hlimit hfloor hcalls).inv_of_run hinv (fun _ => trivial) hrun hD

end

end JmapBridge
