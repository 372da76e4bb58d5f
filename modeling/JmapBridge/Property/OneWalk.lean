import JmapBridge.Property.Coverage

/-! A poll task and a backfill task at work on a mailbox that does not change, with no crash
and no failure. The first page is offered by the poll task, in order and once; the rest of
the mailbox by the backfill task, in order and once. -/

namespace JmapBridge

open Effect

/-- The emails that task `t` has handed to `process_email`, the oldest first. -/
def Record.entered (t : Nat) (r : Record) : Option EmailId :=
  match r.cmd with
  | .task (.enter (some e)) => if r.task = t then some e else none
  | _ => none

def World.entered (t : Nat) (w : World) : List EmailId :=
  (w.trace.filterMap (Record.entered t)).reverse

/-- How often the email has been handed to `process_email`. -/
def World.offers (e : EmailId) (w : World) : Nat := w.trace.countP (Record.offers e)

/-- The store is reliable, and queries and `Email/get` return all there is. -/
def Cmd.unchanging (c : Cmd) (a : Answer) (w : World) : Prop :=
  match c, a with
  | .store _, a => a.reliable
  | .jmap account (.queryEmail after position limit), .reply (.queried q) =>
    q.ids = ((w.mail.results account after).drop (position.getD 0)).take limit ∧
      position.getD 0 + q.ids.length < 2 ^ 64
  | .jmap _ (.getEmail ids), .reply (.emails l) => ∀ e ∈ ids, ∃ m ∈ l, m.id = some e
  | _, _ => True

/-- Every request succeeds, an email is returned once, and nothing changes. -/
def Cmd.undisturbed (c : Cmd) (a : Answer) : Prop :=
  match c, a with
  | .jmap _ (.getEmail ids), .reply (.emails l) => (l.map (·.id)).Perm (ids.map some)
  | .jmap _ (.changesEmail _), .reply (.changes r) => r.created = [] ∧ r.updated = []
  | .jmap _ _, .reply _ => True
  | .jmap _ _, _ => False
  | _, _ => True

def Env.unchanging (p : Poller) (e : Env) (w : World) : Prop :=
  match e with
  | .mail m => m.results p.account none = w.mail.results p.account none
  | _ => True

def unchanging (p : Poller) : Discipline Op World Answer Env where
  step _ _ o a w := o.cmd.unchanging a w
  env e w := e.unchanging p w

/-- One poll task, one backfill task, no crash and no failure. -/
def undisturbed (p : Poller) : Discipline Op World Answer Env where
  start t _ := t ≤ 1
  step _ _ o a w := o.cmd.unchanging a w ∧ o.cmd.undisturbed a
  cancel _ _ := False
  env e w := e.unchanging p w

section

variable (cfg : Config) (p : Poller) (l : List EmailId)

structure WalkInv (w : World) : Prop where
  user : w.store.hasUser p.user
  held : w.mail.results p.account none = l
  position : ∀ s, w.position p.user = some s →
    ∃ n, s = toString n ∧ n < 2 ^ 64 ∧ cfg.syncLimit ≤ n
  changes : (w.changesToken p.user).isSome →
    (w.entered 0).Perm (l.take cfg.syncLimit) ∧
      (w.position p.user = none → (w.entered 1).Perm (l.drop cfg.syncLimit))
  offers : ∀ e, w.offers e = (w.entered 0).count e + (w.entered 1).count e

/-- What the poll task relies on. -/
structure BackfillOnly (w w' : World) : Prop where
  entered : w'.entered 0 = w.entered 0
  changes : w'.changesToken p.user = w.changesToken p.user
  unregistered : w.position p.user = none →
    w'.position p.user = none ∧ w'.entered 1 = w.entered 1
  finished : (w.position p.user = none → (w.entered 1).Perm (l.drop cfg.syncLimit)) →
    w'.position p.user = none → (w'.entered 1).Perm (l.drop cfg.syncLimit)

/-- What the backfill task relies on. -/
structure PollOnly (w w' : World) : Prop where
  entered : w'.entered 1 = w.entered 1
  position : ∀ s, w.position p.user = some s → w'.position p.user = some s
  registers : w.position p.user = none → w'.position p.user = none ∨
    w'.position p.user = some (toString cfg.syncLimit) ∧ w.entered 1 = []

/-- The poll task rests: if it has saved no token, it has not begun. -/
def Resting (w : World) : Prop :=
  w.changesToken p.user = none →
    w.entered 0 = [] ∧ w.position p.user = none ∧ w.entered 1 = []

/-- The backfill task can go on from the stored position. -/
structure Resumes (w : World) : Prop where
  walking : ∀ n, w.position p.user = some (toString n) → cfg.syncLimit ≤ n →
    (w.entered 1).Perm ((l.drop cfg.syncLimit).take (n - cfg.syncLimit))
  ended : w.position p.user = none → w.entered 1 = [] ∨ (w.entered 1).Perm (l.drop cfg.syncLimit)

variable {cfg p l}

theorem Resting.backfillOnly {w w' : World} (h : Resting p w) (hr : BackfillOnly cfg p l w w') :
    Resting p w' := by
  intro hnone
  obtain ⟨hzero, hpos, hone⟩ := h (hr.changes ▸ hnone)
  obtain ⟨hpos', hone'⟩ := hr.unregistered hpos
  exact ⟨hr.entered.trans hzero, hpos', hone'.trans hone⟩

theorem toString_inj {n m : Nat} (h : toString n = toString m) : n = m := by
  have hn := Rust.Str.parseNat_toString n
  rw [h, Rust.Str.parseNat_toString] at hn
  exact (Option.some.inj hn).symm

theorem Resumes.pollOnly {w w' : World} (h : Resumes cfg p l w) (hr : PollOnly cfg p w w') :
    Resumes cfg p l w' := by
  refine ⟨fun n hn hle => ?_, fun hnone => ?_⟩
  · rw [hr.entered]
    cases hpos : w.position p.user with
    | some s =>
      have hs := (hr.position s hpos).symm.trans hn
      rw [hs] at hpos
      exact h.walking n hpos hle
    | none =>
      rcases hr.registers hpos with hpos' | ⟨hpos', hone⟩
      · rw [hpos'] at hn
        cases hn
      · have heq := toString_inj (Option.some.inj (hpos'.symm.trans hn))
        rw [hone, ← heq, Nat.sub_self, List.take_zero]
  · rw [hr.entered]
    refine h.ended ?_
    cases hpos : w.position p.user with
    | none => rfl
    | some s =>
      rw [hr.position s hpos] at hnone
      cases hnone

variable (cfg p l) in
def walkContract : Contract World where
  inv := WalkInv cfg p l
  rely t w w' := (t = 0 → BackfillOnly cfg p l w w') ∧ (t = 1 → PollOnly cfg p w w')
  idle t w := (t = 0 → Resting p w) ∧ (t = 1 → Resumes cfg p l w)
  idle_stable := fun hidle hr =>
    ⟨fun ht => (hidle.1 ht).backfillOnly (hr.1 ht), fun ht => (hidle.2 ht).pollOnly (hr.2 ht)⟩
  refl _ w :=
    ⟨fun _ => ⟨rfl, rfl, fun h => ⟨h, rfl⟩, fun h => h⟩, fun _ => ⟨rfl, fun _ h => h, .inl⟩⟩
  trans := fun {t a b c} hab hbc => by
    refine ⟨fun ht => ?_, fun ht => ?_⟩
    · have h₁ := hab.1 ht
      have h₂ := hbc.1 ht
      refine ⟨h₂.entered.trans h₁.entered, h₂.changes.trans h₁.changes, fun hnone => ?_, fun h =>
        h₂.finished (h₁.finished h)⟩
      obtain ⟨hpos, hone⟩ := h₁.unregistered hnone
      obtain ⟨hpos', hone'⟩ := h₂.unregistered hpos
      exact ⟨hpos', hone'.trans hone⟩
    · have h₁ := hab.2 ht
      have h₂ := hbc.2 ht
      refine ⟨h₂.entered.trans h₁.entered, fun s hs => h₂.position s (h₁.position s hs),
        fun hnone => ?_⟩
      rcases h₁.registers hnone with hpos | ⟨hpos, hone⟩
      · exact (h₂.registers hpos).imp_right fun h => ⟨h.1, h₁.entered ▸ h.2⟩
      · exact .inr ⟨h₂.position _ hpos, hone⟩

variable {calls : Nat → Call} {t : Nat} {w w' : World} {α : Type}

/-- The commands that neither hand over an email nor touch the cursors. -/
def Cmd.passive (user : UserId) : Cmd → Bool
  | store (.saveJmapState u key _) => u != user || (key != .backfillPosition && key != .changes)
  | store (.deleteJmapState u key) => u != user || (key != .backfillPosition && key != .changes)
  | task (.enter (some _)) => false
  | _ => true

theorem InboundCmd.passive {I : EmailId → Prop} {c : Cmd} (hc : InboundCmd p I c) :
    c.passive p.user := by
  cases hc with
  | saveState k v hk =>
    have hwalk : k ≠ .backfillPosition := fun he => by simp [he, StateKey.ofWalk] at hk
    have hchanges : k ≠ .changes := fun he => by simp [he, StateKey.ofWalk] at hk
    simp [Cmd.passive, hwalk, hchanges]
  | deleteState k hk =>
    have hwalk : k ≠ .backfillPosition := fun he => by simp [he, StateKey.ofWalk] at hk
    have hchanges : k ≠ .changes := fun he => by simp [he, StateKey.ofWalk] at hk
    simp [Cmd.passive, hwalk, hchanges]
  | _ => rfl

theorem MailboxCmd.passive {I : EmailId → Prop} {c : Cmd} (hc : MailboxCmd p I c) :
    c.passive p.user := by
  cases hc with
  | contact c hc => exact (RoomCmd.inbound hc : InboundCmd p I c).passive
  | _ => simp [Cmd.passive]

theorem entered_exec {c : Cmd} {a : Answer} {b : c.Ans} (he : exec t (.mk c) a w = some (b, w'))
    (i : Nat) : w'.entered i = w.entered i ++ (Record.entered i ⟨t, c, a⟩).toList := by
  rw [World.entered, World.entered, exec_trace he]
  cases hr : Record.entered i ⟨t, c, a⟩ with
  | none => rw [List.filterMap_cons_none hr, Option.toList_none, List.append_nil]
  | some e => rw [List.filterMap_cons_some hr, List.reverse_cons, Option.toList_some]

theorem offers_exec {c : Cmd} {a : Answer} {b : c.Ans} (he : exec t (.mk c) a w = some (b, w'))
    (e : EmailId) : w'.offers e = w.offers e + (Record.entered t ⟨t, c, a⟩).toList.count e := by
  rw [World.offers, World.offers, exec_trace he, List.countP_cons]
  congr 1
  by_cases henter : ∃ i, c = .task (.enter i)
  · obtain ⟨i, rfl⟩ := henter
    cases i with
    | none => simp [Record.offers, Record.entered]
    | some i => simp [Record.offers, Record.entered, List.count_cons]
  · have hoffers : Record.offers e ⟨t, c, a⟩ = false := by
      unfold Record.offers
      split
      · rename_i i heq
        exact absurd ⟨i, heq⟩ henter
      · rfl
    have hentered : Record.entered t ⟨t, c, a⟩ = none := by
      unfold Record.entered
      split
      · rename_i i heq
        exact absurd ⟨some i, heq⟩ henter
      · rfl
    rw [hoffers, hentered]
    rfl

theorem entered_other {c : Cmd} {a : Answer} {i : Nat} (hi : i ≠ t) :
    Record.entered i ⟨t, c, a⟩ = none := by
  unfold Record.entered
  split
  · exact if_neg fun h => hi h.symm
  · rfl

theorem entered_passive {c : Cmd} {a : Answer} (hc : c.passive p.user) :
    Record.entered t ⟨t, c, a⟩ = none := by
  unfold Record.entered
  split
  · rename_i e heq
    obtain rfl : c = .task (.enter (some e)) := heq
    cases hc
  · rfl

theorem counts_exec {c : Cmd} {a : Answer} {b : c.Ans} (ht : t = 0 ∨ t = 1)
    (he : exec t (.mk c) a w = some (b, w')) (hi : WalkInv cfg p l w) (e : EmailId) :
    w'.offers e = (w'.entered 0).count e + (w'.entered 1).count e := by
  rw [offers_exec he, hi.offers, entered_exec he, entered_exec he, List.count_append,
    List.count_append]
  rcases ht with rfl | rfl
  · rw [entered_other (i := 1) (by decide)]
    simp
    omega
  · rw [entered_other (i := 0) (by decide)]
    simp
    omega

theorem passive_exec {c : Cmd} {a : Answer} {b : c.Ans} (ht : t = 0 ∨ t = 1)
    (hc : c.passive p.user) (he : exec t (.mk c) a w = some (b, w')) (hi : WalkInv cfg p l w) :
    WalkInv cfg p l w' ∧ ∀ i, (walkContract cfg p l).rely i w w' := by
  have hpos : w'.position p.user = w.position p.user := state_exec
    (fun v hv =>
      by subst hv; simp [Cmd.passive] at hc) (fun hd => by subst hd; simp [Cmd.passive] at hc) he
  have hchanges : w'.changesToken p.user = w.changesToken p.user := state_exec
    (fun v hv =>
      by subst hv; simp [Cmd.passive] at hc) (fun hd => by subst hd; simp [Cmd.passive] at hc) he
  have hentered : ∀ i, w'.entered i = w.entered i := by
    intro i
    rw [entered_exec he]
    by_cases hit : i = t
    · rw [hit, entered_passive hc, Option.toList_none, List.append_nil]
    · rw [entered_other hit, Option.toList_none, List.append_nil]
  refine ⟨⟨hasUser_exec he ▸ hi.user, results_exec he ▸ hi.held,
    fun s hs => hi.position s (hpos ▸ hs),
    fun hs => ?_, counts_exec ht he hi⟩, fun i => ⟨fun _ => ⟨hentered 0, hchanges, fun hnone => ?_,
      fun h => ?_⟩, fun _ => ⟨hentered 1, fun s hs => hpos ▸ hs, fun hnone => .inl (hpos ▸ hnone)⟩⟩⟩
  · rw [hentered, hentered, hpos]
    exact hi.changes (hchanges ▸ hs)
  · exact ⟨hpos ▸ hnone, hentered 1⟩
  · rw [hpos, hentered]
    exact h

abbrev WalkTriple (cfg : Config) (p : Poller) (l : List EmailId) (calls : Nat → Call) (t : Nat)
    (P : World → Prop) (x : Prog Op α) (Q : α → World → Prop) : Prop :=
  Triple (bridge cfg calls) (undisturbed p) (walkContract cfg p l) t P x Q

abbrev WalkStep (cfg : Config) (p : Poller) (l : List EmailId) (calls : Nat → Call) (t : Nat)
    (P : World → Prop) (c : Cmd) (R : c.Ans → World → Prop) : Prop :=
  Step (bridge cfg calls) (undisturbed p) (walkContract cfg p l) t P (.mk c) R

/-- The step of one of the two tasks is one that the other relies on. -/
theorem walkStep_intro {c : Cmd} {P : World → Prop} {R : c.Ans → World → Prop}
    (hstep : ∀ w a b w', WalkInv cfg p l w → P w → c.unchanging a w → c.undisturbed a →
      exec t (.mk c) a w = some (b, w') → WalkInv cfg p l w' ∧
        (t ≠ 0 → BackfillOnly cfg p l w w') ∧ (t ≠ 1 → PollOnly cfg p w w') ∧ R b w') :
    WalkStep cfg p l calls t P c R := by
  intro w a b w' hi hw ⟨hd, hd'⟩ he
  obtain ⟨hinv, hbackfill, hpoll, hpost⟩ := hstep w a b w' hi hw hd hd' he
  exact ⟨hinv, fun i hit => ⟨fun hi => hbackfill (hi ▸ Ne.symm hit),
    fun hi => hpoll (hi ▸ Ne.symm hit)⟩, hpost⟩

theorem passive_step (ht : t = 0 ∨ t = 1) {c : Cmd} (hc : c.passive p.user) {P : World → Prop}
    {V : c.Ans → World → Prop} (hP : Stable (walkContract cfg p l) t P)
    (hV : ∀ w a b w', WalkInv cfg p l w → P w → c.unchanging a w → c.undisturbed a →
      exec t (.mk c) a w = some (b, w') → V b w') :
    WalkStep cfg p l calls t P c fun b w => P w ∧ V b w := by
  refine walkStep_intro fun w a b w' hi hw hd hd' he => ?_
  obtain ⟨hinv, hrely⟩ := passive_exec ht hc he hi
  exact ⟨hinv, fun _ => (hrely 0).1 rfl, fun _ => (hrely 1).2 rfl, hP w w' hw (hrely t) hinv,
    hV w a b w' hi hw hd hd' he⟩

theorem passive_triple (ht : t = 0 ∨ t = 1) {x : Prog Op α} {P : World → Prop}
    (hP : Stable (walkContract cfg p l) t P) (hx : Does (fun c => c.passive p.user) x) :
    WalkTriple cfg p l calls t P x fun _ => P := by
  refine .only hP (Prog.Only.mono (fun β o hc => ?_) hx)
  obtain ⟨c⟩ := o
  intro w a b w' hw hi _ he
  obtain ⟨hinv, hrely⟩ := passive_exec ht hc he hi
  exact ⟨hinv, fun i _ => hrely i, hP w w' hw (hrely t) hinv⟩

theorem jmap_answered {account : Account} {c : JmapCmd} {a : Answer} {b : Except Err c.Ans}
    (hd : (Cmd.jmap account c).undisturbed a)
    (he : exec t (.mk (.jmap account c)) a w = some (b, w')) :
    ∃ r v, a = .reply r ∧ b = .ok v ∧ c.value w.mail account r = some v := by
  rcases exec_reply he with hok | ⟨hno, -⟩
  · exact hok
  · cases a with
    | reply r => exact absurd rfl (hno r)
    | _ => cases c <;> exact hd.elim

theorem request_triple (ht : t = 0 ∨ t = 1) {c : JmapCmd} {P : World → Prop}
    (hP : Stable (walkContract cfg p l) t P) {R : c.Ans → Prop}
    (hR : ∀ w r v, WalkInv cfg p l w → P w → (Cmd.jmap p.account c).unchanging (.reply r) w →
      (Cmd.jmap p.account c).undisturbed (.reply r) → c.value w.mail p.account r = some v → R v) :
    WalkTriple cfg p l calls t P (onJmap p.account c)
      (post (fun v w => P w ∧ R v) fun _ _ => False) := by
  refine .call hP ((passive_step ht (c := .jmap p.account c)
    (V := fun b _ => ∃ v, b = .ok v ∧ R v) rfl hP fun w a b w' hi hw hd hd' he => ?_).post
      fun b w _ hw => ?_) fun b => ?_
  · obtain ⟨r, v, rfl, hb, hv⟩ := jmap_answered hd' he
    exact ⟨v, hb, hR w r v hi hw hd hd' hv⟩
  · obtain ⟨hw, v, rfl, hv⟩ := hw
    exact ⟨hw, hv⟩
  · cases b with
    | ok v => exact hP.and (Stable.const _)
    | error _ => exact Stable.const False

/-! One page. -/

/-- A task hands over the emails of a page one by one, if it may hand over the next one. -/
theorem processAll_enters (ht : t = 0 ∨ t = 1) {J : List EmailId → World → Prop}
    (hJ : ∀ ids, Stable (walkContract cfg p l) t (J ids))
    (henter : ∀ e ids, WalkStep cfg p l calls t (J (e :: ids)) (.task (.enter (some e)))
      fun _ => J ids) (emails : List Email) (ids : List EmailId)
    (hids : emails.map (·.id) = ids.map some) :
    WalkTriple cfg p l calls t (J ids) (processAll cfg p emails)
      (post (fun _ => J []) fun _ _ => False) := by
  refine .lift ?_ fun _ => hJ []
  induction emails generalizing ids with
  | nil =>
    obtain rfl : ids = [] := by simpa using hids.symm
    exact .pure (hJ []) fun _ _ hw => hw
  | cons email emails ih =>
    cases ids with
    | nil => cases hids
    | cons e ids =>
      obtain ⟨hid, hrest⟩ := List.cons.inj hids
      have hlogged : WalkTriple cfg p l calls t (J (e :: ids)) (processLogged cfg p email)
          fun _ => J ids := by
        obtain ⟨body, heq, hbody⟩ : ∃ body : Bridge Unit,
            processEmail cfg p email = Prog.bind (onTask (.enter email.id)) (fun _ => body) ∧
              DoesInbound p (fun _ => True) body := processEmail_enters fun _ _ => trivial
        have hemail : WalkTriple cfg p l calls t (J (e :: ids)) (processEmail cfg p email)
            fun _ => J ids := by
          have hstep : WalkStep cfg p l calls t (J (e :: ids)) (.task (.enter email.id))
              fun _ => J ids := by
            rw [show email.id = some e from hid]
            exact henter e ids
          rw [heq]
          exact .bind (.call (hJ _) hstep fun _ => hJ ids) fun _ =>
            passive_triple ht (hJ ids) (hbody.mono fun _ => InboundCmd.passive)
        refine .bind hemail fun r => ?_
        cases r with
        | ok _ => exact .pure (hJ ids) fun _ _ hw => hw
        | error _ => exact passive_triple ht (hJ ids) (.task rfl)
      exact .bind hlogged fun _ => ih ids hrest

theorem fetchEmails_once (ht : t = 0 ∨ t = 1) (ids : List EmailId) {P : World → Prop}
    (hP : Stable (walkContract cfg p l) t P) :
    WalkTriple cfg p l calls t P (fetchEmails p ids)
      (post (fun emails w => P w ∧ (emails.map (·.id)).Perm (ids.map some)) fun _ _ => False) := by
  refine request_triple (c := .getEmail ids) ht hP fun w r v _ _ _ hd hv => ?_
  cases r <;> cases hv
  exact hd

theorem fetched_ids {emails : List Email} {ids : List EmailId}
    (h : (emails.map (·.id)).Perm (ids.map some)) :
    ∃ ids' : List EmailId, emails.map (·.id) = ids'.map some ∧ ids'.Perm ids := by
  refine ⟨(emails.map (·.id)).filterMap id, ?_, ?_⟩
  · have hsome : ∀ i ∈ emails.map (·.id), i.isSome := by
      intro i hi
      obtain ⟨e, -, rfl⟩ := List.mem_map.mp (h.subset hi)
      rfl
    generalize emails.map (·.id) = found at hsome
    induction found with
    | nil => rfl
    | cons i found ih =>
      obtain ⟨e, rfl⟩ := Option.isSome_iff_exists.mp (hsome i List.mem_cons_self)
      have htail := ih fun j hj => hsome j (List.mem_cons_of_mem _ hj)
      change some e :: found = some e :: (found.filterMap id).map some
      rw [← htail]
  · have hids := h.filterMap id
    rw [List.filterMap_map] at hids
    simpa using hids

theorem processPage_once (ht : t = 0 ∨ t = 1) {J : List EmailId → World → Prop}
    (hJ : ∀ ids, Stable (walkContract cfg p l) t (J ids))
    (henter : ∀ e ids, WalkStep cfg p l calls t (J (e :: ids)) (.task (.enter (some e)))
      fun _ => J ids)
    (hperm : ∀ ids ids' w, ids'.Perm ids → J ids w → J ids' w) (ids : List EmailId) :
    WalkTriple cfg p l calls t (J ids) (processPage cfg p ids)
      (post (fun _ => J []) fun _ _ => False) := by
  rw [processPage]
  split
  · next hempty =>
    rw [List.isEmpty_iff.mp hempty]
    exact .ok (hJ []) fun _ _ hw => hw
  · refine .andThen (fetchEmails_once ht ids (hJ ids)) (fun _ => Stable.const False) fun emails =>
      .assume fun hids => ?_
    obtain ⟨ids', hids', hsame⟩ := fetched_ids hids
    exact .pre (processAll_enters ht hJ henter emails ids' hids') fun w _ hw =>
      hperm ids ids' w hsame hw

/-! The poll task. -/

/-- Of the first page `ids` remain to be handed over. -/
structure Paged (cfg : Config) (p : Poller) (l : List EmailId) (ids : List EmailId) (w : World) :
    Prop where
  changes : w.changesToken p.user = none
  entered : (w.entered 0 ++ ids).Perm (l.take cfg.syncLimit)
  rest : w.position p.user = none → (w.entered 1).Perm (l.drop cfg.syncLimit)

/-- The poll task has begun nothing. -/
structure Unbegun (p : Poller) (w : World) : Prop where
  changes : w.changesToken p.user = none
  entered : w.entered 0 = []
  position : w.position p.user = none
  rest : w.entered 1 = []

/-- The token may be saved. -/
def MaySave (cfg : Config) (p : Poller) (l : List EmailId) (w : World) : Prop :=
  (w.changesToken p.user).isSome ∨ Paged cfg p l [] w

theorem Paged.stable {ids : List EmailId} :
    Stable (walkContract cfg p l) 0 (Paged cfg p l ids) := by
  intro w w' hw hr _
  have hr := hr.1 rfl
  exact ⟨hr.changes ▸ hw.changes, hr.entered ▸ hw.entered, hr.finished hw.rest⟩

theorem Unbegun.stable : Stable (walkContract cfg p l) 0 (Unbegun p) := by
  intro w w' hw hr _
  have hr := hr.1 rfl
  obtain ⟨hpos, hone⟩ := hr.unregistered hw.position
  exact ⟨hr.changes ▸ hw.changes, hr.entered ▸ hw.entered, hpos, hone.trans hw.rest⟩

theorem Resting.stable : Stable (walkContract cfg p l) 0 (Resting p) :=
  fun _ _ hw hr _ => hw.backfillOnly (hr.1 rfl)

theorem saved_stable : Stable (walkContract cfg p l) 0 fun w => (w.changesToken p.user).isSome := by
  intro w w' hw hr _
  rwa [(hr.1 rfl).changes]

theorem MaySave.stable : Stable (walkContract cfg p l) 0 (MaySave cfg p l) :=
  saved_stable.or Paged.stable

theorem Paged.perm {ids ids' : List EmailId} (h : ids'.Perm ids) (hw : Paged cfg p l ids w) :
    Paged cfg p l ids' w :=
  ⟨hw.changes, (h.append_left _).trans hw.entered, hw.rest⟩

theorem enter_paged (e : EmailId) (ids : List EmailId) :
    WalkStep cfg p l calls 0 (Paged cfg p l (e :: ids)) (.task (.enter (some e)))
      fun _ => Paged cfg p l ids := by
  refine walkStep_intro fun w a b w' hi hw _ _ he => ?_
  have hpos : w'.position p.user = w.position p.user :=
    state_exec (fun v hv => by cases hv) (fun hd => by cases hd) he
  have hchanges : w'.changesToken p.user = w.changesToken p.user :=
    state_exec (fun v hv => by cases hv) (fun hd => by cases hd) he
  have hzero : w'.entered 0 = w.entered 0 ++ [e] := entered_exec he 0
  have hone : w'.entered 1 = w.entered 1 := by
    rw [entered_exec he, entered_other (by decide), Option.toList_none, List.append_nil]
  refine ⟨⟨hasUser_exec he ▸ hi.user, results_exec he ▸ hi.held,
    fun s hs => hi.position s (hpos ▸ hs),
    fun hs => ?_, counts_exec (.inl rfl) he hi⟩, fun h => absurd rfl h, fun _ => ⟨hone, fun s hs =>
      hpos ▸ hs, fun hnone => .inl (hpos ▸ hnone)⟩, hchanges ▸ hw.changes, ?_, fun hnone => ?_⟩
  · rw [hchanges, hw.changes] at hs
    cases hs
  · rw [hzero, List.append_assoc]
    exact hw.entered
  · rw [hone]
    exact hw.rest (hpos ▸ hnone)

theorem savePosition_paged {v : String} (hv : v = toString cfg.syncLimit)
    (hlt : cfg.syncLimit < 2 ^ 64) :
    WalkStep cfg p l calls 0 (Unbegun p)
      (.store (.saveJmapState p.user .backfillPosition v))
      fun _ => Paged cfg p l (l.take cfg.syncLimit) := by
  subst hv
  refine walkStep_intro fun w a b w' hi hw hd _ he => ?_
  obtain ⟨-, hsaved⟩ := save_exec hi.user hd he
  have hpos : w'.position p.user = some (toString cfg.syncLimit) := by
    rw [World.position, hsaved]
    exact AList.lookup_insert _
  have hchanges : w'.changesToken p.user = w.changesToken p.user := by
    rw [World.changesToken, hsaved]
    exact AList.lookup_insert_ne (by simp)
  have hentered : ∀ i, w'.entered i = w.entered i := by
    intro i
    rw [entered_exec he]
    exact List.append_nil _
  refine ⟨⟨hasUser_exec he ▸ hi.user, results_exec he ▸ hi.held, fun s hs => ?_, fun hs => ?_,
    counts_exec (.inl rfl) he hi⟩, fun h => absurd rfl h, fun _ => ⟨hentered 1, fun s hs => ?_,
      fun _ => .inr ⟨hpos, hw.rest⟩⟩, hchanges ▸ hw.changes, ?_, fun hnone => ?_⟩
  · rw [hpos] at hs
    exact ⟨cfg.syncLimit, (Option.some.inj hs).symm, hlt, Nat.le_refl _⟩
  · rw [hchanges, hw.changes] at hs
    cases hs
  · rw [hw.position] at hs
    cases hs
  · rw [hentered, hw.entered, List.nil_append]
  · rw [hpos] at hnone
    cases hnone

theorem saveChanges_once {s : String} :
    WalkStep cfg p l calls 0 (MaySave cfg p l) (.store (.saveJmapState p.user .changes s))
      (post (fun _ w => (w.changesToken p.user).isSome) fun _ _ => False) := by
  refine walkStep_intro fun w a b w' hi hw hd _ he => ?_
  obtain ⟨rfl, hsaved⟩ := save_exec hi.user hd he
  have hpos : w'.position p.user = w.position p.user := by
    rw [World.position, hsaved]
    exact AList.lookup_insert_ne (by simp)
  have hchanges : w'.changesToken p.user = some s := by
    rw [World.changesToken, hsaved]
    exact AList.lookup_insert _
  have hentered : ∀ i, w'.entered i = w.entered i := by
    intro i
    rw [entered_exec he]
    exact List.append_nil _
  refine ⟨⟨hasUser_exec he ▸ hi.user, results_exec he ▸ hi.held,
    fun s hs => hi.position s (hpos ▸ hs),
    fun _ => ?_, counts_exec (.inl rfl) he hi⟩, fun h => absurd rfl h, fun _ =>
      ⟨hentered 1, fun s hs =>
      hpos ▸ hs, fun hnone => .inl (hpos ▸ hnone)⟩, by rw [post_ok, hchanges]; rfl⟩
  rw [hentered, hentered, hpos]
  rcases hw with hsome | hw
  · exact hi.changes hsome
  · refine ⟨?_, hw.rest⟩
    have hentered := hw.entered
    rwa [List.append_nil] at hentered

theorem readChanges_once :
    WalkTriple cfg p l calls 0 (Resting p) (onStore (.getJmapState p.user .changes))
      (post (fun s w => (s.isSome → (w.changesToken p.user).isSome) ∧ (s = none → Unbegun p w))
        fun _ _ => False) := by
  have hstable : ∀ s : Option String, Stable (walkContract cfg p l) 0
      fun w => (s.isSome → (w.changesToken p.user).isSome) ∧ (s = none → Unbegun p w) := fun s =>
    Stable.and (fun w w' hw hr hi hs => saved_stable w w' (hw hs) hr hi)
      fun w w' hw hr hi hs => Unbegun.stable w w' (hw hs) hr hi
  refine .call Resting.stable (walkStep_intro fun w a b w' hi hw hd _ he => ?_) fun r => ?_
  · obtain ⟨hinv, hrely⟩ := passive_exec (.inl rfl) rfl he hi
    refine ⟨hinv, fun _ => (hrely 0).1 rfl, fun _ => (hrely 1).2 rfl, ?_⟩
    obtain ⟨order, hb, -⟩ := store_answered hd he
    obtain rfl : b = .ok (w.changesToken p.user) := hb
    refine hstable _ w w' ⟨fun hs => hs, fun hnone => ?_⟩ (hrely 0) hinv
    obtain ⟨hzero, hpos, hone⟩ := hw hnone
    exact ⟨hnone, hzero, hpos, hone⟩
  · cases r with
    | ok s => exact hstable s
    | error _ => exact Stable.const False

theorem queryPage_once (ht : t = 0 ∨ t = 1) (position : Option Nat) {P : World → Prop}
    (hP : Stable (walkContract cfg p l) t P) :
    WalkTriple cfg p l calls t P (onJmap p.account (.queryEmail none position cfg.syncLimit))
      (post (fun q w => P w ∧ q.ids = (l.drop (position.getD 0)).take cfg.syncLimit ∧
        position.getD 0 + q.ids.length < 2 ^ 64) fun _ _ => False) := by
  refine request_triple (c := .queryEmail none position cfg.syncLimit) ht hP
    (R := fun q : QueryReply => q.ids = (l.drop (position.getD 0)).take cfg.syncLimit ∧
      position.getD 0 + q.ids.length < 2 ^ 64) fun w r v hi _ hd _ hv => ?_
  cases r <;> cases hv
  obtain ⟨hids, hlt⟩ := hd
  rw [hi.held] at hids
  exact ⟨hids, hlt⟩

theorem cutoff_none (hwindow : cfg.backfillWindow = none) :
    resolveBackfillCutoff cfg p = .pure none := by
  rw [resolveBackfillCutoff, hwindow]
  rfl

theorem registerBackfill_once {ids : List EmailId} (hids : ids = l.take cfg.syncLimit)
    (hlt : ids.length < 2 ^ 64) :
    WalkTriple cfg p l calls 0 (Unbegun p) (registerBackfill cfg p ids)
      (post (fun _ => Paged cfg p l ids) fun _ _ => False) := by
  have hlen : ids.length = min cfg.syncLimit l.length := by rw [hids, List.length_take]
  rw [registerBackfill]
  split
  · next hfull =>
    rw [hids]
    refine .bind (.call Unbegun.stable (savePosition_paged rfl (hfull ▸ hlt)) fun _ => Paged.stable)
      fun r => ?_
    exact .pure Paged.stable fun _ _ hw => hw
  · next hshort =>
    refine .ok Unbegun.stable fun w _ hw => ⟨hw.changes, ?_, fun _ => ?_⟩
    · rw [hw.entered, List.nil_append, hids]
    · rw [hw.rest, List.drop_eq_nil_of_le (by omega)]

theorem passive_act (ht : t = 0 ∨ t = 1) {x : Bridge α} {P : World → Prop}
    (hP : Stable (walkContract cfg p l) t P) (hx : Does (fun c => c.passive p.user) x) :
    WalkTriple cfg p l calls t P x (post (fun _ => P) fun _ => P) :=
  .post (passive_triple ht hP hx) fun r _ _ hw => by
    cases r with
    | ok _ => exact hw
    | error _ => exact hw

theorem bestEffort_once (ht : t = 0 ∨ t = 1) {x : Bridge α} {P : World → Prop}
    {F : Err → World → Prop}
    (hP : Stable (walkContract cfg p l) t P) (hx : Does (fun c => c.passive p.user) x) :
    WalkTriple cfg p l calls t P (bestEffort x) (post (fun _ => P) F) :=
  .bind (passive_triple ht hP hx) fun _ => .pure hP fun _ _ hw => hw

/-- Where the walk over the changes stands. -/
def WalkStanding (cfg : Config) (p : Poller) (l : List EmailId) :
    Option String ⊕ String → World → Prop
  | .inl (some _) => fun w => (w.changesToken p.user).isSome
  | .inl none => Unbegun p
  | .inr _ => MaySave cfg p l

theorem bootstrapPage_once (hwindow : cfg.backfillWindow = none) :
    WalkTriple cfg p l calls 0 (Unbegun p) (bootstrapPage cfg p)
      (post (WalkStanding cfg p l) fun _ _ => False) := by
  have hfalse : ∀ _ : Err, Stable (walkContract cfg p l) 0 fun _ => False :=
    fun _ => Stable.const False
  refine .andThen (R := fun after w => Unbegun p w ∧ after = none) ?_ hfalse fun after =>
    .assume fun hafter => ?_
  · rw [cutoff_none hwindow]
    exact .ok Unbegun.stable fun _ _ hw => ⟨hw, rfl⟩
  · subst hafter
    refine .andThen (queryPage_once (.inl rfl) none Unbegun.stable) hfalse fun q =>
      .assume fun ⟨hids, hlt⟩ => ?_
    have hids' : q.ids = l.take cfg.syncLimit := hids
    refine .andThen (registerBackfill_once hids' (by simpa using hlt)) hfalse fun _ => ?_
    refine .andThen
      (bestEffort_once (.inl rfl) Paged.stable (.store (by simp [Cmd.passive]))) hfalse
      fun _ => ?_
    refine .andThen
      (request_triple (c := .getEmailState) (R := fun _ => True) (.inl rfl) Paged.stable
      fun _ _ _ _ _ _ _ _ => trivial) hfalse fun s => .assume fun _ => ?_
    refine .andThen
      (processPage_once (J := Paged cfg p l) (.inl rfl) (fun _ => Paged.stable) enter_paged
      (fun _ _ _ => Paged.perm) q.ids) hfalse
      fun _ => ?_
    rw [if_neg Bool.false_ne_true]
    exact .ok Paged.stable fun _ _ hw => .inr hw

theorem changesPage_once (s : String) :
    WalkTriple cfg p l calls 0 (fun w => (w.changesToken p.user).isSome) (changesPage cfg p s)
      (post (WalkStanding cfg p l) fun _ _ => False) := by
  have hfalse : ∀ _ : Err, Stable (walkContract cfg p l) 0 fun _ => False :=
    fun _ => Stable.const False
  have hchanges : WalkTriple cfg p l calls 0 (fun w => (w.changesToken p.user).isSome)
      (onJmap p.account (.changesEmail s))
      (post (fun c w => (w.changesToken p.user).isSome ∧ (c.created = [] ∧ c.updated = []))
        fun _ _ => False) := by
    refine request_triple (c := .changesEmail s) (.inl rfl) saved_stable fun w r v _ _ _ hd hv => ?_
    cases r <;> cases hv
    exact hd
  have hresult : ∀ r : Except Err ChangesReply, Stable (walkContract cfg p l) 0
      (post (fun c w => (w.changesToken p.user).isSome ∧ (c.created = [] ∧ c.updated = []))
        (fun _ _ => False) r) := by
    intro r
    cases r with
    | ok _ => exact saved_stable.and (Stable.const _)
    | error _ => exact Stable.const False
  refine .andThen (.attempt hchanges hresult) hfalse fun r => ?_
  split
  · exact fun _ _ hw => hw.elim
  · exact fun _ _ hw => hw.elim
  · next response =>
    refine .assume fun ⟨hcreated, hupdated⟩ => ?_
    refine .andThen (R := fun _ w => (w.changesToken p.user).isSome)
      (.actForEach saved_stable hfalse _
      fun e _ => bestEffort_once (.inl rfl) saved_stable (.store rfl)) hfalse fun _ => ?_
    rw [hcreated, hupdated]
    refine .andThen (R := fun _ w => (w.changesToken p.user).isSome)
      (.ok saved_stable fun _ _ hw => hw) hfalse fun _ => ?_
    split
    · exact .ok saved_stable fun _ _ hw => hw
    · exact .ok saved_stable fun _ _ hw => .inl hw

theorem syncEmails_once (hwindow : cfg.backfillWindow = none) :
    WalkTriple cfg p l calls 0 (Resting p) (syncEmails cfg p)
      (post (fun _ => Resting p) fun _ _ => False) := by
  have hfalse : ∀ _ : Err, Stable (walkContract cfg p l) 0 fun _ => False :=
    fun _ => Stable.const False
  have hstanding : ∀ r, Stable (walkContract cfg p l) 0 (WalkStanding cfg p l r) := by
    intro r
    rcases r with (s | s) | s
    · exact Unbegun.stable
    · exact saved_stable
    · exact MaySave.stable
  refine .andThen readChanges_once hfalse fun lastState => ?_
  refine .andThen (R := fun _ => MaySave cfg p l) (.pre (.actLoop
    (J := fun s => WalkStanding cfg p l (.inl s)) (fun s => hstanding (.inl s))
    (fun _ => MaySave.stable) hfalse fun current => ?_) fun w _ hw => ?_) hfalse
      fun finalState => ?_
  · refine .weaken (F := fun _ _ => False) (R := WalkStanding cfg p l) ?_ (fun r w hw => ?_)
      fun _ _ hw => hw
    · cases current with
      | some state => exact changesPage_once state
      | none => exact bootstrapPage_once hwindow
    · rcases r with s | s
      · exact hw
      · exact hw
  · cases lastState with
    | some s => exact hw.1 rfl
    | none => exact hw.2 rfl
  · refine .weaken (.call MaySave.stable saveChanges_once fun r => ?_) (fun _ w hw hnone => ?_)
      fun _ _ hw => hw
    · cases r with
      | ok _ => exact saved_stable
      | error _ => exact Stable.const False
    · rw [hnone] at hw
      cases hw

theorem poll_once (hwindow : cfg.backfillWindow = none) :
    WalkTriple cfg p l calls 0 (Resting p) (poll cfg p) fun _ => Resting p := by
  have hresting : ∀ _ : Err, Stable (walkContract cfg p l) 0 (Resting p) := fun _ => Resting.stable
  have hpoll : WalkTriple cfg p l calls 0 (Resting p) (poll cfg p)
      (post (fun _ => Resting p) fun _ => Resting p) := by
    have hmailboxes : Does (MailboxCmd p fun _ => False) (pollMailboxes cfg p) :=
      pollMailboxes_does
    refine .andThen (passive_act (.inl rfl) Resting.stable (hmailboxes.mono fun _ =>
      MailboxCmd.passive)) hresting fun _ => ?_
    refine .andThen (R := fun _ => Resting p) (.bind (syncEmails_once hwindow) fun r => ?_) hresting
      fun _ => ?_
    · cases r with
      | ok _ => exact .pure Resting.stable fun _ _ hw => hw
      | error _ => exact fun _ _ hw => hw.elim
    · exact .andThen (.lift (passive_triple (.inl rfl) Resting.stable (.task rfl)) fun _ =>
        Resting.stable) hresting fun _ =>
          bestEffort_once (.inl rfl) Resting.stable (.store (by simp [Cmd.passive]))
  refine .post hpoll fun r _ _ hw => ?_
  cases r with
  | ok _ => exact hw
  | error _ => exact hw

/-! The backfill task. -/

/-- The walk goes on from `n`, with `done` handed over. -/
structure At (p : Poller) (n : Nat) (done : List EmailId) (w : World) : Prop where
  position : w.position p.user = some (toString n)
  entered : (w.entered 1).Perm done

theorem At.stable {n : Nat} {done : List EmailId} :
    Stable (walkContract cfg p l) 1 (At p n done) := by
  intro w w' hw hr _
  have hr := hr.2 rfl
  exact ⟨hr.position _ hw.position, hr.entered ▸ hw.entered⟩

theorem Resumes.stable : Stable (walkContract cfg p l) 1 (Resumes cfg p l) :=
  fun _ _ hw hr _ => hw.pollOnly (hr.2 rfl)

theorem At.resumes {n : Nat} (hw : At p n ((l.drop cfg.syncLimit).take (n - cfg.syncLimit)) w) :
    Resumes cfg p l w := by
  refine ⟨fun m hm _ => ?_, fun hnone => ?_⟩
  · have hn := toString_inj (Option.some.inj (hw.position.symm.trans hm))
    exact hn ▸ hw.entered
  · rw [hw.position] at hnone
    cases hnone

/-- What a step of the backfill task keeps while a position is stored. -/
theorem stored_exec {c : Cmd} {a : Answer} {b : c.Ans} (he : exec 1 (.mk c) a w = some (b, w'))
    (hchanges : w'.changesToken p.user = w.changesToken p.user) {s : String}
    (hpos : w.position p.user = some s)
    (hended : w'.position p.user = none → (w'.entered 1).Perm (l.drop cfg.syncLimit)) :
    BackfillOnly cfg p l w w' where
  entered := by rw [entered_exec he, entered_other (by decide), Option.toList_none, List.append_nil]
  changes := hchanges
  unregistered hnone := by
    rw [hpos] at hnone
    cases hnone
  finished _ := hended

theorem WalkInv.stored (hi : WalkInv cfg p l w) {c : Cmd} {a : Answer} {b : c.Ans}
    (he : exec 1 (.mk c) a w = some (b, w')) (hb : BackfillOnly cfg p l w w')
    (hended : w'.position p.user = none → (w'.entered 1).Perm (l.drop cfg.syncLimit))
    (hpos : ∀ s, w'.position p.user = some s → ∃ n, s = toString n ∧ n < 2 ^ 64 ∧
      cfg.syncLimit ≤ n) :
    WalkInv cfg p l w' where
  user := hasUser_exec he ▸ hi.user
  held := results_exec he ▸ hi.held
  position := hpos
  changes hs := by
    rw [hb.entered]
    exact ⟨(hi.changes (hb.changes ▸ hs)).1, hended⟩
  offers := counts_exec (.inr rfl) he hi

theorem enter_at {n : Nat} (done : List EmailId) (e : EmailId) :
    WalkStep cfg p l calls 1 (At p n done) (.task (.enter (some e)))
      fun _ => At p n (done ++ [e]) := by
  refine walkStep_intro fun w a b w' hi hw _ _ he => ?_
  have hpos : w'.position p.user = w.position p.user :=
    state_exec (fun v hv => by cases hv) (fun hd => by cases hd) he
  have hchanges : w'.changesToken p.user = w.changesToken p.user :=
    state_exec (fun v hv => by cases hv) (fun hd => by cases hd) he
  have hsome : w'.position p.user = some (toString n) := hpos.trans hw.position
  have hended : w'.position p.user = none → (w'.entered 1).Perm (l.drop cfg.syncLimit) := by
    intro hnone
    rw [hsome] at hnone
    cases hnone
  have hb : BackfillOnly cfg p l w w' := stored_exec he hchanges hw.position hended
  refine ⟨hi.stored he hb hended fun s hs => hi.position s (hpos ▸ hs), fun _ => hb,
    fun h => absurd rfl h, hsome, ?_⟩
  have hone : w'.entered 1 = w.entered 1 ++ [e] := entered_exec he 1
  rw [hone]
  exact hw.entered.append_right _

theorem savePosition_at {n m : Nat} (hlt : m < 2 ^ 64) (hle : cfg.syncLimit ≤ m) :
    WalkStep cfg p l calls 1 (At p n ((l.drop cfg.syncLimit).take (m - cfg.syncLimit)))
      (.store (.saveJmapState p.user .backfillPosition (toString m)))
      (post (fun _ => Resumes cfg p l) fun _ _ => False) := by
  refine walkStep_intro fun w a b w' hi hw hd _ he => ?_
  obtain ⟨rfl, hsaved⟩ := save_exec hi.user hd he
  have hpos : w'.position p.user = some (toString m) := by
    rw [World.position, hsaved]
    exact AList.lookup_insert _
  have hchanges : w'.changesToken p.user = w.changesToken p.user := by
    rw [World.changesToken, hsaved]
    exact AList.lookup_insert_ne (by simp)
  have hended : w'.position p.user = none → (w'.entered 1).Perm (l.drop cfg.syncLimit) := by
    intro hnone
    rw [hpos] at hnone
    cases hnone
  have hb : BackfillOnly cfg p l w w' := stored_exec he hchanges hw.position hended
  have hat : At p m ((l.drop cfg.syncLimit).take (m - cfg.syncLimit)) w' := by
    have hone : w'.entered 1 = w.entered 1 := (entered_exec he 1).trans (List.append_nil _)
    exact ⟨hpos, hone ▸ hw.entered⟩
  refine ⟨hi.stored he hb hended fun s hs => ?_, fun _ => hb, fun h => absurd rfl h, hat.resumes⟩
  exact ⟨m, (Option.some.inj (hpos.symm.trans hs)).symm, hlt, hle⟩

theorem deletePosition_at {n : Nat} :
    WalkStep cfg p l calls 1 (At p n (l.drop cfg.syncLimit))
      (.store (.deleteJmapState p.user .backfillPosition)) fun _ => Resumes cfg p l := by
  refine walkStep_intro fun w a b w' hi hw hd _ he => ?_
  obtain ⟨order, -, hstore⟩ := store_answered hd he
  have hpos : w'.position p.user = none := by
    rw [World.position, hstore]
    exact AList.lookup_erase _ _
  have hchanges : w'.changesToken p.user = w.changesToken p.user := by
    rw [World.changesToken, hstore]
    exact AList.lookup_erase_ne (by simp)
  have hdone : (w'.entered 1).Perm (l.drop cfg.syncLimit) := by
    have hone : w'.entered 1 = w.entered 1 := (entered_exec he 1).trans (List.append_nil _)
    exact hone ▸ hw.entered
  have hb : BackfillOnly cfg p l w w' := stored_exec he hchanges hw.position fun _ => hdone
  refine ⟨hi.stored he hb (fun _ => hdone) fun s hs => ?_, fun _ => hb, fun h => absurd rfl h,
    fun m hm => ?_, fun _ => .inr hdone⟩
  · rw [hpos] at hs
    cases hs
  · rw [hpos] at hm
    cases hm

theorem walk_append {n limit : Nat} (hle : limit ≤ n) :
    (l.drop limit).take (n - limit) ++ (l.drop n).take limit = (l.drop limit).take n := by
  have hdrop : l.drop n = (l.drop limit).drop (n - limit) := by
    rw [List.drop_drop, Nat.add_sub_cancel' hle]
  have hn : n = n - limit + limit := (Nat.sub_add_cancel hle).symm
  conv_rhs => rw [hn, List.take_add]
  rw [hdrop]

theorem walk_end {n limit : Nat} (hle : limit ≤ n)
    (hshort : ((l.drop n).take limit).length < limit) :
    (l.drop limit).take (n - limit) ++ (l.drop n).take limit = l.drop limit := by
  rw [walk_append hle]
  refine List.take_of_length_le ?_
  rw [List.length_take, List.length_drop] at hshort
  rw [List.length_drop]
  omega

/-- Of the page behind `n` the emails `ids` remain to be handed over. -/
def Batch (p : Poller) (n : Nat) (page : List EmailId) (ids : List EmailId) (w : World) : Prop :=
  ∃ done, At p n done w ∧ (done ++ ids).Perm page

theorem Batch.stable {n : Nat} {page ids : List EmailId} :
    Stable (walkContract cfg p l) 1 (Batch p n page ids) :=
  Stable.exists fun _ => At.stable.and (Stable.const _)

theorem enter_batch {n : Nat} {page : List EmailId} (e : EmailId) (ids : List EmailId) :
    WalkStep cfg p l calls 1 (Batch p n page (e :: ids)) (.task (.enter (some e)))
      fun _ => Batch p n page ids := by
  intro w a b w' hi ⟨done, hat, hpage⟩ hd he
  obtain ⟨hinv, hrely, hat'⟩ := enter_at done e w a b w' hi hat hd he
  refine ⟨hinv, hrely, done ++ [e], hat', ?_⟩
  rw [List.append_assoc]
  exact hpage

theorem backfillBatch_once (hwindow : cfg.backfillWindow = none) (hlimit : 1 ≤ cfg.syncLimit)
    {n : Nat} (hle : cfg.syncLimit ≤ n) :
    WalkTriple cfg p l calls 1 (At p n ((l.drop cfg.syncLimit).take (n - cfg.syncLimit)))
      (backfillBatch cfg p n)
      (post (fun more w => (more = true → Resumes cfg p l w) ∧
        (more = false → At p n (l.drop cfg.syncLimit) w)) fun _ => Resumes cfg p l) := by
  have hresumes : ∀ _ : Err, Stable (walkContract cfg p l) 1 (Resumes cfg p l) :=
    fun _ => Resumes.stable
  have hat : ∀ done, Stable (walkContract cfg p l) 1 (At p n done) := fun _ => At.stable
  refine .andThen (R := fun after w => At p n ((l.drop cfg.syncLimit).take (n - cfg.syncLimit)) w ∧
    after = none) ?_ hresumes fun after => .assume fun hafter => ?_
  · rw [cutoff_none hwindow]
    exact .ok (hat _) fun _ _ hw => ⟨hw, rfl⟩
  subst hafter
  split
  · exact .fail (hat _) fun _ _ hw => hw.resumes
  · refine .andThen (.weaken (queryPage_once (.inr rfl) (some n) (hat _)) (fun _ _ hw => hw)
      fun _ _ hw => hw.elim) hresumes fun q => .assume fun ⟨hids, hlt⟩ => ?_
    have hids : q.ids = (l.drop n).take cfg.syncLimit := hids
    have hlt : n + q.ids.length < 2 ^ 64 := hlt
    have hend : q.ids.length < cfg.syncLimit →
        (l.drop cfg.syncLimit).take (n - cfg.syncLimit) ++ q.ids = l.drop cfg.syncLimit := by
      intro hshort
      rw [hids] at hshort ⊢
      exact walk_end hle hshort
    split
    · next hempty =>
      have hnil : q.ids = [] := List.isEmpty_iff.mp hempty
      rw [hnil, List.append_nil] at hend
      refine .ok (hat _) fun w _ hw => ⟨fun htrue => (by cases htrue), fun _ => ?_⟩
      rwa [← hend hlimit]
    · refine .andThen (.weaken (fetchEmails_once (.inr rfl) q.ids (hat _)) (fun _ _ hw => hw)
        fun _ _ hw => hw.elim) hresumes fun emails => .assume fun hemails => ?_
      obtain ⟨ids', hids', hsame⟩ := fetched_ids hemails
      have hall :
          WalkTriple cfg p l calls 1 (At p n ((l.drop cfg.syncLimit).take (n - cfg.syncLimit)))
          (processAll cfg p emails)
          (post (fun _ => At p n ((l.drop cfg.syncLimit).take (n - cfg.syncLimit) ++ q.ids))
            fun _ => Resumes cfg p l) := by
        refine .weaken (.pre (processAll_enters (.inr rfl) (J := Batch p n _)
          (fun _ => Batch.stable) enter_batch emails ids' hids') fun w _ hw =>
          ⟨_, hw, hsame.append_left _⟩)
          (fun _ w hw => ?_) fun _ _ hw => hw.elim
        obtain ⟨done, hdone, hpage⟩ := hw
        rw [List.append_nil] at hpage
        exact ⟨hdone.position, hdone.entered.trans hpage⟩
      refine .andThen hall hresumes fun _ => ?_
      split
      · next hshort =>
        rw [hend hshort]
        exact .ok (hat _) fun w _ hw => ⟨fun htrue => (by cases htrue), fun _ => hw⟩
      · next hfull =>
        have hlen : q.ids.length = cfg.syncLimit := by
          have hmost : q.ids.length ≤ cfg.syncLimit := by
            rw [hids]
            exact List.length_take_le _ _
          omega
        have hdone : (l.drop cfg.syncLimit).take (n - cfg.syncLimit) ++ q.ids =
            (l.drop cfg.syncLimit).take (n + q.ids.length - cfg.syncLimit) := by
          rw [hlen, Nat.add_sub_cancel, hids]
          exact walk_append hle
        rw [hdone]
        refine .andThen (.weaken (.call (hat _) (savePosition_at hlt (by omega)) fun r => ?_)
          (fun _ _ hw => hw) fun _ _ hw => hw.elim) hresumes fun _ =>
            .ok Resumes.stable fun _ _ hw => ⟨fun _ => hw, fun hfalse => by cases hfalse⟩
        cases r with
        | ok _ => exact Resumes.stable
        | error _ => exact Stable.const False

/-- What the backfill task reads is where it goes on. -/
def Reads (cfg : Config) (p : Poller) (l : List EmailId) (r : Except Err (Option String))
    (w : World) :
    Prop :=
  Resumes cfg p l w ∧ ∀ s, r = .ok (some s) → ∃ n, Rust.Str.parseUsize s.toList = some n ∧
    At p n ((l.drop cfg.syncLimit).take (n - cfg.syncLimit)) w ∧ cfg.syncLimit ≤ n

theorem Reads.stable (r : Except Err (Option String)) :
    Stable (walkContract cfg p l) 1 (Reads cfg p l r) := by
  intro w w' hw hrely hi
  refine ⟨Resumes.stable w w' hw.1 hrely hi, fun s hs => ?_⟩
  obtain ⟨n, hn, hat, hle⟩ := hw.2 s hs
  exact ⟨n, hn, At.stable w w' hat hrely hi, hle⟩

theorem readPosition_once :
    WalkTriple cfg p l calls 1 (Resumes cfg p l) (onStore (.getJmapState p.user .backfillPosition))
      (Reads cfg p l) := by
  refine .call Resumes.stable (walkStep_intro fun w a b w' hi hw hd _ he => ?_) Reads.stable
  obtain ⟨hinv, hrely⟩ := passive_exec (.inr rfl) rfl he hi
  refine ⟨hinv, fun _ => (hrely 0).1 rfl, fun _ => (hrely 1).2 rfl, ?_⟩
  refine Reads.stable b w w' ⟨hw, fun s hs => ?_⟩ (hrely 1) hinv
  obtain ⟨order, hb, -⟩ := store_answered hd he
  have hpos : w.position p.user = some s := Except.ok.inj (hb.symm.trans hs)
  obtain ⟨n, rfl, hlt, hle⟩ := hi.position s hpos
  exact ⟨n, Rust.Str.parseUsize_toString_of_lt hlt, ⟨hpos, hw.walking n hpos hle⟩, hle⟩

theorem backfillRound_once (hwindow : cfg.backfillWindow = none) (hlimit : 1 ≤ cfg.syncLimit) :
    WalkTriple cfg p l calls 1 (Resumes cfg p l) (backfillRound cfg p) fun _ =>
      Resumes cfg p l := by
  refine .bind (passive_triple (.inr rfl) Resumes.stable (.store rfl)) fun changes => ?_
  extract_lets hasInitialSync
  refine .bind readPosition_once fun position => ?_
  have hsleep : ∀ ms ended, WalkTriple cfg p l calls 1 (Resumes cfg p l)
      (Prog.bind (onTask (.sleep ms)) fun _ => .pure ended) fun _ : Bool => Resumes cfg p l :=
    fun _ _ => passive_triple (.inr rfl) Resumes.stable (.bind (.task rfl) fun _ => .pure)
  split
  · next posStr =>
    split
    · next hnone =>
      intro w hi hw
      obtain ⟨n, hn, -⟩ := hw.2 posStr rfl
      rw [hnone] at hn
      cases hn
    · next pos hpos =>
      refine .bind (R := post (fun more w => (more = true → Resumes cfg p l w) ∧
        (more = false → At p pos (l.drop cfg.syncLimit) w)) fun _ => Resumes cfg p l)
        (.pre (.assume fun hle => backfillBatch_once hwindow hlimit hle) fun w _ hw => ?_)
          fun r => ?_
      · obtain ⟨n, hn, hat, hle⟩ := hw.2 posStr rfl
        obtain rfl : n = pos := Option.some.inj (hn.symm.trans hpos)
        exact ⟨hat, hle⟩
      · split
        · exact .pre (hsleep _ _) fun _ _ hw => hw.1 rfl
        · refine .bind (.pre (.call At.stable deletePosition_at fun _ => Resumes.stable)
            fun w _ hw => hw.2 rfl) fun _ => ?_
          exact passive_triple (.inr rfl) Resumes.stable (.bind (.result (.store (by
            simp [Cmd.passive]))) fun _ => .pure)
        · exact hsleep _ _
  · refine .pre ?_ fun w _ (hw : Reads cfg p l _ w) => hw.1
    split
    · exact .pure Resumes.stable fun _ _ hw => hw
    · exact hsleep _ _

theorem runBackfillLoop_once (hwindow : cfg.backfillWindow = none) (hlimit : 1 ≤ cfg.syncLimit) :
    WalkTriple cfg p l calls 1 (Resumes cfg p l) (runBackfillLoop cfg p)
      fun _ => Resumes cfg p l := by
  refine .bind (passive_triple (.inr rfl) Resumes.stable (.task rfl)) fun _ => ?_
  refine .loop (J := fun _ => Resumes cfg p l) (R := fun _ => Resumes cfg p l) (fun _ => ?_)
    fun _ =>
    .pure Resumes.stable fun _ _ hw => hw
  refine .bind (backfillRound_once hwindow hlimit) fun ended =>
    .pure Resumes.stable fun _ _ hw => ?_
  cases ended
  · exact hw
  · exact hw

/-! The run. -/

theorem walk_upholds (hwindow : cfg.backfillWindow = none) (hlimit : 1 ≤ cfg.syncLimit)
    (hpoll : calls 0 = .poll p) (hbackfill : calls 1 = .backfill p) :
    Upholds (bridge cfg calls) (undisturbed p) (walkContract cfg p l) where
  start := fun t w hi hidle hle => by
    have ht : t = 0 ∨ t = 1 := by
      have hle : t ≤ 1 := hle
      omega
    rcases ht with rfl | rfl
    · have htriple : WalkTriple cfg p l calls 0 (Resting p) ((calls 0).program cfg)
          fun _ => Resting p := by
        rw [hpoll]
        exact .bind (poll_once hwindow) fun _ => .pure Resting.stable fun _ _ hw => hw
      refine htriple.post (fun _ w _ hw => ?_) w hi (hidle.1 rfl)
      exact ⟨fun _ => hw, fun h => by cases h⟩
    · have htriple : WalkTriple cfg p l calls 1 (Resumes cfg p l) ((calls 1).program cfg)
          fun _ => Resumes cfg p l := by
        rw [hbackfill]
        exact runBackfillLoop_once hwindow hlimit
      refine htriple.post (fun _ w _ hw => ?_) w hi (hidle.2 rfl)
      exact ⟨fun h => (by cases h), fun _ => hw⟩
  env := by
    intro ev w w' hi hd he
    obtain ⟨htrace, hstate, huser, hmail⟩ := env_quiet he
    have hheld : w'.mail.results p.account none = w.mail.results p.account none := by
      rcases hmail with hmail | ⟨m, rfl, rfl⟩
      · rw [hmail]
      · exact hd
    have hpos : w'.position p.user = w.position p.user := by
      rw [World.position, hstate, World.position]
    have hchanges : w'.changesToken p.user = w.changesToken p.user := by
      rw [World.changesToken, hstate, World.changesToken]
    have hentered : ∀ i, w'.entered i = w.entered i := by
      intro i
      rw [World.entered, htrace, World.entered]
    refine ⟨⟨huser _ hi.user, hheld.trans hi.held, fun s hs => hi.position s (hpos ▸ hs),
      fun hs => ?_,
      fun e => ?_⟩, fun _ =>
        ⟨fun _ => ⟨hentered 0, hchanges, fun hnone => ⟨hpos ▸ hnone, hentered 1⟩,
        fun h => ?_⟩, fun _ =>
          ⟨hentered 1, fun s hs => hpos ▸ hs, fun hnone => .inl (hpos ▸ hnone)⟩⟩⟩
    · rw [hentered, hentered, hpos]
      exact hi.changes (hchanges ▸ hs)
    · rw [World.offers, htrace, hentered, hentered]
      exact hi.offers e
    · rw [hpos, hentered]
      exact h
  cancel := fun _ _ _ hcancel => hcancel.elim

theorem offers_of_run (hwindow : cfg.backfillWindow = none) (hlimit : 1 ≤ cfg.syncLimit)
    (hpoll : calls 0 = .poll p) (hbackfill : calls 1 = .backfill p) (huser : w.store.hasUser p.user)
    (hheld : w.mail.results p.account none = l) (hposition : w.position p.user = none)
    (hchanges : w.changesToken p.user = none) (htrace : w.trace = [])
    {es : List (Event Answer Env)} {q : Pool Op World}
    (hrun : (bridge cfg calls).run es (Pool.boot w) = some q)
    (hD : (bridge cfg calls).Admits (undisturbed p).meets es (Pool.boot w))
    (hsaved : (q.world.changesToken p.user).isSome) (hover : q.world.position p.user = none)
    (e : EmailId) : q.world.offers e = l.count e := by
  have hentered : ∀ i, w.entered i = [] := by
    intro i
    rw [World.entered, htrace]
    rfl
  have hinv : WalkInv cfg p l w := by
    refine ⟨huser, hheld, fun s hs => ?_, fun hs => ?_, fun e => ?_⟩
    · rw [hposition] at hs
      cases hs
    · rw [hchanges] at hs
      cases hs
    · rw [World.offers, htrace, hentered, hentered]
      rfl
  have hidle : ∀ t, (walkContract cfg p l).idle t w := by
    intro t
    refine ⟨fun _ _ => ⟨hentered 0, hposition, hentered 1⟩, fun _ => ⟨fun n hn => ?_, fun _ =>
      .inl (hentered 1)⟩⟩
    rw [hposition] at hn
    cases hn
  have hend := (walk_upholds hwindow hlimit hpoll hbackfill).inv_of_run hinv hidle hrun hD
  obtain ⟨hfirst, hrest⟩ := hend.changes hsaved
  rw [hend.offers, hfirst.count_eq, (hrest hover).count_eq, ← List.count_append,
    List.take_append_drop]

end

end JmapBridge
