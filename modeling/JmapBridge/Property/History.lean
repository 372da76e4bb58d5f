import JmapBridge.Property.InitialSync
import JmapBridge.Property.OneWalk

/-! The first page and the walk behind it cover a mailbox that does not change, whatever
fails and whenever a task is cut off. -/

namespace JmapBridge

open Effect

section

variable {cfg : Config} {p : Poller} {calls : Nat → Call}

/-- With an unchanging mailbox all of it is known when the state is read. -/
def wholeMailbox (cfg : Config) (l : List EmailId) : Handoff where
  first := l.take cfg.syncLimit
  read := l
  known _ := l

theorem results_next {ev : Event Answer Env} {q q' : Pool Op World}
    (hd : (unchanging p).meets ev q) (hnext : (bridge cfg calls).next ev q = some q') :
    q'.world.mail.results p.account none = q.world.mail.results p.account none := by
  cases ev with
  | start t =>
    obtain ⟨-, rfl⟩ := System.next_start hnext
    rfl
  | step t a =>
    obtain ⟨β, ⟨c⟩, k, b, w, -, he, rfl⟩ := System.next_step hnext
    have he : exec t (.mk c) a q.world = some (b, w) := he
    rw [Pool.put_world, results_exec he]
  | tau t =>
    rcases System.next_tau hnext with ⟨a, -, rfl⟩ | ⟨β, σ, body, s, k, -, rfl⟩
    · rfl
    · rfl
  | cancel t =>
    obtain rfl := System.next_cancel hnext
    rfl
  | env e =>
    obtain ⟨w, he, rfl⟩ := System.next_env hnext
    rcases (env_quiet he).2.2.2 with hmail | ⟨m, rfl, rfl⟩
    · exact congrArg (·.results p.account none) hmail
    · exact hd

theorem handing_of_unchanging (hwindow : cfg.backfillWindow = none) {l : List EmailId} {c : Cmd}
    {a : Answer} {w : World} (hheld : w.mail.results p.account none = l) (hd : c.unchanging a w) :
    c.handing cfg p (wholeMailbox cfg l) a w := by
  unfold Cmd.handing
  split
  · exact hd
  · next account after position limit q =>
    obtain ⟨hids, hlt⟩ := hd
    refine ⟨fun hsome => ?_, hids, hlt, fun haccount hafter hlimit hposition => ?_⟩
    · rw [hwindow] at hsome
      cases hsome
    · have hafter : after = none := hafter
      rw [hids, haccount, hafter, hlimit, hposition, hheld]
      rfl
  · exact hd
  · exact ⟨hheld, rfl⟩
  · exact fun e he => .inl he
  · trivial

theorem meets_handing (hwindow : cfg.backfillWindow = none) {l : List EmailId}
    {ev : Event Answer Env} {q : Pool Op World}
    (hheld : q.world.mail.results p.account none = l) (hd : (unchanging p).meets ev q) :
    (handing cfg p (wholeMailbox cfg l)).meets ev q := by
  cases ev with
  | step t a =>
    simp only [Discipline.meets] at hd ⊢
    split
    · next o k ht =>
      rw [ht] at hd
      exact handing_of_unchanging hwindow hheld hd
    · trivial
  | env e =>
    cases e with
    | mail m =>
      have hsame : m.results p.account none = l := Eq.trans hd hheld
      refine ⟨?_, .inl fun i hi => .inl ?_⟩
      · change (q.world.mail.results p.account none).Sublist (m.results p.account none)
        rw [hheld, hsame]
      · change i ∈ q.world.mail.results p.account none
        rw [hheld, ← hsame]
        exact hi
    | _ => trivial
  | _ => trivial

theorem results_of_run {es : List (Event Answer Env)} {q q' : Pool Op World}
    (hrun : (bridge cfg calls).run es q = some q')
    (hD : (bridge cfg calls).Admits (unchanging p).meets es q) :
    q'.world.mail.results p.account none = q.world.mail.results p.account none :=
  (bridge cfg calls).run_induct (P := fun q' : Pool Op World =>
    q'.world.mail.results p.account none = q.world.mail.results p.account none)
      (fun _ _ _ hq hd hnext => (results_next hd hnext).trans hq)
    rfl hrun hD

/-- When the token is saved and no walk is stored, every email of an unchanging mailbox has
been offered, and exactly once when one poll task and one backfill task were at work without
a crash or a failure. -/
theorem history_is_covered (hwindow : cfg.backfillWindow = none) (hlimit : 1 ≤ cfg.syncLimit)
    (hcalls : ∀ t, calls t = .poll p ∨ calls t = .backfill p) {w : World}
    (huser : w.store.hasUser p.user) (hposition : w.position p.user = none)
    (hchanges : w.changesToken p.user = none) (htrace : w.trace = []) {es : List (Event Answer Env)}
    {q : Pool Op World} (hrun : (bridge cfg calls).run es (Pool.boot w) = some q)
    (hD : (bridge cfg calls).Admits (unchanging p).meets es (Pool.boot w))
    (hsaved : (q.world.changesToken p.user).isSome) (hover : q.world.position p.user = none) :
    (∀ e ∈ q.world.mail.results p.account none, q.world.offered e) ∧
      (calls 0 = .poll p → calls 1 = .backfill p →
        (bridge cfg calls).Admits (undisturbed p).meets es (Pool.boot w) →
        (q.world.mail.results p.account none).Nodup →
        ∀ e ∈ q.world.mail.results p.account none, q.world.offers e = 1) := by
  have hheld : q.world.mail.results p.account none = w.mail.results p.account none :=
    results_of_run hrun hD
  constructor
  · have hhanding : (bridge cfg calls).Admits
        (handing cfg p (wholeMailbox cfg (w.mail.results p.account none))).meets es (Pool.boot w) :=
      (bridge cfg calls).admits_mono (P := fun q : Pool Op World =>
        q.world.mail.results p.account none = w.mail.results p.account none)
          (fun _ _ _ hq hd hnext => (results_next hd hnext).trans hq)
        (fun _ _ hq hd => meets_handing hwindow hq hd) rfl hD
    have hinv :=
      handoffInv_of_run hlimit (fun _ => rfl) hcalls huser hposition hchanges hrun hhanding
    obtain ⟨s, hs⟩ := Option.isSome_iff_exists.mp hsaved
    have hready := hinv.changes s hs
    have hahead : q.world.ahead p.user = none := by rw [World.ahead, hover, Option.bind_none]
    intro e he
    have hread : e ∈ w.mail.results p.account none := hheld ▸ he
    rcases hready.registered.remaining e he hread with hfirst | hoff | hmem | ⟨n, hn, -⟩
    · exact hready.first e hfirst
    · exact hoff
    · cases hmem
    · rw [hahead] at hn
      cases hn
  · intro hpoll hbackfill hD' hnodup e he
    have hoffers := offers_of_run hwindow hlimit hpoll hbackfill huser rfl hposition hchanges htrace
      hrun hD' hsaved hover e
    rw [hoffers, ← hheld]
    exact List.count_eq_one_of_mem hnodup he

end

/-- `Cmd.unchanging` as a test. -/
def Cmd.leavesMail (c : Cmd) (a : Answer) (w : World) : Bool :=
  match c, a with
  | .store _, a => a.reliable
  | .jmap account (.queryEmail after position limit), .reply (.queried q) =>
    decide (q.ids = ((w.mail.results account after).drop (position.getD 0)).take limit ∧
      position.getD 0 + q.ids.length < 2 ^ 64)
  | .jmap _ (.getEmail ids), .reply (.emails l) => decide (∀ e ∈ ids, ∃ m ∈ l, m.id = some e)
  | _, _ => true

theorem leavesMail_iff {c : Cmd} {a : Answer} {w : World} :
    c.leavesMail a w = true ↔ c.unchanging a w := by
  unfold Cmd.leavesMail Cmd.unchanging
  split <;> first | exact decide_eq_true_iff | simp

/-- `Cmd.undisturbed` as a test. -/
def Cmd.allGoesWell (c : Cmd) (a : Answer) : Bool :=
  match c, a with
  | .jmap _ (.getEmail ids), .reply (.emails l) => decide ((l.map (·.id)).Perm (ids.map some))
  | .jmap _ (.changesEmail _), .reply (.changes r) => decide (r.created = [] ∧ r.updated = [])
  | .jmap _ _, .reply _ => true
  | .jmap _ _, _ => false
  | _, _ => true

theorem allGoesWell_iff {c : Cmd} {a : Answer} : c.allGoesWell a = true ↔ c.undisturbed a := by
  unfold Cmd.allGoesWell Cmd.undisturbed
  split <;> first | exact decide_eq_true_iff | simp

instance decidableUnchangingStep (c : Cmd) (a : Answer) (w : World) :
    Decidable (c.unchanging a w) := decidable_of_iff _ leavesMail_iff

instance decidableUndisturbedStep (c : Cmd) (a : Answer) : Decidable (c.undisturbed a) :=
  decidable_of_iff _ allGoesWell_iff

instance decidableUnchangingEnv (p : Poller) (e : Env) (w : World) :
    Decidable (e.unchanging p w) :=
  match e with
  | .mail m =>
    inferInstanceAs (Decidable (m.results p.account none = w.mail.results p.account none))
  | .release _ _ => instDecidableTrue
  | .advance _ => instDecidableTrue
  | .login _ _ _ => instDecidableTrue

instance decidableUnchanging (p : Poller) (ev : Event Answer Env) (q : Pool Op World) :
    Decidable ((unchanging p).meets ev q) :=
  @Discipline.decidableMeets Op World Answer Env (unchanging p) (fun _ _ => instDecidableTrue)
    (fun _ _ o a w => decidableUnchangingStep o.cmd a w) (fun _ _ => instDecidableTrue)
    (fun e w => decidableUnchangingEnv p e w) ev q

instance decidableUndisturbed (p : Poller) (ev : Event Answer Env) (q : Pool Op World) :
    Decidable ((undisturbed p).meets ev q) :=
  @Discipline.decidableMeets Op World Answer Env (undisturbed p) (fun t _ => Nat.decLe t 1)
    (fun _ _ o a w =>
      inferInstanceAs (Decidable (o.cmd.unchanging a w ∧ o.cmd.undisturbed a)))
    (fun _ _ => instDecidableFalse) (fun e w => decidableUnchangingEnv p e w) ev q

/-- A mailbox of two emails, one a page. -/
def twoPages : List (Event Answer Env) :=
  ([.start 0, .step 0 .done, .tau 0, .step 0 (.reply (.queried { ids := ["e1"] })), .step 0 .done,
      .step 0 .done, .step 0 (.reply (.state "s1")),
      .step 0 (.reply (.emails [plainMail "e1"]))] : List (Event Answer Env)) ++ leavesBehind ++
    ([.step 0 .done] : List (Event Answer Env)) ++
    ([.start 1, .step 1 .done, .tau 1, .step 1 .done, .step 1 .done,
      .step 1 (.reply (.queried { ids := ["e2"] })),
      .step 1 (.reply (.emails [plainMail "e2"]))] : List (Event Answer Env)) ++
    List.replicate 5 (.step 1 .done) ++
    ([.step 1 .done, .step 1 .done, .tau 1, .step 1 .done, .step 1 .done,
      .step 1 (.reply (.queried {})),
      .step 1 .done, .step 1 .done] : List (Event Answer Env))

theorem history_is_covered_two : ∃ q,
    (bridge { syncLimit := 1 } ownerCalls).run twoPages
      (Pool.boot (threeEmails.mailing ["e1", "e2"])) = some q ∧
      (∀ e ∈ q.world.mail.results owner.account none, q.world.offered e) ∧
        ∀ e ∈ q.world.mail.results owner.account none, q.world.offers e = 1 := by
  have hends : ((bridge { syncLimit := 1 } ownerCalls).run twoPages
      (Pool.boot (threeEmails.mailing ["e1", "e2"]))).map (fun q =>
        ((q.world.changesToken owner.user).isSome, q.world.position owner.user,
          q.world.mail.results owner.account none)) = some (true, none, ["e1", "e2"]) := by
    decide +kernel
  have hD : (bridge { syncLimit := 1 } ownerCalls).Admits (unchanging owner).meets twoPages
      (Pool.boot (threeEmails.mailing ["e1", "e2"])) := by decide +kernel
  have hD' : (bridge { syncLimit := 1 } ownerCalls).Admits (undisturbed owner).meets twoPages
      (Pool.boot (threeEmails.mailing ["e1", "e2"])) := by decide +kernel
  obtain ⟨q, hq, hs⟩ := Option.map_eq_some_iff.mp hends
  obtain ⟨hsaved, hrest⟩ := Prod.mk.inj hs
  obtain ⟨hover, hheld⟩ := Prod.mk.inj hrest
  have hcalls : ∀ t, ownerCalls t = .poll owner ∨ ownerCalls t = .backfill owner := by
    intro t
    unfold ownerCalls
    cases t == 0
    · exact .inr rfl
    · exact .inl rfl
  have hlimit : 1 ≤ ({ syncLimit := 1 } : Config).syncLimit := by decide
  obtain ⟨hleast, honce⟩ := history_is_covered rfl hlimit hcalls (by decide +kernel)
    (by decide +kernel) (by decide +kernel) rfl hq hD hsaved hover
  refine ⟨q, hq, hleast, honce rfl rfl hD' ?_⟩
  rw [hheld]
  decide

end JmapBridge
