import JmapBridge.Property.Coverage
import JmapBridge.Property.PositionalWalk

/-! The handoff from the first page to the walk and to `Email/changes`. -/

namespace JmapBridge

open Effect

/-- Mail only arrives, at any time and at any place. -/
def growing (cfg : Config) (p : Poller) (h : Handoff) : Discipline Op World Answer Env where
  step _ _ o a w := o.cmd.handing cfg p h a w
  env e w := match e with
    | .mail m => (w.held p h).Sublist (m.results p.account h.floor)
    | _ => True

/-- `Cmd.handing` as a test. -/
def Cmd.hands (cfg : Config) (p : Poller) (h : Handoff) (c : Cmd) (a : Answer) (w : World) : Bool :=
  match c, a with
  | .store _, a => a.reliable
  | .jmap account (.queryEmail after position limit), .reply (.queried q) =>
    decide ((cfg.backfillWindow.isSome → after = h.floor) ∧
      q.ids = ((w.mail.results account after).drop (position.getD 0)).take limit ∧
      position.getD 0 + q.ids.length < 2 ^ 64 ∧ (account = p.account → after = h.floor →
        limit = cfg.syncLimit → position = none → q.ids = h.first))
  | .jmap _ (.getEmail ids), .reply (.emails l) => decide (∀ e ∈ ids, ∃ m ∈ l, m.id = some e)
  | .jmap _ .getEmailState, .reply (.state s) => decide (w.held p h = h.read ∧ h.known s = h.read)
  | .jmap _ (.changesEmail s), .reply (.changes r) =>
    decide (∀ e ∈ h.known r.newState, e ∈ h.known s ∨ e ∈ r.created ++ r.updated)
  | _, _ => true

theorem hands_iff {cfg : Config} {p : Poller} {h : Handoff} {c : Cmd} {a : Answer} {w : World} :
    c.hands cfg p h a w = true ↔ c.handing cfg p h a w := by
  unfold Cmd.hands Cmd.handing
  split <;> first | exact decide_eq_true_iff | simp

instance decidableHandingStep (cfg : Config) (p : Poller) (h : Handoff) (c : Cmd) (a : Answer)
    (w : World) : Decidable (c.handing cfg p h a w) := decidable_of_iff _ hands_iff

instance decidableArriving (cfg : Config) (p : Poller) (h : Handoff) (e : Env) (w : World) :
    Decidable (e.arriving cfg p h w) :=
  match e with
  | .mail _ => inferInstanceAs (Decidable (_ ∧ (_ ∨ _ ∧ _)))
  | .release _ _ => instDecidableTrue
  | .advance _ => instDecidableTrue
  | .login _ _ _ => instDecidableTrue

instance decidableHanding (cfg : Config) (p : Poller) (h : Handoff) (ev : Event Answer Env)
    (q : Pool Op World) : Decidable ((handing cfg p h).meets ev q) :=
  @Discipline.decidableMeets Op World Answer Env (handing cfg p h) (fun _ _ => instDecidableTrue)
    (fun _ _ o a w => decidableHandingStep cfg p h o.cmd a w) (fun _ _ => instDecidableTrue)
    (fun e w => decidableArriving cfg p h e w) ev q

instance decidableGrowing (cfg : Config) (p : Poller) (h : Handoff) (ev : Event Answer Env)
    (q : Pool Op World) : Decidable ((growing cfg p h).meets ev q) :=
  @Discipline.decidableMeets Op World Answer Env (growing cfg p h) (fun _ _ => instDecidableTrue)
    (fun _ _ o a w => decidableHandingStep cfg p h o.cmd a w) (fun _ _ => instDecidableTrue)
    (fun e w => by
      cases e with
      | mail m => exact inferInstanceAs (Decidable (List.Sublist _ _))
      | _ => exact instDecidableTrue) ev q

/-- Once the changes token is saved, every email in the window has been offered, or arrived
after the state of the token and is reported by `Email/changes`, or lies ahead of the stored
position, provided that what arrives between the first query and the read of the state lies
behind the pages of a walk that goes on. -/
theorem initial_sync_loses_nothing {cfg : Config} {p : Poller} {h : Handoff} {calls : Nat → Call}
    (hlimit : 1 ≤ cfg.syncLimit) (hfloor : cfg.backfillWindow.isSome = false → h.floor = none)
    (hcalls : ∀ t, calls t = .poll p ∨ calls t = .backfill p) {w : World}
    (huser : w.store.hasUser p.user) (hposition : w.position p.user = none)
    (hchanges : w.changesToken p.user = none) {es : List (Event Answer Env)} {q : Pool Op World}
    (hrun : (bridge cfg calls).run es (Pool.boot w) = some q)
    (hD : (bridge cfg calls).Admits (handing cfg p h).meets es (Pool.boot w)) {s : String}
    (hs : q.world.changesToken p.user = some s) :
    ∀ e ∈ q.world.held p h, q.world.offered e ∨ e ∉ h.known s ∨
      ∃ n ∈ q.world.ahead p.user, e ∈ (q.world.held p h).drop n := by
  have hinv := handoffInv_of_run hlimit hfloor hcalls huser hposition hchanges hrun hD
  have hready := hinv.changes s hs
  intro e he
  by_cases hread : e ∈ h.read
  · rcases hready.registered.remaining e he hread with hfirst | hoff | hmem | hahead
    · exact .inl (hready.first e hfirst)
    · exact .inl hoff
    · cases hmem
    · exact .inr (.inr hahead)
  · by_cases hknown : e ∈ h.known s
    · exact .inl ((hready.known e hknown).resolve_left hread)
    · exact .inr (.inl hknown)

/-- Task 0 polls, the others run the backfill. -/
def ownerCalls (t : Nat) : Call := bif t == 0 then .poll owner else .backfill owner

def arrive (ids : List EmailId) : Event Answer Env := .env (.mail { results := fun _ _ => ids })

def plainMail (e : EmailId) : Email := { id := some e }

/-- An email without a thread is logged and left behind. -/
def leavesBehind : List (Event Answer Env) := List.replicate 5 (.step 0 .done)

/-- `e2` arrives after the full first page. -/
def arrivalAhead : List (Event Answer Env) :=
  ([.start 0, .step 0 .done, .tau 0, .step 0 (.reply (.queried { ids := ["e1"] })), .step 0 .done,
      arrive ["e1", "e2"], .step 0 .done, .step 0 (.reply (.state "s1")),
      .step 0 (.reply (.emails [plainMail "e1"]))] : List (Event Answer Env)) ++ leavesBehind ++
    ([.step 0 .done] : List (Event Answer Env))

/-- `e2` arrives after a first page that was not full. -/
def arrivalBetween : List (Event Answer Env) :=
  ([.start 0, .step 0 .done, .tau 0, .step 0 (.reply (.queried { ids := ["e1"] })),
    arrive ["e1", "e2"],
      .step 0 .done, .step 0 (.reply (.state "s1")),
      .step 0 (.reply (.emails [plainMail "e1"]))] : List (Event Answer Env)) ++ leavesBehind ++
    ([.step 0 .done] : List (Event Answer Env))

def oneThenTwo : Handoff where
  first := ["e1"]
  read := ["e1", "e2"]
  known _ := ["e1", "e2"]

theorem initial_sync_loses_nothing_two : ∃ q,
    (bridge { syncLimit := 1 } ownerCalls).run arrivalAhead
      (Pool.boot (threeEmails.mailing ["e1"])) = some q ∧
      ∀ e ∈ q.world.held owner oneThenTwo, q.world.offered e ∨ e ∉ ["e1", "e2"] ∨
        ∃ n ∈ q.world.ahead owner.user, e ∈ (q.world.held owner oneThenTwo).drop n := by
  have hends : ((bridge { syncLimit := 1 } ownerCalls).run arrivalAhead
      (Pool.boot (threeEmails.mailing ["e1"]))).map (fun q => q.world.changesToken owner.user) =
        some (some "s1") := by decide +kernel
  have hD : (bridge { syncLimit := 1 } ownerCalls).Admits
      (handing { syncLimit := 1 } owner oneThenTwo).meets arrivalAhead
      (Pool.boot (threeEmails.mailing ["e1"])) := by decide +kernel
  obtain ⟨q, hq, hs⟩ := Option.map_eq_some_iff.mp hends
  have hcalls : ∀ t, ownerCalls t = .poll owner ∨ ownerCalls t = .backfill owner := by
    intro t
    unfold ownerCalls
    cases t == 0
    · exact .inr rfl
    · exact .inl rfl
  have hlimit : 1 ≤ ({ syncLimit := 1 } : Config).syncLimit := by decide
  exact ⟨q, hq, initial_sync_loses_nothing hlimit (fun _ => rfl) hcalls (by decide +kernel)
    (by decide +kernel) (by decide +kernel) hq hD hs⟩

/-- `e2` arrives after the first page, which was not full, and before the state is read. It is
known at the token, no walk is registered, and nothing has offered it. -/
theorem arrival_between_reads_is_lost :
    (bridge { syncLimit := 2 } ownerCalls).Admits
        (growing { syncLimit := 2 } owner oneThenTwo).meets arrivalBetween
        (Pool.boot (threeEmails.mailing ["e1"])) ∧
      ((bridge { syncLimit := 2 } ownerCalls).run arrivalBetween
        (Pool.boot (threeEmails.mailing ["e1"]))).map (fun q =>
          (q.world.changesToken owner.user, q.world.position owner.user,
            q.world.held owner oneThenTwo, q.world.offered "e2")) =
        some (some "s1", none, ["e1", "e2"], false) := by
  constructor
  · decide +kernel
  · decide +kernel

end JmapBridge
