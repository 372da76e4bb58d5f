import JmapBridge.Model.Frames
import JmapBridge.Property.Paging
import Std.Data.String.ToInt

/-! The anchor of a windowed walk. The cutoff is stored from the start of a walk to its end,
and all queries in between use it, if no walk ends before it is registered. -/

namespace JmapBridge

open Effect Rust

/-- The call is a poll or the backfill of the user. -/
def Call.walks (user : UserId) : Call → Bool
  | poll p => p.user == user
  | backfill p => p.user == user
  | _ => false

def Call.backfills : Call → Bool
  | backfill _ => true
  | _ => false

/-- The stored cutoff of the user's walk. -/
def World.cutoff (w : World) (user : UserId) : Option String :=
  w.store.jmapState.lookup (user, .backfillCutoff)

/-- The cutoff that a statement leaves stored. -/
def Record.cutoffWrite (user : UserId) (r : Record) : Option (Option String) :=
  match r.cmd with
  | .store (.saveJmapState u .backfillCutoff v) => if u = user then some (some v) else none
  | .store (.deleteJmapState u .backfillCutoff) => if u = user then some none else none
  | _ => none

def anchor (user : UserId) : List Record → Option String
  | [] => none
  | r :: l => (r.cutoffWrite user).getD (anchor user l)

/-- Whose the cutoff is, after a statement on the cutoff or on the position. -/
def Record.keeps (user : UserId) (r : Record) : Option (Option Nat) :=
  match r.cmd with
  | .store (.saveJmapState u .backfillCutoff _) => if u = user then some (some r.task) else none
  | .store (.deleteJmapState u .backfillPosition) => if u = user then some (some r.task) else none
  | .store (.saveJmapState u .backfillPosition _) => if u = user then some none else none
  | .store (.deleteJmapState u .backfillCutoff) => if u = user then some none else none
  | _ => none

/-- The task that has anchored a walk and not registered it, or that has dropped the position of
a walk and not its cutoff. -/
def keeper (user : UserId) : List Record → Option Nat
  | [] => none
  | r :: l => (r.keeps user).getD (keeper user l)

/-- Another task has saved or deleted the cutoff since task `t` read it. -/
def reanchored (user : UserId) : Nat → List Record → Bool :=
  superseded (fun r => r.cmd == .store (.getJmapState user .backfillCutoff))
    fun r => (r.cutoffWrite user).isSome

section

variable (calls : Nat → Call) (user : UserId)

/-- The floor of a query that starts a walk. -/
def Record.first (r : Record) : Option (Option Int) :=
  match r.cmd with
  | .jmap _ (.queryEmail c none _) => if (calls r.task).walks user then some c else none
  | _ => none

/-- The floor of the newest walk's first query. -/
def firstQuery : List Record → Option (Option Int)
  | [] => none
  | r :: l => (r.first calls user).or (firstQuery l)

/-- A query goes by the anchor, which was computed from the window since the start, and a batch
by that of its walk's first query. An anchor is saved where there is none, after a look at the
clock, and is where the window begins at a time since the start. -/
structure Record.Anchored (start : Nat) (window : Nat → Option Int) (l : List Record)
    (r : Record) : Prop where
  query : ∀ account c n limit, r.cmd = .jmap account (.queryEmail c n limit) →
    (calls r.task).walks user → ∃ i m, c = some i ∧ anchor user l = some (toString i) ∧
      start ≤ m ∧ window m = some i ∧ (n.isSome → firstQuery calls user l = some c)
  save : ∀ v, r.cmd = .store (.saveJmapState user .backfillCutoff v) →
    anchor user l = none ∧ newest r.task l = some ⟨r.task, .task .now, .done⟩ ∧
      ∃ i m, v = toString i ∧ start ≤ m ∧ window m = some i

def Anchored (start : Nat) (window : Nat → Option Int) : List Record → Prop
  | [] => True
  | r :: l => r.Anchored calls user start window l ∧ Anchored start window l

/-- The server returned as many ids as it was asked for. -/
def Answer.fills (limit : Nat) : Answer → Bool
  | reply (.queried q) => q.ids.length == limit
  | _ => false

def Cmd.anchored (window : Nat → Option Int) (t : Nat) (w : World) : Cmd → Answer → Prop
  | store (.getJmapState u .backfillCutoff), _ =>
    u = user → (calls t).backfills → (w.position user).isSome
  | store (.saveJmapState u .backfillCutoff _), _ => u = user → reanchored user t w.trace = false
  | store (.saveJmapState u .backfillPosition v), _ =>
    u = user → reanchored user t w.trace = false ∧ (Str.parseUsize v.toList).isSome
  | store (.deleteJmapState u .backfillCutoff), _ => u = user → w.position user = none
  | jmap _ (.queryEmail _ n limit), a => (calls t).walks user → reanchored user t w.trace = false ∧
    (n = none → (w.position user).isSome ∨ a.fills limit)
  | task .now, _ => ∃ i ∈ window w.now, -2 ^ 63 ≤ i ∧ i < 2 ^ 63
  | _, _ => True

/-- The store is reliable. The first page of a walk is full, or a walk is registered already.
No task goes on with a cutoff that another task has saved or deleted since it was read, a batch
starts while its walk is registered and a cutoff is dropped while none is, and no task is
cancelled between the cutoff and the position. The window can be taken off the clock. -/
def anchoring (window : Nat → Option Int) : Discipline Op World Answer Env where
  step := fun t {_} o a w => o.cmd.carriedOut a ∧ o.cmd.anchored calls user window t w a
  cancel := fun t w => keeper user w.trace ≠ some t

structure AnchorInv (start : Nat) (window : Nat → Option Int) (w : World) : Prop where
  registered : w.store.hasUser user
  time : start ≤ w.now
  cutoff : w.cutoff user = anchor user w.trace
  windowed : ∀ s, w.cutoff user = some s → ∃ i m, s = toString i ∧
    Str.parseI64 s.toList = some i ∧ start ≤ m ∧ window m = some i
  position : ∀ s, w.position user = some s → (Str.parseUsize s.toList).isSome ∧
    ∃ i, w.cutoff user = some (toString i) ∧ firstQuery calls user w.trace = some (some i)
  kept : keeper user w.trace = none → w.position user = none → w.cutoff user = none
  unregistered : ∀ t, keeper user w.trace = some t → w.position user = none
  law : Anchored calls user start window w.trace

structure AnchorKept (t : Nat) (w w' : World) : Prop where
  keeper : keeper user w.trace ≠ some t → keeper user w'.trace ≠ some t
  cutoff : reanchored user t w'.trace = false → reanchored user t w.trace = false ∧
    w'.cutoff user = w.cutoff user ∧ ∀ i : Int, w.cutoff user = some (toString i) →
      firstQuery calls user w.trace = some (some i) → firstQuery calls user w'.trace = some (some i)
  time : w.now ≤ w'.now

structure AnchorRely (t : Nat) (w w' : World) : Prop extends AnchorKept calls user t w w' where
  newest : newest t w'.trace = newest t w.trace

def anchorContract (start : Nat) (window : Nat → Option Int) : Contract World where
  inv := AnchorInv calls user start window
  rely := AnchorRely calls user
  idle := fun t w => keeper user w.trace ≠ some t
  idle_stable := fun h hr => hr.keeper h
  refl := fun _ _ => ⟨⟨id, fun h => ⟨h, rfl, fun _ _ => id⟩, le_rfl⟩, rfl⟩
  trans := by
    intro t a b c hab hbc
    refine ⟨⟨fun h => hbc.keeper (hab.keeper h), fun h => ?_, hab.time.trans hbc.time⟩,
      hbc.newest.trans hab.newest⟩
    obtain ⟨hb, hcut, hfirst⟩ := hbc.cutoff h
    obtain ⟨ha, hcut', hfirst'⟩ := hab.cutoff hb
    exact ⟨ha, hcut.trans hcut', fun i hi hq => hfirst i (hcut' ▸ hi) (hfirst' i hi hq)⟩

end

section

variable {cfg : Config} {calls : Nat → Call} {user : UserId} {start : Nat} {window : Nat →
    Option Int}
  {t i : Nat} {w w' : World} {α : Type} {a : Answer}

/-! What one command does to them. -/

/-- The command leaves the cutoff, the position and the walk alone. -/
structure Cmd.OffAnchor (calls : Nat → Call) (user : UserId) (t : Nat) (c : Cmd) : Prop where
  cutoff : ∀ a, Record.cutoffWrite user ⟨t, c, a⟩ = none
  keeps : ∀ a, Record.keeps user ⟨t, c, a⟩ = none
  query : ∀ account x n limit, c = .jmap account (.queryEmail x n limit) →
    (calls t).walks user = false

/-- The cutoff is not task `t`'s. -/
def Handed (user : UserId) (t : Nat) (w : World) : Prop := keeper user w.trace ≠ some t

/-- And the first query of the walk went by it. -/
def Started (calls : Nat → Call) (user : UserId) (t : Nat) (j : Int) (w : World) : Prop :=
  reanchored user t w.trace = false →
    w.cutoff user = some (toString j) ∧ firstQuery calls user w.trace = some (some j)

def Unanchored (user : UserId) (t : Nat) (w : World) : Prop :=
  Handed user t w ∧ (reanchored user t w.trace = false → w.cutoff user = none)

/-- An assertion about no more than the cutoff and the walk. -/
def OfWalk (calls : Nat → Call) (user : UserId) (t : Nat) (P : World → Prop) : Prop :=
  ∀ w w', P w → AnchorKept calls user t w w' → P w'

theorem OfWalk.stable {P : World → Prop} (hP : OfWalk calls user t P) :
    Stable (anchorContract calls user start window) t P :=
  fun w w' h hr _ => hP w w' h hr.toAnchorKept

theorem OfWalk.and {P Q : World → Prop} (hP : OfWalk calls user t P) (hQ : OfWalk calls user t Q) :
    OfWalk calls user t fun w => P w ∧ Q w :=
  fun w w' h hr => ⟨hP w w' h.1 hr, hQ w w' h.2 hr⟩

theorem handed_ofWalk : OfWalk calls user t (Handed user t) := fun _ _ h hr => hr.keeper h

theorem started_ofWalk {j : Int} : OfWalk calls user t (Started calls user t j) := by
  intro w w' h hr hre
  obtain ⟨hre', hsame, hfirst⟩ := hr.cutoff hre
  obtain ⟨hcutoff, hq⟩ := h hre'
  exact ⟨hsame.trans hcutoff, hfirst j hcutoff hq⟩

theorem unanchored_ofWalk : OfWalk calls user t (Unanchored user t) := by
  intro w w' h hr
  refine ⟨hr.keeper h.1, fun hre => ?_⟩
  obtain ⟨hre', hsame, -⟩ := hr.cutoff hre
  exact hsame.trans (h.2 hre')

abbrev AnchorTriple (cfg : Config) (calls : Nat → Call) (user : UserId) (start : Nat)
    (window : Nat → Option Int) (t : Nat) (P : World → Prop) (p : Prog Op α)
    (Q : α → World → Prop) : Prop :=
  Triple (bridge cfg calls) (anchoring calls user window)
    (anchorContract calls user start window) t P p Q

/-- A command that neither reads the cutoff nor touches the walk. -/
def Cmd.aloof (calls : Nat → Call) (user : UserId) (t : Nat) (c : Cmd) : Prop :=
  c.OffAnchor calls user t ∧ c ≠ .store (.getJmapState user .backfillCutoff)

/-- What the cutoff is read as, and what is known then. -/
def ReadAs (R : Int → World → Prop) (N : World → Prop) : Except Err (Option String) → World → Prop
  | .ok none, w => N w
  | .ok (some s), w => ∃ j : Int, s = toString j ∧ Str.parseI64 s.toList = some j ∧ R j w
  | .error _, _ => False

/-- The clock was read, and `j` is where the window begins. -/
def Timed (user : UserId) (start : Nat) (window : Nat → Option Int) (t : Nat) (j : Int)
    (w : World) : Prop :=
  Unanchored user t w ∧ newest t w.trace = some ⟨t, .task .now, .done⟩ ∧
    Str.parseI64 (toString j).toList = some j ∧ ∃ m, start ≤ m ∧ window m = some j

theorem Timed.stable {j : Int} :
    Stable (anchorContract calls user start window) t (Timed user start window t j) := by
  intro w w' h hr hi
  exact ⟨unanchored_ofWalk w w' h.1 hr.toAnchorKept, hr.newest.trans h.2.1, h.2.2⟩

variable {p : Poller}

theorem ReadAs.stable {R : Int → World → Prop} {N : World → Prop}
    (hR : ∀ j, Stable (anchorContract calls user start window) t (R j))
    (hN : Stable (anchorContract calls user start window) t N) (r : Except Err (Option String)) :
    Stable (anchorContract calls user start window) t (ReadAs R N r) := by
  rcases r with _ | (_ | s)
  · exact Stable.const _
  · exact hN
  · exact Stable.exists fun j => (Stable.const _).and ((Stable.const _).and (hR j))

theorem ReadAs.triple {R : Int → World → Prop} {N : World → Prop} {Q : α → World → Prop}
    {k : Except Err (Option String) → Prog Op α}
    (hN : AnchorTriple cfg calls user start window t N (k (.ok none)) Q)
    (hR : ∀ j : Int, Str.parseI64 (toString j).toList = some j →
      AnchorTriple cfg calls user start window t (R j) (k (.ok (some (toString j)))) Q)
    (r : Except Err (Option String)) :
    AnchorTriple cfg calls user start window t (ReadAs R N r) (k r) Q := by
  intro w hi hw
  rcases r with _ | (_ | s)
  · exact hw.elim
  · exact hN w hi hw
  · obtain ⟨j, rfl, hparse, hj⟩ := hw
    exact hR j hparse w hi hj

/-- After its first query a walk is registered next, or a poll is done with it. -/
def Bootstrapped (calls : Nat → Call) (user : UserId) (t : Nat) (limit : Nat) (j : Int)
    (ids : List EmailId) (w : World) : Prop :=
  if ids.length = limit then Started calls user t j w else Handed user t w

theorem Bootstrapped.stable {limit : Nat} {j : Int} {ids : List EmailId} :
    Stable (anchorContract calls user start window) t (Bootstrapped calls user t limit j ids) := by
  unfold Bootstrapped
  split
  · exact started_ofWalk.stable
  · exact handed_ofWalk.stable

/-- What is read of the position is a number. -/
def Readable (r : Except Err (Option String)) : Prop :=
  ∀ s, r = .ok (some s) → (Str.parseUsize s.toList).isSome

theorem RoomCmd.aloof {u : UserId} {c : Cmd} (h : RoomCmd u c) : c.aloof calls user t := by
  cases h <;> exact ⟨⟨fun _ => rfl, fun _ => rfl, nofun⟩, nofun⟩

theorem MailboxCmd.aloof {I : EmailId → Prop} {c : Cmd} (h : MailboxCmd p I c) :
    c.aloof calls user t := by
  cases h with
  | contact c h => exact h.aloof
  | _ => exact ⟨⟨fun _ => rfl, fun _ => rfl, fun _ _ _ _ h => by cases h⟩, fun h => by cases h⟩

theorem ChangesCmd.aloof {c : Cmd} (h : ChangesCmd p c) : c.aloof calls user t := by
  cases h <;> exact ⟨⟨fun _ => rfl, fun _ => rfl, fun _ _ _ _ h => by cases h⟩, fun h => by cases h⟩

theorem BridgeCmd.aloof {I : EmailId → Prop} {c : Cmd} (h : BridgeCmd p I c) :
    c.aloof calls user t := by
  cases h with
  | attachment r c h => cases h <;> exact ⟨⟨fun _ => rfl, fun _ => rfl, nofun⟩, nofun⟩
  | contact c h => exact h.aloof
  | _ => exact ⟨⟨fun _ => rfl, fun _ => rfl, nofun⟩, nofun⟩

theorem ReadStateCmd.aloof {u : UserId} {email : Option EmailId} {c : Cmd}
    (h : ReadStateCmd u email c) : c.aloof calls user t := by
  cases h <;> exact ⟨⟨fun _ => rfl, fun _ => rfl, nofun⟩, nofun⟩

theorem tokens_aloof {u : UserId} (hu : u ≠ user) (k : StateKey) (v : String) :
    (Cmd.store (.getJmapState u k)).aloof calls user t ∧
      (Cmd.store (.saveJmapState u k v)).aloof calls user t ∧
      (Cmd.store (.deleteJmapState u k)).aloof calls user t := by
  refine ⟨⟨⟨fun _ => rfl, fun _ => rfl, nofun⟩, fun h => ?_⟩,
    ⟨⟨fun _ => ?_, fun _ => ?_, nofun⟩, nofun⟩, ⟨⟨fun _ => ?_, fun _ => ?_, nofun⟩, nofun⟩⟩
  · cases h
    exact hu rfl
  all_goals cases k <;> simp [Record.cutoffWrite, Record.keeps, hu]

theorem WalkCmd.aloof {I : EmailId → Prop} {c : Cmd} (h : WalkCmd p I c) (hp : p.user ≠ user)
    (ht : (calls t).walks user = false) : c.aloof calls user t := by
  cases h with
  | inbound c h =>
    cases h with
    | getState k hk => exact (tokens_aloof hp k "").1
    | saveState k v hk => exact (tokens_aloof hp k v).2.1
    | deleteState k hk => exact (tokens_aloof hp k "").2.2
    | _ => exact ⟨⟨fun _ => rfl, fun _ => rfl, nofun⟩, nofun⟩
  | mailbox c h => exact h.aloof
  | getState k => exact (tokens_aloof hp k "").1
  | saveState k v => exact (tokens_aloof hp k v).2.1
  | deleteState k => exact (tokens_aloof hp k "").2.2
  | query x n l => exact ⟨⟨fun _ => rfl, fun _ => rfl, fun _ _ _ _ _ => ht⟩, fun h => by cases h⟩
  | _ => exact ⟨⟨fun _ => rfl, fun _ => rfl, fun _ _ _ _ h => by cases h⟩, fun h => by cases h⟩

/-! The walks. -/

end

/-- `Cmd.anchored` as a test. -/
def Cmd.anchors (calls : Nat → Call) (user : UserId) (window : Nat → Option Int) (t : Nat)
    (w : World) : Cmd → Answer → Bool
  | store (.getJmapState u .backfillCutoff), _ =>
    decide (u = user → (calls t).backfills → (w.position user).isSome)
  | store (.saveJmapState u .backfillCutoff _), _ =>
    decide (u = user → reanchored user t w.trace = false)
  | store (.saveJmapState u .backfillPosition v), _ =>
    decide (u = user → reanchored user t w.trace = false ∧ (Str.parseUsize v.toList).isSome)
  | store (.deleteJmapState u .backfillCutoff), _ => decide (u = user → w.position user = none)
  | jmap _ (.queryEmail _ n limit), a =>
    decide ((calls t).walks user → reanchored user t w.trace = false ∧
      (n = none → (w.position user).isSome ∨ a.fills limit))
  | task .now, _ => decide (∃ i ∈ window w.now, -2 ^ 63 ≤ i ∧ i < 2 ^ 63)
  | _, _ => true

theorem anchors_iff {calls : Nat → Call} {user : UserId} {window : Nat → Option Int} {t : Nat}
    {w : World} {c : Cmd} {a : Answer} :
    c.anchors calls user window t w a = true ↔ c.anchored calls user window t w a := by
  unfold Cmd.anchors Cmd.anchored
  split <;> first | exact decide_eq_true_iff | simp

instance decidableAnchored (calls : Nat → Call) (user : UserId) (window : Nat → Option Int)
    (t : Nat)
    (w : World) (c : Cmd) (a : Answer) : Decidable (c.anchored calls user window t w a) :=
  decidable_of_iff _ anchors_iff

instance decidableAnchoringStep (calls : Nat → Call) (user : UserId) (window : Nat → Option Int)
    (t : Nat) (β : Type) (o : Op β) (a : Answer) (w : World) :
    Decidable ((anchoring calls user window).step t o a w) :=
  inferInstanceAs (Decidable (_ ∧ _))

instance decidableAnchoring (calls : Nat → Call) (user : UserId) (window : Nat → Option Int)
    (ev : Event Answer Env) (q : Pool Op World) :
    Decidable ((anchoring calls user window).meets ev q) :=
  @Discipline.decidableMeets Op World Answer Env (anchoring calls user window)
    (fun _ _ => instDecidableTrue) _
    (fun t w => inferInstanceAs (Decidable (keeper user w.trace ≠ some t)))
    (fun _ _ => instDecidableTrue) ev q

/-- Task `t` finds no token and anchors its walk, and its first query returns `e1`. -/
def anchors (t : Nat) : List (Event Answer Env) :=
  [.start t, .step t .done, .tau t, .step t .done, .step t .done, .step t .done,
    .step t (.reply (.queried { ids := ["e1"], queryState := "q1" }))]

end JmapBridge
