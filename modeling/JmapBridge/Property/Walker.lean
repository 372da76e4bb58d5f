import JmapBridge.Property.InitialSync

/-! A registered walk and the task that walks it. The backfill task of a session ends for good
when it finds the sync state and no position, or when it has deleted the one it has worked off.
A poll may register another walk after that. -/

namespace JmapBridge

open Effect

def Answer.fails : Answer → Bool
  | failed => true
  | lost _ => true
  | _ => false

/-- A statement that stores `key` for `user`. -/
def Record.storesState (user : UserId) (key : StateKey) (r : Record) : Bool :=
  match r.cmd with
  | .store (.saveJmapState u k _) => u == user && k == key && r.answer != .failed
  | _ => false

/-- The backfill task comes to the end of a walk. -/
def Record.worksOff (user : UserId) (r : Record) : Bool :=
  r.task == 1 && r.cmd == .store (.deleteJmapState user .backfillCutoff)

/-- The sync state was stored at the start of the session, or has been since. -/
def World.synced (start w : World) (user : UserId) : Bool :=
  (start.changesToken user).isSome || w.trace.any (Record.storesState user .changes)

/-- The sync state has been stored, or a walk worked off. -/
def World.pastFirst (start w : World) (user : UserId) : Bool :=
  start.synced w user || w.trace.any (Record.worksOff user)

/-- The pool at the start of a session, whose backfill task is task 1. -/
def session (cfg : Config) (calls : Nat → Call) (w : World) : Pool Op World :=
  (Pool.boot w).put 1 (some ((calls 1).program cfg)) w

section

variable (p : Poller) (start : World)

/-- A walk is registered where another one is, or before the sync state is first stored and the
first walk worked off. No position is stored when the backfill task drops the cutoff of a walk,
nor when it fails to read the position once the sync state has been stored. -/
def Cmd.attends (t : Nat) (c : Cmd) (a : Answer) (w : World) : Prop :=
  (Record.storesState p.user .backfillPosition ⟨t, c, a⟩ → w.store.hasUser p.user →
    w.position p.user ≠ none ∨ start.pastFirst w p.user = false) ∧
  (t = 1 → c = .store (.deleteJmapState p.user .backfillCutoff) → w.position p.user = none) ∧
  (t = 1 → c = .store (.getJmapState p.user .backfillPosition) → a.fails →
    w.position p.user = none ∨ start.synced w p.user = false)

/-- The session is live, and its walks are attended. -/
def attended : Discipline Op World Answer Env where
  start t _ := t ≠ 1
  cancel t _ := t ≠ 1
  step t _ o a w := o.cmd.attends p start t a w

/-- No walk is registered, and none will be. -/
def WalksSettled (w : World) : Prop := start.pastFirst w p.user = true ∧ w.position p.user = none

def walkerContract : Contract World where
  inv w := w.changesToken p.user ≠ none → start.synced w p.user = true
  rely t w w' := t = 1 → (start.synced w p.user = true → start.synced w' p.user = true) ∧
    (WalksSettled p start w → WalksSettled p start w')
  idle t w := t = 1 → WalksSettled p start w
  idle_stable h hr ht := (hr ht).2 (h ht)
  refl _ _ _ := ⟨fun h => h, fun h => h⟩
  trans hab hbc ht := ⟨fun h => (hbc ht).1 ((hab ht).1 h), fun h => (hbc ht).2 ((hab ht).2 h)⟩

end

section

variable {cfg : Config} {calls : Nat → Call} {p : Poller} {t : Nat} {start w w' : World} {α : Type}

theorem free_stable : Stable (walkerContract p start) t fun _ => True := fun _ _ _ _ _ => trivial

theorem WalksSettled.stable : Stable (walkerContract p start) 1 (WalksSettled p start) :=
  fun _ _ h hr _ => (hr rfl).2 h

/-- What the backfill task knows of the sync state: it found it, or it goes on waiting. -/
def Awaited (p : Poller) (start : World) (hasInitialSync : Bool) (w : World) : Prop :=
  hasInitialSync = true → start.synced w p.user = true

theorem Awaited.stable {b : Bool} : Stable (walkerContract p start) 1 (Awaited p start b) :=
  fun _ _ h hr _ hb => (hr rfl).1 (h hb)

/-- Where the sync state was found, no position means that the walks are settled. -/
def Sought (p : Poller) (start : World) (hasInitialSync : Bool) :
    Except Err (Option String) → World → Prop
  | .ok (some _) => fun _ => True
  | _ => fun w => hasInitialSync = true → WalksSettled p start w

theorem Sought.stable {b : Bool} (r : Except Err (Option String)) :
    Stable (walkerContract p start) 1 (Sought p start b r) := by
  rcases r with _ | (_ | _)
  · exact fun _ _ h hr _ hb => (hr rfl).2 (h hb)
  · exact fun _ _ h hr _ hb => (hr rfl).2 (h hb)
  · exact free_stable

end

instance decidableAttends (p : Poller) (start : World) (t : Nat) (c : Cmd) (a : Answer)
    (w : World) : Decidable (c.attends p start t a w) :=
  inferInstanceAs (Decidable (_ ∧ _ ∧ _))

instance decidableAttended (p : Poller) (start : World) (ev : Event Answer Env)
    (q : Pool Op World) :
    Decidable ((attended p start).meets ev q) :=
  @Discipline.decidableMeets Op World Answer Env (attended p start)
    (fun t _ => inferInstanceAs (Decidable (t ≠ 1)))
    (fun t _ o a w => decidableAttends p start t o.cmd a w)
    (fun t _ => inferInstanceAs (Decidable (t ≠ 1))) (fun _ _ => instDecidableTrue) ev q

end JmapBridge
