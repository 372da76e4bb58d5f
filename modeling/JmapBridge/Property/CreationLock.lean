import JmapBridge.Model.Exec

/-! One room per thread and one space per user. The creation lock is a row of the
store, its holder is a scope guard, and a dropped guard leaves a release to be run
later; together these are the tokens of a key. -/

namespace JmapBridge

open Effect

/-- The room or space the store records for a key. -/
def Store.recorded (s : Store) : LockKey → Option RoomId
  | .thread k => (s.threadMapping.lookup k).map (·.roomId)
  | .emailSpace u => s.jmapState.lookup (u, .emailSpaceRoom)

/-- The thread a call bridges. -/
def Call.thread : Call → Option ThreadId
  | newThread _ email _ _ => email.threadId
  | _ => none

/-- The user a call provisions rooms for. -/
def Call.user : Call → Option UserId
  | newThread p _ _ _ => some p.user
  | fileRoom user _ => some user
  | repairSpace user => some user
  | _ => none

/-- A room or a space that came into being, with its key and its creator. -/
def creation (calls : Nat → Call) (r : Record) : Option (LockKey × Nat × RoomId) :=
  match r.cmd, r.answer with
  | .matrix (.createRoomForContact _ _ _), .id room =>
    (calls r.task).thread.map fun k => (.thread k, r.task, room)
  | .matrix (.createSpace _ _ user), .id room => some (.emailSpace user, r.task, room)
  | _, _ => none

/-- A room posted to for a thread, or a space a room is filed in. -/
def usage (calls : Nat → Call) (r : Record) : Option (LockKey × Nat × RoomId) :=
  match r.cmd with
  | .matrix (.sendAsGhost room _ _ _) =>
    (calls r.task).thread.map fun k => (.thread k, r.task, room)
  | .matrix (.putState space "m.space.child" _) =>
    (calls r.task).user.map fun u => (.emailSpace u, r.task, space)
  | _ => none

/-- The calls and rooms the trace shows under a key, by `f`. -/
def shown (f : Record → Option (LockKey × Nat × RoomId)) (trace : List Record) (key : LockKey) :
    List (Nat × RoomId) :=
  (trace.filterMap f).filterMap fun c => if c.1 = key then some c.2 else none

def World.tokens (w : World) (key : LockKey) : Nat :=
  w.guards.countP (fun g => g.2 = key) + w.releases.count key

def Store.holds (s : Store) (key : LockKey) : Bool := (s.roomCreationLocks.lookup key).isSome

section

variable (calls : Nat → Call)

def World.created (w : World) (key : LockKey) : List (Nat × RoomId) :=
  shown (creation calls) w.trace key

def World.used (w : World) (key : LockKey) : List (Nat × RoomId) := shown (usage calls) w.trace key

/-- At most one token of a key, and none without its row; at most one room, which is
recorded or still in the hands of its creator; and no other room is used. -/
structure KeyInv (w : World) (key : LockKey) : Prop where
  single : w.tokens key ≤ 1
  locked : 0 < w.tokens key → w.store.holds key
  once : (w.created calls key).length ≤ 1
  created : ∀ c ∈ w.created calls key,
    w.store.recorded key = some c.2 ∨ w.store.recorded key = none ∧ (c.1, key) ∈ w.guards
  used : ∀ c ∈ w.used calls key,
    w.store.recorded key = some c.2 ∨ w.store.recorded key = none ∧ c ∈ w.created calls key

structure LockInv (w : World) : Prop where
  keys : ∀ key, KeyInv calls w key
  users : ∀ t u, (calls t).user = some u → w.store.hasUser u

/-- What task `t` relies on: its guards are its own, a record is permanent, and a key
it holds is left alone. -/
structure KeyRely (t : Nat) (w w' : World) (key : LockKey) : Prop where
  own : (t, key) ∈ w'.guards ↔ (t, key) ∈ w.guards
  kept : ∀ r, w.store.recorded key = some r → w'.store.recorded key = some r
  frozen : (t, key) ∈ w.guards → w'.store.recorded key = w.store.recorded key ∧
    w'.created calls key = w.created calls key

def lockContract : Contract World where
  inv := LockInv calls
  rely := fun t w w' => ∀ key, KeyRely calls t w w' key
  idle := fun t w => ∀ key, (t, key) ∉ w.guards
  idle_stable := fun h hr key hk => h key ((hr key).own.mp hk)
  refl := fun _ _ _ => ⟨Iff.rfl, fun _ h => h, fun _ => ⟨rfl, rfl⟩⟩
  trans := by
    intro t a b c h₁ h₂ key
    refine ⟨(h₂ key).own.trans (h₁ key).own, fun r h => (h₂ key).kept r ((h₁ key).kept r h),
      fun h => ?_⟩
    obtain ⟨hr, hc⟩ := (h₁ key).frozen h
    obtain ⟨hr', hc'⟩ := (h₂ key).frozen ((h₁ key).own.mpr h)
    exact ⟨hr'.trans hr, hc'.trans hc⟩

/-- The store and the homeserver do not fail. -/
def Cmd.reliable : Cmd → Answer → Bool
  | store _, .failed => false
  | store _, .lost _ => false
  | matrix (.downloadBlob _ _ _ _), _ => true
  | matrix _, .failed => false
  | matrix _, .notJoined => false
  | matrix _, .lost _ => false
  | _, _ => true

/-- The runs in which the store and the homeserver do not fail and no call is cancelled. -/
def reliable : Discipline Op World Answer Env where
  step := fun _ {_} o a _ => o.cmd.reliable a
  cancel := fun _ _ => False

instance decidableReliableStep (t : Nat) (β : Type) (o : Op β) (a : Answer) (w : World) :
    Decidable (reliable.step t o a w) := inferInstanceAs (Decidable (o.cmd.reliable a = true))

instance decidableReliable (e : Event Answer Env) (q : Pool Op World) :
    Decidable (reliable.meets e q) :=
  @Discipline.decidableMeets Op World Answer Env reliable (fun _ _ => instDecidableTrue) _
    (fun _ _ => instDecidableFalse) (fun _ _ => instDecidableTrue) e q

/-- The two worlds are the same as far as one key goes. -/
structure SameAt (w w' : World) (key : LockKey) : Prop where
  held : w'.store.holds key = w.store.holds key
  recorded : w'.store.recorded key = w.store.recorded key
  tokens : w'.tokens key = w.tokens key
  guards : ∀ i, (i, key) ∈ w'.guards ↔ (i, key) ∈ w.guards
  created : w'.created calls key = w.created calls key

end

section

variable {calls : Nat → Call} {w w' : World} {key : LockKey}

theorem shown_cons (f : Record → Option (LockKey × Nat × RoomId)) (r : Record) (trace : List Record)
    (key : LockKey) :
    shown f (r :: trace) key = match f r with
      | none => shown f trace key
      | some c => if c.1 = key then c.2 :: shown f trace key else shown f trace key := by
  unfold shown
  cases hf : f r with
  | none => simp [hf]
  | some c =>
    by_cases hc : c.1 = key
    · simp [hf, hc]
    · simp [hf, hc]

theorem SameAt.rely (h : SameAt calls w w' key) (t : Nat) : KeyRely calls t w w' key where
  own := h.guards t
  kept := fun r hr => by rw [h.recorded, hr]
  frozen := fun _ => ⟨h.recorded, h.created⟩

theorem SameAt.inv (h : SameAt calls w w' key) (hi : KeyInv calls w key)
    (hu : ∀ c ∈ w'.used calls key, c ∈ w.used calls key ∨ w.store.recorded key = some c.2 ∨
      w.store.recorded key = none ∧ c ∈ w.created calls key) : KeyInv calls w' key where
  single := h.tokens ▸ hi.single
  locked := fun hk => h.held ▸ hi.locked (h.tokens ▸ hk)
  once := h.created ▸ hi.once
  created := fun c hc => by
    rw [h.recorded, h.guards]
    exact hi.created c (h.created ▸ hc)
  used := fun c hc => by
    rw [h.recorded, h.created]
    exact (hu c hc).elim (hi.used c) id

theorem holder_unique (hsingle : w.tokens key ≤ 1) {i j : Nat} (h : (i, key) ∈ w.guards)
    (h' : (j, key) ∈ w.guards) : i = j := by
  have hlen : (w.guards.filter fun g => g.2 = key).length ≤ 1 := by
    rw [← List.countP_eq_length_filter]
    exact le_trans (Nat.le_add_right _ _) hsingle
  have hm : (i, key) ∈ w.guards.filter fun g => g.2 = key := List.mem_filter.mpr ⟨h, by simp⟩
  have hm' : (j, key) ∈ w.guards.filter fun g => g.2 = key := List.mem_filter.mpr ⟨h', by simp⟩
  match hf : w.guards.filter fun g => g.2 = key with
  | [] => simp [hf] at hm
  | [g] =>
    rw [hf, List.mem_singleton] at hm hm'
    exact congrArg Prod.fst (hm.trans hm'.symm)
  | _ :: _ :: _ => simp [hf] at hlen

theorem tokens_pos {i : Nat} (h : (i, key) ∈ w.guards) : 0 < w.tokens key :=
  Nat.add_pos_left (List.countP_pos_iff.mpr ⟨_, h, by simp⟩) _

/-- The commands that change no lock, room, space or use of one. -/
def Cmd.lockQuiet : Cmd → Bool
  | store (.tryAcquireRoomCreationLock _) => false
  | store (.saveThreadMappingAtomic _ _ _ _) => false
  | store (.deleteThreadMappings _) => false
  | store (.saveJmapState _ key _) => key != .emailSpaceRoom
  | store (.deleteJmapState _ key) => key != .emailSpaceRoom
  | matrix (.createRoomForContact _ _ _) => false
  | matrix (.createSpace _ _ _) => false
  | matrix (.sendAsGhost _ _ _ _) => false
  | matrix (.putState _ eventType _) => eventType != "m.space.child"
  | task (.dropGuard _) => false
  | _ => true

theorem hasUser_referring {α : Type} {s s' : Store} {user : UserId} {a : α}
    (hs : ∀ u, s.hasUser u → s'.hasUser u) (u : UserId) (h : s.hasUser u) :
    (s.referring user a s').2.hasUser u := by
  unfold Store.referring
  split
  · exact hs u h
  · exact h

theorem recorded_referring {α : Type} {s s' : Store} {user : UserId} {a : α}
    (hs : ∀ key, s'.recorded key = s.recorded key) (key : LockKey) :
    (s.referring user a s').2.recorded key = s.recorded key := by
  unfold Store.referring
  split
  · exact hs key
  · rfl

theorem holds_referring {α : Type} {s s' : Store} {user : UserId} {a : α}
    (hs : s'.roomCreationLocks = s.roomCreationLocks) (key : LockKey) :
    (s.referring user a s').2.holds key = s.holds key := by
  unfold Store.referring
  split
  · rw [Store.holds, hs, Store.holds]
  · rfl

theorem run_quiet {c : StoreCmd} (hc : (Cmd.store c).lockQuiet) (now : Nat) (order : List Nat)
    (s : Store) :
    (∀ key, (c.run now order s).2.holds key = s.holds key) ∧
      (∀ key, (c.run now order s).2.recorded key = s.recorded key) ∧
      ∀ u, s.hasUser u → (c.run now order s).2.hasUser u := by
  cases c with
  | tryAcquireRoomCreationLock => cases hc
  | saveThreadMappingAtomic => cases hc
  | deleteThreadMappings => cases hc
  | saveJmapState user key state =>
    refine ⟨holds_referring rfl, recorded_referring fun k => ?_, hasUser_referring fun _ h => h⟩
    cases k with
    | thread k => rfl
    | emailSpace u =>
      refine AList.lookup_insert_ne ?_
      rintro ⟨⟩
      simp [Cmd.lockQuiet] at hc
  | deleteJmapState user key =>
    refine ⟨fun _ => rfl, fun k => ?_, fun _ h => h⟩
    cases k with
    | thread k => rfl
    | emailSpace u =>
      refine AList.lookup_erase_ne ?_
      rintro ⟨⟩
      simp [Cmd.lockQuiet] at hc
  | saveRoomGhostMapping room email user =>
    exact ⟨holds_referring rfl, recorded_referring fun k => by cases k <;> rfl,
      hasUser_referring fun _ h => h⟩
  | addToOutboundQueue user =>
    exact ⟨holds_referring rfl, recorded_referring fun k => by cases k <;> rfl,
      hasUser_referring fun _ h => h⟩
  | updateThreadLatestEvent thread latest =>
    refine ⟨fun _ => rfl, fun k => ?_, fun _ h => h⟩
    cases k with
    | thread k =>
      simp only [StoreCmd.run, Store.recorded, Sql.Table.lookup_modify, Option.map_map]
      congr 1
      funext r
      by_cases hk : k = thread <;> simp [hk]
    | emailSpace u => rfl
  | clearUserCredentials user =>
    refine ⟨fun _ => rfl, fun k => by cases k <;> rfl, fun u h => ?_⟩
    simpa [StoreCmd.run, Store.hasUser, Sql.Table.lookup_modify] using h
  | _ => exact ⟨fun _ => rfl, fun k => by cases k <;> rfl, fun _ h => h⟩

theorem guards_quiet {c : StoreCmd} (hc : (Cmd.store c).lockQuiet) (t : Nat)
    (r : Except Err c.Ans) : c.guards t r = [] := by
  cases c <;> first | rfl | cases hc

theorem creation_quiet {r : Record} (h : r.cmd.lockQuiet) : creation calls r = none := by
  unfold creation
  split
  · simp_all [Cmd.lockQuiet]
  · simp_all [Cmd.lockQuiet]
  · rfl

theorem usage_quiet {r : Record} (h : r.cmd.lockQuiet) : usage calls r = none := by
  unfold usage
  split
  · simp_all [Cmd.lockQuiet]
  · simp_all [Cmd.lockQuiet]
  · rfl

theorem created_quiet {trace : List Record} {r : Record} (hr : r.cmd.lockQuiet) (key : LockKey) :
    shown (creation calls) (r :: trace) key = shown (creation calls) trace key := by
  rw [shown_cons, creation_quiet hr]

theorem used_quiet {trace : List Record} {r : Record} (hr : r.cmd.lockQuiet) (key : LockKey) :
    shown (usage calls) (r :: trace) key = shown (usage calls) trace key := by
  rw [shown_cons, usage_quiet hr]

theorem same_of_quiet {t : Nat} {c : Cmd} {a : Answer} {b : c.Ans} (hc : c.lockQuiet)
    (h : exec t (.mk c) a w = some (b, w')) :
    (∀ key, SameAt calls w w' key ∧ w'.used calls key = w.used calls key) ∧
      ∀ u, w.store.hasUser u → w'.store.hasUser u := by
  have hr : (⟨t, c, a⟩ : Record).cmd.lockQuiet := hc
  cases c with
  | store c =>
    have held : ∀ order key, (c.run w.now order w.store).2.holds key = w.store.holds key :=
      fun order => (run_quiet hc w.now order w.store).1
    have recorded : ∀ order key,
        (c.run w.now order w.store).2.recorded key = w.store.recorded key :=
      fun order => (run_quiet hc w.now order w.store).2.1
    rcases exec_store h with ⟨order, -, -, rfl⟩ | ⟨-, -, rfl⟩ | ⟨-, -, rfl⟩
    · rw [guards_quiet hc, List.nil_append]
      exact ⟨fun key => ⟨⟨held order key, recorded order key, rfl, fun _ => Iff.rfl,
        created_quiet hr key⟩, used_quiet hr key⟩, (run_quiet hc w.now order w.store).2.2⟩
    · exact ⟨fun key => ⟨⟨rfl, rfl, rfl, fun _ => Iff.rfl, created_quiet hr key⟩,
        used_quiet hr key⟩, fun _ h => h⟩
    · exact ⟨fun key => ⟨⟨held [] key, recorded [] key, rfl, fun _ => Iff.rfl,
        created_quiet hr key⟩, used_quiet hr key⟩, (run_quiet hc w.now [] w.store).2.2⟩
  | matrix c =>
    obtain ⟨⟨issued, rfl⟩, -⟩ := exec_matrix h
    exact ⟨fun key => ⟨⟨rfl, rfl, rfl, fun _ => Iff.rfl, created_quiet hr key⟩,
      used_quiet hr key⟩, fun _ h => h⟩
  | jmap account c =>
    obtain ⟨mail, rfl⟩ := exec_jmap h
    exact ⟨fun key => ⟨⟨rfl, rfl, rfl, fun _ => Iff.rfl, created_quiet hr key⟩,
      used_quiet hr key⟩, fun _ h => h⟩
  | task c =>
    obtain ⟨-, -, rfl⟩ := exec_task h
    cases c with
    | dropGuard => cases hc
    | _ => exact ⟨fun key => ⟨⟨rfl, rfl, rfl, fun _ => Iff.rfl, created_quiet hr key⟩,
        used_quiet hr key⟩, fun _ h => h⟩

end

end JmapBridge
