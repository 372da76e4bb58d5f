import JmapBridge.Model.Calls
import JmapBridge.Effect.Triple

/-! What one command can do to the world, family by family. -/

namespace JmapBridge

open Effect

variable {t : Nat} {a : Answer} {w w' : World}

theorem exec_mk {c : Cmd} {b : c.Ans} (h : exec t (.mk c) a w = some (b, w')) :
    ∃ w₁, c.perform t a w = some (b, w₁) ∧ w' = { w₁ with trace := ⟨t, c, a⟩ :: w₁.trace } := by
  obtain ⟨⟨b₁, w₁⟩, hp, he⟩ := Option.map_eq_some_iff.mp h
  obtain ⟨rfl, rfl⟩ := Prod.mk.inj he
  exact ⟨w₁, hp, rfl⟩

theorem exec_store {c : StoreCmd} {b : Except Err c.Ans}
    (h : exec t (.mk (.store c)) a w = some (b, w')) :
    (∃ order, (a = .done ∧ order = [] ∨ a = .rows order) ∧ b = (c.run w.now order w.store).1 ∧
      w' = { w with
        store := (c.run w.now order w.store).2
        guards := c.guards t (c.run w.now order w.store).1 ++ w.guards
        snapshot := c.fetched t (c.run w.now order w.store).1 ++ w.snapshot
        deliveries := c.claimed t (c.run w.now order w.store).1 ++ c.unclaimed t w.deliveries
        skipped := c.skipped (c.run w.now order w.store).1 ++ w.skipped
        enqueued := c.inserted (c.run w.now order w.store).1 ++ w.enqueued
        trace := ⟨t, .store c, a⟩ :: w.trace }) ∨
    (a = .failed ∧ b = .error .sqlx ∧ w' = { w with trace := ⟨t, .store c, a⟩ :: w.trace }) ∨
    (∃ s, a = .lost s) ∧ b = .error .sqlx ∧
      w' = { w with
        store := (c.run w.now [] w.store).2
        deliveries := c.unclaimed t w.deliveries
        enqueued := c.inserted (c.run w.now [] w.store).1 ++ w.enqueued
        trace := ⟨t, .store c, a⟩ :: w.trace } := by
  obtain ⟨w₁, hp, rfl⟩ := exec_mk h
  cases a with
  | done =>
    obtain ⟨rfl, rfl⟩ := Prod.mk.inj (Option.some.inj hp)
    exact .inl ⟨[], .inl ⟨rfl, rfl⟩, rfl, rfl⟩
  | rows order =>
    obtain ⟨rfl, rfl⟩ := Prod.mk.inj (Option.some.inj hp)
    exact .inl ⟨order, .inr rfl, rfl, rfl⟩
  | failed =>
    obtain ⟨rfl, rfl⟩ := Prod.mk.inj (Option.some.inj hp)
    exact .inr (.inl ⟨rfl, rfl, rfl⟩)
  | lost s =>
    obtain ⟨rfl, rfl⟩ := Prod.mk.inj (Option.some.inj hp)
    exact .inr (.inr ⟨⟨s, rfl⟩, rfl, rfl⟩)
  | _ => cases hp

theorem exec_store_error {c : StoreCmd} {err : Err}
    (h : exec t (.mk (.store c)) a w = some (.error err, w')) : redeliverable err := by
  have hrun : ∀ order, (c.run w.now order w.store).1 = .error err → redeliverable err := by
    have refers : ∀ {α : Type} {u : UserId} {b : α} {s' : Store},
        (w.store.referring u b s').1 = .error err → redeliverable err := by
      intro α u b s' he
      unfold Store.referring at he
      split at he
      · cases he
      · cases he
        rfl
    intro order he
    cases c with
    | saveJmapState => exact refers he
    | saveRoomGhostMapping => exact refers he
    | addToOutboundQueue => exact refers he
    | tryAcquireRoomCreationLock key =>
      simp only [StoreCmd.run] at he
      split at he <;> cases he
    | _ => cases he
  rcases exec_store h with ⟨order, -, hb, -⟩ | ⟨-, hb, -⟩ | ⟨-, hb, -⟩
  · exact hrun order hb.symm
  · cases hb
    rfl
  · cases hb
    rfl

theorem exec_matrix {c : MatrixCmd} {b : Except Err c.Ans}
    (h : exec t (.mk (.matrix c)) a w = some (b, w')) :
    (∃ issued, w' = { w with issued := issued, trace := ⟨t, .matrix c, a⟩ :: w.trace }) ∧
      (∀ v, b = .ok v → c.value a = some v) := by
  obtain ⟨w₁, hp, rfl⟩ := exec_mk h
  cases a with
  | failed =>
    obtain ⟨rfl, rfl⟩ := Prod.mk.inj (Option.some.inj hp)
    exact ⟨⟨w.issued, rfl⟩, by rintro _ ⟨⟩⟩
  | notJoined =>
    obtain ⟨rfl, rfl⟩ := Prod.mk.inj (Option.some.inj hp)
    exact ⟨⟨w.issued, rfl⟩, by rintro _ ⟨⟩⟩
  | lost s =>
    simp only [Cmd.perform, MatrixCmd.perform] at hp
    split at hp
    · cases hp
    · obtain ⟨rfl, rfl⟩ := Prod.mk.inj (Option.some.inj hp)
      exact ⟨⟨s :: w.issued, rfl⟩, by rintro _ ⟨⟩⟩
  | id s =>
    simp only [Cmd.perform, MatrixCmd.perform] at hp
    split at hp
    · cases hp
    · obtain ⟨v, hv, he⟩ := Option.map_eq_some_iff.mp hp
      obtain ⟨rfl, rfl⟩ := Prod.mk.inj he
      exact ⟨⟨s :: w.issued, rfl⟩, fun v' hv' => by cases hv'; exact hv⟩
  | _ =>
    obtain ⟨v, hv, he⟩ := Option.map_eq_some_iff.mp hp
    obtain ⟨rfl, rfl⟩ := Prod.mk.inj he
    exact ⟨⟨w.issued, rfl⟩, fun v' hv' => by cases hv'; exact hv⟩

/-- What an answer of the homeserver comes to. -/
theorem exec_matrix_cases {c : MatrixCmd} {b : Except Err c.Ans}
    (h : exec t (.mk (.matrix c)) a w = some (b, w')) :
    (∃ v, b = .ok v ∧ c.value a = some v) ∨ a = .failed ∧ b = .error .matrix ∨
      a = .notJoined ∧ b = .error .notJoined ∨ ∃ s, a = .lost s ∧ b = .error .matrix := by
  obtain ⟨w₁, hp, -⟩ := exec_mk h
  cases a with
  | failed => exact .inr (.inl ⟨rfl, (congrArg Prod.fst (Option.some.inj hp)).symm⟩)
  | notJoined => exact .inr (.inr (.inl ⟨rfl, (congrArg Prod.fst (Option.some.inj hp)).symm⟩))
  | lost s =>
    simp only [Cmd.perform, MatrixCmd.perform] at hp
    split at hp
    · cases hp
    · exact .inr (.inr (.inr ⟨s, rfl, (congrArg Prod.fst (Option.some.inj hp)).symm⟩))
  | id s =>
    simp only [Cmd.perform, MatrixCmd.perform] at hp
    split at hp
    · cases hp
    · obtain ⟨v, hv, he⟩ := Option.map_eq_some_iff.mp hp
      exact .inl ⟨v, (congrArg Prod.fst he).symm, hv⟩
  | _ =>
    obtain ⟨v, hv, he⟩ := Option.map_eq_some_iff.mp hp
    exact .inl ⟨v, (congrArg Prod.fst he).symm, hv⟩

theorem exec_notJoined {c : MatrixCmd}
    (h : exec t (.mk (.matrix c)) a w = some (.error .notJoined, w')) : a = .notJoined := by
  rcases exec_matrix_cases h with ⟨v, hb, -⟩ | ⟨-, hb⟩ | ⟨ha, -⟩ | ⟨s, -, hb⟩
  · cases hb
  · cases hb
  · exact ha
  · cases hb

/-- The ids that the homeserver gives out are new. -/
theorem exec_issues {c : MatrixCmd} {b : Except Err c.Ans} {s : String}
    (h : exec t (.mk (.matrix c)) a w = some (b, w')) (ha : a = .id s ∨ a = .lost s) :
    s ∉ w.issued ∧ w'.issued = s :: w.issued := by
  obtain ⟨w₁, hp, rfl⟩ := exec_mk h
  rcases ha with rfl | rfl
  · simp only [Cmd.perform, MatrixCmd.perform] at hp
    split at hp
    · cases hp
    · next hnew =>
      obtain ⟨v, -, he⟩ := Option.map_eq_some_iff.mp hp
      obtain ⟨-, rfl⟩ := Prod.mk.inj he
      exact ⟨hnew, rfl⟩
  · simp only [Cmd.perform, MatrixCmd.perform] at hp
    split at hp
    · cases hp
    · next hnew =>
      obtain ⟨-, rfl⟩ := Prod.mk.inj (Option.some.inj hp)
      exact ⟨hnew, rfl⟩

theorem exec_send {room : RoomId} {sender : UserId} {x : Content} {ts : Option Nat}
    {b : Except Err EventId}
    (h : exec t (.mk (.matrix (.sendAsGhost room sender x ts))) a w = some (b, w')) :
    (∃ event, a = .id event ∧ b = .ok event) ∨
      ((a = .failed ∨ a = .notJoined) ∧ ∃ err, b = .error err) ∨
      ∃ event, a = .lost event ∧ b = .error .matrix := by
  rcases exec_matrix_cases h with ⟨event, rfl, hv⟩ | ⟨rfl, rfl⟩ | ⟨rfl, rfl⟩ | ⟨s, rfl, rfl⟩
  · cases a with
    | id s =>
      cases hv
      exact .inl ⟨_, rfl, rfl⟩
    | _ => cases hv
  · exact .inr (.inl ⟨.inl rfl, _, rfl⟩)
  · exact .inr (.inl ⟨.inr rfl, _, rfl⟩)
  · exact .inr (.inr ⟨s, rfl, rfl⟩)

theorem exec_jmap_perform {account : Account} {c : JmapCmd} {b : Except Err c.Ans}
    (h : exec t (.mk (.jmap account c)) a w = some (b, w')) :
    ∃ w₁, c.perform account a w = some (b, w₁) ∧ w' = { w₁ with
      snapshot := c.settled t w₁.snapshot, trace := ⟨t, .jmap account c, a⟩ :: w₁.trace } := by
  obtain ⟨w₂, hp, rfl⟩ := exec_mk h
  obtain ⟨⟨b₁, w₁⟩, hc, he⟩ := Option.map_eq_some_iff.mp hp
  obtain ⟨rfl, rfl⟩ := Prod.mk.inj he
  exact ⟨w₁, hc, rfl⟩

theorem exec_jmap {account : Account} {c : JmapCmd} {b : Except Err c.Ans}
    (h : exec t (.mk (.jmap account c)) a w = some (b, w')) :
    ∃ mail, w' = { w with
      mail := mail, snapshot := c.settled t w.snapshot
      trace := ⟨t, .jmap account c, a⟩ :: w.trace } := by
  obtain ⟨w₁, hp, rfl⟩ := exec_jmap_perform h
  cases a with
  | failed =>
    obtain ⟨rfl, rfl⟩ := Prod.mk.inj (Option.some.inj hp)
    exact ⟨w.mail, rfl⟩
  | cannotCalculateChanges =>
    obtain ⟨rfl, rfl⟩ := Prod.mk.inj (Option.some.inj hp)
    exact ⟨w.mail, rfl⟩
  | reply r =>
    obtain ⟨v, -, he⟩ := Option.map_eq_some_iff.mp hp
    obtain ⟨rfl, rfl⟩ := Prod.mk.inj he
    exact ⟨_, rfl⟩
  | lostReply r =>
    obtain ⟨v, -, he⟩ := Option.map_eq_some_iff.mp hp
    obtain ⟨rfl, rfl⟩ := Prod.mk.inj he
    exact ⟨_, rfl⟩
  | _ => cases hp

theorem exec_reply {account : Account} {c : JmapCmd} {b : Except Err c.Ans}
    (h : exec t (.mk (.jmap account c)) a w = some (b, w')) :
    (∃ r v, a = .reply r ∧ b = .ok v ∧ c.value w.mail account r = some v) ∨
      (∀ r, a ≠ .reply r) ∧ ∃ err, b = .error err := by
  obtain ⟨w₁, hp, -⟩ := exec_jmap_perform h
  cases a with
  | failed =>
    obtain ⟨rfl, -⟩ := Prod.mk.inj (Option.some.inj hp)
    exact .inr ⟨fun r h => (by cases h), _, rfl⟩
  | cannotCalculateChanges =>
    obtain ⟨rfl, -⟩ := Prod.mk.inj (Option.some.inj hp)
    exact .inr ⟨fun r h => (by cases h), _, rfl⟩
  | reply r =>
    obtain ⟨v, hv, he⟩ := Option.map_eq_some_iff.mp hp
    obtain ⟨rfl, -⟩ := Prod.mk.inj he
    exact .inl ⟨r, v, rfl, rfl, hv⟩
  | lostReply r =>
    obtain ⟨v, -, he⟩ := Option.map_eq_some_iff.mp hp
    obtain ⟨rfl, -⟩ := Prod.mk.inj he
    exact .inr ⟨fun r h => (by cases h), _, rfl⟩
  | _ => cases hp

theorem exec_task {c : TaskCmd} {b : c.Ans} (h : exec t (.mk (.task c)) a w = some (b, w')) :
    a = .done ∧ b = (c.run t w).1 ∧
      w' = { (c.run t w).2 with trace := ⟨t, .task c, a⟩ :: (c.run t w).2.trace } := by
  obtain ⟨w₁, hp, rfl⟩ := exec_mk h
  cases a with
  | done =>
    obtain ⟨rfl, rfl⟩ := Prod.mk.inj (Option.some.inj hp)
    exact ⟨rfl, rfl, rfl⟩
  | _ => cases hp

theorem exec_trace {c : Cmd} {b : c.Ans} (h : exec t (.mk c) a w = some (b, w')) :
    w'.trace = ⟨t, c, a⟩ :: w.trace := by
  cases c with
  | store c =>
    rcases exec_store h with ⟨order, -, -, rfl⟩ | ⟨-, -, rfl⟩ | ⟨-, -, rfl⟩
    · rfl
    · rfl
    · rfl
  | matrix c =>
    obtain ⟨⟨issued, rfl⟩, -⟩ := exec_matrix h
    rfl
  | jmap account c =>
    obtain ⟨mail, rfl⟩ := exec_jmap h
    rfl
  | task c =>
    obtain ⟨-, -, rfl⟩ := exec_task h
    cases c <;> rfl

def Cmd.spans (t : Nat) : Cmd → List (Nat × Option EmailId) → List (Nat × Option EmailId)
  | task (.enter email), l => (t, email) :: l
  | task (.leave email), l => l.erase (t, email)
  | _, l => l

theorem exec_spans {c : Cmd} {b : c.Ans} (h : exec t (.mk c) a w = some (b, w')) :
    w'.spans = c.spans t w.spans := by
  cases c with
  | store c =>
    rcases exec_store h with ⟨order, -, -, rfl⟩ | ⟨-, -, rfl⟩ | ⟨-, -, rfl⟩
    · rfl
    · rfl
    · rfl
  | matrix c =>
    obtain ⟨⟨issued, rfl⟩, -⟩ := exec_matrix h
    rfl
  | jmap account c =>
    obtain ⟨mail, rfl⟩ := exec_jmap h
    rfl
  | task c =>
    obtain ⟨-, -, rfl⟩ := exec_task h
    cases c <;> rfl

theorem now_exec {c : Cmd} {b : c.Ans} (h : exec t (.mk c) a w = some (b, w')) :
    w'.now = w.now := by
  cases c with
  | store c =>
    rcases exec_store h with ⟨order, -, -, rfl⟩ | ⟨-, -, rfl⟩ | ⟨-, -, rfl⟩
    · rfl
    · rfl
    · rfl
  | matrix c =>
    obtain ⟨⟨issued, rfl⟩, -⟩ := exec_matrix h
    rfl
  | jmap account c =>
    obtain ⟨mail, rfl⟩ := exec_jmap h
    rfl
  | task c =>
    obtain ⟨-, -, rfl⟩ := exec_task h
    cases c <;> rfl

theorem issued_exec {c : Cmd} {a : Answer} {b : c.Ans} (h : exec t (.mk c) a w = some (b, w')) :
    w.issued ⊆ w'.issued := by
  cases c with
  | store c =>
    rcases exec_store h with ⟨order, -, -, rfl⟩ | ⟨-, -, rfl⟩ | ⟨-, -, rfl⟩
    · exact fun _ hs => hs
    · exact fun _ hs => hs
    · exact fun _ hs => hs
  | matrix c =>
    obtain ⟨w₁, hp, rfl⟩ := exec_mk h
    cases a with
    | failed =>
      obtain ⟨rfl, rfl⟩ := Prod.mk.inj (Option.some.inj hp)
      exact fun _ hs => hs
    | notJoined =>
      obtain ⟨rfl, rfl⟩ := Prod.mk.inj (Option.some.inj hp)
      exact fun _ hs => hs
    | lost s =>
      simp only [Cmd.perform, MatrixCmd.perform] at hp
      split at hp
      · cases hp
      · obtain ⟨rfl, rfl⟩ := Prod.mk.inj (Option.some.inj hp)
        exact fun _ hs => List.mem_cons_of_mem _ hs
    | id s =>
      simp only [Cmd.perform, MatrixCmd.perform] at hp
      split at hp
      · cases hp
      · obtain ⟨v, hv, he⟩ := Option.map_eq_some_iff.mp hp
        obtain ⟨rfl, rfl⟩ := Prod.mk.inj he
        exact fun _ hs => List.mem_cons_of_mem _ hs
    | _ =>
      obtain ⟨v, hv, he⟩ := Option.map_eq_some_iff.mp hp
      obtain ⟨rfl, rfl⟩ := Prod.mk.inj he
      exact fun _ hs => hs
  | jmap account c =>
    obtain ⟨mail, rfl⟩ := exec_jmap h
    exact fun _ hs => hs
  | task c =>
    obtain ⟨-, -, rfl⟩ := exec_task h
    cases c <;> exact fun _ hs => hs

/-- The newest command of task `t`. -/
def newest (t : Nat) (l : List Record) : Option Record := l.find? fun r => r.task == t

theorem newest_own {r : Record} {l : List Record} : newest r.task (r :: l) = some r := by
  simp [newest]

theorem newest_other {i : Nat} {r : Record} {l : List Record} (h : r.task ≠ i) :
    newest i (r :: l) = newest i l := by
  simp [newest, h]

/-- Another task has written since task `t` last read. -/
def superseded (reads writes : Record → Bool) (t : Nat) : List Record → Bool
  | [] => false
  | r :: l =>
    if r.task = t then !reads r && superseded reads writes t l
    else writes r || superseded reads writes t l

theorem superseded_other {reads writes : Record → Bool} {i : Nat} {r : Record} {l : List Record}
    (h : r.task ≠ i) :
    superseded reads writes i (r :: l) = (writes r || superseded reads writes i l) := by
  simp [superseded, h]

theorem exec_store_keeps {P : Store → Prop} {c : Cmd} {b : c.Ans}
    (hP : ∀ c now order s, P s → P (StoreCmd.run now order c s).2)
    (h : exec t (.mk c) a w = some (b, w')) (hw : P w.store) : P w'.store := by
  cases c with
  | store c =>
    rcases exec_store h with ⟨order, -, -, rfl⟩ | ⟨-, -, rfl⟩ | ⟨-, -, rfl⟩
    · exact hP c _ _ _ hw
    · exact hw
    · exact hP c _ _ _ hw
  | matrix c =>
    obtain ⟨⟨issued, rfl⟩, -⟩ := exec_matrix h
    exact hw
  | jmap account c =>
    obtain ⟨mail, rfl⟩ := exec_jmap h
    exact hw
  | task c =>
    obtain ⟨-, -, rfl⟩ := exec_task h
    cases c <;> exact hw

theorem state_run {user : UserId} {key : StateKey} {c : StoreCmd}
    (hsave : ∀ v, c ≠ .saveJmapState user key v) (hdelete : c ≠ .deleteJmapState user key)
    (now : Nat) (order : List Nat) (s : Store) :
    (c.run now order s).2.jmapState.lookup (user, key) = s.jmapState.lookup (user, key) := by
  have refers : ∀ {α : Type} {u : UserId} {b : α} {s' : Store},
      s'.jmapState.lookup (user, key) = s.jmapState.lookup (user, key) →
      (s.referring u b s').2.jmapState.lookup (user, key) = s.jmapState.lookup (user, key) := by
    intro α u b s' hs
    unfold Store.referring
    split
    · exact hs
    · rfl
  cases c with
  | saveJmapState u k v =>
    refine refers (AList.lookup_insert_ne fun heq => ?_)
    obtain ⟨rfl, rfl⟩ := Prod.mk.inj heq
    exact hsave v rfl
  | deleteJmapState u k =>
    refine AList.lookup_erase_ne fun heq => ?_
    obtain ⟨rfl, rfl⟩ := Prod.mk.inj heq
    exact hdelete rfl
  | saveRoomGhostMapping => exact refers rfl
  | addToOutboundQueue => exact refers rfl
  | tryAcquireRoomCreationLock key =>
    simp only [StoreCmd.run]
    split <;> rfl
  | _ => rfl

theorem state_exec {user : UserId} {key : StateKey} {c : Cmd} {b : c.Ans}
    (hsave : ∀ v, c ≠ .store (.saveJmapState user key v))
    (hdelete : c ≠ .store (.deleteJmapState user key))
    (he : exec t (.mk c) a w = some (b, w')) :
    w'.store.jmapState.lookup (user, key) = w.store.jmapState.lookup (user, key) := by
  cases c with
  | store c =>
    have hrun := state_run (c := c) (fun v hv => hsave v (congrArg _ hv))
      (fun hd => hdelete (congrArg _ hd))
    rcases exec_store he with ⟨order, -, -, rfl⟩ | ⟨-, -, rfl⟩ | ⟨-, -, rfl⟩
    · exact hrun _ _ _
    · rfl
    · exact hrun _ _ _
  | matrix c =>
    obtain ⟨⟨issued, rfl⟩, -⟩ := exec_matrix he
    rfl
  | jmap account c =>
    obtain ⟨mail, rfl⟩ := exec_jmap he
    rfl
  | task c =>
    obtain ⟨-, -, rfl⟩ := exec_task he
    cases c <;> rfl

theorem hasUser_exec {user : UserId} {c : Cmd} {b : c.Ans} (h : exec t (.mk c) a w = some (b, w')) :
    w'.store.hasUser user = w.store.hasUser user := by
  have hstore : ∀ (c : StoreCmd) now order (s : Store),
      (StoreCmd.run now order c s).2.hasUser user = s.hasUser user := by
    have refers : ∀ {α : Type} {u : UserId} {b : α} {s s' : Store}, s'.users = s.users →
        (s.referring u b s').2.hasUser user = s.hasUser user := by
      intro α u b s s' hs
      unfold Store.referring
      split
      · simp [Store.hasUser, hs]
      · rfl
    intro c now order s
    cases c with
    | saveJmapState => exact refers rfl
    | saveRoomGhostMapping => exact refers rfl
    | addToOutboundQueue => exact refers rfl
    | tryAcquireRoomCreationLock key =>
      simp only [StoreCmd.run]
      split <;> rfl
    | clearUserCredentials u => simp [StoreCmd.run, Store.hasUser, Sql.Table.lookup_modify]
    | _ => rfl
  exact exec_store_keeps (P := fun s => s.hasUser user = w.store.hasUser user)
    (fun c now order s hs => (hstore c now order s).trans hs) h rfl

/-- The room a thread is mapped to. -/
def Store.boundTo (s : Store) (thread : ThreadId) : Option RoomId :=
  (s.threadMapping.lookup thread).map (·.roomId)

def Store.mapped (s : Store) (e : EmailId) : Bool :=
  (s.messageMapping.lookup e).isSome || (s.destroyedEmails.lookup e).isSome

theorem mapped_run {e : EmailId} (c : StoreCmd) (now : Nat) (order : List Nat) (s : Store)
    (h : s.mapped e) :
    (StoreCmd.run now order c s).2.mapped e := by
  have refers : ∀ {α : Type} {u : UserId} {a : α} {s' : Store}, s'.mapped e →
      (s.referring u a s').2.mapped e := by
    intro α u a s' h'
    unfold Store.referring
    split
    · exact h'
    · exact h
  cases c with
  | saveJmapState => exact refers h
  | saveRoomGhostMapping => exact refers h
  | addToOutboundQueue => exact refers h
  | saveMessageMapping i m =>
    by_cases hi : e = i
    · subst hi
      simp [StoreCmd.run, Store.mapped]
    · simpa [StoreCmd.run, Store.mapped, AList.lookup_insert_ne hi] using h
  | markEmailDestroyed i =>
    have hd : (s.destroyedEmails.lookup e).isSome →
        (((StoreCmd.markEmailDestroyed i).run now order s).2.destroyedEmails.lookup e).isSome := by
      intro hs
      simp only [StoreCmd.run]
      split
      · exact hs
      · by_cases hi : e = i
        · subst hi
          simp
        · simpa [AList.lookup_insert_ne hi] using hs
    simp only [Store.mapped, Bool.or_eq_true] at h ⊢
    exact h.imp id hd
  | tryAcquireRoomCreationLock key =>
    simp only [StoreCmd.run]
    split
    · exact h
    · exact h
  | _ => exact h

theorem mapped_exec {e : EmailId} {c : Cmd} {b : c.Ans} (h : exec t (.mk c) a w = some (b, w'))
    (hm : w.store.mapped e) : w'.store.mapped e :=
  exec_store_keeps (P := fun s => s.mapped e) mapped_run h hm

/-- The environment gives no command, and of the store it writes only users and locks. -/
theorem env_store {e : Env} (he : e.perform w = some w') :
    w'.trace = w.trace ∧ ∃ users locks,
      w'.store = { w.store with users := users, roomCreationLocks := locks } := by
  cases e with
  | release key stored =>
    simp only [Env.perform] at he
    split at he
    · obtain rfl := Option.some.inj he
      exact ⟨rfl, _, _, rfl⟩
    · cases he
  | _ =>
    obtain rfl := Option.some.inj he
    exact ⟨rfl, _, _, rfl⟩

end JmapBridge
