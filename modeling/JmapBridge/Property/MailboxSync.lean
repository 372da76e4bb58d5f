import JmapBridge.Model.Service
import JmapBridge.Effect.Triple

/-! The mailbox sync saves its token for finished work only. What a run of it has learnt and
asked for is read off the records of its task, and a mailbox keeps the room it has, as long
as no run maps a mailbox that another has mapped since it looked. -/

namespace JmapBridge

open Effect

/-- The commands with which the mailbox sync keeps its place and asks the server. -/
def Cmd.syncsMailboxes : Cmd → Bool
  | store (.getJmapState _ key) => key.ofMailbox
  | store (.saveJmapState _ key _) => key.ofMailbox
  | store (.deleteJmapState _ key) => key.ofMailbox
  | jmap _ (.changesMailbox _) => true
  | jmap _ .queryMailbox => true
  | jmap _ .getMailboxState => true
  | jmap _ (.getMailbox _) => true
  | _ => false

def Cmd.readsMailboxToken : Cmd → Bool
  | store (.getJmapState _ key) => key.ofMailbox
  | _ => false

def Cmd.savesMailboxToken : Cmd → Bool
  | store (.saveJmapState _ key _) => key.ofMailbox
  | _ => false

def Cmd.dropsMailboxToken : Cmd → Bool
  | store (.deleteJmapState _ key) => key.ofMailbox
  | _ => false

/-- The records of the mailbox sync that task `t` is in, the newest first. -/
def syncingIn (t : Nat) : List Record → List Record
  | [] => []
  | r :: l =>
    if r.task ≠ t then syncingIn t l
    else if r.cmd.readsMailboxToken then []
    else if r.cmd.syncsMailboxes then r :: syncingIn t l
    else syncingIn t l

def World.syncing (w : World) (t : Nat) : List Record := syncingIn t w.trace

/-- The ids of a page. -/
def Record.listed (r : Record) : List MailboxId :=
  match r.cmd, r.answer with
  | .jmap _ (.changesMailbox _), .reply (.changes x) => x.created ++ x.updated
  | .jmap _ .queryMailbox, .reply (.queried x) => x.ids
  | _, _ => []

/-- The ids `Mailbox/get` was asked for, where it has answered. -/
def Record.requested (r : Record) : List MailboxId :=
  match r.cmd, r.answer with
  | .jmap _ (.getMailbox ids), .reply _ => ids
  | _, _ => []

def namedIn (mailboxes : List (Option MailboxId × Option String)) : List MailboxId :=
  mailboxes.filterMap fun m => if m.2.isSome then m.1 else none

/-- The mailboxes it returned with an id and a name. -/
def Record.named (r : Record) : List MailboxId :=
  match r.cmd, r.answer with
  | .jmap _ (.getMailbox _), .reply (.mailboxes l) => namedIn l
  | _, _ => []

def Record.refused (r : Record) : Bool :=
  match r.cmd, r.answer with
  | .jmap _ (.changesMailbox _), .cannotCalculateChanges => true
  | _, _ => false

def Store.roomOf (s : Store) (m : MailboxId) : Option RoomId := s.mailboxMapping.lookup m

/-- All that was reported was asked for, and all that came back with a name has a room. -/
structure Finished (s : Store) (l : List Record) : Prop where
  requested : ∀ m ∈ l.flatMap Record.listed, m ∈ l.flatMap Record.requested
  mapped : ∀ m ∈ l.flatMap Record.named, (s.roomOf m).isSome

/-- The token is saved last, after finished work, and dropped where the server refused it. -/
def Ordered (s : Store) : List Record → Prop
  | [] => True
  | r :: l => (∀ x ∈ l, x.cmd.savesMailboxToken = false) ∧
    (r.cmd.savesMailboxToken → Finished s l) ∧
    (r.cmd.dropsMailboxToken → l.head?.any Record.refused) ∧ Ordered s l

/-- Another task has mapped the mailbox since `t` last looked it up. -/
def overtakenIn (t : Nat) (m : MailboxId) : List Record → Bool
  | [] => false
  | r :: l =>
    if r.task = t then (r.cmd != .store (.getRoomId m)) && overtakenIn t m l
    else match r.cmd, r.answer with
      | .store (.saveRoomMapping _ _), .failed => overtakenIn t m l
      | .store (.saveRoomMapping m' _), _ => m' == m || overtakenIn t m l
      | _, _ => overtakenIn t m l

def World.overtaken (w : World) (t : Nat) (m : MailboxId) : Bool := overtakenIn t m w.trace

/-- No mailbox is mapped by a task that another has overtaken, and a save of the token that
reports an error has had no effect. -/
def Cmd.inTurn (t : Nat) : Cmd → Answer → World → Bool
  | store (.saveRoomMapping m _), a, w => a == .failed || !w.overtaken t m
  | store (.saveJmapState _ key _), .lost _, _ => !key.ofMailbox
  | _, _, _ => true

def inTurn : Discipline Op World Answer Env where
  step t _ o a w := o.cmd.inTurn t a w

instance decidableInTurn (e : Event Answer Env) (q : Pool Op World) :
    Decidable (inTurn.meets e q) :=
  @Discipline.decidableMeets Op World Answer Env inTurn (fun _ _ => instDecidableTrue)
    (fun t _ o a w => inferInstanceAs (Decidable (o.cmd.inTurn t a w = true)))
    (fun _ _ => instDecidableTrue) (fun _ _ => instDecidableTrue) e q

/-- What a task relies on: its own records stay, rooms stay, and a mailbox gets one only from
a task that thereby overtakes it. -/
structure Undisturbed (t : Nat) (w w' : World) : Prop where
  syncing : w'.syncing t = w.syncing t
  rooms : ∀ m r, w.store.roomOf m = some r → w'.store.roomOf m = some r
  fresh : ∀ m, w.store.roomOf m = none → w'.store.roomOf m = none ∨ w'.overtaken t m
  overtaken : ∀ m, w.overtaken t m → w'.overtaken t m

theorem Undisturbed.refl (t : Nat) (w : World) : Undisturbed t w w :=
  ⟨rfl, fun _ _ h => h, fun _ h => .inl h, fun _ h => h⟩

theorem Undisturbed.trans {t : Nat} {w₁ w₂ w₃ : World} (h : Undisturbed t w₁ w₂)
    (h' : Undisturbed t w₂ w₃) : Undisturbed t w₁ w₃ := by
  refine ⟨h'.syncing.trans h.syncing, fun m r hr => h'.rooms m r (h.rooms m r hr), fun m hm => ?_,
    fun m hm => h'.overtaken m (h.overtaken m hm)⟩
  rcases h.fresh m hm with hm | hm
  · exact h'.fresh m hm
  · exact .inr (h'.overtaken m hm)

def mailboxContract : Contract World where
  inv w := ∀ t, Ordered w.store (w.syncing t)
  rely := Undisturbed
  refl := Undisturbed.refl
  trans := .trans

section

variable {cfg : Config} {calls : Nat → Call} {t : Nat} {w w' : World} {α : Type} {l : List Record}
  {m : MailboxId}

theorem Finished.mono {s s' : Store} (h : Finished s l)
    (hs : ∀ m r, s.roomOf m = some r → s'.roomOf m = some r) : Finished s' l := by
  refine ⟨h.requested, fun m hm => ?_⟩
  obtain ⟨r, hr⟩ := Option.isSome_iff_exists.mp (h.mapped m hm)
  simp [hs m r hr]

theorem Ordered.mono {s s' : Store} (h : Ordered s l)
    (hs : ∀ m r, s.roomOf m = some r → s'.roomOf m = some r) : Ordered s' l := by
  induction l with
  | nil => trivial
  | cons r l ih => exact ⟨h.1, fun hr => (h.2.1 hr).mono hs, h.2.2.1, ih h.2.2.2⟩

/-! What one command does. -/

theorem rooms_referring {β : Type} {s s' : Store} {user : UserId} {b : β} {m : MailboxId}
    (hs : s'.roomOf m = s.roomOf m) : (s.referring user b s').2.roomOf m = s.roomOf m := by
  unfold Store.referring
  split
  · exact hs
  · rfl

theorem rooms_run {c : StoreCmd} (hc : ∀ m r, c ≠ .saveRoomMapping m r) (now : Nat)
    (order : List Nat) (s : Store) : (c.run now order s).2.roomOf m = s.roomOf m := by
  cases c with
  | saveRoomMapping m r => exact absurd rfl (hc m r)
  | saveJmapState => exact rooms_referring rfl
  | saveRoomGhostMapping => exact rooms_referring rfl
  | addToOutboundQueue => exact rooms_referring rfl
  | tryAcquireRoomCreationLock key =>
    simp only [StoreCmd.run]
    split
    · rfl
    · rfl
  | _ => rfl

theorem rooms_exec {c : Cmd} {a : Answer} {b : c.Ans} (hc : ∀ m r,
    c ≠ .store (.saveRoomMapping m r))
    (he : exec t (.mk c) a w = some (b, w')) : w'.store.roomOf m = w.store.roomOf m := by
  cases c with
  | store c =>
    have hc : ∀ m r, c ≠ .saveRoomMapping m r := fun m r h => hc m r (by rw [h])
    rcases exec_store he with ⟨order, -, -, rfl⟩ | ⟨-, -, rfl⟩ | ⟨-, -, rfl⟩
    · exact rooms_run hc _ _ _
    · rfl
    · exact rooms_run hc _ _ _
  | matrix c =>
    obtain ⟨⟨issued, rfl⟩, -⟩ := exec_matrix he
    rfl
  | jmap account c =>
    obtain ⟨mail, rfl⟩ := exec_jmap he
    rfl
  | task c =>
    obtain ⟨-, -, rfl⟩ := exec_task he
    cases c <;> rfl

theorem syncing_others {c : Cmd} {a : Answer} {b : c.Ans} {i : Nat} (hit : i ≠ t)
    (he : exec t (.mk c) a w = some (b, w')) : w'.syncing i = w.syncing i := by
  simp [World.syncing, exec_trace he, syncingIn, Ne.symm hit]

theorem syncing_aside {c : Cmd} {a : Answer} {b : c.Ans} (hc : c.syncsMailboxes = false)
    (he : exec t (.mk c) a w = some (b, w')) : w'.syncing t = w.syncing t := by
  have hread : c.readsMailboxToken = false := by
    unfold Cmd.readsMailboxToken
    split
    · exact hc
    · rfl
  simp [World.syncing, exec_trace he, syncingIn, hread, hc]

theorem syncing_grows {c : Cmd} {a : Answer} {b : c.Ans} (hc : c.syncsMailboxes = true)
    (hread : c.readsMailboxToken = false) (he : exec t (.mk c) a w = some (b, w')) :
    w'.syncing t = ⟨t, c, a⟩ :: w.syncing t := by
  simp [World.syncing, exec_trace he, syncingIn, hread, hc]

theorem syncing_begins {c : Cmd} {a : Answer} {b : c.Ans} (hread : c.readsMailboxToken = true)
    (he : exec t (.mk c) a w = some (b, w')) : w'.syncing t = [] := by
  simp [World.syncing, exec_trace he, syncingIn, hread]

theorem overtaken_others {c : Cmd} {a : Answer} {b : c.Ans} {i : Nat} (hit : i ≠ t)
    (he : exec t (.mk c) a w = some (b, w')) (hm : w.overtaken i m) : w'.overtaken i m := by
  have hm : overtakenIn i m w.trace = true := hm
  simp only [World.overtaken, exec_trace he, overtakenIn, Ne.symm hit, if_false]
  split
  · exact hm
  · simp [hm]
  · exact hm

theorem overtaken_own {c : Cmd} {a : Answer} {b : c.Ans} (hc : c ≠ .store (.getRoomId m))
    (he : exec t (.mk c) a w = some (b, w')) : w'.overtaken t m = w.overtaken t m := by
  simp [World.overtaken, exec_trace he, overtakenIn, hc]

theorem undisturbed_exec {c : Cmd} {a : Answer} {b : c.Ans} {i : Nat} (hit : i ≠ t)
    (hc : ∀ m r, c ≠ .store (.saveRoomMapping m r)) (he : exec t (.mk c) a w = some (b, w')) :
    Undisturbed i w w' := by
  refine ⟨syncing_others hit he, fun m r hr => ?_, fun m hm => ?_,
    fun m hm => overtaken_others hit he hm⟩
  · rwa [rooms_exec hc he]
  · exact .inl (by rwa [rooms_exec hc he])

abbrev MailboxTriple (cfg : Config) (calls : Nat → Call) (t : Nat) (P : World → Prop)
    (x : Prog Op α) (Q : α → World → Prop) : Prop :=
  Triple (bridge cfg calls) inTurn mailboxContract t P x Q

abbrev MailboxStep (cfg : Config) (calls : Nat → Call) (t : Nat) (P : World → Prop) (c : Cmd)
    (R : c.Ans → World → Prop) : Prop :=
  Step (bridge cfg calls) inTurn mailboxContract t P (.mk c) R

theorem mailboxStep_intro {c : Cmd} {P : World → Prop} {R : c.Ans → World → Prop}
    (hstep : ∀ w a b w', Ordered w.store (w.syncing t) → P w → c.inTurn t a w →
      exec t (.mk c) a w = some (b, w') → Ordered w'.store (w'.syncing t) ∧
        (∀ i, i ≠ t → Undisturbed i w w') ∧ R b w') :
    MailboxStep cfg calls t P c R := by
  intro w a b w' hi hw hd he
  obtain ⟨hown, hothers, hr⟩ := hstep w a b w' (hi t) hw hd he
  refine ⟨fun i => ?_, hothers, hr⟩
  by_cases hit : i = t
  · rw [hit]
    exact hown
  · have h : Undisturbed i w w' := hothers i hit
    rw [h.syncing]
    exact (hi i).mono h.rooms

/-- An assertion about the records of the task and the rooms there are. -/
def SyncLocal (t : Nat) (P : World → Prop) : Prop :=
  ∀ w w' : World, w'.syncing t = w.syncing t →
    (∀ m r, w.store.roomOf m = some r → w'.store.roomOf m = some r) → P w → P w'

theorem SyncLocal.stable {P : World → Prop} (hP : SyncLocal t P) : Stable mailboxContract t P := by
  intro w w' hw hr _
  have hr : Undisturbed t w w' := hr
  exact hP w w' hr.syncing hr.rooms hw

theorem SyncLocal.true : SyncLocal t fun _ => True := fun _ _ _ _ _ => trivial

/-- Neither part of the mailbox sync nor a mapping. -/
def Cmd.offMailboxes : Cmd → Bool
  | store (.saveRoomMapping _ _) => false
  | c => !c.syncsMailboxes

theorem offMailboxes_maps {c : Cmd} (hc : c.offMailboxes) (m : MailboxId) (r : RoomId) :
    c ≠ .store (.saveRoomMapping m r) := by
  intro h
  rw [h] at hc
  cases hc

theorem offMailboxes_syncs {c : Cmd} (hc : c.offMailboxes) : c.syncsMailboxes = false := by
  unfold Cmd.offMailboxes at hc
  split at hc
  · cases hc
  · simpa using hc

theorem InboundCmd.offMailboxes {p : Poller} {I : EmailId → Prop} {c : Cmd}
    (h : InboundCmd p I c) : c.offMailboxes := by
  have hkey : ∀ k : StateKey, k.ofWalk = false → k.ofMailbox = false := by
    intro k hk
    cases k <;> first | rfl | cases hk
  cases h with
  | getState k hk => simp [Cmd.offMailboxes, Cmd.syncsMailboxes, hkey k hk]
  | saveState k v hk => simp [Cmd.offMailboxes, Cmd.syncsMailboxes, hkey k hk]
  | deleteState k hk => simp [Cmd.offMailboxes, Cmd.syncsMailboxes, hkey k hk]
  | _ => rfl

theorem PaceCmd.offMailboxes {p : Poller} {c : Cmd} (h : PaceCmd p c) : c.offMailboxes := by
  have hkey : ∀ k : StateKey, k.ofPace → k.ofMailbox = false := by
    intro k hk
    cases k <;> first | rfl | cases hk
  cases h with
  | getState k hk => simp [Cmd.offMailboxes, Cmd.syncsMailboxes, hkey k hk]
  | saveState k v hk => simp [Cmd.offMailboxes, Cmd.syncsMailboxes, hkey k hk]
  | deleteState k hk => simp [Cmd.offMailboxes, Cmd.syncsMailboxes, hkey k hk]
  | _ => rfl

theorem Cmd.service.offMailboxes {c : Cmd} (hc : c.service) : c.offMailboxes := by
  have hget : ∀ k : StateKey, k.ofWalk = false → k.ofMailbox = false := by
    intro k hk
    cases k <;> first | rfl | cases hk
  have hsend : ∀ k : StateKey, k.ofSending → k.ofMailbox = false := by
    intro k hk
    cases k <;> first | rfl | cases hk
  cases c with
  | store c =>
    cases c with
    | getJmapState u k =>
      have hk : k.ofWalk = false := by simpa [Cmd.service, StoreCmd.service] using hc
      simp [Cmd.offMailboxes, Cmd.syncsMailboxes, hget k hk]
    | saveJmapState u k v => simp [Cmd.offMailboxes, Cmd.syncsMailboxes, hsend k hc]
    | deleteJmapState u k => simp [Cmd.offMailboxes, Cmd.syncsMailboxes, hsend k hc]
    | saveRoomMapping => cases hc
    | _ => rfl
  | matrix c => rfl
  | jmap account c => cases c <;> first | rfl | cases hc
  | task c => rfl

theorem offMailboxes_keeps {P : World → Prop} (hP : SyncLocal t P) {β : Type} {o : Op β}
    (hc : o.cmd.offMailboxes) : Keeps (bridge cfg calls) inTurn mailboxContract t P β o := by
  obtain ⟨c⟩ := o
  have hc : c.offMailboxes := hc
  intro w a b w' hw hi hd he
  have hstep : MailboxStep cfg calls t P c fun _ => P := by
    refine mailboxStep_intro fun w a b w' hown hw _ he => ?_
    have hsync : w'.syncing t = w.syncing t := syncing_aside (offMailboxes_syncs hc) he
    have hrooms : ∀ m r, w.store.roomOf m = some r → w'.store.roomOf m = some r := by
      intro m r hr
      rwa [rooms_exec (offMailboxes_maps hc) he]
    refine ⟨?_, fun i hit => undisturbed_exec hit (offMailboxes_maps hc) he,
      hP w w' hsync hrooms hw⟩
    rw [hsync]
    exact hown.mono hrooms
  exact hstep w a b w' hi hw hd he

theorem offMailboxes_closed {P : World → Prop} (hP : SyncLocal t P) :
    Prog.Closed (fun _ o => o.cmd.offMailboxes) fun _ x =>
      MailboxTriple cfg calls t P x fun _ => P :=
  (Triple.closed hP.stable).mono fun _ _ hc => offMailboxes_keeps hP hc

theorem offMailboxes_triple {P : World → Prop} (hP : SyncLocal t P) {x : Prog Op α}
    (hx : Does (fun c => c.offMailboxes) x) : MailboxTriple cfg calls t P x fun _ => P :=
  (offMailboxes_closed hP).of_only hx

/-! One run of the sync. -/

/-- The task has not saved the token yet and has asked for nothing, and `ids` are all the
mailboxes its pages have reported. -/
structure Reporting (t : Nat) (ids : List MailboxId) (w : World) : Prop where
  unsaved : ∀ r ∈ w.syncing t, r.cmd.savesMailboxToken = false
  reported : ∀ r ∈ w.syncing t, ∀ m ∈ r.listed, m ∈ ids
  named : ∀ r ∈ w.syncing t, r.named = []

/-- What was reported has been asked for, and of what came back with a name only the
mailboxes `todo` may still lack a room. -/
structure Mapping (t : Nat) (todo : List (Option MailboxId × Option String)) (w : World) :
    Prop where
  unsaved : ∀ r ∈ w.syncing t, r.cmd.savesMailboxToken = false
  requested : ∀ m ∈ (w.syncing t).flatMap Record.listed,
    m ∈ (w.syncing t).flatMap Record.requested
  mapped : ∀ m ∈ (w.syncing t).flatMap Record.named, (w.store.roomOf m).isSome ∨ m ∈ namedIn todo

variable {ids : List MailboxId} {todo : List (Option MailboxId × Option String)}

theorem Reporting.local : SyncLocal t (Reporting t ids) := by
  intro w w' hsync _ h
  exact ⟨by rw [hsync]; exact h.unsaved, by rw [hsync]; exact h.reported,
    by rw [hsync]; exact h.named⟩

theorem Mapping.local : SyncLocal t (Mapping t todo) := by
  intro w w' hsync hrooms h
  refine ⟨by rw [hsync]; exact h.unsaved, by rw [hsync]; exact h.requested, fun m hm => ?_⟩
  rw [hsync] at hm
  rcases h.mapped m hm with hroom | htodo
  · obtain ⟨r, hr⟩ := Option.isSome_iff_exists.mp hroom
    exact .inl (by simp [hrooms m r hr])
  · exact .inr htodo

/-- A command of the sync that neither saves nor drops the token puts its record first. -/
theorem page_step {c : Cmd} {R : c.Ans → World → Prop} (hc : c.syncsMailboxes = true)
    (hread : c.readsMailboxToken = false) (hsave : c.savesMailboxToken = false)
    (hdrop : c.dropsMailboxToken = false)
    (hr : ∀ w a b w', Reporting t ids w → exec t (.mk c) a w = some (b, w') →
      w'.syncing t = ⟨t, c, a⟩ :: w.syncing t → R b w') :
    MailboxStep cfg calls t (Reporting t ids) c R := by
  have hmaps : ∀ m r, c ≠ .store (.saveRoomMapping m r) := by
    intro m r h
    rw [h] at hc
    cases hc
  refine mailboxStep_intro fun w a b w' hown hw _ he => ?_
  have hsync : w'.syncing t = ⟨t, c, a⟩ :: w.syncing t := syncing_grows hc hread he
  refine ⟨?_, fun i hit => undisturbed_exec hit hmaps he, hr w a b w' hw he hsync⟩
  rw [hsync]
  refine ⟨hw.unsaved, fun h => ?_, fun h => ?_, hown.mono fun m r hr => ?_⟩
  · simp [hsave] at h
  · simp [hdrop] at h
  · rwa [rooms_exec hmaps he]

theorem Reporting.cons {r : Record} (hw : Reporting t ids w)
    (hsync : w'.syncing t = r :: w.syncing t)
    (hsave : r.cmd.savesMailboxToken = false) (hnamed : r.named = []) :
    Reporting t (ids ++ r.listed) w' := by
  refine ⟨?_, ?_, ?_⟩
  all_goals
    rw [hsync]
    intro x hx
    rcases List.mem_cons.mp hx with rfl | hx
  · exact hsave
  · exact hw.unsaved x hx
  · exact fun m hm => List.mem_append_right _ hm
  · exact fun m hm => List.mem_append_left _ (hw.reported x hx m hm)
  · exact hnamed
  · exact hw.named x hx

variable {p : Poller}

/-- The server has just answered that it cannot calculate changes. -/
def Refused (t : Nat) (ids : List MailboxId) (w : World) : Prop :=
  Reporting t ids w ∧ (w.syncing t).head?.any Record.refused

theorem Refused.local : SyncLocal t (Refused t ids) := by
  intro w w' hsync hrooms h
  refine ⟨Reporting.local w w' hsync hrooms h.1, ?_⟩
  rw [hsync]
  exact h.2

def Changed (t : Nat) (ids : List MailboxId) : Except Err ChangesReply → World → Prop
  | .ok x => Reporting t (ids ++ x.created ++ x.updated)
  | .error .cannotCalculateChanges => Refused t ids
  | .error _ => fun _ => True

theorem Changed.local (r : Except Err ChangesReply) : SyncLocal t (Changed t ids r) := by
  unfold Changed
  split
  · exact Reporting.local
  · exact Refused.local
  · exact SyncLocal.true

theorem changesMailbox_step {account : Account} {state : String} :
    MailboxStep cfg calls t (Reporting t ids) (.jmap account (.changesMailbox state))
      (Changed t ids) := by
  refine page_step rfl rfl rfl rfl fun w a b w' hw he hsync => ?_
  obtain ⟨w₁, hp, -⟩ := exec_jmap_perform he
  cases a with
  | reply x =>
    obtain ⟨v, hv, hb⟩ := Option.map_eq_some_iff.mp hp
    cases hb
    cases x with
    | changes x =>
      obtain rfl : x = v := Option.some.inj hv
      have h : Reporting t (ids ++ (x.created ++ x.updated)) w' := hw.cons hsync rfl rfl
      simpa [Changed] using h
    | _ => cases hv
  | lostReply x =>
    obtain ⟨v, hv, hb⟩ := Option.map_eq_some_iff.mp hp
    cases hb
    trivial
  | cannotCalculateChanges =>
    cases hp
    have h := hw.cons hsync rfl rfl
    refine ⟨by simpa [Record.listed] using h, ?_⟩
    rw [hsync]
    rfl
  | failed =>
    cases hp
    trivial
  | _ => cases hp

theorem queryMailbox_step {account : Account} :
    MailboxStep cfg calls t (Reporting t ids) (.jmap account .queryMailbox)
      (post (fun x => Reporting t (ids ++ x.ids)) fun _ _ => True) := by
  refine page_step rfl rfl rfl rfl fun w a b w' hw he hsync => ?_
  rcases exec_reply he with ⟨x, v, rfl, rfl, hv⟩ | ⟨-, err, rfl⟩
  · cases x with
    | queried x =>
      obtain rfl : x = v := Option.some.inj hv
      exact hw.cons hsync rfl rfl
    | _ => cases hv
  · trivial

theorem mailboxState_step {account : Account} :
    MailboxStep cfg calls t (Reporting t ids) (.jmap account .getMailboxState)
      fun _ => Reporting t ids := by
  refine page_step rfl rfl rfl rfl fun w a b w' hw he hsync => ?_
  simpa [Record.listed] using hw.cons hsync rfl rfl

theorem getMailbox_step {account : Account} :
    MailboxStep cfg calls t (Reporting t ids) (.jmap account (.getMailbox ids))
      (post (Mapping t) fun _ _ => True) := by
  refine page_step rfl rfl rfl rfl fun w a b w' hw he hsync => ?_
  rcases exec_reply he with ⟨x, v, rfl, rfl, hv⟩ | ⟨-, err, rfl⟩
  · cases x with
    | mailboxes x =>
      obtain rfl : x = v := Option.some.inj hv
      refine ⟨?_, ?_, ?_⟩
      all_goals rw [hsync]
      · intro r hr
        rcases List.mem_cons.mp hr with rfl | hr
        · rfl
        · exact hw.unsaved r hr
      · intro m hm
        obtain ⟨r, hr, hm⟩ := List.mem_flatMap.mp hm
        rcases List.mem_cons.mp hr with rfl | hr
        · cases hm
        · exact List.mem_flatMap.mpr ⟨_, List.mem_cons_self, hw.reported r hr m hm⟩
      · intro m hm
        obtain ⟨r, hr, hm⟩ := List.mem_flatMap.mp hm
        rcases List.mem_cons.mp hr with rfl | hr
        · exact .inr hm
        · rw [hw.named r hr] at hm
          cases hm
    | _ => cases hv
  · trivial

theorem drop_step {user : UserId} :
    MailboxStep cfg calls t (Refused t ids) (.store (.deleteJmapState user .mailbox))
      fun _ => Reporting t ids := by
  refine mailboxStep_intro fun w a b w' hown hw _ he => ?_
  have hsync : w'.syncing t = ⟨t, .store (.deleteJmapState user .mailbox), a⟩ :: w.syncing t :=
    syncing_grows rfl rfl he
  refine ⟨?_, fun i hit => undisturbed_exec hit (fun _ _ h => by cases h) he, ?_⟩
  · rw [hsync]
    refine ⟨hw.1.unsaved, fun h => (by cases h), fun _ => hw.2, hown.mono fun m r hr => ?_⟩
    rwa [rooms_exec (fun _ _ h => by cases h) he]
  · simpa [Record.listed] using hw.1.cons hsync rfl rfl

theorem mailboxPage_reports {current : Option String} :
    MailboxTriple cfg calls t (Reporting t ids) (mailboxPage p current ids)
      (post (Sum.elim (fun s => Reporting t s.2) fun s => Reporting t s.2) fun _ _ => True) := by
  have htrue : ∀ _ : Err, Stable mailboxContract t fun _ => True := fun _ => SyncLocal.true.stable
  unfold mailboxPage
  cases current with
  | some state =>
    refine .andThen (.attempt (.call Reporting.local.stable changesMailbox_step fun r =>
      (Changed.local r).stable) fun r => (Changed.local r).stable) htrue fun r => ?_
    split
    · refine .andThen (.post (.call Refused.local.stable drop_step fun _ => Reporting.local.stable)
        fun r _ _ hw => ?_) htrue fun _ => .ok Reporting.local.stable fun _ _ hw => hw
      cases r with
      | ok _ => exact hw
      | error _ => trivial
    · exact .fail (Changed.local _).stable fun _ _ _ => trivial
    · split
      · exact .ok Reporting.local.stable fun _ _ hw => hw
      · exact .ok Reporting.local.stable fun _ _ hw => hw
  | none =>
    have hquery : ∀ r : Except Err QueryReply, SyncLocal t
        (post (fun x => Reporting t (ids ++ x.ids)) (fun _ _ => True) r) := by
      rintro (_ | _)
      · exact SyncLocal.true
      · exact Reporting.local
    refine .andThen (.call Reporting.local.stable queryMailbox_step fun r =>
      (hquery r).stable) htrue
      fun x => ?_
    refine .andThen (.post (.call Reporting.local.stable mailboxState_step fun _ =>
      Reporting.local.stable) fun r _ _ hw => ?_) htrue fun _ =>
        .ok Reporting.local.stable fun _ _ hw => hw
    cases r with
    | ok _ => exact hw
    | error _ => trivial

/-! Mapping one mailbox. -/

/-- The task has seen the mailbox without a room. -/
def SeenUnmapped (t : Nat) (m : MailboxId) (w : World) : Prop :=
  w.store.roomOf m = none ∨ w.overtaken t m

theorem SeenUnmapped.stable : Stable mailboxContract t (SeenUnmapped t m) := by
  intro w w' hw hr _
  have hr : Undisturbed t w w' := hr
  rcases hw with hm | hm
  · exact hr.fresh m hm
  · exact .inr (hr.overtaken m hm)

variable {name : String}

theorem namedIn_cons : namedIn ((some m, some name) :: todo) = m :: namedIn todo := rfl

theorem Mapping.next (hw : Mapping t ((some m, some name) :: todo) w)
    (hm : (w.store.roomOf m).isSome) : Mapping t todo w := by
  refine ⟨hw.unsaved, hw.requested, fun m' hm' => ?_⟩
  rcases hw.mapped m' hm' with hroom | htodo
  · exact .inl hroom
  · rcases List.mem_cons.mp (namedIn_cons ▸ htodo) with rfl | htodo
    · exact .inl hm
    · exact .inr htodo

theorem getRoomId_step :
    MailboxStep cfg calls t (Mapping t ((some m, some name) :: todo)) (.store (.getRoomId m))
      (post (fun found => if found.isSome then Mapping t todo else fun w =>
        Mapping t ((some m, some name) :: todo) w ∧ SeenUnmapped t m w) fun _ _ => True) := by
  refine mailboxStep_intro fun w a b w' hown hw _ he => ?_
  have hmaps : ∀ m' r, Cmd.store (.getRoomId m) ≠ .store (.saveRoomMapping m' r) := by
    rintro _ _ ⟨⟩
  have hsync : w'.syncing t = w.syncing t := syncing_aside rfl he
  have hrooms : ∀ m' r, w.store.roomOf m' = some r → w'.store.roomOf m' = some r := by
    intro m' r hr
    rwa [rooms_exec hmaps he]
  have hw' : Mapping t ((some m, some name) :: todo) w' := Mapping.local w w' hsync hrooms hw
  refine ⟨?_, fun i hit => undisturbed_exec hit hmaps he, ?_⟩
  · rw [hsync]
    exact hown.mono hrooms
  · have hsame : w'.store.roomOf m = w.store.roomOf m := rooms_exec hmaps he
    rcases exec_store he with ⟨order, -, rfl, -⟩ | ⟨-, rfl, -⟩ | ⟨-, rfl, -⟩
    · change (if (w.store.roomOf m).isSome then _ else _ : World → Prop) w'
      by_cases hroom : (w.store.roomOf m).isSome
      · rw [if_pos hroom]
        exact hw'.next (by rwa [hsame])
      · rw [if_neg hroom]
        exact ⟨hw', .inl (by simpa [hsame] using hroom)⟩
    · trivial
    · trivial

theorem createMailboxRoom_step :
    MailboxStep cfg calls t (fun w => Mapping t todo w ∧ SeenUnmapped t m w)
      (.matrix (.createRoomForMailbox name)) fun _ w => Mapping t todo w ∧ SeenUnmapped t m w := by
  refine mailboxStep_intro fun w a b w' hown hw _ he => ?_
  have hmaps :
      ∀ m' r, Cmd.matrix (.createRoomForMailbox name) ≠ .store (.saveRoomMapping m' r) := by
    rintro _ _ ⟨⟩
  have hsync : w'.syncing t = w.syncing t := syncing_aside rfl he
  have hrooms : ∀ m' r, w.store.roomOf m' = some r → w'.store.roomOf m' = some r := by
    intro m' r hr
    rwa [rooms_exec hmaps he]
  refine ⟨?_, fun i hit => undisturbed_exec hit hmaps he, Mapping.local w w' hsync hrooms hw.1, ?_⟩
  · rw [hsync]
    exact hown.mono hrooms
  · rw [SeenUnmapped, rooms_exec hmaps he, overtaken_own (fun h => by cases h) he]
    exact hw.2

theorem saveRoom_step {room : RoomId} :
    MailboxStep cfg calls t (fun w => Mapping t ((some m, some name) :: todo) w ∧
      SeenUnmapped t m w)
      (.store (.saveRoomMapping m room)) (post (fun _ => Mapping t todo) fun _ _ => True) := by
  refine mailboxStep_intro fun w a b w' hown hw hd he => ?_
  have hsync : w'.syncing t = w.syncing t := syncing_aside rfl he
  -- What follows where the statement takes effect, whether or not it returns.
  have heffect : a ≠ .failed → w'.store.mailboxMapping = w.store.mailboxMapping.insert m room →
      Ordered w'.store (w'.syncing t) ∧ (∀ i, i ≠ t → Undisturbed i w w') ∧ Mapping t todo w' := by
    intro hfailed hinsert
    have hturn : w.overtaken t m = false := by simpa [Cmd.inTurn, hfailed] using hd
    have hnone : w.store.roomOf m = none := by
      rcases hw.2 with hm | hm
      · exact hm
      · rw [hturn] at hm
        cases hm
    have hsome : w'.store.roomOf m = some room := by simp [Store.roomOf, hinsert]
    have hothers : ∀ m', m' ≠ m → w'.store.roomOf m' = w.store.roomOf m' := by
      intro m' hm'
      simp [Store.roomOf, hinsert, AList.lookup_insert_ne hm']
    have hrooms : ∀ m' r, w.store.roomOf m' = some r → w'.store.roomOf m' = some r := by
      intro m' r hr
      have hne : m' ≠ m := by
        rintro rfl
        rw [hnone] at hr
        cases hr
      rwa [hothers m' hne]
    refine ⟨?_, fun i hit => ⟨syncing_others hit he, hrooms, fun m' hm' => ?_, fun m' hm' =>
      overtaken_others hit he hm'⟩, ?_⟩
    · rw [hsync]
      exact hown.mono hrooms
    · by_cases hmm : m' = m
      · right
        subst hmm
        have hti : t ≠ i := Ne.symm hit
        simp only [World.overtaken, exec_trace he, overtakenIn, hti, if_false]
        cases a with
        | failed => exact absurd rfl hfailed
        | _ => simp
      · left
        rwa [hothers m' hmm]
    · have hw' : Mapping t ((some m, some name) :: todo) w' := Mapping.local w w' hsync hrooms hw.1
      exact hw'.next (by simp [hsome])
  rcases exec_store he with ⟨order, ha, rfl, hw'⟩ | ⟨rfl, rfl, hw'⟩ | ⟨⟨s, rfl⟩, rfl, hw'⟩
  · refine heffect ?_ (by rw [hw']; rfl)
    rintro rfl
    rcases ha with ⟨ha, -⟩ | ha
    · cases ha
    · cases ha
  · have hsame : ∀ m', w'.store.roomOf m' = w.store.roomOf m' := fun m' => by rw [hw']
    refine ⟨?_, fun i hit => ⟨syncing_others hit he, fun m' r hr => ?_, fun m' hm' => ?_,
      fun m' hm' => overtaken_others hit he hm'⟩, trivial⟩
    · rw [hsync]
      exact hown.mono fun m' r hr => by rwa [hsame]
    · rwa [hsame]
    · left
      rwa [hsame]
  · obtain ⟨hinv, hrely, -⟩ := heffect (by rintro ⟨⟩) (by rw [hw']; rfl)
    exact ⟨hinv, hrely, trivial⟩

theorem mailboxRoom_maps :
    MailboxTriple cfg calls t (Mapping t ((some m, some name) :: todo)) (mailboxRoom m name)
      (post (fun _ => Mapping t todo) fun _ _ => True) := by
  have htrue : ∀ _ : Err, Stable mailboxContract t fun _ => True := fun _ => SyncLocal.true.stable
  have hlooked : Stable mailboxContract t fun w =>
      Mapping t ((some m, some name) :: todo) w ∧ SeenUnmapped t m w :=
    Mapping.local.stable.and SeenUnmapped.stable
  refine .andThen (.call Mapping.local.stable getRoomId_step fun r => ?_) htrue fun found => ?_
  · rcases r with _ | (_ | _)
    · exact SyncLocal.true.stable
    · exact hlooked
    · exact Mapping.local.stable
  · cases found with
    | some existing => exact .ok Mapping.local.stable fun _ _ hw => hw
    | none =>
      refine .andThen (R := fun _ w => Mapping t ((some m, some name) :: todo) w ∧
        SeenUnmapped t m w)
        (.post (.call hlooked createMailboxRoom_step fun _ => hlooked) fun r _ _ hw => ?_) htrue
        fun room => ?_
      · cases r with
        | ok _ => exact hw
        | error _ => trivial
      · refine .andThen (.call hlooked saveRoom_step fun r => ?_) htrue fun _ =>
          .ok Mapping.local.stable fun _ _ hw => hw
        cases r with
        | ok _ => exact Mapping.local.stable
        | error _ => exact SyncLocal.true.stable

theorem mapMailbox_maps {mailbox : Option MailboxId × Option String} :
    MailboxTriple cfg calls t (Mapping t (mailbox :: todo)) (mapMailbox p mailbox)
      (post (fun _ => Mapping t todo) fun _ _ => True) := by
  unfold mapMailbox
  split
  · next m name =>
    refine .andThen mailboxRoom_maps (fun _ => SyncLocal.true.stable) fun room => ?_
    have hfile : DoesInbound p (fun _ => True) (ensureRoomInEmailSpace p.user room) :=
      ensureRoomInEmailSpace_inbound
    exact .bind (offMailboxes_triple Mapping.local (hfile.mono fun _ => InboundCmd.offMailboxes))
      fun _ =>
      .pure Mapping.local.stable fun _ _ hw => hw
  · next hnone =>
    refine .ok Mapping.local.stable fun w _ hw => ⟨hw.unsaved, hw.requested, fun m hm => ?_⟩
    rcases hw.mapped m hm with hroom | htodo
    · exact .inl hroom
    · refine .inr ?_
      obtain ⟨id, name⟩ := mailbox
      cases id with
      | none =>
        cases name with
        | none => exact htodo
        | some name => exact htodo
      | some id =>
        cases name with
        | none => exact htodo
        | some name => exact absurd rfl (hnone id name)

theorem fetchAndMapMailboxes_maps :
    MailboxTriple cfg calls t (Reporting t ids) (fetchAndMapMailboxes p ids)
      (post (fun _ => Mapping t []) fun _ _ => True) := by
  have htrue : ∀ _ : Err, Stable mailboxContract t fun _ => True := fun _ => SyncLocal.true.stable
  rw [fetchAndMapMailboxes]
  split
  · next hempty =>
    have hnil : ids = [] := by simpa using hempty
    refine .ok Reporting.local.stable fun w _ hw => ⟨hw.unsaved, fun m hm => ?_, fun m hm => ?_⟩
    · obtain ⟨r, hr, hm⟩ := List.mem_flatMap.mp hm
      have hmem : m ∈ ids := hw.reported r hr m hm
      rw [hnil] at hmem
      cases hmem
    · obtain ⟨r, hr, hm⟩ := List.mem_flatMap.mp hm
      rw [hw.named r hr] at hm
      cases hm
  · refine .andThen (.call Reporting.local.stable getMailbox_step fun r => ?_) htrue fun l =>
      .actForEachLeft Mapping.local.stable htrue (fun _ _ => mapMailbox_maps) l
    cases r with
    | ok _ => exact Mapping.local.stable
    | error _ => exact SyncLocal.true.stable

/-- Reading the token begins a run of the sync. -/
theorem readToken_step {user : UserId} :
    MailboxStep cfg calls t (fun _ => True) (.store (.getJmapState user .mailbox))
      fun _ => Reporting t [] := by
  refine mailboxStep_intro fun w a b w' _ _ _ he => ?_
  have hsync : w'.syncing t = [] := syncing_begins rfl he
  refine ⟨?_, fun i hit => undisturbed_exec hit (fun _ _ h => by cases h) he, ?_, ?_, ?_⟩
  all_goals rw [hsync]
  · trivial
  all_goals
    intro r hr
    cases hr

theorem saveToken_step {user : UserId} {v : String} :
    MailboxStep cfg calls t (Mapping t []) (.store (.saveJmapState user .mailbox v))
      fun _ _ => True := by
  refine mailboxStep_intro fun w a b w' hown hw _ he => ?_
  have hmaps :
      ∀ m r, Cmd.store (.saveJmapState user .mailbox v) ≠ .store (.saveRoomMapping m r) := by
    rintro _ _ ⟨⟩
  have hrooms : ∀ m r, w.store.roomOf m = some r → w'.store.roomOf m = some r := by
    intro m r hr
    rwa [rooms_exec hmaps he]
  have hsync : w'.syncing t = ⟨t, .store (.saveJmapState user .mailbox v), a⟩ :: w.syncing t :=
    syncing_grows rfl rfl he
  refine ⟨?_, fun i hit => undisturbed_exec hit hmaps he, trivial⟩
  rw [hsync]
  refine ⟨hw.unsaved, fun _ => ?_, fun h => (by cases h), hown.mono hrooms⟩
  have hdone : Finished w.store (w.syncing t) := by
    refine ⟨hw.requested, fun m hm => ?_⟩
    rcases hw.mapped m hm with hroom | htodo
    · exact hroom
    · cases htodo
  exact hdone.mono hrooms

theorem syncMailboxes_commits :
    MailboxTriple cfg calls t (fun _ => True) (syncMailboxes p)
      (post (fun _ _ => True) fun _ _ => True) := by
  have htrue : ∀ _ : Err, Stable mailboxContract t fun _ => True := fun _ => SyncLocal.true.stable
  refine .andThen (R := fun _ => Reporting t []) (.post (.call SyncLocal.true.stable readToken_step
    fun _ => Reporting.local.stable) fun r _ _ hw => ?_) htrue fun last => ?_
  · cases r with
    | ok _ => exact hw
    | error _ => trivial
  refine .andThen (.actLoop (J := fun s : Option String × List MailboxId => Reporting t s.2)
    (R := fun s : String × List MailboxId => Reporting t s.2) (s := (last, []))
    (fun _ => Reporting.local.stable) (fun _ => Reporting.local.stable) htrue fun s =>
      mailboxPage_reports) htrue fun final => ?_
  refine .andThen fetchAndMapMailboxes_maps htrue fun _ => ?_
  refine .post (.call Mapping.local.stable saveToken_step fun _ => SyncLocal.true.stable)
    fun r _ _ _ => ?_
  cases r with
  | ok _ => trivial
  | error _ => trivial

theorem pollMailboxes_commits :
    MailboxTriple cfg calls t (fun _ => True) (pollMailboxes cfg p) fun _ _ => True := by
  rw [pollMailboxes]
  split
  · exact .bind (.post syncMailboxes_commits fun _ _ _ _ => trivial) fun _ =>
      .pure SyncLocal.true.stable fun _ _ h => h
  · exact .pure SyncLocal.true.stable fun _ _ h => h

/-! The calls. -/

theorem processEmail_offMailboxes {email : Email} :
    Does (fun c => c.offMailboxes) (processEmail cfg p email) := by
  obtain ⟨rest, heq, hrest⟩ : ∃ rest : Bridge Unit,
      processEmail cfg p email = Prog.bind (onTask (.enter email.id)) (fun _ => rest) ∧
        DoesInbound p (fun _ => True) rest := processEmail_enters fun _ _ => trivial
  rw [heq]
  exact .bind (.task rfl) fun _ => hrest.mono fun _ => InboundCmd.offMailboxes

theorem program_commits :
    MailboxTriple cfg calls t (fun _ => True) ((calls t).program cfg) fun _ _ => True := by
  have hoff : ∀ {x : Task Unit}, Does (fun c => c.offMailboxes) x →
      MailboxTriple cfg calls t (fun _ => True) x fun _ _ => True := fun hx =>
    offMailboxes_triple SyncLocal.true hx
  have hserves : ∀ {c : Call}, c.Serves →
      MailboxTriple cfg calls t (fun _ => True) (c.program cfg) fun _ _ => True := fun hc =>
    hoff (hc.program.mono fun _ => Cmd.service.offMailboxes)
  have hinbound : ∀ {β : Type} {p : Poller} {x : Bridge β}, DoesInbound p (fun _ => True) x →
      MailboxTriple cfg calls t (fun _ => True) (ignore x) fun _ _ => True := fun hx =>
    hoff (.bind (hx.mono fun _ => InboundCmd.offMailboxes) fun _ => .pure)
  have hpace : ∀ p : Poller, Prog.Closed (fun _ o => PaceCmd p o.cmd) fun _ x =>
      MailboxTriple cfg calls t (fun _ => True) x fun _ _ => True := fun p =>
    (offMailboxes_closed SyncLocal.true).mono fun _ _ h => h.offMailboxes
  match calls t with
  | .poll p =>
    exact (hpace p).bind (poll_closed (hpace p) pollMailboxes_commits fun _ =>
      offMailboxes_triple SyncLocal.true processEmail_offMailboxes) fun _ => (hpace p).pure _
  | .backfill p =>
    exact runBackfillLoop_closed (hpace p) fun _ =>
      offMailboxes_triple SyncLocal.true processEmail_offMailboxes
  | .newThread .. =>
    exact hinbound (processNewThread_inbound (fun _ _ => trivial) fun _ _ => trivial)
  | .fileRoom user _ => exact hinbound (p := ⟨user, ""⟩) ensureRoomInEmailSpace_inbound
  | .repairSpace user => exact hinbound (p := ⟨user, ""⟩) repairEmailSpace_inbound
  | .worker => exact hserves (c := .worker) trivial
  | .transaction _ _ => exact hserves (c := .transaction _ _) trivial
  | .detached _ => exact hserves (c := .detached _) trivial
  | .prune => exact hserves (c := .prune) trivial
  | .logout _ => exact hserves (c := .logout _) trivial

theorem mailbox_upholds : Upholds (bridge cfg calls) inTurn mailboxContract where
  start := fun t w hi _ _ => program_commits w hi trivial
  env := by
    intro e w w' hi _ he
    obtain ⟨htrace, users, locks, hstore⟩ := env_store he
    have hrooms : ∀ m, w'.store.roomOf m = w.store.roomOf m := fun m => by rw [hstore]; rfl
    have hsync : ∀ i, w'.syncing i = w.syncing i := fun i => by
      rw [World.syncing, htrace, World.syncing]
    refine ⟨fun i => ?_, fun i => ⟨hsync i, fun m r hr => ?_, fun m hm => ?_, fun m hm => ?_⟩⟩
    · rw [hsync]
      exact (hi i).mono fun m r hr => by rwa [hrooms]
    · rwa [hrooms]
    · left
      rwa [hrooms]
    · rwa [World.overtaken, htrace]
  cancel := fun t w hi _ => ⟨hi, fun i _ =>
    ⟨rfl, fun _ _ hr => hr, fun _ hm => .inl hm, fun _ hm => hm⟩, trivial⟩

/-! The tokens. -/

def World.mailboxToken (w : World) (user : UserId) : Option String :=
  w.store.jmapState.lookup (user, .mailbox)

/-- The token of `user` was saved, and the statement returned. -/
def Record.commits (user : UserId) (r : Record) : Prop :=
  ∃ v, r.cmd = .store (.saveJmapState user .mailbox v) ∧
    (r.answer = .done ∨ ∃ order, r.answer = .rows order)

/-- The token of `user` was taken away. -/
def Record.resets (user : UserId) (r : Record) : Prop :=
  r.cmd = .store (.deleteJmapState user .mailbox)

/-- What an event of a run does to the mailbox tokens. -/
structure CommitsFinished (w w' : World) : Prop where
  finished : ∀ r, w'.trace = r :: w.trace → r.cmd.savesMailboxToken →
    Finished w'.store (w.syncing r.task)
  last : ∀ t r, w'.syncing t = r :: w.syncing t →
    ∀ x ∈ w.syncing t, x.cmd.savesMailboxToken = false
  token : ∀ user, w'.mailboxToken user ≠ w.mailboxToken user → ∃ r, w'.trace = r :: w.trace ∧
    (r.commits user ∨ r.resets user ∧ (w.syncing r.task).head?.any Record.refused)

theorem syncing_save {r : Record} (htrace : w'.trace = r :: w.trace)
    (hr : r.cmd.savesMailboxToken ∨ r.cmd.dropsMailboxToken) :
    w'.syncing r.task = r :: w.syncing r.task := by
  have hc : r.cmd.syncsMailboxes = true ∧ r.cmd.readsMailboxToken = false := by
    rcases hr with hr | hr
    · unfold Cmd.savesMailboxToken at hr
      split at hr
      · next heq => rw [heq]; exact ⟨hr, rfl⟩
      · cases hr
    · unfold Cmd.dropsMailboxToken at hr
      split at hr
      · next heq => rw [heq]; exact ⟨hr, rfl⟩
      · cases hr
  simp [World.syncing, htrace, syncingIn, hc.1, hc.2]

theorem token_exec {user : UserId} {c : Cmd} {a : Answer} {b : c.Ans} (hd : c.inTurn t a w)
    (he : exec t (.mk c) a w = some (b, w')) (hne : w'.mailboxToken user ≠ w.mailboxToken user) :
    Record.commits user ⟨t, c, a⟩ ∨ Record.resets user ⟨t, c, a⟩ := by
  by_cases hdelete : c = .store (.deleteJmapState user .mailbox)
  · exact .inr hdelete
  · by_cases hsave : ∃ v, c = .store (.saveJmapState user .mailbox v)
    · obtain ⟨v, rfl⟩ := hsave
      refine .inl ⟨v, rfl, ?_⟩
      rcases exec_store he with ⟨order, ha, -, -⟩ | ⟨-, -, rfl⟩ | ⟨⟨s, rfl⟩, -, -⟩
      · rcases ha with ⟨ha, -⟩ | ha
        · exact .inl ha
        · exact .inr ⟨order, ha⟩
      · exact absurd rfl hne
      · cases hd
    · have hsame : w'.mailboxToken user = w.mailboxToken user :=
        state_exec (fun v hv => hsave ⟨v, hv⟩) hdelete he
      exact absurd hsame hne

theorem commits_next {e : Event Answer Env} {q q' : Pool Op World}
    (hq : Upholds.PoolInv (bridge cfg calls) inTurn mailboxContract q) (hd : inTurn.meets e q)
    (hnext : (bridge cfg calls).next e q = some q') : CommitsFinished q.world q'.world := by
  have hinv : ∀ t, Ordered q'.world.store (q'.world.syncing t) :=
    (mailbox_upholds.poolInv_next hq hd hnext).1
  refine ⟨fun r htrace hr => ?_, fun t r hsync => ?_, fun user hne => ?_⟩
  · have hr' := hinv r.task
    rw [syncing_save htrace (.inl hr)] at hr'
    exact hr'.2.1 hr
  · have ht := hinv t
    rw [hsync] at ht
    exact ht.1
  · cases e with
    | step t a =>
      obtain ⟨β, o, k, b, w, htask, he, rfl⟩ := System.next_step hnext
      obtain ⟨c⟩ := o
      have hc : c.inTurn t a q.world := by
        simp only [Discipline.meets, htask] at hd
        exact hd
      have htrace : w.trace = ⟨t, c, a⟩ :: q.world.trace := exec_trace he
      refine ⟨⟨t, c, a⟩, htrace, ?_⟩
      rcases token_exec hc he hne with hcommit | hreset
      · exact .inl hcommit
      · refine .inr ⟨hreset, ?_⟩
        have hdrop : c.dropsMailboxToken := by
          rw [show c = .store (.deleteJmapState user .mailbox) from hreset]
          rfl
        have ht := hinv t
        rw [Pool.put_world, syncing_save htrace (.inr hdrop)] at ht
        exact ht.2.2.1 hdrop
    | start t =>
      obtain ⟨-, rfl⟩ := System.next_start hnext
      exact absurd rfl hne
    | tau t =>
      rcases System.next_tau hnext with ⟨a, -, rfl⟩ | ⟨β, σ, body, s, k, -, rfl⟩
      · exact absurd rfl hne
      · exact absurd rfl hne
    | cancel t =>
      obtain rfl := System.next_cancel hnext
      exact absurd rfl hne
    | env e =>
      obtain ⟨w, he, rfl⟩ := System.next_env hnext
      obtain ⟨-, users, locks, hstore⟩ := env_store he
      have hsame : w.mailboxToken user = q.world.mailboxToken user := by
        rw [World.mailboxToken, hstore, World.mailboxToken]
      exact absurd hsame hne

/-- Over any run in which no task maps a mailbox that another has mapped since it looked, the
token is saved for finished work only, and rooms stay. -/
theorem mailbox_sync_commits_finished (hw : w.trace = []) {es : List (Event Answer Env)}
    {q : Pool Op World} (hrun : (bridge cfg calls).run es (Pool.boot w) = some q)
    (hD : (bridge cfg calls).Admits inTurn.meets es (Pool.boot w)) :
    (∀ e q', (bridge cfg calls).next e q = some q' → inTurn.meets e q →
      CommitsFinished q.world q'.world) ∧
    ∀ fs q', (bridge cfg calls).run fs q = some q' → (bridge cfg calls).Admits inTurn.meets fs q →
      ∀ m r, q.world.store.roomOf m = some r → q'.world.store.roomOf m = some r := by
  have hboot : mailboxContract.inv w := by
    intro t
    rw [World.syncing, hw]
    trivial
  have hq : Upholds.PoolInv (bridge cfg calls) inTurn mailboxContract q :=
    mailbox_upholds.poolInv_of_run (Upholds.poolInv_boot hboot fun _ => trivial) hrun hD
  refine ⟨fun e q' hnext hd => commits_next hq hd hnext, fun fs q' hfs hfsD => ?_⟩
  exact mailbox_upholds.run_guarantee
    (G := fun w w' => ∀ m r, w.store.roomOf m = some r → w'.store.roomOf m = some r)
    (fun t w w' hr => Undisturbed.rooms hr)
    (fun a b c hab hbc m r hr => hbc m r (hab m r hr)) hq hfs hfsD

end

def syncCalls (_ : Nat) : Call := .poll ⟨"@a:localhost", "a"⟩

def syncWorld : World where
  store :=
    { users := (∅ : Sql.Table _ _).insert "@a:localhost" ⟨"a", "token", "url"⟩
      jmapState := (∅ : Sql.Table _ _).insert ("@a:localhost", .emailSpaceRoom) "!s" }

/-- A first sync of task `t` up to the lookup of its only mailbox. -/
def looksUp (t : Nat) : List (Event Answer Env) :=
  [.step t .done, .tau t, .step t (.reply (.queried { ids := ["m"] })),
    .step t (.reply (.state "s")), .step t (.reply (.mailboxes [(some "m", some "Inbox")])),
    .step t .done]

def maps (t : Nat) (room : RoomId) : List (Event Answer Env) :=
  [.step t (.id room), .step t .done]

/-- The room is filed in the space, and the token saved. -/
def files (t : Nat) : List (Event Answer Env) :=
  .tau t :: List.replicate 4 (.step t .done)

/-- The second sync begins when the first has mapped the mailbox. -/
def turnsRun : List (Event Answer Env) :=
  (.start 0 :: looksUp 0 : List (Event Answer Env)) ++ maps 0 "!a" ++
    ([.start 1] : List (Event Answer Env)) ++ looksUp 1 ++ files 1 ++ files 0

theorem mailbox_sync_commits_finished_turns : ∃ q,
    (bridge { bridgeMailboxes := true } syncCalls).run turnsRun (Pool.boot syncWorld) = some q ∧
      (∀ e q', (bridge { bridgeMailboxes := true } syncCalls).next e q = some q' →
        inTurn.meets e q → CommitsFinished q.world q'.world) ∧
      ∀ fs q', (bridge { bridgeMailboxes := true } syncCalls).run fs q = some q' →
        (bridge { bridgeMailboxes := true } syncCalls).Admits inTurn.meets fs q →
          ∀ m r, q.world.store.roomOf m = some r → q'.world.store.roomOf m = some r := by
  have hends : ((bridge { bridgeMailboxes := true } syncCalls).run turnsRun
      (Pool.boot syncWorld)).isSome := by
    decide +kernel
  have hD : (bridge { bridgeMailboxes := true } syncCalls).Admits inTurn.meets turnsRun
      (Pool.boot syncWorld) := by
    decide +kernel
  obtain ⟨q, hq⟩ := Option.isSome_iff_exists.mp hends
  exact ⟨q, hq, mailbox_sync_commits_finished rfl hq hD⟩

/-- Two syncs look the mailbox up before either has mapped it. A third begins in between. -/
def overlapBefore : List (Event Answer Env) :=
  (.start 0 :: looksUp 0 : List (Event Answer Env)) ++
  (.start 1 :: looksUp 1 : List (Event Answer Env)) ++
    maps 1 "!b" ++ ([.start 2] : List (Event Answer Env))

def overlapAfter : List (Event Answer Env) := maps 0 "!a" ++ looksUp 2 ++ files 2

/-- The third sync starts with the mailbox in one room and ends with it in another. -/
theorem mailbox_room_replaced :
    ((bridge { bridgeMailboxes := true } syncCalls).run overlapBefore (Pool.boot syncWorld)).map
        (fun q => (q.world.store.roomOf "m", q.world.mailboxToken "@a:localhost")) =
      some (some "!b", none) ∧
    ((bridge { bridgeMailboxes := true } syncCalls).run (overlapBefore ++ overlapAfter)
        (Pool.boot syncWorld)).map
        (fun q => (q.world.store.roomOf "m", q.world.mailboxToken "@a:localhost")) =
      some (some "!a", some "s") := by
  constructor
  · decide +kernel
  · decide +kernel

end JmapBridge
