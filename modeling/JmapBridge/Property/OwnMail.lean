import JmapBridge.Model.Exec
import JmapBridge.Model.Provision
import JmapBridge.Effect.Triple

/-! Mail that the bridge sent itself. The address in its From is chosen when it is sent,
and the address by which it is told from other mail was stored at a login. -/

namespace JmapBridge

open Effect

/-- A call of the bridge, or a batch that a command sends itself. -/
inductive MailCall where
  | call (c : Call)
  | submit (account : Account) (b : EmailBuilder)

def MailCall.program (cfg : Config) : MailCall → Task Unit
  | call c => c.program cfg
  | submit account b => ignore (JmapBridge.submit account b)

def mailBridge (cfg : Config) (calls : Nat → MailCall) : System Op World Answer Env :=
  system fun t => (calls t).program cfg

/-- The session that bridges mail in the call. -/
def MailCall.session : MailCall → Option Poller
  | call (.poll p) => some p
  | call (.backfill p) => some p
  | _ => none

variable {cfg : Config} {calls : Nat → MailCall} {t : Nat} {p : Poller} {w w' : World}

/-- The From of mail from `account` after such an answer to the question for its identities. -/
def senderAddress (account : Account) : Answer → String
  | .reply (.identities l) => (l.findSome? (·.email)).getD account
  | _ => account

/-- The latest answer that task `t` was given to that question. -/
def identitiesAnswer (t : Nat) (account : Account) (trace : List Record) : Option Answer :=
  (trace.find? fun r => r.task == t && r.cmd == .jmap account .getIdentity).map (·.answer)

/-- The email that a batch made on `account`, with what it was made from. -/
def Record.submitted (account : Account) (r : Record) : Option (EmailId × Draft) :=
  match r.cmd, r.answer with
  | .jmap a (.submitBatch draft), .reply (.batch b) =>
    if a = account then b.created.map (·, draft) else none
  | .jmap a (.submitBatch draft), .lostReply (.batch b) =>
    if a = account then b.created.map (·, draft) else none
  | _, _ => none

/-- The emails that were sent from `account`, each with the address that the answer about the
identities gave it. -/
def sentMail (account : Account) : List Record → List (EmailId × String)
  | [] => []
  | r :: older =>
    ((r.submitted account).map fun s =>
      (s.1, (identitiesAnswer r.task account older).elim account (senderAddress account))).toList ++
    sentMail account older

/-- The emails that the bridge was given. -/
def Record.fetches (account : Account) (r : Record) : List Email :=
  match r.cmd, r.answer with
  | .jmap a (.getEmail _), .reply (.emails l) => if a = account then l else []
  | _, _ => []

def fetchedMail (account : Account) (trace : List Record) : List Email :=
  trace.flatMap (·.fetches account)

/-- An email is given back with the From it was made with, and one that is made has the id of
no email given before. -/
def Faithful (account : Account) (r : Record) (older : List Record) : Prop :=
  (∀ email ∈ r.fetches account, ∀ s ∈ older.filterMap (·.submitted account),
    email.id = some s.1 → senderEmail email = some s.2.fromEmail) ∧
  ∀ s ∈ r.submitted account, ∀ email ∈ fetchedMail account older, email.id ≠ some s.1

instance (account : Account) (r : Record) (older : List Record) :
    Decidable (Faithful account r older) := by
  unfold Faithful
  infer_instance

/-- While the task processes an email of its account's own, the address stored for `user` is
the one it was sent from. -/
def Recognised (calls : Nat → MailCall) (t : Nat) (user : UserId) (w : World) : Prop :=
  ∀ p ∈ (calls t).session, ∀ m ∈ sentMail p.account w.trace, (t, some m.1) ∈ w.spans →
    (w.store.jmapState.lookup (user, .userEmail)).any fun own => eqIgnoreAsciiCase own m.2

instance (calls : Nat → MailCall) (t : Nat) (user : UserId) (w : World) :
    Decidable (Recognised calls t user w) := by
  unfold Recognised
  infer_instance

def Cmd.faithful (t : Nat) (a : Answer) (w : World) : Cmd → Prop
  | jmap account c => Faithful account ⟨t, .jmap account c, a⟩ w.trace
  | _ => True

def Cmd.recognised (calls : Nat → MailCall) (t : Nat) (w : World) : Cmd → Prop
  | store (.getJmapState user .userEmail) => Recognised calls t user w
  | _ => True

/-- What is documented of the mail server. -/
def faithfulMail : Discipline Op World Answer Env where
  step t _ o a w := o.cmd.faithful t a w

/-- And the stored address is the right one whenever it is read while an email of the user's
own is processed. -/
def recognisedMail (calls : Nat → MailCall) : Discipline Op World Answer Env where
  step t _ o a w := o.cmd.faithful t a w ∧ o.cmd.recognised calls t w

instance (t : Nat) (a : Answer) (w : World) (c : Cmd) : Decidable (c.faithful t a w) := by
  unfold Cmd.faithful
  split <;> infer_instance

instance (calls : Nat → MailCall) (t : Nat) (w : World) (c : Cmd) :
    Decidable (c.recognised calls t w) := by
  unfold Cmd.recognised
  split <;> infer_instance

instance (ev : Event Answer Env) (q : Pool Op World) : Decidable (faithfulMail.meets ev q) :=
  @Discipline.decidableMeets Op World Answer Env faithfulMail (fun _ _ => instDecidableTrue)
    (fun t _ o a w => inferInstanceAs (Decidable (o.cmd.faithful t a w)))
    (fun _ _ => instDecidableTrue) (fun _ _ => instDecidableTrue) ev q

instance (calls : Nat → MailCall) (ev : Event Answer Env) (q : Pool Op World) :
    Decidable ((recognisedMail calls).meets ev q) :=
  @Discipline.decidableMeets Op World Answer Env (recognisedMail calls)
    (fun _ _ => instDecidableTrue)
    (fun t _ o a w =>
      inferInstanceAs (Decidable (o.cmd.faithful t a w ∧ o.cmd.recognised calls t w)))
    (fun _ _ => instDecidableTrue) (fun _ _ => instDecidableTrue) ev q

/-- The commands that make a ghost, a room or a message, or map one. -/
def Cmd.bridges : Cmd → Bool
  | matrix (.ensureUserExists _) => true
  | matrix (.createRoomForContact _ _ _) => true
  | matrix (.sendAsGhost _ _ _ _) => true
  | store (.saveRoomGhostMapping _ _ _) => true
  | store (.saveThreadMappingAtomic _ _ _ _) => true
  | store (.saveMessageMapping _ _) => true
  | _ => false

/-- The latest command bridges nothing while its task processes an email that the account of
its session has sent itself. -/
def BridgesNoOwnMail (calls : Nat → MailCall) (w : World) : Prop :=
  ∀ r ∈ w.trace.head?, r.cmd.bridges → ∀ p ∈ (calls r.task).session,
    ∀ m ∈ sentMail p.account w.trace, (r.task, some m.1) ∉ w.spans

instance (calls : Nat → MailCall) (w : World) : Decidable (BridgesNoOwnMail calls w) := by
  unfold BridgesNoOwnMail
  infer_instance

def World.spansOf (w : World) (t : Nat) : List (Nat × Option EmailId) :=
  w.spans.filter fun s => s.1 == t

structure OwnInv (calls : Nat → MailCall) (w : World) : Prop where
  signed : ∀ account, sentMail account w.trace =
    (w.trace.filterMap (·.submitted account)).map fun s => (s.1, s.2.fromEmail)
  delivered : ∀ account, ∀ email ∈ fetchedMail account w.trace, ∀ m ∈ sentMail account w.trace,
    email.id = some m.1 → senderEmail email = some m.2
  latest : BridgesNoOwnMail calls w

structure OwnRely (t : Nat) (w w' : World) : Prop where
  spans : w'.spansOf t = w.spansOf t
  records : ∃ l, w'.trace = l ++ w.trace ∧ ∀ r ∈ l, r.task ≠ t
  fresh : ∀ account, ∀ email ∈ fetchedMail account w.trace, ∀ m ∈ sentMail account w'.trace,
    email.id = some m.1 → m ∈ sentMail account w.trace

theorem OwnRely.same (hs : w'.spansOf t = w.spansOf t) (ht : w'.trace = w.trace) :
    OwnRely t w w' :=
  ⟨hs, ⟨[], ht, fun _ h => by cases h⟩, fun _ _ _ m hm _ => by rwa [ht] at hm⟩

theorem OwnRely.fetched (h : OwnRely t w w') {account : Account} {email : Email}
    (he : email ∈ fetchedMail account w.trace) : email ∈ fetchedMail account w'.trace := by
  obtain ⟨l, hl, -⟩ := h.records
  rw [hl, fetchedMail, List.flatMap_append]
  exact List.mem_append_right _ he

theorem OwnRely.trans {w'' : World} (h : OwnRely t w w') (h' : OwnRely t w' w'') :
    OwnRely t w w'' := by
  refine ⟨h'.spans.trans h.spans, ?_, fun account email he m hm hid => ?_⟩
  · obtain ⟨l, hl, htask⟩ := h.records
    obtain ⟨l', hl', htask'⟩ := h'.records
    refine ⟨l' ++ l, by rw [hl', hl, List.append_assoc], fun r hr => ?_⟩
    exact (List.mem_append.mp hr).elim (htask' r) (htask r)
  · have hmid : m ∈ sentMail account w'.trace := h'.fresh account email (h.fetched he) m hm hid
    exact h.fresh account email he m hmid hid

theorem OwnRely.answer (h : OwnRely t w w') (account : Account) :
    identitiesAnswer t account w'.trace = identitiesAnswer t account w.trace := by
  obtain ⟨l, hl, htask⟩ := h.records
  have hnone : l.find? (fun r => r.task == t && r.cmd == .jmap account .getIdentity) = none := by
    refine List.find?_eq_none.mpr fun r hr => ?_
    simp [htask r hr]
  simp [identitiesAnswer, hl, List.find?_append, hnone]

def ownContract (calls : Nat → MailCall) : Contract World where
  inv := OwnInv calls
  rely := OwnRely
  idle t w := w.spansOf t = []
  idle_stable h hr := hr.spans.trans h
  refl _ _ := .same rfl rfl
  trans := OwnRely.trans

/-! What the records of one command are. -/

theorem submitted_batch {account : Account} {r : Record} {s : EmailId × Draft}
    (h : r.submitted account = some s) : r.cmd = .jmap account (.submitBatch s.2) := by
  unfold Record.submitted at h
  split at h
  case h_3 => cases h
  all_goals
    rename_i a draft b hcmd _
    split at h
    case isFalse => cases h
    case isTrue ha =>
      obtain ⟨id, -, rfl⟩ := Option.map_eq_some_iff.mp h
      rw [hcmd, ha]

theorem submitted_none {account : Account} {r : Record}
    (h : ∀ a draft, r.cmd ≠ .jmap a (.submitBatch draft)) : r.submitted account = none :=
  Option.eq_none_iff_forall_ne_some.mpr fun _ hs => h _ _ (submitted_batch hs)

theorem fetches_gets {account : Account} {r : Record} {email : Email}
    (h : email ∈ r.fetches account) : ∃ ids, r.cmd = .jmap account (.getEmail ids) := by
  unfold Record.fetches at h
  split at h
  case h_2 => cases h
  case h_1 a ids l hcmd _ =>
    split at h
    case isFalse => cases h
    case isTrue ha => exact ⟨ids, by rw [hcmd, ha]⟩

theorem sentMail_cons_none {account : Account} {r : Record} {older : List Record}
    (h : r.submitted account = none) : sentMail account (r :: older) = sentMail account older := by
  simp [sentMail, h]

theorem faithful_of_apart {account : Account} {r : Record} {older : List Record}
    (h : ∀ c, r.cmd ≠ .jmap account c) : Faithful account r older := by
  refine ⟨fun email he => ?_, fun s hs => ?_⟩
  · obtain ⟨ids, hcmd⟩ := fetches_gets he
    exact absurd hcmd (h _)
  · exact absurd (submitted_batch hs) (h _)

theorem faithful_of_step {c : Cmd} {a : Answer}
    (h : (recognisedMail calls).step t (Op.mk c) a w) (account : Account) :
    Faithful account ⟨t, c, a⟩ w.trace := by
  by_cases hc : ∃ c', c = .jmap account c'
  · obtain ⟨c', rfl⟩ := hc
    exact h.1
  · exact faithful_of_apart fun c' he => hc ⟨c', he⟩

theorem spansOf_exec {c : Cmd} {a : Answer} {b : c.Ans} (h : exec t (.mk c) a w = some (b, w'))
    {i : Nat} (hi : i ≠ t) : w'.spansOf i = w.spansOf i := by
  have hti : (t == i) = false := beq_eq_false_iff_ne.mpr fun he => hi he.symm
  rw [World.spansOf, exec_spans h]
  cases c with
  | task c =>
    cases c with
    | enter email => simp [Cmd.spans, World.spansOf, hti]
    | leave email =>
      rw [Cmd.spans, ← List.erase_filter, List.erase_of_not_mem]
      · rfl
      · simp [hti]
    | _ => rfl
  | _ => rfl

/-- What a command owes the contract: its batch is from the address of the identities, and
it bridges nothing for own mail. -/
theorem own_exec {c : Cmd} {a : Answer} {b : c.Ans} (hi : OwnInv calls w)
    (hf : ∀ account, Faithful account ⟨t, c, a⟩ w.trace)
    (hsigned : ∀ account s, Record.submitted account ⟨t, c, a⟩ = some s → s.2.fromEmail =
      (identitiesAnswer t account w.trace).elim account (senderAddress account))
    (hbridges : c.bridges → ∀ p ∈ (calls t).session, ∀ m ∈ sentMail p.account w'.trace,
      (t, some m.1) ∉ w'.spansOf t)
    (h : exec t (.mk c) a w = some (b, w')) :
    OwnInv calls w' ∧ ∀ i, i ≠ t → OwnRely i w w' := by
  have htrace : w'.trace = ⟨t, c, a⟩ :: w.trace := exec_trace h
  have hnew : ∀ account, ∀ email ∈ fetchedMail account w.trace, ∀ m ∈ sentMail account w'.trace,
      email.id = some m.1 → m ∈ sentMail account w.trace := by
    intro account email he m hm hid
    rw [htrace, sentMail] at hm
    rcases List.mem_append.mp hm with hhead | htail
    · obtain ⟨s, hs, rfl⟩ := Option.map_eq_some_iff.mp (Option.mem_toList.mp hhead)
      exact absurd hid ((hf account).2 s hs email he)
    · exact htail
  refine ⟨⟨fun account => ?_, fun account email he m hm hid => ?_, ?_⟩, fun i hit =>
    ⟨spansOf_exec h hit, ⟨[⟨t, c, a⟩], htrace, ?_⟩, hnew⟩⟩
  · rw [htrace, sentMail, hi.signed account, List.filterMap_cons]
    cases hs : Record.submitted account ⟨t, c, a⟩ with
    | none => simp
    | some s => simp [hsigned account s hs]
  · rw [htrace, fetchedMail, List.flatMap_cons] at he
    rcases List.mem_append.mp he with hhead | htail
    · obtain ⟨ids, hcmd⟩ := fetches_gets hhead
      obtain rfl : c = .jmap account (.getEmail ids) := hcmd
      rw [htrace, sentMail_cons_none (submitted_none fun _ _ he => by cases he),
        hi.signed account] at hm
      obtain ⟨s, hs, rfl⟩ := List.mem_map.mp hm
      exact (hf account).1 email hhead s hs hid
    · exact hi.delivered account email htail m (hnew account email htail m hm hid) hid
  · intro r hr hb p hp m hm hspan
    rw [htrace] at hr
    obtain rfl : (⟨t, c, a⟩ : Record) = r := by simpa using hr
    exact hbridges hb p hp m hm (List.mem_filter.mpr ⟨hspan, by simp⟩)
  · intro r hr
    obtain rfl : r = ⟨t, c, a⟩ := by simpa using hr
    exact fun he => hit he.symm

/-! The programs. -/

/-- The commands that enter no email, leave none and submit nothing. -/
def Cmd.calm : Cmd → Bool
  | task (.enter _) => false
  | task (.leave _) => false
  | jmap _ (.submitBatch _) => false
  | _ => true

/-- A task that is in no email may also leave one. -/
def Cmd.outside : Cmd → Bool
  | task (.leave _) => true
  | c => c.calm

theorem Cmd.calm.outside {c : Cmd} (h : c.calm) : c.outside := by
  unfold Cmd.outside
  split
  · rfl
  · exact h

theorem Cmd.outside.submitted {c : Cmd} (h : c.outside) {account : Account} {a : Answer} :
    Record.submitted account ⟨t, c, a⟩ = none := by
  refine submitted_none fun a draft hc => ?_
  obtain rfl : c = .jmap a (.submitBatch draft) := hc
  cases h

theorem Cmd.calm.spans {c : Cmd} (h : c.calm) (l : List (Nat × Option EmailId)) :
    c.spans t l = l := by
  unfold Cmd.spans
  split
  · cases h
  · cases h
  · rfl

/-- The task is in no email, and the session was given the emails. -/
def Between (t : Nat) (p : Poller) (emails : List Email) (w : World) : Prop :=
  w.spansOf t = [] ∧ ∀ e ∈ emails, e ∈ fetchedMail p.account w.trace

/-- The task processes `email`, one of the emails that the session was given. -/
def Processing (t : Nat) (p : Poller) (emails : List Email) (email : Email) (w : World) : Prop :=
  w.spansOf t = [(t, email.id)] ∧ email ∈ emails ∧
    ∀ e ∈ emails, e ∈ fetchedMail p.account w.trace

/-- And it is not one that the account has sent. -/
def Foreign (t : Nat) (p : Poller) (emails : List Email) (email : Email) (w : World) : Prop :=
  Processing t p emails email w ∧ ∀ m ∈ sentMail p.account w.trace, email.id ≠ some m.1

section

variable {emails : List Email} {email : Email}

theorem stable_calm : Stable (ownContract calls) t fun w => w.spansOf t = [] :=
  fun _ _ h hr _ => hr.spans.trans h

theorem stable_between : Stable (ownContract calls) t (Between t p emails) :=
  fun _ _ h hr _ => ⟨hr.spans.trans h.1, fun e he => hr.fetched (h.2 e he)⟩

theorem stable_processing : Stable (ownContract calls) t (Processing t p emails email) :=
  fun _ _ h hr _ => ⟨hr.spans.trans h.1, h.2.1, fun e he => hr.fetched (h.2.2 e he)⟩

theorem stable_foreign : Stable (ownContract calls) t (Foreign t p emails email) :=
  fun w w₁ h hr hi => ⟨stable_processing w w₁ h.1 hr hi, fun m hm hid =>
    h.2 m (hr.fresh p.account email (h.1.2.2 email h.1.2.1) m hm hid) hid⟩

abbrev OwnKeeps (cfg : Config) (calls : Nat → MailCall) (t : Nat) (P : World → Prop) (β : Type)
    (o : Op β) : Prop :=
      Keeps (mailBridge cfg calls) (recognisedMail calls) (ownContract calls) t P β o

abbrev OwnStep (cfg : Config) (calls : Nat → MailCall) (t : Nat) (P : World → Prop) (c : Cmd)
    (R : c.Ans → World → Prop) : Prop :=
  Step (mailBridge cfg calls) (recognisedMail calls) (ownContract calls) t P (.mk c) R

abbrev OwnTriple {α : Type} (cfg : Config) (calls : Nat → MailCall) (t : Nat) (P : World → Prop)
    (x : Prog Op α) (Q : α → World → Prop) : Prop :=
  Triple (mailBridge cfg calls) (recognisedMail calls) (ownContract calls) t P x Q

theorem fetched_exec {c : Cmd} {a : Answer} {b : c.Ans} {account : Account}
    (h : exec t (.mk c) a w = some (b, w')) {e : Email} (he : e ∈ fetchedMail account w.trace) :
    e ∈ fetchedMail account w'.trace := by
  rw [exec_trace h, fetchedMail, List.flatMap_cons]
  exact List.mem_append_right _ he

theorem spansOf_outside {c : Cmd} {a : Answer} {b : c.Ans} (hc : c.outside)
    (hw : w.spansOf t = []) (h : exec t (.mk c) a w = some (b, w')) : w'.spansOf t = [] := by
  rw [World.spansOf, exec_spans h]
  by_cases hcalm : c.calm
  · rw [Cmd.calm.spans hcalm]
    exact hw
  · cases c with
    | task c =>
      cases c with
      | leave email =>
        rw [Cmd.spans, ← List.erase_filter]
        have hnil : w.spans.filter (fun s => s.1 == t) = [] := hw
        simp [hnil]
      | _ => exact absurd hc hcalm
    | _ => exact absurd hc hcalm

theorem outside_exec {c : Cmd} {a : Answer} {b : c.Ans} (hc : c.outside) (hi : OwnInv calls w)
    (hw : w.spansOf t = []) (hd : (recognisedMail calls).step t (Op.mk c) a w)
    (h : exec t (.mk c) a w = some (b, w')) :
    OwnInv calls w' ∧ (∀ i, i ≠ t → OwnRely i w w') ∧ w'.spansOf t = [] := by
  have hspans : w'.spansOf t = [] := spansOf_outside hc hw h
  have hown := own_exec hi (faithful_of_step hd) (fun account s hs => by
    rw [Cmd.outside.submitted hc] at hs
    cases hs) (fun _ p _ m _ hm => by rw [hspans] at hm; cases hm) h
  exact ⟨hown.1, hown.2, hspans⟩

theorem outside_keeps {β : Type} {o : Op β} (hc : o.cmd.outside) :
    OwnKeeps cfg calls t (fun w => w.spansOf t = []) β o := by
  obtain ⟨c⟩ := o
  exact fun w a b w' hw hi hd h => outside_exec hc hi hw hd h

theorem between_keeps {β : Type} {o : Op β} (hc : o.cmd.outside) :
    OwnKeeps cfg calls t (Between t p emails) β o := by
  obtain ⟨c⟩ := o
  intro w a b w' hw hi hd hexec
  have h : exec t (.mk c) a w = some (b, w') := hexec
  obtain ⟨hinv, hrely, hspans⟩ := outside_exec hc hi hw.1 hd h
  exact ⟨hinv, hrely, hspans, fun e he => fetched_exec h (hw.2 e he)⟩

theorem processing_exec {c : Cmd} {a : Answer} {b : c.Ans} (hc : c.calm)
    (hw : Processing t p emails email w) (h : exec t (.mk c) a w = some (b, w')) :
    Processing t p emails email w' := by
  refine ⟨?_, hw.2.1, fun e he => fetched_exec h (hw.2.2 e he)⟩
  rw [World.spansOf, exec_spans h, Cmd.calm.spans hc]
  exact hw.1

theorem processing_keeps {β : Type} {o : Op β} (hc : o.cmd.calm) (hb : o.cmd.bridges = false) :
    OwnKeeps cfg calls t (Processing t p emails email) β o := by
  obtain ⟨c⟩ := o
  intro w a b w' hw hi hd hexec
  have h : exec t (.mk c) a w = some (b, w') := hexec
  have hcalm : c.calm := hc
  have hplain : c.bridges = false := hb
  have hown := own_exec hi (faithful_of_step hd) (fun account s hs => by
    rw [Cmd.outside.submitted (Cmd.calm.outside hcalm)] at hs
    cases hs) (fun hbridges => by rw [hplain] at hbridges; cases hbridges) h
  exact ⟨hown.1, hown.2, processing_exec hc hw h⟩

theorem foreign_keeps (hp : (calls t).session = some p) {β : Type} {o : Op β} (hc : o.cmd.calm) :
    OwnKeeps cfg calls t (Foreign t p emails email) β o := by
  obtain ⟨c⟩ := o
  intro w a b w' hw hi hd hexec
  have h : exec t (.mk c) a w = some (b, w') := hexec
  have hsubmitted : ∀ account, Record.submitted account ⟨t, c, a⟩ = none :=
    fun _ => Cmd.outside.submitted (Cmd.calm.outside hc)
  have hsent : sentMail p.account w'.trace = sentMail p.account w.trace := by
    rw [exec_trace h, sentMail_cons_none (hsubmitted _)]
  have hprocessing : Processing t p emails email w' := processing_exec hc hw.1 h
  have hown := own_exec hi (faithful_of_step hd) (fun account s hs => by
    rw [hsubmitted] at hs
    cases hs) (fun _ p' hp' m hm hspan => ?_) h
  · exact ⟨hown.1, hown.2, hprocessing, fun m hm => hw.2 m (hsent ▸ hm)⟩
  · obtain rfl : p = p' := Option.some.inj (hp.symm.trans hp')
    rw [hprocessing.1] at hspan
    have hid : some m.1 = email.id := by simpa using hspan
    exact hw.2 m (hsent ▸ hm) hid.symm

/-! Bridging an email. -/

theorem RoomCmd.calm {user : UserId} {c : Cmd} (h : RoomCmd user c) : c.calm := by
  cases h <;> rfl

theorem AttachmentCmd.calm {room : RoomId} {c : Cmd} (h : AttachmentCmd p room c) : c.calm := by
  cases h <;> rfl

theorem ReadStateCmd.calm {user : UserId} {email : Option EmailId} {c : Cmd}
    (h : ReadStateCmd user email c) : c.calm ∧ c.bridges = false := by
  cases h <;> exact ⟨rfl, rfl⟩

abbrev Calm {α : Type} (x : Prog Op α) : Prop := Does (fun c => c.calm) x

theorem processReply_calm {ghost : GhostUser} {body : EmailBody} {room : RoomId} :
    Calm (processReply p email ghost body room) := by
  refine .andThen (sendAsGhostJoining_does rfl rfl rfl) fun event => ?_
  split
  · exact .andThen (.store rfl) fun _ => .andThen (.bestEffort (.store rfl)) fun _ =>
      handleAttachments_does.mono fun _ => AttachmentCmd.calm
  · exact .ok

theorem createThreadRoom_calm {ghost : GhostUser} {body : EmailBody} {threadId : ThreadId}
    {emailId : EmailId} : Calm (createThreadRoom cfg p email ghost body threadId emailId) :=
  .andThen (createContactRoom_rooms.mono fun _ => RoomCmd.calm) fun _ =>
    .andThen (.bestEffort (.matrix rfl)) fun _ => .andThen (.store rfl) fun _ =>
      .andThen (.bestEffort (.matrix rfl)) fun _ =>
        .andThen (sendAsGhostJoining_does rfl rfl rfl) fun _ => .andThen (.store rfl) fun _ =>
          .andThen (.store rfl) fun _ => handleAttachments_does.mono fun _ => AttachmentCmd.calm

theorem processNewThread_calm {ghost : GhostUser} {body : EmailBody} :
    Calm (processNewThread cfg p email ghost body) := by
  rw [processNewThread]
  split
  case h_2 => exact .ok
  case h_1 threadId id _ heq =>
  refine .andThen (.loop fun _ => .andThen (.store rfl) fun row => ?_) fun room => ?_
  · split
    · exact .ok
    · refine .andThen (.store rfl) fun b => ?_
      split
      · exact .ok
      · exact .andThen (.lift (.task rfl)) fun _ => .ok
  · split
    · exact processReply_calm
    · refine .guarded rfl (.andThen (.store rfl) fun row => ?_)
      split
      · exact processReply_calm
      · exact createThreadRoom_calm

theorem bridgeToRoom_calm {ghost : GhostUser} {body : EmailBody} {threadId : ThreadId} :
    Calm (bridgeToRoom cfg p email threadId ghost body) := by
  refine .andThen (.store rfl) fun row => ?_
  split
  · exact processReply_calm
  · exact processNewThread_calm

/-- Reading the stored address: unless it says to skip the email, the email is foreign. -/
theorem ownEmail_step (hp : (calls t).session = some p) :
    OwnStep cfg calls t (Processing t p emails email) (.store (.getJmapState p.user .userEmail))
      (post (fun own w => Processing t p emails email w ∧
        (shouldSkipInbound (senderEmail email) own ∨ Foreign t p emails email w))
        fun _ => Processing t p emails email) := by
  intro w a r w' hi hw hd hexec
  have h : exec t (.mk (.store (.getJmapState p.user .userEmail))) a w = some (r, w') := hexec
  have hkeeps : OwnKeeps cfg calls t (Processing t p emails email) _
      (.mk (.store (.getJmapState p.user .userEmail))) := processing_keeps rfl rfl
  have hkept := hkeeps w a r w' hw hi hd hexec
  refine ⟨hkept.1, hkept.2.1, ?_⟩
  cases r with
  | error e => exact hkept.2.2
  | ok own =>
    refine ⟨hkept.2.2, ?_⟩
    have hown : own = w.store.jmapState.lookup (p.user, .userEmail) := by
      rcases exec_store h with ⟨order, -, hok, -⟩ | ⟨-, herr, -⟩ | ⟨-, herr, -⟩
      · exact Except.ok.inj hok
      · cases herr
      · cases herr
    by_cases hsent : ∃ m ∈ sentMail p.account w.trace, email.id = some m.1
    · obtain ⟨m, hm, hid⟩ := hsent
      have hspan : (t, some m.1) ∈ w.spans := by
        have hmem : (t, some m.1) ∈ w.spansOf t := by rw [hw.1, hid]; simp
        exact (List.mem_filter.mp hmem).1
      have hstored : (w.store.jmapState.lookup (p.user, .userEmail)).any
          fun own => eqIgnoreAsciiCase own m.2 := hd.2 p hp m hm hspan
      have hfrom : senderEmail email = some m.2 :=
        hi.delivered p.account email (hw.2.2 email hw.2.1) m hm hid
      left
      rw [hfrom, hown]
      exact hstored
    · right
      refine ⟨hkept.2.2, fun m hm hid => hsent ⟨m, ?_, hid⟩⟩
      rwa [exec_trace h, sentMail_cons_none (submitted_none fun _ _ he => by cases he)] at hm

theorem bridgeEmail_triple (hp : (calls t).session = some p) {emailId : EmailId} :
    OwnTriple cfg calls t (Processing t p emails email) (bridgeEmail cfg p email emailId)
      fun _ => Processing t p emails email := by
  have hstable : Stable (ownContract calls) t (Processing t p emails email) := stable_processing
  have hread : OwnTriple cfg calls t (Processing t p emails email)
      (onStore (.getJmapState p.user .userEmail))
      (post (fun own w => Processing t p emails email w ∧
        (shouldSkipInbound (senderEmail email) own ∨ Foreign t p emails email w))
        fun _ => Processing t p emails email) := by
    refine .call hstable (ownEmail_step hp) fun r => ?_
    cases r with
    | ok own => exact hstable.and ((Stable.const _).or stable_foreign)
    | error e => exact hstable
  have htriple : OwnTriple cfg calls t (Processing t p emails email)
      (bridgeEmail cfg p email emailId)
      (post (fun _ => Processing t p emails email) fun _ => Processing t p emails email) := by
    refine .andThen hread (fun _ => hstable) fun own => ?_
    split
    case isTrue hskip =>
      have hlog : OwnTriple cfg calls t (Processing t p emails email)
          (onTask (.log (.skipping emailId (senderEmail email))))
          fun _ => Processing t p emails email :=
        .only hstable (Prog.only_call.mpr (processing_keeps rfl rfl))
      exact .lift (.pre hlog fun w _ hw => hw.1) fun _ => hstable
    case isFalse hskip =>
      have hrest : Does (fun c => c.calm) (do
          let threadId ← Act.ofOption (.context "Email missing threadId") email.threadId
          let ghost ← resolveGhost cfg email
          bridgeToRoom cfg p email threadId ghost (EmailBody.fromEmail cfg email)
          Act.lift (syncReadState p email) : Bridge Unit) :=
        .andThen .ofOption fun _ =>
          .andThen (.andThen (registerGhost_rooms.mono fun _ (h : RoomCmd p.user _) => h.calm)
            fun _ => .ok) fun _ => .andThen bridgeToRoom_calm fun _ =>
              .lift (syncReadState_does.mono fun _ h => (ReadStateCmd.calm h).1)
      refine .post
        (.pre (.only stable_foreign (Prog.Only.mono (fun _ _ h => foreign_keeps hp h) hrest))
        fun w _ hw => hw.2.resolve_left hskip) fun r w _ hw => ?_
      cases r with
      | ok _ => exact hw.1
      | error _ => exact hw.1
  refine .post htriple fun r w _ hw => ?_
  cases r with
  | ok _ => exact hw
  | error _ => exact hw

theorem enterMail_step :
    OwnStep cfg calls t (fun w => Between t p emails w ∧ email ∈ emails)
      (.task (.enter email.id)) fun _ => Processing t p emails email := by
  intro w a b w' hi hw hd hexec
  have h : exec t (.mk (.task (.enter email.id))) a w = some (b, w') := hexec
  have hspans : w'.spansOf t = [(t, email.id)] := by
    have hnil : w.spans.filter (fun s => s.1 == t) = [] := hw.1.1
    rw [World.spansOf, exec_spans h]
    simp [Cmd.spans, hnil]
  have hown := own_exec hi (faithful_of_step hd) (fun account s hs => by
    rw [submitted_none fun _ _ he => by cases he] at hs
    cases hs) (fun hb => by cases hb) h
  exact ⟨hown.1, hown.2, hspans, hw.2, fun e he => fetched_exec h (hw.1.2 e he)⟩

theorem leaveMail_step :
    OwnStep cfg calls t (Processing t p emails email) (.task (.leave email.id))
      fun _ => Between t p emails := by
  intro w a b w' hi hw hd hexec
  have h : exec t (.mk (.task (.leave email.id))) a w = some (b, w') := hexec
  have hspans : w'.spansOf t = [] := by
    have hone : w.spans.filter (fun s => s.1 == t) = [(t, email.id)] := hw.1
    rw [World.spansOf, exec_spans h, Cmd.spans, ← List.erase_filter, hone]
    simp
  have hown := own_exec hi (faithful_of_step hd) (fun account s hs => by
    rw [submitted_none fun _ _ he => by cases he] at hs
    cases hs) (fun hb => by cases hb) h
  exact ⟨hown.1, hown.2, hspans, fun e he => fetched_exec h (hw.2.2 e he)⟩

theorem processEmail_triple (hp : (calls t).session = some p) :
    OwnTriple cfg calls t (fun w => Between t p emails w ∧ email ∈ emails)
      (processEmail cfg p email) fun _ => Between t p emails := by
  have hstable : Stable (ownContract calls) t (Processing t p emails email) := stable_processing
  have hbody : OwnTriple cfg calls t (Processing t p emails email) (do
      let emailId ← Act.ofOption (.context "Email missing id") email.id
      if ← onStore (.hasMessageMapped emailId) then Act.lift (syncReadState p email)
      else bridgeEmail cfg p email emailId : Bridge Unit)
      fun _ => Processing t p emails email := by
    have hclosed := Triple.closed (S := mailBridge cfg calls) (D := recognisedMail calls) hstable
    refine hclosed.andThen hclosed.ofOption fun emailId => ?_
    refine hclosed.andThen (hclosed.call (processing_keeps rfl rfl)) fun mapped => ?_
    split
    · exact hclosed.lift (.only hstable (Prog.Only.mono (fun _ _ h =>
        processing_keeps (ReadStateCmd.calm h).1 (ReadStateCmd.calm h).2) syncReadState_does))
    · exact bridgeEmail_triple hp
  refine .bind (.call (stable_between.and (Stable.const _)) enterMail_step fun _ => hstable)
    fun _ => ?_
  refine .bind hbody fun r => .bind (.call hstable leaveMail_step fun _ => stable_between)
    fun _ => ?_
  exact .pure stable_between fun _ _ h => h

/-! The calls. -/

theorem between_nil : Between t p [] w ↔ w.spansOf t = [] := by simp [Between]

theorem fetchMail_step {ids : List EmailId} :
    OwnStep cfg calls t (Between t p []) (.jmap p.account (.getEmail ids))
      (post (fun l => Between t p l) fun _ => Between t p []) := by
  intro w a r w' hi hw hd hexec
  have h : exec t (.mk (.jmap p.account (.getEmail ids))) a w = some (r, w') := hexec
  have hkept :=
    between_keeps (o := .mk (.jmap p.account (.getEmail ids))) rfl w a r w' hw hi hd hexec
  refine ⟨hkept.1, hkept.2.1, ?_⟩
  rcases exec_reply h with ⟨reply, l, rfl, rfl, hvalue⟩ | ⟨-, e, rfl⟩
  · refine ⟨hkept.2.2.1, fun e he => ?_⟩
    rw [exec_trace h, fetchedMail, List.flatMap_cons]
    refine List.mem_append_left _ ?_
    cases reply with
    | emails l' =>
      obtain rfl : l' = l := Option.some.inj hvalue
      simpa [Record.fetches] using he
    | _ => cases hvalue
  · exact hkept.2.2

theorem fetched_triple (hp : (calls t).session = some p) (ids : List EmailId) :
    OwnTriple cfg calls t (Between t p []) (Act.andThen (fetchEmails p ids) (processAll cfg p))
      fun _ => Between t p [] := by
  have hnil : ∀ l w, Between t p l w → Between t p [] w := fun _ _ h => between_nil.mpr h.1
  have hfetch : OwnTriple cfg calls t (Between t p []) (fetchEmails p ids)
      (post (fun l => Between t p l) fun _ => Between t p []) :=
    .call stable_between fetchMail_step fun r => by cases r <;> exact stable_between
  refine .bind hfetch fun r => ?_
  cases r with
  | error e => exact .pure stable_between fun _ _ h => h
  | ok l =>
    have hall : OwnTriple cfg calls t (Between t p l) (Prog.forEach (processLogged cfg p) l)
        fun _ => Between t p l := by
      refine .forEach stable_between l fun email hmem => ?_
      refine .bind (.pre (processEmail_triple hp) fun w _ hw => ⟨hw, hmem⟩) fun r => ?_
      cases r with
      | ok _ => exact .pure stable_between fun _ _ h => h
      | error _ => exact .only stable_between (Prog.only_call.mpr (between_keeps rfl))
    exact .bind hall fun _ => .pure stable_between fun w _ h => hnil l w h

theorem PaceCmd.outside {c : Cmd} (h : PaceCmd p c) : c.outside := by cases h <;> rfl

theorem InboundCmd.outside {ids : EmailId → Prop} {c : Cmd} (h : InboundCmd p ids c) :
    c.outside := by
  cases h <;> rfl

theorem MailboxCmd.outside {ids : EmailId → Prop} {c : Cmd} (h : MailboxCmd p ids c) :
    c.outside := by
  cases h with
  | contact c h => cases h <;> rfl
  | _ => rfl

theorem Cmd.service.outside {c : Cmd} (h : c.service)
    (hne : ∀ account draft, c ≠ .jmap account (.submitBatch draft)) : c.outside := by
  unfold Cmd.outside
  split
  case h_1 => rfl
  case h_2 =>
    unfold Cmd.calm
    split
    case h_1 => cases h
    case h_2 => cases h
    case h_3 => exact absurd rfl (hne _ _)
    case h_4 => rfl

theorem Cmd.errand.outside {c : Cmd} (h : c.errand) : c.outside := by
  refine Cmd.service.outside (Cmd.errand.service h) ?_
  rintro account draft rfl
  cases h

theorem outside_triple {α : Type} {x : Prog Op α} (hx : Does (fun c => c.outside) x) :
    OwnTriple cfg calls t (fun w => w.spansOf t = []) x fun _ w => w.spansOf t = [] :=
  .only stable_calm (Prog.Only.mono (fun _ _ h => outside_keeps h) hx)

theorem session_triple (hp : (calls t).session = some p) :
    OwnTriple cfg calls t (fun w => w.spansOf t = []) ((calls t).program cfg)
      fun _ w => w.spansOf t = [] := by
  have hbetween : (fun w : World => w.spansOf t = []) = Between t p [] := by
    funext w
    exact propext between_nil.symm
  rw [hbetween]
  have hclosed : Prog.Closed (fun _ o => PaceCmd p o.cmd)
      fun _ x => OwnTriple cfg calls t (Between t p []) x fun _ => Between t p [] :=
    (Triple.closed stable_between).mono fun _ _ h => between_keeps h.outside
  have hdoes : Does (MailboxCmd p fun _ => True) (pollMailboxes cfg p) := pollMailboxes_does
  have hmailboxes : OwnTriple cfg calls t (Between t p []) (pollMailboxes cfg p)
      fun _ => Between t p [] :=
    .only stable_between (Prog.Only.mono (fun _ _ h => between_keeps (MailboxCmd.outside h)) hdoes)
  cases hc : calls t with
  | submit account b => rw [hc] at hp; cases hp
  | call c =>
    cases c with
    | poll q =>
      obtain rfl : q = p := by rw [hc] at hp; exact Option.some.inj hp
      exact hclosed.bind (poll_fetches hclosed hmailboxes (fetched_triple hp)) fun _ =>
        hclosed.pure _
    | backfill q =>
      obtain rfl : q = p := by rw [hc] at hp; exact Option.some.inj hp
      exact runBackfillLoop_fetches hclosed (fetched_triple hp)
    | _ => rw [hc] at hp; cases hp

end

/-! The worker. -/

/-- The address that the task's latest answer about the identities gives its mail. -/
def signature (t : Nat) (account : Account) (w : World) : String :=
  (identitiesAnswer t account w.trace).elim account (senderAddress account)

/-- The task is in no email, and its mail is from `address`. -/
def Signing (t : Nat) (account : Account) (address : String) (w : World) : Prop :=
  w.spansOf t = [] ∧ signature t account w = address

theorem stable_signing {account : Account} {address : String} :
    Stable (ownContract calls) t (Signing t account address) :=
  fun _ _ h hr _ => ⟨hr.spans.trans h.1, by rw [← h.2, signature, signature, hr.answer]⟩

/-- The address that `primary_identity` finds. -/
def identityAddress (account : Account) : Except Err (List Identity) → String
  | .ok l => (l.findSome? (·.email)).getD account
  | .error _ => account

theorem getIdentity_step {account : Account} :
    OwnStep cfg calls t (fun w => w.spansOf t = []) (.jmap account .getIdentity)
      fun r => Signing t account (identityAddress account r) := by
  intro w a r w' hi hw hd hexec
  have h : exec t (.mk (.jmap account .getIdentity)) a w = some (r, w') := hexec
  have hkept := outside_keeps (o := .mk (.jmap account .getIdentity)) rfl w a r w' hw hi hd hexec
  refine ⟨hkept.1, hkept.2.1, hkept.2.2, ?_⟩
  have hanswer : identitiesAnswer t account w'.trace = some a := by
    simp [identitiesAnswer, exec_trace h]
  rw [signature, hanswer]
  rcases exec_reply h with ⟨reply, l, rfl, rfl, hvalue⟩ | ⟨hne, e, rfl⟩
  · cases reply with
    | identities l' =>
      obtain rfl : l' = l := Option.some.inj hvalue
      rfl
    | _ => cases hvalue
  · cases a with
    | reply reply => exact absurd rfl (hne reply)
    | _ => rfl

theorem identityAddress_ok (account : Account) (l : List Identity) :
    identityAddress account (.ok l) =
      ((l.findSome? fun i => i.email.map fun email => (i.id, i.name, email)).getD
        (none, none, account)).2.2 := by
  induction l with
  | nil => rfl
  | cons i l ih =>
    cases he : i.email with
    | none => simpa [identityAddress, he] using ih
    | some email => simp [identityAddress, he]

theorem primaryIdentity_triple {account : Account} :
    OwnTriple cfg calls t (fun w => w.spansOf t = []) (primaryIdentity account)
      fun identity => Signing t account (identity.getD (none, none, account)).2.2 := by
  refine .bind (.call stable_calm getIdentity_step fun _ => stable_signing) fun r => ?_
  cases r with
  | error e => exact .pure stable_signing fun _ _ h => h
  | ok l => exact .pure stable_signing fun w _ h => identityAddress_ok account l ▸ h

theorem submitBatch_step {account : Account} {draft : Draft} :
    OwnStep cfg calls t (Signing t account draft.fromEmail) (.jmap account (.submitBatch draft))
      fun _ w => w.spansOf t = [] := by
  intro w a r w' hi hw hd hexec
  have h : exec t (.mk (.jmap account (.submitBatch draft))) a w = some (r, w') := hexec
  have hown := own_exec hi (faithful_of_step hd) (fun account' s hs => ?_) (fun hb => by cases hb) h
  · have hspans : w'.spansOf t = w.spansOf t := by
      rw [World.spansOf, exec_spans h]
      rfl
    exact ⟨hown.1, hown.2, hspans.trans hw.1⟩
  · have hcmd : Cmd.jmap account (.submitBatch draft) = .jmap account' (.submitBatch s.2) :=
      submitted_batch hs
    obtain ⟨rfl, hbatch⟩ := Cmd.jmap.inj hcmd
    obtain rfl : draft = s.2 := JmapCmd.submitBatch.inj hbatch
    exact hw.2.symm

theorem submit_triple {account : Account} {b : EmailBuilder} :
    OwnTriple cfg calls t (fun w => w.spansOf t = []) (submit account b)
      fun _ w => w.spansOf t = [] := by
  have houtside : ∀ {α : Type} {x : Prog Op α}, Talk x → Does (fun c => c.outside) x :=
    fun hx => hx.mono fun _ h => Cmd.errand.outside (Cmd.talk.errand h)
  have hclosed : Prog.Closed (fun _ o => o.cmd.outside) fun _ x => OwnTriple cfg calls t
      (fun w => w.spansOf t = []) x fun _ w => w.spansOf t = [] :=
    (Triple.closed stable_calm).mono fun _ _ h => outside_keeps h
  refine hclosed.andThen (hclosed.of_only (houtside outgoingMailbox_remark.talk))
    fun mailboxId => ?_
  refine .bind (.lift (F := fun _ w => w.spansOf t = []) primaryIdentity_triple
    fun _ => stable_signing) fun r => ?_
  cases r with
  | error e => exact .pure stable_calm fun _ _ h => h
  | ok identity =>
    refine .bind (.call stable_signing submitBatch_step fun _ => stable_calm) fun r => ?_
    cases r with
    | error e => exact hclosed.pure _
    | ok reply =>
      refine hclosed.andThen hclosed.ofOption fun emailId => ?_
      split
      · exact hclosed.pure _
      · exact hclosed.pure _

theorem worker_triple : OwnTriple cfg calls t (fun w => w.spansOf t = []) (runRetryLoop cfg)
    fun _ w => w.spansOf t = [] := by
  have hclosed : Prog.Closed (fun _ o => o.cmd.errand) fun _ x => OwnTriple cfg calls t
      (fun w => w.spansOf t = []) x fun _ w => w.spansOf t = [] :=
    (Triple.closed stable_calm).mono fun _ _ h => outside_keeps (Cmd.errand.outside h)
  exact runRetryLoop_closed hclosed fun _ _ => submit_triple

theorem serves_outside {c : Call} (hc : c.Serves) (hw : c ≠ .worker) :
    Does (fun c => c.outside) (c.program cfg) := by
  have houtside : ∀ c : Cmd, c.service ∧ c.workers = false → c.outside := fun c h =>
    Cmd.service.outside h.1 fun account draft hc => by
      rw [hc] at h
      cases h.2
  exact Prog.Only.mono (fun _ _ h => houtside _ h)
    (Prog.Only.and (Call.Serves.program hc) (program_notWorking hw))

theorem own_program (t : Nat) :
    OwnTriple cfg calls t (fun w => w.spansOf t = []) ((calls t).program cfg)
      fun _ w => w.spansOf t = [] := by
  have hinbound : ∀ {α : Type} {x : Bridge α} {p : Poller}, DoesInbound p (fun _ => True) x →
      Does (fun c => c.outside) (ignore x) := fun hx =>
    .bind (hx.mono fun _ => InboundCmd.outside) fun _ => .pure
  have hserves : ∀ c : Call, c.Serves → c ≠ .worker → OwnTriple cfg calls t
      (fun w => w.spansOf t = []) (c.program cfg) fun _ w => w.spansOf t = [] :=
    fun _ hc hw => outside_triple (serves_outside hc hw)
  cases hp : (calls t).session with
  | some p => exact session_triple hp
  | none =>
    cases hc : calls t with
    | submit account b => exact .bind submit_triple fun _ => .pure stable_calm fun _ _ h => h
    | call c =>
      cases c with
      | poll p => rw [hc] at hp; cases hp
      | backfill p => rw [hc] at hp; cases hp
      | worker => exact worker_triple
      | newThread p email ghost body =>
        exact outside_triple (hinbound (processNewThread_inbound (fun _ _ => trivial)
          fun _ _ => trivial))
      | fileRoom user room =>
        exact outside_triple (hinbound (p := ⟨user, ""⟩) ensureRoomInEmailSpace_inbound)
      | repairSpace user =>
        exact outside_triple (hinbound (p := ⟨user, ""⟩) repairEmailSpace_inbound)
      | transaction id txn => exact hserves (.transaction id txn) trivial (by rintro ⟨⟩)
      | detached task => exact hserves (.detached task) trivial (by rintro ⟨⟩)
      | prune => exact hserves .prune trivial (by rintro ⟨⟩)
      | logout user => exact hserves (.logout user) trivial (by rintro ⟨⟩)

theorem own_upholds (cfg : Config) (calls : Nat → MailCall) :
    Upholds (mailBridge cfg calls) (recognisedMail calls) (ownContract calls) where
  start t w hi hidle _ := own_program t w hi hidle
  env e w w' hi _ he := by
    have henv : e.perform w = some w' := he
    have htrace : w'.trace = w.trace := (env_store henv).1
    have hspans : w'.spans = w.spans := by
      cases e with
      | release key stored =>
        simp only [Env.perform] at henv
        split at henv
        · obtain rfl := Option.some.inj henv
          rfl
        · cases henv
      | _ =>
        obtain rfl := Option.some.inj henv
        rfl
    refine ⟨⟨fun account => ?_, fun account => ?_, ?_⟩, fun i => .same ?_ htrace⟩
    · rw [htrace]
      exact hi.signed account
    · rw [htrace]
      exact hi.delivered account
    · intro r hr
      rw [htrace] at hr ⊢
      rw [hspans]
      exact hi.latest r hr
    · rw [World.spansOf, hspans]
      rfl
  cancel t w hi _ := by
    refine ⟨⟨hi.signed, hi.delivered, ?_⟩, fun i hit => .same ?_ rfl, ?_⟩
    · intro r hr hb p hp m hm hspan
      exact hi.latest r hr hb p hp m hm (List.mem_filter.mp hspan).1
    · rw [World.spansOf, World.spansOf]
      change (w.spans.filter fun s => s.1 != t).filter _ = _
      rw [List.filter_filter]
      refine List.filter_congr fun s _ => ?_
      by_cases hs : s.1 = i
      · simp [hs, hit]
      · simp [hs]
    · change (w.spans.filter fun s => s.1 != t).filter _ = []
      rw [List.filter_filter]
      refine List.filter_eq_nil_iff.mpr fun s _ => ?_
      by_cases hs : s.1 = t
      · simp [hs]
      · simp [hs]

/-- In a run of the bridge and of commands whose mail server is faithful and in which the stored
address is
the one that own mail was sent from whenever such mail is processed, nothing is bridged for
it. -/
theorem own_mail_skipped (cfg : Config) (calls : Nat → MailCall) (w₀ : World)
    (htrace : w₀.trace = [])
    (hspans : w₀.spans = []) (es : List (Event Answer Env)) (q : Pool Op World)
    (hrun : (mailBridge cfg calls).run es (Pool.boot w₀) = some q)
    (hmeets : (mailBridge cfg calls).Admits (recognisedMail calls).meets es (Pool.boot w₀)) :
    BridgesNoOwnMail calls q.world := by
  have hinv : OwnInv calls w₀ := by
    refine ⟨fun account => ?_, fun account email he => ?_, fun r hr => ?_⟩
    · simp [htrace, sentMail]
    · simp [htrace, fetchedMail] at he
    · simp [htrace] at hr
  have hidle : ∀ t, (ownContract calls).idle t w₀ := fun t => by
    change w₀.spans.filter _ = []
    rw [hspans]
    rfl
  exact ((own_upholds cfg calls).inv_of_run hinv hidle hrun hmeets).latest

/-- A worker, and a poll of the same user. -/
def sendThenPoll (t : Nat) : MailCall :=
  .call (if t = 0 then .worker else .poll ⟨"@a:localhost", "a@x"⟩)

/-- A message for Bob is queued. The account has no identity, and `stored` is what a login has
left of its address. -/
def selfWorld (stored : Sql.Table (UserId × StateKey) String) : World where
  clients := (∅ : Sql.Table _ _).insert "@a:localhost" "a@x"
  store :=
    { users := (∅ : Sql.Table _ _).insert "@a:localhost" ⟨"a@x", "token", "url"⟩
      jmapState := stored.insert ("@a:localhost", .changes) "s0"
      roomGhostMapping := (∅ : Sql.Table _ _).insert "!r" ⟨"bob@x", none, "@a:localhost"⟩
      outboundQueue := (∅ : Sql.Table _ _).insert 1
        { matrixUserId := "@a:localhost", roomId := "!r", eventId := "$m", bodyText := "hi"
          lastRetryAt := 0, releaseAt := 0 } }

def sentCopy : Email :=
  { id := some "e1", threadId := some "T", fromAddrs := some [⟨none, "a@x"⟩] }

/-- The worker sends the message, and the poll is given the copy of it. -/
def selfFetched : List (Event Answer Env) :=
  ([.start 0, .tau 0] : List (Event Answer Env)) ++ List.replicate 4 (.step 0 .done) ++
    ([.step 0 (.name none), .step 0 .done, .step 0 (.reply (.queried { ids := ["sent"] })),
      .step 0 (.reply (.identities [])), .step 0 (.reply (.batch ⟨some "e1", true⟩)), .start 1,
      .step 1 .done, .tau 1, .step 1 (.reply (.changes { newState := "s1", created := ["e1"] })),
      .step 1 (.reply (.emails [sentCopy]))] : List (Event Answer Env)) ++
        List.replicate 3 (.step 1 .done)

theorem own_mail_skipped_stored : ∃ q,
    (mailBridge {} sendThenPoll).run (selfFetched ++ [.step 1 .done]) (Pool.boot
      (selfWorld ((∅ : Sql.Table _ _).insert ("@a:localhost", .userEmail) "A@x"))) = some q ∧
      BridgesNoOwnMail sendThenPoll q.world := by
  have hends : ((mailBridge {} sendThenPoll).run (selfFetched ++ [.step 1 .done]) (Pool.boot
      (selfWorld ((∅ : Sql.Table _ _).insert ("@a:localhost", .userEmail) "A@x")))).isSome := by
    decide +kernel
  obtain ⟨q, hq⟩ := Option.isSome_iff_exists.mp hends
  exact ⟨q, hq, own_mail_skipped {} sendThenPoll _ rfl rfl _ q hq (by decide +kernel)⟩

/-- The login could not fetch the identities, and the copy is taken for mail from a stranger. -/
theorem own_mail_bridged :
    (mailBridge {} sendThenPoll).Admits faithfulMail.meets (selfFetched ++ [.step 1 (.flag true)])
      (Pool.boot (selfWorld ∅)) ∧
    ((mailBridge {} sendThenPoll).run (selfFetched ++ [.step 1 (.flag true)])
      (Pool.boot (selfWorld ∅))).map
        (fun q => decide (BridgesNoOwnMail sendThenPoll q.world)) = some false := by
  refine ⟨?_, ?_⟩
  · decide +kernel
  · decide +kernel

end JmapBridge
