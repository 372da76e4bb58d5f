import JmapBridge.Effect.Triple
import JmapBridge.Effect.Watch
import JmapBridge.Model.Dialog

/-! What the login dialog remembers and what it logs in with, whatever deliveries interleave.
A watcher keeps the timeline of the handlers' commands. -/

namespace JmapBridge.Dialog

open Effect Rust Sql

/-- A reading of a user's login state, or another command of a task. -/
inductive Happening where
  | read (task time : Nat) (user : UserId) (state : LoginState)
  | did (task time : Nat) (c : Cmd)
deriving DecidableEq, Repr

/-- The newest happening comes first. -/
abbrev Timeline := List Happening

def Happening.of (t time : Nat) : (c : Cmd) → c.Ans → Happening
  | .getLoginState user, state => .read t time user state
  | c, _ => .did t time c

def timeline : Watcher Op World Answer Timeline where
  note t _ o _ b w _ h := (match o, b with
    | .mk c, b => Happening.of t w.now c b) :: h

/-- What is kept for a user: the last state set for it and when, unless it was cleared since. -/
def lastSet (user : UserId) : Timeline → Option (LoginState × Nat)
  | [] => none
  | .did _ time (.setLoginState u state) :: older =>
    if u = user then some (state, time) else lastSet user older
  | .did _ _ (.clearLoginState u) :: older => if u = user then none else lastSet user older
  | _ :: older => lastSet user older

/-- The login state of a user is the last one set, as long as that is not too old. -/
def current (user : UserId) (now : Nat) (h : Timeline) : LoginState :=
  match lastSet user h with
  | some (state, time) => if now < time + loginStateTtl then state else .none
  | none => .none

/-- Every reading returned the state that was current. -/
def Truthful : Timeline → Prop
  | [] => True
  | .read _ time user state :: older => state = current user time older ∧ Truthful older
  | _ :: older => Truthful older

/-- The store holds the last state set for the user, or nothing where it is cleared or expired. -/
def Holds (now : Nat) (h : Timeline) (user : UserId) (s : StateStore) : Prop :=
  match lastSet user h with
  | some (state, time) => s.lookup user = some ⟨state, time + loginStateTtl⟩ ∨
      s.lookup user = none ∧ time + loginStateTtl ≤ now
  | none => s.lookup user = none

/-- No entry of the store had expired at the cleanups. -/
def Swept (h : Timeline) (s : StateStore) : Prop :=
  ∀ t time, .did t time .cleanupExpired ∈ h → ∀ user entry, s.lookup user = some entry →
    time < entry.expiresAt

structure Faithful (p : World × Timeline) : Prop where
  reads : Truthful p.2
  past : ∀ t time c, .did t time c ∈ p.2 → time ≤ p.1.now
  swept : Swept p.2 p.1.states
  holds : ∀ user, Holds p.1.now p.2 user p.1.states

section

variable {t now now' time : Nat} {user u : UserId} {state : LoginState} {h : Timeline}
  {s : StateStore} {w w' : World} {calls : Nat → Call}

theorem lastSet_read : lastSet user (.read t time u state :: h) = lastSet user h := rfl

theorem Holds.later (hs : Holds now h user s) (hn : now ≤ now') : Holds now' h user s := by
  unfold Holds at hs ⊢
  split
  case h_1 state time hlast =>
    rw [hlast] at hs
    exact hs.imp id fun hx => ⟨hx.1, hx.2.trans hn⟩
  case h_2 hlast =>
    rw [hlast] at hs
    exact hs

theorem Holds.frame {h' : Timeline} {s' : StateStore} (hs : Holds now h user s)
    (hlast : lastSet user h' = lastSet user h) (hlook : s'.lookup user = s.lookup user) :
    Holds now h' user s' := by
  unfold Holds at hs ⊢
  rw [hlast, hlook]
  exact hs

theorem Holds.current (hs : Holds now h user s) :
    (getLoginState now user s).1 = Dialog.current user now h := by
  unfold Holds at hs
  unfold getLoginState Dialog.current
  cases hlast : lastSet user h with
  | none =>
    rw [hlast] at hs
    rw [show s.lookup user = none from hs]
  | some last =>
    obtain ⟨state, time⟩ := last
    rw [hlast] at hs
    rcases hs with hs | ⟨hs, hle⟩
    · rw [hs]
      by_cases hfresh : now < time + loginStateTtl
      · simp [hfresh]
      · simp [hfresh]
    · rw [hs]
      simp [Nat.not_lt.mpr hle]

theorem getLoginState_lookup (hu : (getLoginState now u s).2.lookup user ≠ s.lookup user) :
    (getLoginState now u s).2.lookup user = none ∧ u = user ∧
      ∃ entry, s.lookup user = some entry ∧ entry.expiresAt ≤ now := by
  unfold getLoginState at hu ⊢
  cases hlook : s.lookup u with
  | none =>
    rw [hlook] at hu
    exact absurd rfl hu
  | some entry =>
    rw [hlook] at hu
    by_cases hfresh : now < entry.expiresAt
    · simp only [hfresh, if_true] at hu
      exact absurd rfl hu
    · simp only [hfresh, if_false] at hu ⊢
      by_cases heq : user = u
      · subst heq
        exact ⟨AList.lookup_erase .., rfl, entry, hlook, Nat.le_of_not_lt hfresh⟩
      · exact absurd (AList.lookup_erase_ne heq) hu

theorem Holds.read (hs : Holds now h user s) :
    Holds now (.read t now u state :: h) user (getLoginState now u s).2 := by
  by_cases heq : (getLoginState now u s).2.lookup user = s.lookup user
  · exact hs.frame rfl heq
  · obtain ⟨hnone, -, entry, hentry, hexpired⟩ := getLoginState_lookup heq
    unfold Holds at hs ⊢
    rw [lastSet_read, hnone]
    cases hlast : lastSet user h with
    | none => trivial
    | some last =>
      obtain ⟨state', time⟩ := last
      rw [hlast] at hs
      rcases hs with hs | hs
      · obtain rfl := Option.some.inj (hentry.symm.trans hs)
        exact .inr ⟨rfl, hexpired⟩
      · exact .inr ⟨rfl, hs.2⟩

theorem cleanup_lookup : (cleanupExpired now s).lookup user = s.lookup user ∨
    (cleanupExpired now s).lookup user = none ∧
      ∃ entry, s.lookup user = some entry ∧ entry.expiresAt ≤ now := by
  unfold cleanupExpired
  cases hlook :
    (Table.deleteWhere (fun _ entry => !decide (now < entry.expiresAt)) s).lookup user with
  | some entry => exact .inl (Table.lookup_of_lookup_deleteWhere hlook).1.symm
  | none =>
    cases hs : s.lookup user with
    | none => exact .inl rfl
    | some entry =>
      by_cases hfresh : now < entry.expiresAt
      · have hkeep := Table.lookup_deleteWhere_of_not
          (p := fun _ entry => !decide (now < entry.expiresAt)) (by simp [hfresh]) hs
        rw [hlook] at hkeep
        cases hkeep
      · exact .inr ⟨rfl, entry, rfl, Nat.le_of_not_lt hfresh⟩

theorem Holds.cleanup (hs : Holds now h user s) :
    Holds now (.did t now .cleanupExpired :: h) user (cleanupExpired now s) := by
  have hlook : (cleanupExpired now s).lookup user = s.lookup user ∨
      (cleanupExpired now s).lookup user = none ∧
        ∃ entry, s.lookup user = some entry ∧ entry.expiresAt ≤ now := cleanup_lookup
  rcases hlook with heq | ⟨hnone, entry, hentry, hexpired⟩
  · exact hs.frame rfl heq
  · unfold Holds at hs ⊢
    rw [show lastSet user (.did t now .cleanupExpired :: h) = lastSet user h from rfl, hnone]
    cases hlast : lastSet user h with
    | none => trivial
    | some last =>
      obtain ⟨state', time⟩ := last
      rw [hlast] at hs
      rcases hs with hs | hs
      · obtain rfl := Option.some.inj (hentry.symm.trans hs)
        exact .inr ⟨rfl, hexpired⟩
      · exact .inr ⟨rfl, hs.2⟩

theorem Holds.set (hs : Holds now h user s) :
    Holds now (.did t now (.setLoginState u state) :: h) user (setLoginState now u state s) := by
  by_cases heq : u = user
  · subst heq
    unfold Holds
    simp [lastSet, setLoginState]
  · refine hs.frame (by simp [lastSet, heq]) ?_
    exact AList.lookup_insert_ne (Ne.symm heq)

theorem Holds.clear (hs : Holds now h user s) :
    Holds now (.did t now (.clearLoginState u) :: h) user (clearLoginState u s) := by
  by_cases heq : u = user
  · subst heq
    unfold Holds
    simp [lastSet, clearLoginState]
  · refine hs.frame (by simp [lastSet, heq]) ?_
    exact AList.lookup_erase_ne (Ne.symm heq)

theorem Swept.fewer {s' : StateStore} {e : Happening} (hs : Swept h s)
    (he : ∀ t time, e ≠ .did t time .cleanupExpired)
    (hsub : ∀ user entry, s'.lookup user = some entry → s.lookup user = some entry) :
    Swept (e :: h) s' := by
  intro t time hmem user entry hentry
  rcases List.mem_cons.mp hmem with heq | hmem
  · exact absurd heq.symm (he t time)
  · exact hs t time hmem user entry (hsub user entry hentry)

theorem getLoginState_sub {entry : LoginStateEntry}
    (hentry : (getLoginState now u s).2.lookup user = some entry) : s.lookup user = some entry := by
  by_cases heq : (getLoginState now u s).2.lookup user = s.lookup user
  · rw [← heq]
    exact hentry
  · rw [(getLoginState_lookup heq).1] at hentry
    cases hentry

theorem past_cons {c : Cmd} (hp : ∀ t time c, .did t time c ∈ h → time ≤ now) :
    ∀ i time c', .did i time c' ∈ (.did t now c :: h : Timeline) → time ≤ now := by
  intro i time c' hmem
  rcases List.mem_cons.mp hmem with heq | hmem
  · cases heq
    exact Nat.le_refl _
  · exact hp i time c' hmem

theorem Faithful.quiet {c : Cmd} (hf : Faithful (w, h))
    (hlast : ∀ user, lastSet user (.did t w.now c :: h) = lastSet user h)
    (hsweep : c ≠ .cleanupExpired) (hread : Truthful (.did t w.now c :: h) = Truthful h) :
    Faithful (w, .did t w.now c :: h) where
  reads := hread ▸ hf.reads
  past := past_cons hf.past
  swept := hf.swept.fewer (by rintro t time ⟨⟩; exact hsweep rfl) fun _ _ hx => hx
  holds user := (hf.holds user).frame (hlast user) rfl

def Cmd.onStates : Cmd → Bool
  | getLoginState _ => true
  | setLoginState _ _ => true
  | clearLoginState _ => true
  | cleanupExpired => true
  | _ => false

theorem exec_elsewhere {c : Cmd} {a : Answer} {b : c.Ans} (hc : c.onStates = false)
    (he : exec t (.mk c) a w = some (b, w')) : w' = w := by
  cases c with
  | getLoginState user => cases hc
  | setLoginState user state => cases hc
  | clearLoginState user => cases hc
  | cleanupExpired => cases hc
  | login user username token url =>
    cases a with
    | done => exact (Prod.mk.inj (Option.some.inj he)).2.symm
    | refused err => exact (Prod.mk.inj (Option.some.inj he)).2.symm
  | _ =>
    cases a with
    | done => exact (Prod.mk.inj (Option.some.inj he)).2.symm
    | refused err => cases he

theorem faithful_exec {c : Cmd} {a : Answer} {b : c.Ans} (hf : Faithful (w, h))
    (he : exec t (.mk c) a w = some (b, w')) : Faithful (w', Happening.of t w.now c b :: h) := by
  cases c with
  | getLoginState user =>
    cases a with
    | refused err => cases he
    | done =>
      obtain ⟨rfl, rfl⟩ := Prod.mk.inj (Option.some.inj he)
      refine ⟨⟨(hf.holds user).current, hf.reads⟩, fun i time c hmem => ?_, ?_, fun u => ?_⟩
      · rcases List.mem_cons.mp hmem with heq | hmem
        · cases heq
        · exact hf.past i time c hmem
      · exact hf.swept.fewer (fun _ _ hx => by cases hx) fun _ _ hx => getLoginState_sub hx
      · exact (hf.holds u).read
  | setLoginState user state =>
    cases a with
    | refused err => cases he
    | done =>
      obtain ⟨rfl, rfl⟩ := Prod.mk.inj (Option.some.inj he)
      refine ⟨hf.reads, past_cons hf.past, fun i time hmem u entry hentry => ?_, fun u => ?_⟩
      · rcases List.mem_cons.mp hmem with heq | hold
        · cases heq
        · by_cases hu : u = user
          · subst hu
            obtain rfl : _ = entry := Option.some.inj ((AList.lookup_insert ..).symm.trans hentry)
            have htime : time ≤ w.now := hf.past i time _ hold
            show time < w.now + loginStateTtl
            have hpos : 0 < loginStateTtl := by decide
            omega
          · exact hf.swept i time hold u entry ((AList.lookup_insert_ne hu).symm.trans hentry)
      · exact (hf.holds u).set
  | clearLoginState user =>
    cases a with
    | refused err => cases he
    | done =>
      obtain ⟨rfl, rfl⟩ := Prod.mk.inj (Option.some.inj he)
      refine ⟨hf.reads, past_cons hf.past, ?_, fun u => (hf.holds u).clear⟩
      refine hf.swept.fewer (fun _ _ hx => by cases hx) fun u entry hentry => ?_
      by_cases hu : u = user
      · subst hu
        have hnone : (clearLoginState u w.states).lookup u = none := AList.lookup_erase ..
        exact absurd (hnone.symm.trans hentry) (by simp)
      · exact (AList.lookup_erase_ne hu).symm.trans hentry
  | cleanupExpired =>
    cases a with
    | refused err => cases he
    | done =>
      obtain ⟨rfl, rfl⟩ := Prod.mk.inj (Option.some.inj he)
      refine ⟨hf.reads, past_cons hf.past, fun i time hmem u entry hentry => ?_,
        fun u => (hf.holds u).cleanup⟩
      have hkept := Table.lookup_of_lookup_deleteWhere hentry
      rcases List.mem_cons.mp hmem with heq | hmem
      · cases heq
        simpa using hkept.2
      · exact hf.swept i time hmem u entry hkept.1
  | _ =>
    obtain rfl : w' = w := exec_elsewhere rfl he
    exact hf.quiet (fun _ => rfl) (by simp) rfl

end

/-! Where the words of a login come from. -/

/-- Task `t` handles the message `m` of `user` and read at `read` the state `state`, which was
set at `since` and had not expired. -/
structure Found (calls : Nat → Call) (h : Timeline) (user : UserId) (t : Nat) (m : Message)
    (state : LoginState) (since read : Nat) : Prop where
  handles : calls t = .message m
  sender : m.sender = user
  reads : .read t read user state ∈ h
  set : since ≤ read
  fresh : read < since + loginStateTtl

/-- How a user has come to a state of the dialog that was set at `time`. -/
inductive Reached (calls : Nat → Call) (h : Timeline) (user : UserId) : LoginState → Nat → Prop
  | asked {t time : Nat} {m : Message} (hm : calls t = .message m) (hs : m.sender = user)
      (hl : m.level.isSome) (hw : isLoginWord m.body)
      (hset : .did t time (.setLoginState user .waitingForEmail) ∈ h) :
      Reached calls h user .waitingForEmail time
  | email {t since read time : Nat} {m : Message}
      (hb : Reached calls h user .waitingForEmail since)
      (hf : Found calls h user t m .waitingForEmail since read) (ht : read ≤ time)
      (hset : .did t time (.setLoginState user (.waitingForPassword (trim m.body))) ∈ h) :
      Reached calls h user (.waitingForPassword (trim m.body)) time
  | password {t since read time : Nat} {m : Message} {email : String}
      (hb : Reached calls h user (.waitingForPassword email) since)
      (hf : Found calls h user t m (.waitingForPassword email) since read) (ht : read ≤ time)
      (hset : .did t time (.setLoginState user (.waitingForUrl email (trim m.body))) ∈ h) :
      Reached calls h user (.waitingForUrl email (trim m.body)) time

/-- Why task `t` may log `user` in: one message of the user says it all, or the user has said
it in the dialog. -/
inductive Warrant (calls : Nat → Call) (h : Timeline) (t time : Nat) (user : UserId) :
    String → String → String → Prop
  | once {m : Message} {word username password url : Str} {rest : List Str}
      (hm : calls t = .message m) (hs : m.sender = user) (hl : m.level.isSome)
      (hw : startsWith "!login " m.body.toList)
      (hp : Str.splitWhitespace m.body.toList = word :: username :: password :: url :: rest) :
      Warrant calls h t time user (String.ofList username) (String.ofList password)
        (String.ofList url)
  | dialog {m : Message} {since read : Nat} {email password : String}
      (hb : Reached calls h user (.waitingForUrl email password) since)
      (hf : Found calls h user t m (.waitingForUrl email password) since read) (ht : read ≤ time) :
      Warrant calls h t time user email password (trim m.body)

section

variable {calls : Nat → Call} {t now time since read : Nat} {user : UserId} {state : LoginState}
  {h h' : Timeline} {m : Message} {p p' : World × Timeline} {α β : Type}

theorem Found.mono (hf : Found calls h user t m state since read) (hsub : h ⊆ h') :
    Found calls h' user t m state since read :=
  ⟨hf.handles, hf.sender, hsub hf.reads, hf.set, hf.fresh⟩

theorem Reached.mono (hr : Reached calls h user state time) (hsub : h ⊆ h') :
    Reached calls h' user state time := by
  induction hr with
  | asked hm hs hl hw hset => exact .asked hm hs hl hw (hsub hset)
  | email hb hf ht hset ih => exact .email ih (hf.mono hsub) ht (hsub hset)
  | password hb hf ht hset ih => exact .password ih (hf.mono hsub) ht (hsub hset)

theorem Warrant.mono {username token url : String}
    (hw : Warrant calls h t time user username token url) (hsub : h ⊆ h') :
    Warrant calls h' t time user username token url := by
  cases hw with
  | once hm hs hl hw hp => exact .once hm hs hl hw hp
  | dialog hb hf ht => exact .dialog (hb.mono hsub) (hf.mono hsub) ht

structure Accounted (calls : Nat → Call) (p : World × Timeline) : Prop where
  faithful : Faithful p
  states : ∀ user state time, lastSet user p.2 = some (state, time) →
    Reached calls p.2 user state time ∧ time ≤ p.1.now
  logins : ∀ t time user username token url,
    .did t time (.login user username token url) ∈ p.2 →
      Warrant calls p.2 t time user username token url

def dialogContract (calls : Nat → Call) : Contract (World × Timeline) where
  inv := Accounted calls
  rely _ p p' := p.2 ⊆ p'.2 ∧ p.1.now ≤ p'.1.now
  refl _ p := ⟨List.Subset.refl _, Nat.le_refl _⟩
  trans hab hbc := ⟨List.Subset.trans hab.1 hbc.1, hab.2.trans hbc.2⟩

/-- What a command needs: the user must have said what is set for it or logged in with. -/
def Warranted (calls : Nat → Call) (t : Nat) (p : World × Timeline) : Cmd → Prop
  | .setLoginState user state =>
    Reached calls (.did t p.1.now (.setLoginState user state) :: p.2) user state p.1.now
  | .login user username token url => Warrant calls p.2 t p.1.now user username token url
  | _ => True

theorem lastSet_cons {c : Cmd} {b : c.Ans}
    (hl : lastSet user (Happening.of t now c b :: h) = some (state, time)) :
    c = .setLoginState user state ∧ time = now ∨ lastSet user h = some (state, time) := by
  cases c with
  | setLoginState u state' =>
    by_cases hu : u = user
    · subst hu
      obtain ⟨rfl, rfl⟩ : state' = state ∧ now = time := by simpa [Happening.of, lastSet] using hl
      exact .inl ⟨rfl, rfl⟩
    · exact .inr (by simpa [Happening.of, lastSet, hu] using hl)
  | clearLoginState u =>
    by_cases hu : u = user
    · simp [Happening.of, lastSet, hu] at hl
    · exact .inr (by simpa [Happening.of, lastSet, hu] using hl)
  | _ => exact .inr hl

theorem now_eq {c : Cmd} {a : Answer} {b : c.Ans} {w w' : World}
    (he : exec t (.mk c) a w = some (b, w')) : w'.now = w.now := by
  cases hc : c.onStates with
  | false => rw [exec_elsewhere hc he]
  | true =>
    cases a with
    | refused err =>
      cases c with
      | login user username token url => cases hc
      | _ => cases he
    | done =>
      cases c with
      | _ =>
        obtain ⟨-, rfl⟩ := Prod.mk.inj (Option.some.inj he)
        rfl

theorem accounted_exec {c : Cmd} {a : Answer} {b : c.Ans} {w w' : World}
    (hi : Accounted calls (w, h)) (hc : Warranted calls t (w, h) c)
    (he : exec t (.mk c) a w = some (b, w')) :
    Accounted calls (w', Happening.of t w.now c b :: h) := by
  have hsub : h ⊆ Happening.of t w.now c b :: h := List.subset_cons_self _ _
  have hnow : w'.now = w.now := now_eq he
  refine ⟨faithful_exec hi.faithful he, fun user state time hl => ?_,
    fun i time user username token url hmem => ?_⟩
  · rcases lastSet_cons hl with ⟨rfl, rfl⟩ | hold
    · exact ⟨hc, Nat.le_of_eq hnow.symm⟩
    · obtain ⟨hr, htime⟩ := hi.states user state time hold
      exact ⟨hr.mono hsub, hnow ▸ htime⟩
  · rcases List.mem_cons.mp hmem with heq | hold
    · cases c with
      | login user' username' token' url' =>
        cases heq
        exact Warrant.mono hc hsub
      | _ => cases heq
    · exact (hi.logins i time user username token url hold).mono hsub

abbrev DialogTriple (calls : Nat → Call) (t : Nat) (P : World × Timeline → Prop) (x : Prog Op α)
    (Q : α → World × Timeline → Prop) : Prop :=
  Triple ((dialogs calls).watched timeline) (({} : Discipline Op World Answer Env).watched Timeline)
    (dialogContract calls) t P x Q

/-- An assertion that time and further happenings leave true. -/
def Enduring (P : World × Timeline → Prop) : Prop :=
  ∀ p p', P p → p.2 ⊆ p'.2 → p.1.now ≤ p'.1.now → P p'

theorem Enduring.stable {P : World × Timeline → Prop} (hP : Enduring P) :
    Stable (dialogContract calls) t P := fun p p' h hr _ => hP p p' h hr.1 hr.2

theorem timeline_exec {c : Cmd} {a : Answer} {b : c.Ans}
    (he : ((dialogs calls).watched timeline).exec t (.mk c) a p = some (b, p')) :
    ∃ w', exec t (.mk c) a p.1 = some (b, w') ∧ p' = (w', Happening.of t p.1.now c b :: p.2) := by
  obtain ⟨⟨b₁, w'⟩, hexec, hr⟩ := Option.map_eq_some_iff.mp he
  obtain ⟨rfl, rfl⟩ := Prod.mk.inj hr
  exact ⟨w', hexec, rfl⟩

theorem run_triple {c : Cmd} {P : World × Timeline → Prop} {R : c.Ans → World × Timeline → Prop}
    (hP : Enduring P) (hR : ∀ b, Enduring (R b))
    (hc : ∀ p, Accounted calls p → P p → Warranted calls t p c)
    (hnext : ∀ p a b w', Accounted calls p → P p → P (w', Happening.of t p.1.now c b :: p.2) →
      exec t (.mk c) a p.1 = some (b, w') → R b (w', Happening.of t p.1.now c b :: p.2)) :
    DialogTriple calls t P (run c) R := by
  refine .call hP.stable (fun p a b p' hi hp _ he => ?_) fun b => (hR b).stable
  obtain ⟨w', hexec, rfl⟩ := timeline_exec he
  have hnow : w'.now = p.1.now := now_eq hexec
  have hsub : p.2 ⊆ Happening.of t p.1.now c b :: p.2 := List.subset_cons_self _ _
  exact ⟨accounted_exec hi (hc p hi hp) hexec, fun _ _ => ⟨hsub, Nat.le_of_eq hnow.symm⟩,
    hnext p a b w' hi hp (hP p _ hp hsub (Nat.le_of_eq hnow.symm)) hexec⟩

theorem run_free {c : Cmd} {P : World × Timeline → Prop} (hP : Enduring P)
    (hc : ∀ p, Warranted calls t p c) : DialogTriple calls t P (run c) fun _ => P :=
  run_triple hP (fun _ => hP) (fun p _ _ => hc p) fun _ _ _ _ _ _ h _ => h

theorem enduring_true : Enduring fun _ => True := fun _ _ _ _ _ => trivial

/-- What the handler knows once it has read the state. -/
def Entitled (calls : Nat → Call) (t : Nat) (m : Message) (state : LoginState)
    (p : World × Timeline) : Prop :=
  state = .none ∨ ∃ since read, Reached calls p.2 m.sender state since ∧
    Found calls p.2 m.sender t m state since read ∧ read ≤ p.1.now

theorem Entitled.enduring : Enduring (Entitled calls t m state) := by
  rintro p p' (hnone | ⟨since, read, hr, hf, hle⟩) hsub hnow
  · exact .inl hnone
  · exact .inr ⟨since, read, hr.mono hsub, hf.mono hsub, hle.trans hnow⟩

theorem read_triple (hm : calls t = .message m) :
    DialogTriple calls t (fun _ => True) (run (.getLoginState m.sender)) (Entitled calls t m) := by
  refine run_triple enduring_true (fun _ => Entitled.enduring) (fun _ _ _ => trivial)
    fun p a b w' hi _ _ hexec => ?_
  cases a with
  | refused err => cases hexec
  | done =>
    obtain ⟨rfl, rfl⟩ := Prod.mk.inj (Option.some.inj hexec)
    have hcurrent := (hi.faithful.holds m.sender).current
    rw [hcurrent]
    unfold current
    cases hlast : lastSet m.sender p.2 with
    | none => exact .inl rfl
    | some last =>
      obtain ⟨state, since⟩ := last
      by_cases hfresh : p.1.now < since + loginStateTtl
      · obtain ⟨hr, hpast⟩ := hi.states m.sender state since hlast
        have hsub : p.2 ⊆ .read t p.1.now m.sender state :: p.2 := List.subset_cons_self _ _
        simp only [hfresh, if_true]
        exact .inr ⟨since, p.1.now, hr.mono hsub,
          ⟨hm, rfl, List.mem_cons_self, hpast, hfresh⟩, Nat.le_refl _⟩
      · simp only [hfresh, if_false]
        exact .inl rfl

/-! The handlers. -/

theorem say_triple {P : World × Timeline → Prop} (hP : Enduring P) {room : RoomId} {text : String} :
    DialogTriple calls t P (run (.notify room text)) fun _ => P :=
  run_free hP fun _ => trivial

theorem none_triple (hm : calls t = .message m) :
    DialogTriple calls t (fun _ => True)
      ((handlers m).handleLoginNone m.body m.relation m.level) fun _ _ => True := by
  have hsay : ∀ text, DialogTriple calls t (fun _ => True) (run (.notify m.room text))
      fun _ _ => True := fun _ => say_triple enduring_true
  have hstop : DialogTriple calls t (fun _ => True) (.pure ()) fun _ _ => True :=
    .pure (Stable.const True) fun _ _ _ => trivial
  have honce : ∀ level, m.level = some level → startsWith "!login " m.body.toList →
      DialogTriple calls t (fun _ => True) (oneShotLogin m) fun _ _ => True := by
    intro level hlevel hword
    refine .bind (run_free enduring_true fun _ => trivial) fun _ => ?_
    split
    case h_1 word username password url rest hparts =>
      refine .bind (run_triple (R := fun _ _ => True) enduring_true (fun _ => enduring_true)
        (fun p _ _ => ?_) fun _ _ _ _ _ _ _ _ => trivial) fun r => ?_
      · exact .once hm rfl (by rw [hlevel]; rfl) hword hparts
      · cases r with
        | ok _ => exact .bind (hsay _) fun _ => run_free enduring_true fun _ => trivial
        | error err => exact hsay _
    case h_2 => exact hsay _
  have hlogin : ∀ level, m.level = some level →
      DialogTriple calls t (fun _ => True) (executeLogin m) fun _ _ => True := by
    intro level hlevel
    unfold executeLogin
    split
    case isTrue hword =>
      refine .bind (run_triple (R := fun _ _ => True) enduring_true (fun _ => enduring_true)
        (fun p _ _ => ?_) fun _ _ _ _ _ _ _ _ => trivial) fun _ => hsay _
      exact .asked hm rfl (by rw [hlevel]; rfl) hword List.mem_cons_self
    case isFalse =>
      split
      case isTrue hword => exact honce level hlevel hword
      case isFalse => exact hstop
  refine TextHandlers.handleLoginNone_of (fun x => DialogTriple calls t (fun _ => True) x
    fun _ _ => True) hstop hsay fun c hlevel _ => ?_
  obtain ⟨level, hlevel⟩ := Option.isSome_iff_exists.mp hlevel
  cases c with
  | login => exact hlogin level hlevel
  | _ => exact run_free enduring_true fun _ => trivial

theorem set_triple {state state' : LoginState}
    (hnext : ∀ p : World × Timeline, Entitled calls t m state p →
      Reached calls (.did t p.1.now (.setLoginState m.sender state') ::
        p.2) m.sender state' p.1.now) :
    DialogTriple calls t (Entitled calls t m state) (run (.setLoginState m.sender state'))
      fun _ _ => True :=
  run_triple Entitled.enduring (fun _ => enduring_true) (fun p _ hp => hnext p hp)
    fun _ _ _ _ _ _ _ _ => trivial

theorem handle_triple (hm : calls t = .message m) :
    DialogTriple calls t (fun _ => True) (handle m) fun _ _ => True := by
  refine .bind (read_triple hm) fun state => ?_
  cases state with
  | none => exact .pre (none_triple hm) fun _ _ _ => trivial
  | waitingForEmail =>
    refine .bind (set_triple fun p hp => ?_) fun _ => say_triple enduring_true
    rcases hp with hnone | ⟨since, read, hr, hf, hle⟩
    · cases hnone
    · have hsub :
          p.2 ⊆ .did t p.1.now (.setLoginState m.sender (.waitingForPassword (trim m.body))) ::
          p.2 := List.subset_cons_self _ _
      exact .email (hr.mono hsub) (hf.mono hsub) hle List.mem_cons_self
  | waitingForPassword email =>
    refine .bind (run_free Entitled.enduring fun _ => trivial) fun _ => ?_
    refine .bind (set_triple fun p hp => ?_) fun _ => say_triple enduring_true
    rcases hp with hnone | ⟨since, read, hr, hf, hle⟩
    · cases hnone
    · have hsub :
          p.2 ⊆ .did t p.1.now (.setLoginState m.sender (.waitingForUrl email (trim m.body))) ::
          p.2 := List.subset_cons_self _ _
      exact .password (hr.mono hsub) (hf.mono hsub) hle List.mem_cons_self
  | waitingForUrl email password =>
    have hfree : ∀ c : Cmd, (∀ p, Warranted calls t p c) →
        DialogTriple calls t (fun _ => True) (run c) fun _ _ => True :=
      fun c hc => run_free enduring_true hc
    refine .bind (say_triple Entitled.enduring) fun _ => ?_
    refine .bind (run_triple (R := fun _ _ => True) Entitled.enduring (fun _ => enduring_true)
      (fun p _ hp => ?_) fun _ _ _ _ _ _ _ _ => trivial) fun r => ?_
    · rcases hp with hnone | ⟨since, read, hr, hf, hle⟩
      · cases hnone
      · exact .dialog hr hf hle
    · cases r with
      | ok _ =>
        exact .bind (hfree _ fun _ => trivial) fun _ => .bind (hfree _ fun _ => trivial) fun _ =>
          hfree _ fun _ => trivial
      | error err => exact .bind (hfree _ fun _ => trivial) fun _ => hfree _ fun _ => trivial

theorem cleanup_triple : DialogTriple calls t (fun _ => True) runCleanup fun _ _ => True := by
  refine .loop (J := fun _ _ => True) (R := fun _ _ => True) (fun _ => ?_) fun _ =>
    .pure (Stable.const True) fun _ _ _ => trivial
  refine .bind (run_free enduring_true fun _ => trivial) fun _ => ?_
  exact .bind (run_free enduring_true fun _ => trivial) fun _ =>
    .pure (Stable.const True) fun _ _ _ => trivial

theorem dialog_upholds : Upholds ((dialogs calls).watched timeline)
    (({} : Discipline Op World Answer Env).watched Timeline) (dialogContract calls) where
  start := by
    intro t p hi _ _
    have hprogram : DialogTriple calls t (fun _ => True) ((calls t).program) fun _ _ => True := by
      cases hcall : calls t with
      | message m => exact handle_triple hcall
      | cleanup => exact cleanup_triple
    exact hprogram p hi trivial
  env := by
    intro ev p p' hi _ he
    cases ev with
    | advance nanos =>
      have hp' : some ({ p.1 with now := p.1.now + nanos }, p.2) = some p' := he
      obtain rfl := Option.some.inj hp'
      have hnow : p.1.now ≤ p.1.now + nanos := Nat.le_add_right _ _
      refine ⟨⟨⟨hi.faithful.reads, fun i time c hmem => (hi.faithful.past i time c hmem).trans hnow,
        hi.faithful.swept, fun user => (hi.faithful.holds user).later hnow⟩,
          fun user state time hl => ?_,
        hi.logins⟩, fun _ => ⟨List.Subset.refl _, hnow⟩⟩
      exact ⟨(hi.states user state time hl).1, (hi.states user state time hl).2.trans hnow⟩
  cancel t p hi _ := ⟨hi, fun _ _ => ⟨List.Subset.refl _, Nat.le_refl _⟩, trivial⟩

/-- The timeline of a run from an empty store. -/
def timelineOf (calls : Nat → Call) (now : Nat) (es : List (Event Answer Env)) : Timeline :=
  (dialogs calls).notes timeline es (Pool.boot { now := now }) []

theorem accounted_of_run {es : List (Event Answer Env)} {q : Pool Op World}
    (hrun : (dialogs calls).run es (Pool.boot { now := now }) = some q) :
    Accounted calls (q.world, timelineOf calls now es) := by
  have hinv : Accounted calls (({ now := now } : World), []) := by
    refine ⟨⟨trivial, fun _ _ _ hmem => (by cases hmem), fun _ _ hmem => (by cases hmem),
      fun user => ?_⟩, fun _ _ _ hl => (by cases hl), fun _ _ _ _ _ _ hmem => (by cases hmem)⟩
    exact AList.lookup_empty user
  exact dialog_upholds.inv_of_notes hinv (fun _ => trivial) hrun (System.admits_free es _)

/-- Whatever handlers interleave and whenever expired entries are evicted, each reading of a
user's login state returns the last state that a handler has set for that user, unless it was
cleared or set too long ago, and a cleanup leaves no entry in the store that has expired. -/
theorem login_state_is_last_set {es : List (Event Answer Env)} {q : Pool Op World}
    (hrun : (dialogs calls).run es (Pool.boot { now := now }) = some q) :
    Truthful (timelineOf calls now es) ∧
      (∀ user, (getLoginState q.world.now user q.world.states).1 =
        current user q.world.now (timelineOf calls now es)) ∧
      Swept (timelineOf calls now es) q.world.states := by
  have hend := (accounted_of_run hrun).faithful
  exact ⟨hend.reads, fun user => (hend.holds user).current, hend.swept⟩

end

/-- Tasks 0 to 3 handle the four messages of a login, and task 4 evicts expired entries. -/
def fourMessages : Nat → Call
  | 0 => .message ⟨"@a:x", some .user, "!r", "$0", "login", none⟩
  | 1 => .message ⟨"@a:x", some .user, "!r", "$1", " a@x ", none⟩
  | 2 => .message ⟨"@a:x", some .user, "!r", "$2", "secret", none⟩
  | 3 => .message ⟨"@a:x", some .user, "!r", "$3", "https://x", none⟩
  | _ => .cleanup

/-- The cleanup falls between the second message and the third. -/
def loginRun : List (Event Answer Env) :=
  (.start 0 :: List.replicate 3 (.step 0 .done) : List (Event Answer Env)) ++
    (.start 1 :: List.replicate 3 (.step 1 .done) : List (Event Answer Env)) ++
    ([.env (.advance 1000), .start 4, .tau 4, .step 4 .done,
      .step 4 .done] : List (Event Answer Env)) ++
    (.start 2 :: List.replicate 4 (.step 2 .done) : List (Event Answer Env)) ++
    (.start 3 :: List.replicate 6 (.step 3 .done) : List (Event Answer Env))

theorem login_state_is_last_set_four : ∃ q : Pool Op World,
    (dialogs fourMessages).run loginRun (Pool.boot { now := 5 }) = some q ∧
      Truthful (timelineOf fourMessages 5 loginRun) ∧
      (∀ user, (getLoginState q.world.now user q.world.states).1 =
        current user q.world.now (timelineOf fourMessages 5 loginRun)) ∧
      Swept (timelineOf fourMessages 5 loginRun) q.world.states := by
  have hends : ((dialogs fourMessages).run loginRun (Pool.boot { now := 5 })).isSome := by
    decide +kernel
  obtain ⟨q, hq⟩ := Option.isSome_iff_exists.mp hends
  exact ⟨q, hq, login_state_is_last_set hq⟩

section

variable {calls : Nat → Call} {now : Nat}

/-- Whatever handlers interleave, a user is logged in only with words of messages of its own,
each given in answer to the one before it and in time, after a command it was permitted to give. -/
theorem logins_are_warranted {es : List (Event Answer Env)} {q : Pool Op World}
    (hrun : (dialogs calls).run es (Pool.boot { now := now }) = some q) {t time : Nat}
    {user : UserId} {username token url : String}
    (hlogin : .did t time (.login user username token url) ∈ timelineOf calls now es) :
    Warrant calls (timelineOf calls now es) t time user username token url :=
  (accounted_of_run hrun).logins t time user username token url hlogin

end

theorem logins_are_warranted_four :
    .did 3 1005 (.login "@a:x" "a@x" "secret" "https://x") ∈ timelineOf fourMessages 5 loginRun ∧
      Warrant fourMessages (timelineOf fourMessages 5 loginRun) 3 1005 "@a:x" "a@x" "secret"
        "https://x" := by
  have hends : ((dialogs fourMessages).run loginRun (Pool.boot { now := 5 })).isSome := by
    decide +kernel
  have hlogin : .did 3 1005 (.login "@a:x" "a@x" "secret" "https://x") ∈
      timelineOf fourMessages 5 loginRun := by decide +kernel
  obtain ⟨q, hq⟩ := Option.isSome_iff_exists.mp hends
  exact ⟨hlogin, logins_are_warranted hq hlogin⟩

end JmapBridge.Dialog
