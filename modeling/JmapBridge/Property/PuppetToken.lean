import JmapBridge.Model.Puppeting

/-! The token that a puppet uses. Where a token is stored only while no loop of the user is
there that would go on with another one, the loops use the token in the store, and a
`login-matrix` that reports success has its loop. -/

namespace JmapBridge

open Effect Sql

variable {calls : Nat → PuppetCall} {u : UserId} {t : Nat}

/-- The calls that store a token of `u`. -/
def PuppetCall.sets (u : UserId) : PuppetCall → Bool
  | loginMatrix ctx => ctx.sender == u
  | autoPuppet _ v => v == u
  | provision v _ => v == u
  | _ => false

def PuppetCall.provisions : PuppetCall → Bool
  | provision _ _ => true
  | _ => false

/-- The token that the record stores for `u`. -/
def PuppetRecord.stores (u : UserId) (r : PuppetRecord) : Option String :=
  match r.cmd, r.answer with
  | .setToken v token, .done => if v = u then some token else none
  | _, _ => none

/-- A token of `u` was not stored. -/
def PuppetRecord.unstored (u : UserId) (r : PuppetRecord) : Bool :=
  match r.cmd, r.answer with
  | .setToken v _, .failed _ => v == u
  | _, _ => false

/-- The call has a token of `u` to start a loop with: it has stored it or, at the startup,
read it. -/
def PuppetRecord.takes (calls : Nat → PuppetCall) (u : UserId) (r : PuppetRecord) : Bool :=
  match r.cmd, r.answer with
  | .getToken v, .token _ => v == u && calls r.task == .resume
  | _, _ => (r.stores u).isSome

/-- The tasks that have a token of `u` and have yet to reach `ensure_running`. -/
def holders (calls : Nat → PuppetCall) (u : UserId) : List PuppetRecord → List Nat
  | [] => []
  | r :: l =>
    match r.cmd with
    | .ensureRunning v _ =>
      if v = u then (holders calls u l).filter (· != r.task) else holders calls u l
    | _ => if r.takes calls u then r.task :: holders calls u l else holders calls u l

/-- The token that was stored last, the task that stored it, and whether that task has
reported success. -/
structure Issue where
  task : Nat
  token : String
  reported : Bool := false
deriving DecidableEq, Repr

/-- A token that the homeserver has rejected is no longer valid. -/
def issued (u : UserId) : List PuppetRecord → Option Issue
  | [] => none
  | r :: l =>
    match r.cmd, r.answer with
    | .setToken _ _, _ => (r.stores u).elim (issued u l) fun token => some ⟨r.task, token, false⟩
    | .sync v token _, .reply .rejected =>
      if v = u then (issued u l).filter (·.token != token) else issued u l
    | .notify _ text, _ =>
      if text = doneText then
        (issued u l).map fun k => if k.task = r.task then { k with reported := true } else k
      else issued u l
    | _, _ => issued u l

/-- The loop that task `i` runs, or is to run, is one of `u`. -/
def PuppetWorld.Puppet (w : PuppetWorld) (u : UserId) (i : Nat) (p : AutoAccept) : Prop :=
  w.puppets.lookup i = some p ∧ p.user = u

/-- The loops of `u` use this token, and it was not rejected. -/
def PuppetWorld.steady (w : PuppetWorld) (u : UserId) (token : String) : Bool :=
  w.puppets.entries.all fun e => e.2.user != u || (e.2.token == token && e.2.phase != .leaving)

theorem steady_iff {w : PuppetWorld} {token : String} :
    w.steady u token ↔ ∀ i p, w.Puppet u i p → p.token = token ∧ p.phase ≠ .leaving := by
  simp only [PuppetWorld.steady, List.all_eq_true]
  constructor
  · rintro h i p ⟨hl, hu⟩
    have hmem := h ⟨i, p⟩ (AList.mem_lookup_iff.mp hl)
    simpa [hu] using hmem
  · intro h e he
    by_cases hu : e.2.user = u
    · have hl : w.puppets.lookup e.1 = some e.2 := AList.mem_lookup_iff.mpr he
      simpa [hu] using h e.1 e.2 ⟨hl, hu⟩
    · simp [hu]

/-- A token of `u` is stored only while no other call is about to start a loop of `u`, and
the loops of `u`, if any, go on with that very token; a provisioning goes on only with a
token that was stored. -/
def handover (calls : Nat → PuppetCall) (u : UserId) :
    Discipline PuppetOp PuppetWorld PuppetAnswer Empty where
  step t _ o a w :=
    (∀ token ∈ PuppetRecord.stores u ⟨t, o.cmd, a⟩, holders calls u w.trace = [] ∧
      w.steady u token) ∧
      (PuppetRecord.unstored u ⟨t, o.cmd, a⟩ → (calls t).provisions = false)
  cancel t w := w.puppets.lookup t = none

instance decidableHandoverStep (t : Nat) (β : Type) (o : PuppetOp β) (a : PuppetAnswer)
    (w : PuppetWorld) : Decidable ((handover calls u).step t o a w) :=
  inferInstanceAs (Decidable (_ ∧ _))

instance decidableHandover (e : Event PuppetAnswer Empty) (q : Pool PuppetOp PuppetWorld) :
    Decidable ((handover calls u).meets e q) :=
  @Discipline.decidableMeets PuppetOp PuppetWorld PuppetAnswer Empty (handover calls u)
    (fun _ _ => instDecidableTrue) _
      (fun t w => inferInstanceAs (Decidable (w.puppets.lookup t = none)))
    (fun _ _ => instDecidableTrue) e q

structure TokenInv (calls : Nat → PuppetCall) (u : UserId) (w : PuppetWorld) : Prop where
  covered : ∀ i p, w.Puppet u i p → (w.running.lookup u).isSome
  found : (w.running.lookup u).isSome → ∃ i p, w.Puppet u i p
  one : ∀ i j p p', w.Puppet u i p → w.Puppet u j p' → i = j
  uses : ∀ i p, w.Puppet u i p → w.tokens.lookup u = some p.token
  stored : ∀ k, issued u w.trace = some k → w.tokens.lookup u = some k.token
  live : ∀ k, issued u w.trace = some k → ∀ i p, w.Puppet u i p → p.phase ≠ .leaving
  begun : ∀ k, issued u w.trace = some k →
    (w.running.lookup u).isSome ∨ k.task ∈ holders calls u w.trace
  early : ∀ k, issued u w.trace = some k → k.reported → k.task ∉ holders calls u w.trace
  setter : ∀ k, issued u w.trace = some k → (calls k.task).sets u = true

structure TokenRely (calls : Nat → PuppetCall) (u : UserId) (t : Nat) (w w' : PuppetWorld) :
    Prop where
  outside : t ∉ holders calls u w.trace → t ∉ holders calls u w'.trace
  inside : t ∈ holders calls u w.trace →
    t ∈ holders calls u w'.trace ∧ w'.tokens.lookup u = w.tokens.lookup u
  own : ∀ p, w.puppets.lookup t = some p → w'.puppets.lookup t = some p

theorem TokenRely.refl (w : PuppetWorld) : TokenRely calls u t w w :=
  ⟨id, fun h => ⟨h, rfl⟩, fun _ h => h⟩

theorem TokenRely.trans {w₁ w₂ w₃ : PuppetWorld} (h : TokenRely calls u t w₁ w₂)
    (h' : TokenRely calls u t w₂ w₃) : TokenRely calls u t w₁ w₃ where
  outside ht := h'.outside (h.outside ht)
  inside ht := by
    obtain ⟨ht₂, he₂⟩ := h.inside ht
    obtain ⟨ht₃, he₃⟩ := h'.inside ht₂
    exact ⟨ht₃, he₃.trans he₂⟩
  own p hp := h'.own p (h.own p hp)

def puppetContract (calls : Nat → PuppetCall) (u : UserId) : Contract PuppetWorld where
  inv := TokenInv calls u
  rely := TokenRely calls u
  refl _ w := TokenRely.refl w
  trans h h' := h.trans h'

/-- The two worlds are the same as far as the token of `u` goes. -/
structure SameToken (calls : Nat → PuppetCall) (u : UserId) (w w' : PuppetWorld) : Prop where
  tokens : w'.tokens.lookup u = w.tokens.lookup u
  running : w'.running.lookup u = w.running.lookup u
  holders : holders calls u w'.trace = holders calls u w.trace
  issued : issued u w'.trace = issued u w.trace
  before : ∀ i p', w'.Puppet u i p' → ∃ p, w.Puppet u i p ∧ p'.token = p.token ∧
    (p'.phase = .leaving → p.phase = .leaving)
  after : ∀ i p, w.Puppet u i p → ∃ p', w'.Puppet u i p'

theorem SameToken.inv {w w' : PuppetWorld} (h : SameToken calls u w w') (hi : TokenInv calls u w) :
    TokenInv calls u w' where
  covered i p' hp' := by
    obtain ⟨p, hp, -⟩ := h.before i p' hp'
    rw [h.running]
    exact hi.covered i p hp
  found hr := by
    rw [h.running] at hr
    obtain ⟨i, p, hp⟩ := hi.found hr
    exact ⟨i, h.after i p hp⟩
  one i j p p' hp hp' := by
    obtain ⟨p₁, hp₁, -⟩ := h.before i p hp
    obtain ⟨p₂, hp₂, -⟩ := h.before j p' hp'
    exact hi.one i j p₁ p₂ hp₁ hp₂
  uses i p' hp' := by
    obtain ⟨p, hp, he, -⟩ := h.before i p' hp'
    rw [h.tokens, he]
    exact hi.uses i p hp
  stored := by
    rw [h.issued, h.tokens]
    exact hi.stored
  live k hk i p' hp' hl := by
    obtain ⟨p, hp, -, hleaving⟩ := h.before i p' hp'
    exact hi.live k (h.issued ▸ hk) i p hp (hleaving hl)
  begun := by
    rw [h.issued, h.running, h.holders]
    exact hi.begun
  early := by
    rw [h.issued, h.holders]
    exact hi.early
  setter := by
    rw [h.issued]
    exact hi.setter

theorem SameToken.rely {w w' : PuppetWorld} (h : SameToken calls u w w') {i : Nat}
    (hown : ∀ p, w.puppets.lookup i = some p → w'.puppets.lookup i = some p) :
    TokenRely calls u i w w' where
  outside hout := h.holders ▸ hout
  inside hin := ⟨h.holders ▸ hin, h.tokens⟩
  own := hown

abbrev PuppetStep (calls : Nat → PuppetCall) (u : UserId) (t : Nat) (P : PuppetWorld → Prop)
    (c : PuppetCmd) (R : c.Ans → PuppetWorld → Prop) : Prop :=
  Step (puppetSystem calls) (handover calls u) (puppetContract calls u) t P (.mk c) R

abbrev PuppetTriple (calls : Nat → PuppetCall) (u : UserId) (t : Nat) (P : PuppetWorld → Prop)
    (p : Prog PuppetOp α) (Q : α → PuppetWorld → Prop) : Prop :=
  Triple (puppetSystem calls) (handover calls u) (puppetContract calls u) t P p Q

/-- Task `t` has the token of `v` in hand, and the store has it too. -/
def HasToken (calls : Nat → PuppetCall) (u : UserId) (t : Nat) (v : UserId) (token : String)
    (w : PuppetWorld) : Prop :=
  v = u → t ∈ holders calls u w.trace ∧ w.tokens.lookup u = some token

def Released (calls : Nat → PuppetCall) (u : UserId) (t : Nat) (v : UserId)
    (w : PuppetWorld) : Prop :=
  v = u → t ∉ holders calls u w.trace

def Runs (t : Nat) (p : AutoAccept) (w : PuppetWorld) : Prop := w.puppets.lookup t = some p

theorem HasToken.stable {v : UserId} {token : String} :
    Stable (puppetContract calls u) t (HasToken calls u t v token) := by
  intro w w' h hr _ hv
  obtain ⟨hin, htoken⟩ := h hv
  obtain ⟨hin', hsame⟩ := TokenRely.inside hr hin
  exact ⟨hin', hsame.trans htoken⟩

theorem Released.stable {v : UserId} : Stable (puppetContract calls u) t (Released calls u t v) :=
  fun _ _ h hr _ hv => TokenRely.outside hr (h hv)

theorem Runs.stable {p : AutoAccept} : Stable (puppetContract calls u) t (Runs t p) :=
  fun _ _ h hr _ => TokenRely.own hr p h

/-- The commands that leave the token of `u` alone. -/
def PuppetCmd.calm (calls : Nat → PuppetCall) (u : UserId) (t : Nat) : PuppetCmd → Bool
  | getToken v => v != u || calls t != .resume
  | notify _ text => text != doneText
  | c => !c.onPuppets

theorem calm_puppet_keeps {c : PuppetCmd} {P : PuppetWorld → Prop} (hc : c.calm calls u t)
    (hP : ∀ w l, P w → P { w with trace := l }) :
    Keeps (puppetSystem calls) (handover calls u) (puppetContract calls u) t P c.Ans (.mk c) := by
  intro w a b w' hw hi _ hexec
  have h : puppetExec calls t (.mk c) a w = some (b, w') := hexec
  have hapart : c.onPuppets = false := by
    cases c with
    | getToken => rfl
    | notify => rfl
    | _ => simpa [PuppetCmd.calm] using hc
  obtain rfl := puppetExec_apart hapart h
  have hholders : holders calls u (⟨t, c, a⟩ :: w.trace) = holders calls u w.trace := by
    cases c with
    | getToken v =>
      have hno : PuppetRecord.takes calls u ⟨t, .getToken v, a⟩ = false := by
        cases a with
        | token tok =>
          simpa [PuppetCmd.calm, PuppetRecord.takes, Classical.or_iff_not_imp_left] using hc
        | _ => rfl
      simp [holders, hno]
    | setToken => cases hapart
    | ensureRunning => cases hapart
    | _ => rfl
  have hissued : issued u (⟨t, c, a⟩ :: w.trace) = issued u w.trace := by
    cases c with
    | notify room text =>
      have hno : text ≠ doneText := by simpa [PuppetCmd.calm] using hc
      simp [issued, hno]
    | setToken => cases hapart
    | sync => cases hapart
    | _ => rfl
  have hsame : SameToken calls u w { w with trace := ⟨t, c, a⟩ :: w.trace } :=
    ⟨rfl, rfl, hholders, hissued, fun i p hp => ⟨p, hp, rfl, id⟩, fun i p hp => ⟨p, hp⟩⟩
  exact ⟨hsame.inv hi, fun i _ => hsame.rely fun _ hp => hp, hP w _ hw⟩

variable (calls) in
theorem trace_unstored {v : UserId} {token : String} {a : PuppetAnswer} {l : List PuppetRecord}
    (h : PuppetRecord.stores u ⟨t, .setToken v token, a⟩ = none) :
    holders calls u (⟨t, .setToken v token, a⟩ :: l) = holders calls u l ∧
      issued u (⟨t, .setToken v token, a⟩ :: l) = issued u l := by
  have hno : PuppetRecord.takes calls u ⟨t, .setToken v token, a⟩ = false := by
    cases a with
    | _ => simpa [PuppetRecord.takes] using h
  exact ⟨by simp [holders, hno], by simp [issued, h]⟩

theorem set_step {v : UserId} {token : String} (hs : (calls t).sets v = true) :
    PuppetStep calls u t (fun _ => True) (.setToken v token) fun b w =>
      (b = .ok () ∨ (calls t).provisions = true) → HasToken calls u t v token w := by
  intro w a b w' hi _ hd hexec
  have h : puppetExec calls t (.mk (.setToken v token)) a w = some (b, w') := hexec
  by_cases hstores : PuppetRecord.stores u ⟨t, .setToken v token, a⟩ = none
  · obtain ⟨hholders, hissued⟩ := trace_unstored calls (l := w.trace) hstores
    have hvu : v = u → ∃ e, a = .failed e ∧ b = .error e := by
      rintro rfl
      rcases puppetExec_setToken h with ⟨rfl, -, -⟩ | ⟨e, ha, hb, -⟩
      · simp [PuppetRecord.stores] at hstores
      · exact ⟨e, ha, hb⟩
    have htoken : w'.tokens.lookup u = w.tokens.lookup u := by
      rcases puppetExec_setToken h with ⟨rfl, -, rfl⟩ | ⟨e, -, -, rfl⟩
      · have hv : u ≠ v := fun he => by simp [PuppetRecord.stores, he] at hstores
        exact AList.lookup_insert_ne hv
      · rfl
    have hrest : w'.running = w.running ∧ w'.puppets = w.puppets ∧
        w'.trace = ⟨t, .setToken v token, a⟩ :: w.trace := by
      rcases puppetExec_setToken h with ⟨-, -, rfl⟩ | ⟨e, -, -, rfl⟩
      · exact ⟨rfl, rfl, rfl⟩
      · exact ⟨rfl, rfl, rfl⟩
    obtain ⟨hrunning, hpuppets, htrace⟩ := hrest
    have hsame : SameToken calls u w w' :=
      ⟨htoken, by rw [hrunning], htrace ▸ hholders, htrace ▸ hissued,
        fun i p hp => ⟨p, ⟨hpuppets ▸ hp.1, hp.2⟩, rfl, id⟩, fun i p hp =>
          ⟨p, hpuppets ▸ hp.1, hp.2⟩⟩
    refine ⟨hsame.inv hi, fun i _ => hsame.rely fun p hp => hpuppets ▸ hp, fun hgoes hv => ?_⟩
    obtain ⟨e, rfl, rfl⟩ := hvu hv
    rcases hgoes with hok | hprovisions
    · cases hok
    · have hnot := hd.2 (by simp [PuppetRecord.unstored, PuppetOp.cmd, hv])
      rw [hprovisions] at hnot
      cases hnot
  · obtain ⟨ha, hv⟩ : a = .done ∧ v = u := by
      rcases puppetExec_setToken h with ⟨ha, -, -⟩ | ⟨e, rfl, -, -⟩
      · refine ⟨ha, ?_⟩
        apply Classical.byContradiction
        intro hne
        exact hstores (by simp [ha, PuppetRecord.stores, hne])
      · exact absurd rfl hstores
    subst ha hv
    obtain ⟨hnone, hsteady⟩ := hd.1 token (by simp [PuppetRecord.stores, PuppetOp.cmd])
    rw [steady_iff] at hsteady
    rcases puppetExec_setToken h with ⟨-, -, rfl⟩ | ⟨e, he, -, -⟩
    case inr => cases he
    have hholders : holders calls v (⟨t, .setToken v token, .done⟩ :: w.trace) = [t] := by
      simp [holders, PuppetRecord.takes, PuppetRecord.stores, hnone]
    have hissued :
        issued v (⟨t, .setToken v token, .done⟩ :: w.trace) = some ⟨t, token, false⟩ := by
      simp [issued, PuppetRecord.stores]
    have htoken : (w.tokens.insert v token).lookup v = some token := AList.lookup_insert _
    refine ⟨⟨hi.covered, hi.found, hi.one, fun i p hp => ?_, fun k hk => ?_, fun k _ i p hp => ?_,
      fun k hk => ?_, fun k hk hr => ?_, fun k hk => ?_⟩, fun i hit => ⟨fun _ => ?_, fun hin => ?_,
      fun p hp => hp⟩, fun _ _ => ⟨by simp [hholders], htoken⟩⟩
    · exact htoken.trans (congrArg some (hsteady i p hp).1.symm)
    · obtain rfl := Option.some.inj (hissued.symm.trans hk)
      exact htoken
    · exact (hsteady i p hp).2
    · obtain rfl := Option.some.inj (hissued.symm.trans hk)
      exact .inr (by simp [hholders])
    · obtain rfl := Option.some.inj (hissued.symm.trans hk)
      cases hr
    · obtain rfl := Option.some.inj (hissued.symm.trans hk)
      exact hs
    · rw [hholders]
      simpa using hit
    · rw [hnone] at hin
      cases hin

theorem get_step {v : UserId} (hcall : calls t = .resume) :
    PuppetStep calls u t (fun _ => True) (.getToken v) fun b w =>
      ∀ token, b = some (some token) → HasToken calls u t v token w := by
  intro w a b w' hi _ _ hexec
  have h : puppetExec calls t (.mk (.getToken v)) a w = some (b, w') := hexec
  obtain ⟨rfl, hread⟩ := puppetExec_getToken h
  have hissued : issued u (⟨t, .getToken v, a⟩ :: w.trace) = issued u w.trace := rfl
  have hnot : ∀ k, issued u w.trace = some k → k.task ≠ t := by
    intro k hk he
    have hsets := hi.setter k hk
    rw [he, hcall] at hsets
    cases hsets
  have hholders : ∀ i, i ≠ t →
      (i ∈ holders calls u (⟨t, .getToken v, a⟩ :: w.trace) ↔ i ∈ holders calls u w.trace) := by
    intro i hit
    simp only [holders]
    split
    · simp [hit]
    · exact Iff.rfl
  refine ⟨⟨hi.covered, hi.found, hi.one, hi.uses, hi.stored, hi.live, fun k hk => ?_,
    fun k hk hr => ?_,
    hi.setter⟩, fun i hit => ⟨fun hout hin => hout ((hholders i hit).mp hin), fun hin =>
    ⟨(hholders i hit).mpr hin, rfl⟩, fun p hp => hp⟩, fun token hb hv => ?_⟩
  · exact (hi.begun k hk).imp id (hholders k.task (hnot k hk)).mpr
  · exact fun hin => hi.early k hk hr ((hholders k.task (hnot k hk)).mp hin)
  · obtain ⟨rfl, hlookup⟩ := (hread token).mp hb
    subst hv
    exact ⟨by simp [holders, PuppetRecord.takes, hcall], hlookup⟩

theorem mem_released {v : UserId} {token : String} {a : PuppetAnswer} {l : List PuppetRecord}
    {i : Nat} :
    i ∈ holders calls u (⟨t, .ensureRunning v token, a⟩ :: l) ↔
      i ∈ holders calls u l ∧ (v = u → i ≠ t) := by
  simp only [holders]
  split
  case isTrue hv => simp [hv]
  case isFalse hv => simp [hv]

theorem spawned_puppet {w : PuppetWorld} (hi : TokenInv calls u w) {v : UserId} {token : String}
    {j : Nat}
    (hnone : w.running.lookup v = none) (hfree : w.puppets.lookup j = none) {l : List PuppetRecord}
    {i : Nat} {p : AutoAccept} :
    PuppetWorld.Puppet { w with
      running := w.running.insert v ()
      puppets := w.puppets.insert j ⟨v, token, .spawned⟩
      trace := l } u i p ↔ v = u ∧ i = j ∧ p = ⟨v, token, .spawned⟩ ∨ v ≠ u ∧ w.Puppet u i p := by
  have hbefore : v = u → ¬ w.Puppet u i p := by
    rintro rfl hp
    have hsome := hi.covered i p hp
    rw [hnone] at hsome
    cases hsome
  by_cases hij : i = j
  · subst hij
    have hnot : ¬ w.Puppet u i p := fun hp => by
      have hl := hp.1
      rw [hfree] at hl
      cases hl
    simp only [PuppetWorld.Puppet, AList.lookup_insert] at hnot ⊢
    constructor
    · rintro ⟨hp, hu⟩
      obtain rfl := Option.some.inj hp
      exact .inl ⟨hu, trivial, rfl⟩
    · rintro (⟨hv, -, rfl⟩ | ⟨-, hp⟩)
      · exact ⟨rfl, hv⟩
      · exact absurd hp hnot
  · simp only [PuppetWorld.Puppet, AList.lookup_insert_ne hij] at hbefore ⊢
    constructor
    · intro hp
      exact .inr ⟨fun hv => hbefore hv hp, hp⟩
    · rintro (⟨-, he, -⟩ | ⟨-, hp⟩)
      · exact absurd he hij
      · exact hp

theorem ensure_step {v : UserId} {token : String} :
    PuppetStep calls u t (HasToken calls u t v token) (.ensureRunning v token) fun _ =>
      Released calls u t v := by
  intro w a b w' hi hw _ hexec
  have h : puppetExec calls t (.mk (.ensureRunning v token)) a w = some (b, w') := hexec
  have hissued : issued u (⟨t, .ensureRunning v token, a⟩ :: w.trace) = issued u w.trace := rfl
  have hreleased : v = u → t ∉ holders calls u (⟨t, .ensureRunning v token, a⟩ :: w.trace) :=
    fun hv hin => (mem_released.mp hin).2 hv rfl
  have hothers : ∀ i, i ≠ t → (i ∈ holders calls u (⟨t, .ensureRunning v token, a⟩ :: w.trace) ↔
      i ∈ holders calls u w.trace) := fun i hit => by
    rw [mem_released]
    exact ⟨And.left, fun hin => ⟨hin, fun _ => hit⟩⟩
  have hkept : v ≠ u → ∀ i, (i ∈ holders calls u (⟨t, .ensureRunning v token, a⟩ :: w.trace) ↔
      i ∈ holders calls u w.trace) := fun hv i => by
    rw [mem_released]
    exact ⟨And.left, fun hin => ⟨hin, fun he => absurd he hv⟩⟩
  have hearly : ∀ k, issued u w.trace = some k → k.reported →
      k.task ∉ holders calls u (⟨t, .ensureRunning v token, a⟩ :: w.trace) :=
    fun k hk hr hin => hi.early k hk hr (mem_released.mp hin).1
  rcases puppetExec_ensureRunning h with ⟨hrunning, rfl⟩ | ⟨j, hnone, hfree, rfl⟩
  · have hbegun : ∀ k, issued u w.trace = some k → (w.running.lookup u).isSome ∨
        k.task ∈ holders calls u (⟨t, .ensureRunning v token, a⟩ :: w.trace) := by
      intro k hk
      by_cases hv : v = u
      · exact .inl (hv ▸ hrunning)
      · exact (hi.begun k hk).imp id (hkept hv k.task).mpr
    exact ⟨⟨hi.covered, hi.found, hi.one, hi.uses, hi.stored, hi.live, hbegun, hearly, hi.setter⟩,
      fun i hit => ⟨fun hout hin => hout ((hothers i hit).mp hin), fun hin =>
        ⟨(hothers i hit).mpr hin, rfl⟩, fun _ hp => hp⟩, hreleased⟩
  · have hpuppet := @spawned_puppet calls u w hi v token j hnone hfree
      (⟨t, .ensureRunning v token, a⟩ :: w.trace)
    have hrunning : v ≠ u → (w.running.insert v ()).lookup u = w.running.lookup u :=
      fun hv => AList.lookup_insert_ne (Ne.symm hv)
    have hin : v = u → (w.running.insert v ()).lookup u = some () := by
      rintro rfl
      exact AList.lookup_insert _
    refine ⟨⟨fun i p hp => ?_, fun hr => ?_, fun i i' p p' hp hp' => ?_, fun i p hp => ?_,
      hi.stored,
      fun k hk i p hp => ?_, fun k hk => ?_, hearly, hi.setter⟩,
      fun i hit => ⟨fun hout hin => hout ((hothers i hit).mp hin), fun hin =>
        ⟨(hothers i hit).mpr hin, rfl⟩, fun p hp => ?_⟩, hreleased⟩
    · rcases hpuppet.mp hp with ⟨hv, -⟩ | ⟨hv, hp₁⟩
      · exact Option.isSome_iff_exists.mpr ⟨(), hin hv⟩
      · exact (hrunning hv).symm ▸ hi.covered i p hp₁
    · by_cases hv : v = u
      · exact ⟨j, _, hpuppet.mpr (.inl ⟨hv, rfl, rfl⟩)⟩
      · obtain ⟨i, p, hp⟩ := hi.found (hrunning hv ▸ hr)
        exact ⟨i, p, hpuppet.mpr (.inr ⟨hv, hp⟩)⟩
    · rcases hpuppet.mp hp with ⟨hv, rfl, -⟩ | ⟨hv, hp₁⟩
      · rcases hpuppet.mp hp' with ⟨-, rfl, -⟩ | ⟨hv', -⟩
        · rfl
        · exact absurd hv hv'
      · rcases hpuppet.mp hp' with ⟨hv', -⟩ | ⟨-, hp₂⟩
        · exact absurd hv' hv
        · exact hi.one i i' p p' hp₁ hp₂
    · rcases hpuppet.mp hp with ⟨hv, -, rfl⟩ | ⟨-, hp₁⟩
      · exact (hw hv).2
      · exact hi.uses i p hp₁
    · rcases hpuppet.mp hp with ⟨-, -, rfl⟩ | ⟨-, hp₁⟩
      · simp
      · exact hi.live k hk i p hp₁
    · by_cases hv : v = u
      · exact .inl (Option.isSome_iff_exists.mpr ⟨(), hin hv⟩)
      · exact (hi.begun k hk).imp (fun hr => (hrunning hv).symm ▸ hr) (hkept hv k.task).mpr
    · have hne : i ≠ j := by
        rintro rfl
        rw [hfree] at hp
        cases hp
      exact (AList.lookup_insert_ne hne).trans hp

theorem done_step {ctx : CommandContext} (hcall : calls t = .loginMatrix ctx) :
    PuppetStep calls u t (Released calls u t ctx.sender) (.notify ctx.room doneText) fun _ _ =>
      True := by
  intro w a b w' hi hw _ hexec
  have h : puppetExec calls t (.mk (.notify ctx.room doneText)) a w = some (b, w') := hexec
  obtain rfl := puppetExec_apart rfl h
  have hissued : issued u (⟨t, .notify ctx.room doneText, a⟩ :: w.trace) =
      (issued u w.trace).map fun k => if k.task = t then { k with reported := true } else k := by
    simp [issued]
  have hback : ∀ k', issued u (⟨t, .notify ctx.room doneText, a⟩ :: w.trace) = some k' →
      ∃ k, issued u w.trace = some k ∧ k'.task = k.task ∧ k'.token = k.token ∧
        (k'.reported → k.reported ∨ k.task = t) := by
    intro k' hk'
    rw [hissued] at hk'
    obtain ⟨k, hk, rfl⟩ := Option.map_eq_some_iff.mp hk'
    refine ⟨k, hk, ?_⟩
    split
    case isTrue he => exact ⟨rfl, rfl, fun _ => .inr he⟩
    case isFalse => exact ⟨rfl, rfl, fun hr => .inl hr⟩
  refine ⟨⟨hi.covered, hi.found, hi.one, hi.uses, fun k' hk' => ?_, fun k' hk' => ?_,
    fun k' hk' => ?_,
    fun k' hk' hr => ?_, fun k' hk' => ?_⟩, fun i _ =>
      ⟨id, fun hin => ⟨hin, rfl⟩, fun _ hp => hp⟩, trivial⟩
  · obtain ⟨k, hk, -, htoken, -⟩ := hback k' hk'
    rw [htoken]
    exact hi.stored k hk
  · obtain ⟨k, hk, -⟩ := hback k' hk'
    exact hi.live k hk
  · obtain ⟨k, hk, htask, -⟩ := hback k' hk'
    rw [htask]
    exact hi.begun k hk
  · obtain ⟨k, hk, htask, -, hreported⟩ := hback k' hk'
    rw [htask]
    rcases hreported hr with hr₀ | he
    · exact hi.early k hk hr₀
    · have hsets := hi.setter k hk
      rw [he, hcall] at hsets
      rw [he]
      exact hw (by simpa [PuppetCall.sets] using hsets)
  · obtain ⟨k, hk, htask, -⟩ := hback k' hk'
    rw [htask]
    exact hi.setter k hk

theorem puppet_moved {w : PuppetWorld} {v : UserId} {token : String} {phase phase' : PuppetPhase}
    (hl : w.puppets.lookup t = some ⟨v, token, phase⟩) {l : List PuppetRecord} {i : Nat}
    {p' : AutoAccept}
    (hp' : PuppetWorld.Puppet { w with
      puppets := w.puppets.insert t ⟨v, token, phase'⟩, trace := l } u i p') :
    i = t ∧ v = u ∧ p' = ⟨v, token, phase'⟩ ∨ i ≠ t ∧ w.Puppet u i p' := by
  by_cases hit : i = t
  · subst hit
    simp only [PuppetWorld.Puppet, AList.lookup_insert] at hp'
    obtain ⟨hp, hu⟩ := hp'
    obtain rfl := Option.some.inj hp
    exact .inl ⟨rfl, hu, rfl⟩
  · simp only [PuppetWorld.Puppet, AList.lookup_insert_ne hit] at hp'
    exact .inr ⟨hit, hp'⟩

theorem puppet_moves {w : PuppetWorld} {v : UserId} {token : String} {phase phase' : PuppetPhase}
    (hl : w.puppets.lookup t = some ⟨v, token, phase⟩) {l : List PuppetRecord} {i : Nat}
    {p : AutoAccept}
    (hp : w.Puppet u i p) : ∃ p', PuppetWorld.Puppet { w with
      puppets := w.puppets.insert t ⟨v, token, phase'⟩, trace := l } u i p' := by
  by_cases hit : i = t
  · subst hit
    obtain rfl := Option.some.inj (hl.symm.trans hp.1)
    exact ⟨_, AList.lookup_insert _, hp.2⟩
  · exact ⟨p, (AList.lookup_insert_ne hit).trans hp.1, hp.2⟩

theorem takeUp_step :
    PuppetStep calls u t (fun _ => True) .takeUp fun b => Runs t ⟨b.1, b.2.1, .accepting⟩ := by
  intro w a b w' hi _ _ hexec
  have h : puppetExec calls t (.mk .takeUp) a w = some (b, w') := hexec
  obtain ⟨hl, -, rfl⟩ := puppetExec_takeUp h
  have hsame : SameToken calls u w { w with
      puppets := w.puppets.insert t ⟨b.1, b.2.1, .accepting⟩
      trace := ⟨t, .takeUp, a⟩ :: w.trace } := by
    refine ⟨rfl, rfl, rfl, rfl, fun i p' hp' => ?_, fun i p hp => puppet_moves hl hp⟩
    rcases puppet_moved hl hp' with ⟨rfl, hv, rfl⟩ | ⟨-, hp⟩
    · exact ⟨_, ⟨hl, hv⟩, rfl, fun hp => by cases hp⟩
    · exact ⟨p', hp, rfl, id⟩
  exact ⟨hsame.inv hi, fun i hit => hsame.rely fun p hp => (AList.lookup_insert_ne hit).trans hp,
    AList.lookup_insert _⟩

theorem reject_step {w : PuppetWorld} {v : UserId} {token : String} {since : Option String}
    (hi : TokenInv calls u w) (hl : Runs t ⟨v, token, .accepting⟩ w) :
    TokenInv calls u { w with
      puppets := w.puppets.insert t ⟨v, token, .leaving⟩
      trace := ⟨t, .sync v token since, .reply .rejected⟩ :: w.trace } := by
  by_cases hv : v = u
  · subst hv
    have hnone : issued v (⟨t, .sync v token since, .reply .rejected⟩ :: w.trace) = none := by
      simp only [issued, if_true, Option.filter_eq_none_iff]
      intro k hk
      have htoken := (hi.stored k hk).symm.trans (hi.uses t _ ⟨hl, rfl⟩)
      simpa using htoken
    refine ⟨fun i p' hp' => ?_, fun hr => ?_, fun i j p p' hp hp' => ?_, fun i p' hp' => ?_,
      fun k hk => ?_, fun k hk => ?_, fun k hk => ?_, fun k hk => ?_, fun k hk => ?_⟩
    · rcases puppet_moved hl hp' with ⟨rfl, hv, -⟩ | ⟨-, hp⟩
      · exact hi.covered i _ ⟨hl, hv⟩
      · exact hi.covered i p' hp
    · obtain ⟨i, p, hp⟩ := hi.found hr
      exact ⟨i, puppet_moves hl hp⟩
    · have hold : ∀ i p, PuppetWorld.Puppet { w with
          puppets := w.puppets.insert t ⟨v, token, .leaving⟩
          trace := ⟨t, .sync v token since, .reply .rejected⟩ :: w.trace } v i p →
            ∃ p, w.Puppet v i p := by
        intro i p hp
        rcases puppet_moved hl hp with ⟨rfl, hv, -⟩ | ⟨-, hp⟩
        · exact ⟨⟨v, token, .accepting⟩, hl, hv⟩
        · exact ⟨p, hp⟩
      obtain ⟨p₁, hp₁⟩ := hold i p hp
      obtain ⟨p₂, hp₂⟩ := hold j p' hp'
      exact hi.one i j p₁ p₂ hp₁ hp₂
    · rcases puppet_moved hl hp' with ⟨rfl, hv, rfl⟩ | ⟨-, hp⟩
      · exact hi.uses i ⟨v, token, .accepting⟩ ⟨hl, hv⟩
      · exact hi.uses i p' hp
    all_goals
      rw [hnone] at hk
      cases hk
  · have hissued :
        issued u (⟨t, .sync v token since, .reply .rejected⟩ :: w.trace) = issued u w.trace := by
      simp [issued, hv]
    have hsame : SameToken calls u w { w with
        puppets := w.puppets.insert t ⟨v, token, .leaving⟩
        trace := ⟨t, .sync v token since, .reply .rejected⟩ :: w.trace } := by
      refine ⟨rfl, rfl, rfl, hissued, fun i p' hp' => ?_, fun i p hp => puppet_moves hl hp⟩
      rcases puppet_moved hl hp' with ⟨-, he, -⟩ | ⟨-, hp⟩
      · exact absurd he hv
      · exact ⟨p', hp, rfl, id⟩
    exact hsame.inv hi

theorem sync_step {v : UserId} {token : String} {since : Option String} :
    PuppetStep calls u t (Runs t ⟨v, token, .accepting⟩) (.sync v token since) fun b =>
      Runs t ⟨v, token, if b = .rejected then .leaving else .accepting⟩ := by
  intro w a b w' hi hw _ hexec
  have h : puppetExec calls t (.mk (.sync v token since)) a w = some (b, w') := hexec
  obtain ⟨rfl, hcase⟩ := puppetExec_sync h
  rcases hcase with ⟨rfl, rfl⟩ | ⟨hne, rfl⟩
  · exact ⟨reject_step hi hw, fun i hit => ⟨id, fun hin => ⟨hin, rfl⟩, fun p hp =>
      (AList.lookup_insert_ne hit).trans hp⟩, AList.lookup_insert _⟩
  · have hissued : issued u (⟨t, .sync v token since, .reply b⟩ :: w.trace) = issued u w.trace := by
      cases b with
      | rejected => exact absurd rfl hne
      | _ => rfl
    have hsame :
        SameToken calls u w { w with trace := ⟨t, .sync v token since, .reply b⟩ :: w.trace } :=
      ⟨rfl, rfl, rfl, hissued, fun i p hp => ⟨p, hp, rfl, id⟩, fun i p hp => ⟨p, hp⟩⟩
    refine ⟨hsame.inv hi, fun i _ => hsame.rely fun _ hp => hp, ?_⟩
    simp only [if_neg hne]
    exact hw

theorem removeRunning_step {v : UserId} {token : String} :
    PuppetStep calls u t (Runs t ⟨v, token, .leaving⟩) (.removeRunning v) fun _ _ => True := by
  intro w a b w' hi hw _ hexec
  have h : puppetExec calls t (.mk (.removeRunning v)) a w = some (b, w') := hexec
  rw [puppetExec_removeRunning h]
  have hbefore : ∀ i p, PuppetWorld.Puppet { w with
      running := w.running.erase v
      puppets := w.puppets.erase t
      trace := ⟨t, .removeRunning v, a⟩ :: w.trace } u i p → i ≠ t ∧ w.Puppet u i p := by
    intro i p hp
    have hl : (w.puppets.erase t).lookup i = some p := hp.1
    by_cases hit : i = t
    · subst hit
      simp at hl
    · rw [AList.lookup_erase_ne hit] at hl
      exact ⟨hit, hl, hp.2⟩
  have hrely : ∀ i, i ≠ t → TokenRely calls u i w { w with
      running := w.running.erase v
      puppets := w.puppets.erase t
      trace := ⟨t, .removeRunning v, a⟩ :: w.trace } := fun i hit =>
    ⟨id, fun hin => ⟨hin, rfl⟩, fun p hp => (AList.lookup_erase_ne hit).trans hp⟩
  by_cases hv : v = u
  · subst hv
    have hnone : issued v w.trace = none := by
      apply Classical.byContradiction
      intro hne
      obtain ⟨k, hk⟩ := Option.ne_none_iff_exists'.mp hne
      exact hi.live k hk t _ ⟨hw, rfl⟩ rfl
    have hgone : ∀ i p, ¬ PuppetWorld.Puppet { w with
        running := w.running.erase v
        puppets := w.puppets.erase t
        trace := ⟨t, .removeRunning v, a⟩ :: w.trace } v i p := by
      intro i p hp
      obtain ⟨hit, hold⟩ := hbefore i p hp
      exact hit (hi.one i t p _ hold ⟨hw, rfl⟩)
    have hissued : ∀ k, issued v (⟨t, .removeRunning v, a⟩ :: w.trace) ≠ some k := by
      intro k hk
      have hk₀ : issued v w.trace = some k := hk
      rw [hnone] at hk₀
      cases hk₀
    refine ⟨⟨fun i p hp => absurd hp (hgone i p), fun hr => ?_,
      fun i _ p _ hp => absurd hp (hgone i p),
      fun i p hp => absurd hp (hgone i p), fun k hk => absurd hk (hissued k),
      fun k hk => absurd hk (hissued k), fun k hk => absurd hk (hissued k),
      fun k hk => absurd hk (hissued k), fun k hk => absurd hk (hissued k)⟩, hrely, trivial⟩
    have hsome : ((w.running.erase v).lookup v).isSome := hr
    simp at hsome
  · have hafter : ∀ i p, w.Puppet u i p → i ≠ t := by
      rintro i p hp rfl
      obtain rfl := Option.some.inj (hw.symm.trans hp.1)
      exact hv hp.2
    have hsame : SameToken calls u w { w with
        running := w.running.erase v
        puppets := w.puppets.erase t
        trace := ⟨t, .removeRunning v, a⟩ :: w.trace } :=
      ⟨rfl, AList.lookup_erase_ne (Ne.symm hv), rfl, rfl,
        fun i p hp => ⟨p, (hbefore i p hp).2, rfl, id⟩,
        fun i p hp => ⟨p, (AList.lookup_erase_ne (hafter i p hp)).trans hp.1, hp.2⟩⟩
    exact ⟨hsame.inv hi, hrely, trivial⟩

theorem calm_triple {c : PuppetCmd} (hc : c.calm calls u t) :
    PuppetTriple calls u t (fun _ => True) (onPuppet c) fun _ _ => True :=
  .only (Stable.const True) (Prog.only_call.mpr (calm_puppet_keeps hc fun _ _ h => h))

theorem runs_triple {c : PuppetCmd} {p : AutoAccept} (hc : c.calm calls u t) :
    PuppetTriple calls u t (Runs t p) (onPuppet c) fun _ => Runs t p :=
  .only Runs.stable (Prog.only_call.mpr (calm_puppet_keeps hc fun _ _ h => h))

theorem puppetTask_triple : PuppetTriple calls u t (fun _ => True) puppetTask fun _ _ => True := by
  refine .bind (.call (Stable.const True) takeUp_step fun _ => Runs.stable) fun p => ?_
  refine .bind (R := fun _ => Runs t ⟨p.1, p.2.1, .leaving⟩) ?_ fun _ =>
    .call Runs.stable removeRunning_step fun _ => Stable.const True
  refine .loop (J := fun _ => Runs t ⟨p.1, p.2.1, .accepting⟩)
    (R := fun _ => Runs t ⟨p.1, p.2.1, .leaving⟩)
    (fun since => ?_) fun _ => .pure Runs.stable fun _ _ h => h
  refine .bind (.call Runs.stable sync_step fun _ => Runs.stable) fun reply => ?_
  cases reply with
  | rejected => exact .pure Runs.stable fun _ _ h => h
  | failed => exact .bind (runs_triple rfl) fun _ => .pure Runs.stable fun _ _ h => h
  | batch next invites =>
    refine .bind (runs_triple rfl) fun _ => ?_
    refine .bind (R := fun _ => Runs t ⟨p.1, p.2.1, .accepting⟩) ?_ fun _ =>
      .pure Runs.stable fun _ _ h => h
    refine .forEach Runs.stable (invites.getD []) fun invite _ => ?_
    by_cases hinvited : invitedBy invite.2 p.1 p.2.2
    · rw [if_pos hinvited]
      exact runs_triple rfl
    · rw [if_neg hinvited]
      exact .pure Runs.stable fun _ _ h => h

theorem ensure_triple {v : UserId} {token : String} :
    PuppetTriple calls u t (HasToken calls u t v token) (onPuppet (.ensureRunning v token)) fun _ =>
      Released calls u t v :=
  .call HasToken.stable ensure_step fun _ => Released.stable

theorem set_triple {v : UserId} {token : String} {x : Except String Unit → Prog PuppetOp Unit}
    (hs : (calls t).sets v = true)
    (hok : PuppetTriple calls u t (HasToken calls u t v token) (x (.ok ())) fun _ _ => True)
    (herror : ∀ e,
      PuppetTriple calls u t (fun w => (calls t).provisions = true → HasToken calls u t v token w)
      (x (.error e)) fun _ _ => True) :
    PuppetTriple calls u t (fun _ => True) (Prog.bind (onPuppet (.setToken v token)) x) fun _ _ =>
      True := by
  have hstable : Stable (puppetContract calls u) t fun w =>
      (calls t).provisions = true → HasToken calls u t v token w :=
    fun w w' h hr hi hp => HasToken.stable w w' (h hp) hr hi
  refine .bind (.call (Stable.const True) (set_step hs) fun b w w' h hr hi hgoes =>
    HasToken.stable w w' (h hgoes) hr hi) fun r => ?_
  cases r with
  | ok => exact hok.pre fun w _ h => h (.inl rfl)
  | error e => exact (herror e).pre fun w _ h hp => h (.inr hp)

theorem ne_doneText {s e : String} {c : Char} (hs : s.toList.head? = some c) (hc : c ≠ 'D') :
    s ++ e ≠ doneText := by
  intro h
  have hhead : (s.toList ++ e.toList).head? = some 'D' := by
    rw [← String.toList_append, h]
    decide
  rw [List.head?_append, hs] at hhead
  exact hc (Option.some.inj hhead)

theorem loginMatrix_triple {ctx : CommandContext} (hcall : calls t = .loginMatrix ctx) :
    PuppetTriple calls u t (fun _ => True) (loginMatrix ctx) fun _ _ => True := by
  have hget : ∀ v, (PuppetCmd.getToken v).calm calls u t := fun v => by simp [PuppetCmd.calm, hcall]
  have hsay : ∀ text, text ≠ doneText →
      PuppetTriple calls u t (fun _ => True) (onPuppet (.notify ctx.room text)) fun _ _ => True :=
    fun text hne => calm_triple (by simpa [PuppetCmd.calm] using hne)
  refine .bind (R := fun _ _ => True) ?_ fun _ => ?_
  · split
    · exact calm_triple rfl
    · exact .pure (Stable.const True) fun _ _ h => h
  cases htoken : tokenOf ctx.body with
  | none => exact hsay _ (by decide)
  | some token =>
    refine .bind (calm_triple rfl) fun id => ?_
    cases id with
    | error e => exact hsay _ (ne_doneText (c := 'T') (by decide) (by decide))
    | ok id =>
      dsimp only
      split
      case isFalse => exact hsay _ (by decide)
      case isTrue =>
        refine .bind (calm_triple rfl) fun found => ?_
        rcases found with _ | (_ | _)
        · exact .pure (Stable.const True) fun _ _ h => h
        · exact hsay _ (by decide)
        · refine set_triple (by simp [hcall, PuppetCall.sets]) ?_ fun e => ?_
          · exact .bind ensure_triple fun _ => .call Released.stable (done_step hcall) fun _ =>
              Stable.const True
          · exact (hsay _ (ne_doneText (c := 'F') (by decide) (by decide))).pre fun _ _ _ => trivial

theorem tryAutoDoublePuppet_triple {config : PuppetConfig} {v : UserId}
    (hcall : calls t = .autoPuppet config v) :
    PuppetTriple calls u t (fun _ => True) (tryAutoDoublePuppet config v) fun _ _ => True := by
  have hnone : PuppetTriple calls u t (fun _ => True) (.pure ()) fun _ _ => True :=
    .pure (Stable.const True) fun _ _ h => h
  unfold tryAutoDoublePuppet
  split
  case isFalse => exact hnone
  case isTrue =>
    refine .bind (calm_triple (by simp [PuppetCmd.calm, hcall])) fun stored => ?_
    split
    · exact hnone
    · refine .bind (calm_triple rfl) fun minted => ?_
      cases minted with
      | none => exact hnone
      | some token =>
        exact set_triple
          (by simp [hcall, PuppetCall.sets]) (.post ensure_triple fun _ _ _ _ => trivial)
          fun e => hnone.pre fun _ _ _ => trivial

theorem provisionPuppet_triple {v : UserId} {password : String}
    (hcall : calls t = .provision v password) :
    PuppetTriple calls u t (fun _ => True) (provisionPuppet v password) fun _ _ => True := by
  refine .bind (calm_triple rfl) fun token => ?_
  cases token with
  | none => exact .pure (Stable.const True) fun _ _ h => h
  | some token =>
    have hensure : PuppetTriple calls u t (HasToken calls u t v token)
        (onPuppet (.ensureRunning v token)) fun _ _ => True :=
          .post ensure_triple fun _ _ _ _ => trivial
    exact set_triple (by simp [hcall, PuppetCall.sets]) hensure fun e =>
      hensure.pre fun _ _ h => h (by rw [hcall]; rfl)

theorem resumePuppet_triple {v : UserId} (hcall : calls t = .resume) :
    PuppetTriple calls u t (fun _ => True) (resumePuppet v) fun _ _ => True := by
  have hnone : PuppetTriple calls u t (fun _ => True) (.pure ()) fun _ _ => True :=
    .pure (Stable.const True) fun _ _ h => h
  refine .bind (.call (Stable.const True) (get_step hcall) fun b w w' h hr hi token hb =>
    HasToken.stable w w' (h token hb) hr hi) fun stored => ?_
  match stored with
  | some (some token) =>
    exact (Triple.post ensure_triple fun _ _ _ _ => trivial).pre fun _ _ h => h token rfl
  | some none => exact hnone.pre fun _ _ _ => trivial
  | none => exact hnone.pre fun _ _ _ => trivial

theorem puppet_program (t : Nat) :
    PuppetTriple calls u t (fun _ => True) (calls t).program fun _ _ => True := by
  cases hcall : calls t with
  | loginMatrix ctx => exact loginMatrix_triple hcall
  | autoPuppet config v => exact tryAutoDoublePuppet_triple hcall
  | provision v password => exact provisionPuppet_triple hcall
  | resume =>
    refine .bind (calm_triple rfl) fun users => ?_
    cases users with
    | none => exact .pure (Stable.const True) fun _ _ h => h
    | some users => exact .forEach (Stable.const True) users fun v _ => resumePuppet_triple hcall
  | puppet => exact puppetTask_triple

theorem puppet_upholds (calls : Nat → PuppetCall) (u : UserId) :
    Upholds (puppetSystem calls) (handover calls u) (puppetContract calls u) where
  start t w hi _ _ := puppet_program t w hi trivial
  env e := e.elim
  cancel t w hi hd := by
    have hnone : w.puppets.lookup t = none := hd
    have hsame : { w with puppets := w.puppets.erase t } = w := by
      rw [Table.erase_of_lookup_none hnone]
    have hdrop : (puppetSystem calls).drop t w = w := hsame
    rw [hdrop]
    exact ⟨hi, fun i _ => TokenRely.refl w, trivial⟩

/-- A process in which no loop has been started. Tokens may be in its store. -/
structure PuppetWorld.Fresh (w : PuppetWorld) : Prop where
  running : w.running = ∅
  puppets : w.puppets = ∅
  trace : w.trace = []

theorem PuppetWorld.Fresh.tokenInv {w : PuppetWorld} (h : w.Fresh) : TokenInv calls u w where
  covered i p hp := by simp [PuppetWorld.Puppet, h.puppets] at hp
  found hr := by simp [h.running] at hr
  one i j p p' hp := by simp [PuppetWorld.Puppet, h.puppets] at hp
  uses i p hp := by simp [PuppetWorld.Puppet, h.puppets] at hp
  stored k hk := by simp [h.trace, issued] at hk
  live k hk := by simp [h.trace, issued] at hk
  begun k hk := by simp [h.trace, issued] at hk
  early k hk := by simp [h.trace, issued] at hk
  setter k hk := by simp [h.trace, issued] at hk

/-- The loops of `u` that are at work use the token in the store, and the token that a
`login-matrix` has stored and reported has a loop, as long as it is valid and no other was
stored. -/
structure PuppetCurrent (u : UserId) (w : PuppetWorld) : Prop where
  uses : ∀ i p, w.Puppet u i p → p.phase = .accepting → w.tokens.lookup u = some p.token
  promised : ∀ k, issued u w.trace = some k → k.reported →
    ∃ i p, w.Puppet u i p ∧ p.token = k.token ∧ p.phase ≠ .leaving

theorem TokenInv.current {w : PuppetWorld} (hi : TokenInv calls u w) : PuppetCurrent u w where
  uses i p hp _ := hi.uses i p hp
  promised k hk hr := by
    have hrunning : (w.running.lookup u).isSome := by
      rcases hi.begun k hk with hsome | hin
      · exact hsome
      · exact absurd hin (hi.early k hk hr)
    obtain ⟨i, p, hp⟩ := hi.found hrunning
    have htoken : some p.token = some k.token := (hi.uses i p hp).symm.trans (hi.stored k hk)
    exact ⟨i, p, hp, Option.some.inj htoken, hi.live k hk i p hp⟩

/-- The puppets of `u` are current in every run in which a token of `u` is stored only while
nothing goes on with another one. -/
theorem current_while_handover {w : PuppetWorld} (hw : w.Fresh)
    {es : List (Event PuppetAnswer Empty)} {q : Pool PuppetOp PuppetWorld}
    (hrun : (puppetSystem calls).run es (Pool.boot w) = some q)
    (hD : (puppetSystem calls).Admits (handover calls u).meets es (Pool.boot w)) :
    PuppetCurrent u q.world :=
  ((puppet_upholds calls u).inv_of_run hw.tokenInv (fun _ => trivial) hrun hD).current

/-- A user who hands in one token and then another, and the loops. -/
def twoTokens : Nat → PuppetCall
  | 0 => .loginMatrix { sender := "@a:localhost", body := "login-matrix old" }
  | 1 => .loginMatrix { sender := "@a:localhost", body := "login-matrix new" }
  | _ => .puppet

/-- A `login-matrix` whose token is found valid; the runtime would run its loop as task `i`. -/
def handsIn (t i : Nat) : List (Event PuppetAnswer Empty) :=
  [.start t, .step t (.user "@a:localhost"), .step t (.found true), .step t .done,
    .step t (.spawns i), .step t .done]

/-- The old token is rejected and its loop is gone when the new one is handed in. -/
def rejectedRun : List (Event PuppetAnswer Empty) :=
  handsIn 0 2 ++
    ([.start 2, .step 2 .done, .tau 2, .step 2 (.reply .rejected),
      .step 2 .done] : List (Event PuppetAnswer Empty)) ++ handsIn 1 3 ++
    ([.start 3, .step 3 .done] : List (Event PuppetAnswer Empty))

theorem current_while_handover_rejected : ∃ q,
    (puppetSystem twoTokens).run rejectedRun (Pool.boot {}) = some q ∧
      q.world.tokens.lookup "@a:localhost" = some "new" ∧ PuppetCurrent "@a:localhost" q.world := by
  have hends : ((puppetSystem twoTokens).run rejectedRun (Pool.boot {})).map
      (fun q => q.world.tokens.lookup "@a:localhost") = some (some "new") ∧
      (puppetSystem twoTokens).Admits (handover twoTokens "@a:localhost").meets rejectedRun
        (Pool.boot {}) := by
    decide +kernel
  obtain ⟨q, hq, htoken⟩ := Option.map_eq_some_iff.mp hends.1
  exact ⟨q, hq, htoken, current_while_handover ⟨rfl, rfl, rfl⟩ hq hends.2⟩

/-- The new token is handed in while the loop of the old one runs. -/
def replacedRun : List (Event PuppetAnswer Empty) :=
  handsIn 0 2 ++ ([.start 2, .step 2 .done] : List (Event PuppetAnswer Empty)) ++ handsIn 1 3

/-- The loop goes on with the old token. -/
theorem old_token_used : ∃ q,
    (puppetSystem twoTokens).run replacedRun (Pool.boot {}) = some q ∧
      ¬ PuppetCurrent "@a:localhost" q.world := by
  have hends : ((puppetSystem twoTokens).run replacedRun (Pool.boot {})).map (fun q =>
      (q.world.puppets.lookup 2, q.world.tokens.lookup "@a:localhost")) =
      some (some ⟨"@a:localhost", "old", .accepting⟩, some "new") := by
    decide +kernel
  obtain ⟨q, hq, hstate⟩ := Option.map_eq_some_iff.mp hends
  obtain ⟨hpuppet, htoken⟩ := Prod.mk.inj hstate
  refine ⟨q, hq, fun hcurrent => ?_⟩
  have huses := hcurrent.uses 2 _ ⟨hpuppet, rfl⟩ rfl
  rw [htoken] at huses
  exact absurd (Option.some.inj huses) (by decide)

end JmapBridge
