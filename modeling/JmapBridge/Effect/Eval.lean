import JmapBridge.Effect.Rely

/-! Executions of one program to its end, with nobody else at work. Every such execution
is a run of the pool. -/

namespace Effect

open Prog

universe u

variable {Op : Type → Type u} {W C E : Type} {S : System Op W C E} {D : Discipline Op W C E}
  {t : Nat} {α β γ σ ε : Type}

/-- The program may return the value and leave the second world. -/
inductive Eval (S : System Op W C E) (D : Discipline Op W C E) (t : Nat) :
    {α : Type} → Prog Op α → W → α → W → Prop where
  | pure {α : Type} {a : α} {w : W} : Eval S D t (.pure a) w a w
  | op {α β : Type} {o : Op β} {k : β → Prog Op α} {w w₁ w₂ : W} {c : C} {b : β} {a : α} :
    D.step t o c w → S.exec t o c w = some (b, w₁) → Eval S D t (k b) w₁ a w₂ →
      Eval S D t (.op o k) w a w₂
  | again {α β σ : Type} {body : σ → Prog Op (σ ⊕ β)} {s s' : σ} {k : β → Prog Op α}
    {w w₁ w₂ : W} {a : α} :
    Eval S D t (body s) w (.inl s') w₁ → Eval S D t (.loop body s' k) w₁ a w₂ →
      Eval S D t (.loop body s k) w a w₂
  | done {α β σ : Type} {body : σ → Prog Op (σ ⊕ β)} {s : σ} {b : β} {k : β → Prog Op α}
    {w w₁ w₂ : W} {a : α} :
    Eval S D t (body s) w (.inr b) w₁ → Eval S D t (k b) w₁ a w₂ →
      Eval S D t (.loop body s k) w a w₂

/-- What follows one turn of a loop. -/
def Prog.afterTurn (body : σ → Prog Op (σ ⊕ β)) (k : β → Prog Op α) : σ ⊕ β → Prog Op α
  | .inl s => .loop body s k
  | .inr b => k b

theorem Prog.turn_eq (body : σ → Prog Op (σ ⊕ β)) (k : β → Prog Op α) (s : σ) :
    turn body k s = (body s).bind (afterTurn body k) := by
  unfold turn afterTurn
  congr

namespace Eval

variable {w w' : W}

theorem pure_iff {a b : α} : Eval S D t (.pure a) w b w' ↔ b = a ∧ w' = w := by
  refine ⟨fun h => ?_, ?_⟩
  · cases h
    exact ⟨rfl, rfl⟩
  · rintro ⟨rfl, rfl⟩
    exact .pure

theorem op_iff {o : Op β} {k : β → Prog Op α} {a : α} : Eval S D t (.op o k) w a w' ↔
    ∃ c b w₁, D.step t o c w ∧ S.exec t o c w = some (b, w₁) ∧ Eval S D t (k b) w₁ a w' := by
  refine ⟨fun h => ?_, ?_⟩
  · cases h with
    | op hc he hk => exact ⟨_, _, _, hc, he, hk⟩
  · rintro ⟨c, b, w₁, hc, he, hk⟩
    exact .op hc he hk

theorem call_iff {o : Op β} {b : β} : Eval S D t (call o) w b w' ↔
    ∃ c, D.step t o c w ∧ S.exec t o c w = some (b, w') := by
  rw [call, op_iff]
  refine ⟨?_, ?_⟩
  · rintro ⟨c, b', w₁, hc, he, hk⟩
    obtain ⟨rfl, rfl⟩ := pure_iff.mp hk
    exact ⟨c, hc, he⟩
  · rintro ⟨c, hc, he⟩
    exact ⟨c, b, w', hc, he, .pure⟩

theorem bind {p : Prog Op α} {f : α → Prog Op γ} {w w₁ w₂ : W} {a : α} {g : γ}
    (hp : Eval S D t p w a w₁) (hf : Eval S D t (f a) w₁ g w₂) :
    Eval S D t (p.bind f) w g w₂ := by
  induction hp with
  | pure => exact hf
  | op hc he _ ih => exact .op hc he (ih hf)
  | again hb _ _ ih => exact .again hb (ih hf)
  | done hb _ _ ih => exact .done hb (ih hf)

theorem loop_split {body : σ → Prog Op (σ ⊕ β)} {s : σ} {k : β → Prog Op α} {a : α}
    (h : Eval S D t (.loop body s k) w a w') :
    ∃ b w₁, Eval S D t (.loop body s .pure) w b w₁ ∧ Eval S D t (k b) w₁ a w' := by
  generalize hp : Prog.loop body s k = p at h
  induction h generalizing s with
  | pure => cases hp
  | op => cases hp
  | again hb _ _ ih =>
    cases hp
    obtain ⟨b, w₁, hl, hk⟩ := ih rfl
    exact ⟨b, w₁, .again hb hl, hk⟩
  | done hb hk _ _ =>
    cases hp
    exact ⟨_, _, .done hb .pure, hk⟩

theorem bind_split {p : Prog Op α} {f : α → Prog Op γ} {g : γ}
    (h : Eval S D t (p.bind f) w g w') :
    ∃ a w₁, Eval S D t p w a w₁ ∧ Eval S D t (f a) w₁ g w' := by
  induction p generalizing w with
  | pure a => exact ⟨a, w, .pure, h⟩
  | op o k ih =>
    obtain ⟨c, b, w₁, hc, he, hk⟩ := op_iff.mp h
    obtain ⟨a, w₂, hp, hf⟩ := ih b hk
    exact ⟨a, w₂, .op hc he hp, hf⟩
  | loop body s k _ ih =>
    obtain ⟨b, w₁, hl, hk⟩ := loop_split h
    obtain ⟨a, w₂, hp, hf⟩ := ih b hk
    exact ⟨a, w₂, bind hl hp, hf⟩

theorem bind_iff {p : Prog Op α} {f : α → Prog Op γ} {g : γ} :
    Eval S D t (p.bind f) w g w' ↔
      ∃ a w₁, Eval S D t p w a w₁ ∧ Eval S D t (f a) w₁ g w' :=
  ⟨bind_split, fun ⟨_, _, hp, hf⟩ => hp.bind hf⟩

theorem loop_induct {body : σ → Prog Op (σ ⊕ β)} {s : σ} {k : β → Prog Op α} {a : α}
    {J : σ → W → Prop} {R : β → W → Prop}
    (hbody : ∀ s w r w', J s w → Eval S D t (body s) w r w' → Sum.elim J R r w')
    (h : Eval S D t (.loop body s k) w a w') (hJ : J s w) :
    ∃ b w₁, R b w₁ ∧ Eval S D t (k b) w₁ a w' := by
  generalize hp : Prog.loop body s k = p at h
  induction h generalizing s with
  | pure => cases hp
  | op => cases hp
  | again hb _ _ ih =>
    cases hp
    exact ih (hbody _ _ _ _ hJ hb) rfl
  | done hb hk _ _ =>
    cases hp
    exact ⟨_, _, hbody _ _ _ _ hJ hb, hk⟩

theorem only {P : W → Prop} {φ : ∀ β : Type, Op β → Prop}
    (hφ : ∀ (β : Type) (o : Op β) (c : C) w b w', φ β o → D.step t o c w →
      S.exec t o c w = some (b, w') → P w → P w')
    {p : Prog Op α} {a : α} (h : Eval S D t p w a w') (hp : p.Only φ) (hw : P w) : P w' := by
  induction h with
  | pure => exact hw
  | op hc he _ ih => exact ih (hp.2 _) (hφ _ _ _ _ _ _ hp.1 hc he hw)
  | again _ _ ihb ih => exact ih hp (ihb (hp.1 _) hw)
  | done _ _ ihb ih => exact ih (hp.2 _) (ihb (hp.1 _) hw)

theorem forEach_induct {f : β → Prog Op Unit} {J : List β → W → Prop} {xs : List β}
    (hf : ∀ x xs w w', J (x :: xs) w → Eval S D t (f x) w () w' → J xs w')
    (h : Eval S D t (Prog.forEach f xs) w () w') (hJ : J xs w) : J [] w' := by
  induction xs generalizing w with
  | nil =>
    obtain ⟨-, rfl⟩ := pure_iff.mp h
    exact hJ
  | cons x xs ih =>
    obtain ⟨⟨⟩, w₁, hx, hrest⟩ := bind_iff.mp h
    exact ih hrest (hf x xs _ _ hJ hx)

/-- An execution is a run in which only its task takes steps. -/
theorem run {p : Prog Op α} {a : α} (h : Eval S D t p w a w') {f : α → Prog Op Unit}
    {q : Pool Op W} (hq : q.world = w) (ht : q.tasks t = some (p.bind f)) :
    ∃ es q', S.run es q = some q' ∧ q'.world = w' ∧ q'.tasks t = some (f a) ∧
      ∀ i, i ≠ t → q'.tasks i = q.tasks i := by
  induction h generalizing q with
  | pure => exact ⟨[], q, rfl, hq, ht, fun _ _ => rfl⟩
  | @op α β o k w w₁ w₂ c b a _ he _ ih =>
    have hnext : S.next (.step t c) q = some (q.put t (some ((k b).bind f)) w₁) := by
      simp [System.next, ht, hq, he]
    obtain ⟨es, q', hrun, hworld, htask, hothers⟩ := 
      ih (q := q.put t (some ((k b).bind f)) w₁) rfl (Pool.put_tasks_self ..)
    refine ⟨.step t c :: es, q', by simp [System.run, hnext, hrun], hworld, htask, fun i hit => ?_⟩
    rw [hothers i hit, Pool.put_tasks_ne q hit]
  | @again α β σ body s s' k w w₁ w₂ a _ _ ihb ih =>
    have hnext : S.next (.tau t) q =
        some (q.put t (some ((body s).bind (afterTurn body fun b => (k b).bind f))) w) := by
      simp [System.next, ht, hq, Prog.turn_eq]
    obtain ⟨es, q₁, hrun, hworld, htask, hothers⟩ :=
      ihb (q := q.put t (some ((body s).bind (afterTurn body fun b => (k b).bind f))) w) rfl
        (Pool.put_tasks_self ..)
    obtain ⟨es', q', hrun', hworld', htask', hothers'⟩ := ih hworld htask
    refine ⟨.tau t :: (es ++ es'), q', ?_, hworld', htask', fun i hit => ?_⟩
    · simp [System.run, hnext, System.run_append, hrun, hrun']
    · rw [hothers' i hit, hothers i hit, Pool.put_tasks_ne q hit]
  | @done α β σ body s b k w w₁ w₂ a _ _ ihb ih =>
    have hnext : S.next (.tau t) q =
        some (q.put t (some ((body s).bind (afterTurn body fun b => (k b).bind f))) w) := by
      simp [System.next, ht, hq, Prog.turn_eq]
    obtain ⟨es, q₁, hrun, hworld, htask, hothers⟩ :=
      ihb (q := q.put t (some ((body s).bind (afterTurn body fun b => (k b).bind f))) w) rfl
        (Pool.put_tasks_self ..)
    obtain ⟨es', q', hrun', hworld', htask', hothers'⟩ := ih hworld htask
    refine ⟨.tau t :: (es ++ es'), q', ?_, hworld', htask', fun i hit => ?_⟩
    · simp [System.run, hnext, System.run_append, hrun, hrun']
    · rw [hothers' i hit, hothers i hit, Pool.put_tasks_ne q hit]

end Eval

/-! Executions of fallible programs. -/

namespace Eval

variable {w w' : W}

theorem andThen_iff {x : Act Op ε α} {f : α → Act Op ε γ} {r : Except ε γ} :
    Eval S D t (x.andThen f) w r w' ↔
      (∃ a w₁, Eval S D t x w (.ok a) w₁ ∧ Eval S D t (f a) w₁ r w') ∨
        ∃ e, Eval S D t x w (.error e) w' ∧ r = .error e := by
  refine ⟨fun h => ?_, ?_⟩
  · obtain ⟨a | a, w₁, hx, hf⟩ := bind_iff.mp h
    · obtain ⟨rfl, rfl⟩ := pure_iff.mp hf
      exact .inr ⟨a, hx, rfl⟩
    · exact .inl ⟨a, w₁, hx, hf⟩
  · rintro (⟨a, w₁, hx, hf⟩ | ⟨e, hx, rfl⟩)
    · exact hx.bind hf
    · exact hx.bind .pure

theorem andThen_ok {x : Act Op ε α} {f : α → Act Op ε γ} {c : γ}
    (h : Eval S D t (x.andThen f) w (.ok c) w') :
    ∃ a w₁, Eval S D t x w (.ok a) w₁ ∧ Eval S D t (f a) w₁ (.ok c) w' := by
  rcases andThen_iff.mp h with hok | ⟨e, -, hr⟩
  · exact hok
  · cases hr

theorem ok_iff {a : α} {r : Except ε α} :
    Eval S D t (Act.ok a : Act Op ε α) w r w' ↔ r = .ok a ∧ w' = w := pure_iff

theorem actForEach_induct {f : β → Act Op ε Unit} {J : W → Prop} {xs : List β} {r : Except ε Unit}
    (hf : ∀ x w r w', J w → Eval S D t (f x) w r w' → J w')
    (h : Eval S D t (Act.forEach f xs) w r w') (hJ : J w) : J w' := by
  induction xs generalizing w with
  | nil =>
    obtain ⟨-, rfl⟩ := ok_iff.mp h
    exact hJ
  | cons x xs ih =>
    rcases andThen_iff.mp h with ⟨_, w₁, hx, hrest⟩ | ⟨_, hx, -⟩
    · exact ih hrest (hf x _ _ _ hJ hx)
    · exact hf x _ _ _ hJ hx

theorem actLoop_induct {body : σ → Act Op ε (σ ⊕ β)} {s : σ} {r : Except ε β} {J : σ → W → Prop}
    {R : Except ε β → W → Prop}
    (hbody : ∀ s w r w', J s w → Eval S D t (body s) w r w' → match r with
      | .ok (.inl s') => J s' w'
      | .ok (.inr b) => R (.ok b) w'
      | .error e => R (.error e) w')
    (h : Eval S D t (Act.loop body s) w r w') (hJ : J s w) : R r w' := by
  refine (loop_induct (J := J) (R := R) (fun s w r w' hJ hturn => ?_) h hJ).elim fun b hb => ?_
  · obtain ⟨o, w₁, ho, hr⟩ := bind_iff.mp hturn
    have hkept := hbody s w o w₁ hJ ho
    match o with
    | .ok (.inl s') =>
      obtain ⟨rfl, rfl⟩ := pure_iff.mp hr
      exact hkept
    | .ok (.inr b) =>
      obtain ⟨rfl, rfl⟩ := pure_iff.mp hr
      exact hkept
    | .error e =>
      obtain ⟨rfl, rfl⟩ := pure_iff.mp hr
      exact hkept
  · obtain ⟨w₁, hR, hpure⟩ := hb
    obtain ⟨rfl, rfl⟩ := pure_iff.mp hpure
    exact hR

theorem fail_iff {e : ε} {r : Except ε α} :
    Eval S D t (Act.fail e : Act Op ε α) w r w' ↔ r = .error e ∧ w' = w := pure_iff

theorem lift_iff {p : Prog Op α} {r : Except ε α} :
    Eval S D t (Act.lift p : Act Op ε α) w r w' ↔ ∃ a, Eval S D t p w a w' ∧ r = .ok a := by
  refine ⟨fun h => ?_, ?_⟩
  · obtain ⟨a, w₁, hp, hr⟩ := bind_iff.mp h
    obtain ⟨rfl, rfl⟩ := pure_iff.mp hr
    exact ⟨a, hp, rfl⟩
  · rintro ⟨a, hp, rfl⟩
    exact hp.bind .pure

theorem attempt_iff {x : Act Op ε α} {r : Except ε (Except ε α)} :
    Eval S D t x.attempt w r w' ↔ ∃ a, Eval S D t x w a w' ∧ r = .ok a := by
  refine ⟨fun h => ?_, ?_⟩
  · obtain ⟨a, w₁, hp, hr⟩ := bind_iff.mp h
    obtain ⟨rfl, rfl⟩ := pure_iff.mp hr
    exact ⟨a, hp, rfl⟩
  · rintro ⟨a, hp, rfl⟩
    exact hp.bind .pure

end Eval

/-- Perform a program with the answers given: `none` enters a turn of a loop. -/
def replay (S : System Op W C E) (t : Nat) : List (Option C) → Prog Op α → W → Option (α × W)
  | [], .pure a, w => some (a, w)
  | some c :: cs, .op o k, w => (S.exec t o c w).bind fun r => replay S t cs (k r.1) r.2
  | none :: cs, .loop body s k, w => replay S t cs (turn body k s) w
  | _, _, _ => none

/-- Every answer of the replay meets the discipline. -/
def ReplayMeets (S : System Op W C E) (D : Discipline Op W C E) (t : Nat) :
    List (Option C) → Prog Op α → W → Prop
  | some c :: cs, .op o k, w =>
    D.step t o c w ∧ ∀ r, S.exec t o c w = some r → ReplayMeets S D t cs (k r.1) r.2
  | none :: cs, .loop body s k, w => ReplayMeets S D t cs (turn body k s) w
  | _, _, _ => True

theorem replayMeets_stopped {o : Op β} {k : β → Prog Op α} {c : C} {cs : List (Option C)} {w : W}
    (he : S.exec t o c w = none) :
    D.step t o c w ↔ ReplayMeets S D t (some c :: cs) (.op o k) w :=
  ⟨fun h => ⟨h, fun _ hr => nomatch he.symm.trans hr⟩, And.left⟩

theorem replayMeets_next {o : Op β} {k : β → Prog Op α} {c : C} {cs : List (Option C)} {w : W}
    {r : β × W} (he : S.exec t o c w = some r) :
    D.step t o c w ∧ ReplayMeets S D t cs (k r.1) r.2 ↔
      ReplayMeets S D t (some c :: cs) (.op o k) w :=
  ⟨fun h => ⟨h.1, fun _ hr => Option.some.inj (he.symm.trans hr) ▸ h.2⟩,
    fun h => ⟨h.1, h.2 r he⟩⟩

instance decidableReplayMeets [∀ t β (o : Op β) c w, Decidable (D.step t o c w)] :
    ∀ cs (p : Prog Op α) w, Decidable (ReplayMeets S D t cs p w)
  | some c :: cs, .op o k, w =>
    match he : S.exec t o c w with
    | none => decidable_of_iff (D.step t o c w) (replayMeets_stopped he)
    | some r =>
      have : Decidable (ReplayMeets S D t cs (k r.1) r.2) := decidableReplayMeets cs _ _
      decidable_of_iff (D.step t o c w ∧ ReplayMeets S D t cs (k r.1) r.2) (replayMeets_next he)
  | none :: cs, .loop body s k, w => decidableReplayMeets cs (turn body k s) w
  | some _ :: _, .pure _, _ => isTrue trivial
  | some _ :: _, .loop _ _ _, _ => isTrue trivial
  | none :: _, .pure _, _ => isTrue trivial
  | none :: _, .op _ _, _ => isTrue trivial
  | [], _, _ => isTrue trivial

theorem replayMeets_of_forall (hD : ∀ {β : Type} (o : Op β) c w, D.step t o c w)
    (cs : List (Option C)) (p : Prog Op α) (w : W) : ReplayMeets S D t cs p w := by
  induction cs generalizing p w with
  | nil => cases p <;> trivial
  | cons c cs ih =>
    cases c with
    | none =>
      cases p with
      | loop body s k => exact ih _ _
      | _ => trivial
    | some c =>
      cases p with
      | op o k => exact ⟨hD o c w, fun r _ => ih _ _⟩
      | _ => trivial

theorem eval_of_replay {cs : List (Option C)} {p : Prog Op α} {w w' : W} {a : α}
    (hD : ReplayMeets S D t cs p w) (h : replay S t cs p w = some (a, w')) :
    Eval S D t p w a w' := by
  induction cs generalizing p w with
  | nil =>
    cases p with
    | pure b =>
      obtain ⟨rfl, rfl⟩ := Prod.mk.inj (Option.some.inj h)
      exact .pure
    | op o k => cases h
    | loop body s k => cases h
  | cons c cs ih =>
    cases p with
    | pure b => cases c <;> cases h
    | op o k =>
      cases c with
      | none => cases h
      | some c =>
        obtain ⟨⟨b, w₁⟩, he, hk⟩ := Option.bind_eq_some_iff.mp h
        exact .op hD.1 he (ih (hD.2 _ he) hk)
    | loop body s k =>
      cases c with
      | some c => cases h
      | none =>
        have hturn : Eval S D t (turn body k s) w a w' := ih hD h
        rw [turn_eq] at hturn
        obtain ⟨s' | b, w₁, hbody, hrest⟩ := Eval.bind_iff.mp hturn
        · exact .again hbody hrest
        · exact .done hbody hrest

end Effect
