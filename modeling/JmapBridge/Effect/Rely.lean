import JmapBridge.Effect.Pool

/-! Weakest preconditions under interference. A contract fixes an invariant of
the shared world and, for each task, what that task relies on about the steps
of all the others. A program that meets its precondition keeps the contract
in every interleaving with tasks that meet theirs. -/

namespace Effect

universe u

variable {Op : Type → Type u} {W C E : Type}

structure Discipline (Op : Type → Type u) (W C E : Type) where
  start : Nat → W → Prop := fun _ _ => True
  step : Nat → ∀ {β : Type}, Op β → C → W → Prop := fun _ {_} _ _ _ => True
  cancel : Nat → W → Prop := fun _ _ => True
  env : E → W → Prop := fun _ _ => True

def Discipline.meets (D : Discipline Op W C E) : Event C E → Pool Op W → Prop
  | .start t, q => D.start t q.world
  | .step t c, q =>
    match q.tasks t with
    | some (.op o _) => D.step t o c q.world
    | _ => True
  | .tau _, _ => True
  | .cancel t, q => D.cancel t q.world
  | .env e, q => D.env e q.world

instance Discipline.decidableMeets {D : Discipline Op W C E} [∀ t w, Decidable (D.start t w)]
    [∀ t β (o : Op β) c w, Decidable (D.step t o c w)] [∀ t w, Decidable (D.cancel t w)]
    [∀ e w, Decidable (D.env e w)] : ∀ e q, Decidable (D.meets e q)
  | .start t, q => inferInstanceAs (Decidable (D.start t q.world))
  | .step t c, q =>
    match ht : q.tasks t with
    | some (.op o _) => decidable_of_iff (D.step t o c q.world) (by simp [meets, ht])
    | some (.pure _) => isTrue (by simp [meets, ht])
    | some (.loop _ _ _) => isTrue (by simp [meets, ht])
    | none => isTrue (by simp [meets, ht])
  | .tau _, _ => isTrue trivial
  | .cancel t, q => inferInstanceAs (Decidable (D.cancel t q.world))
  | .env e, q => inferInstanceAs (Decidable (D.env e q.world))

theorem System.admits_free {S : System Op W C E} (es : List (Event C E)) (q : Pool Op W) :
    S.Admits (Discipline.meets ({} : Discipline Op W C E)) es q := by
  refine S.admits_of_forall (fun e q => ?_) es q
  cases e with
  | step t c =>
    simp only [Discipline.meets]
    split <;> trivial
  | _ => trivial

/-- `rely t` holds between the worlds before and after any step that is not `t`'s own.
`idle t` holds while no task `t` is running. -/
structure Contract (W : Type) where
  inv : W → Prop
  rely : Nat → W → W → Prop
  idle : Nat → W → Prop := fun _ _ => True
  idle_stable : ∀ {t a b}, idle t a → rely t a b → idle t b := by intros; trivial
  refl : ∀ t w, rely t w w
  trans : ∀ {t a b c}, rely t a b → rely t b c → rely t a c

/-- An assertion that the other tasks leave true. -/
def Stable (K : Contract W) (t : Nat) (P : W → Prop) : Prop :=
  ∀ w w₁, P w → K.rely t w w₁ → K.inv w₁ → P w₁

def Keeps (S : System Op W C E) (D : Discipline Op W C E) (K : Contract W) (t : Nat)
    (P : W → Prop) (β : Type) (o : Op β) : Prop :=
  ∀ w c b w₂, P w → K.inv w → D.step t o c w → S.exec t o c w = some (b, w₂) →
    K.inv w₂ ∧ (∀ i, i ≠ t → K.rely i w w₂) ∧ P w₂

namespace Prog

variable (S : System Op W C E) (D : Discipline Op W C E) (K : Contract W)

/-- From `w`, whatever the others do between its own steps, task `t` running the
program keeps the contract and returns only where `Q` holds. A loop has an
invariant indexed by its state. -/
def wp (t : Nat) : {α : Type} → Prog Op α → (α → W → Prop) → W → Prop
  | _, .pure a, Q, w => ∀ w₁, K.rely t w w₁ → K.inv w₁ → Q a w₁
  | _, .op o k, Q, w => ∀ w₁, K.rely t w w₁ → K.inv w₁ → ∀ c, D.step t o c w₁ →
      ∀ b w₂, S.exec t o c w₁ = some (b, w₂) →
        K.inv w₂ ∧ (∀ i, i ≠ t → K.rely i w₁ w₂) ∧ wp t (k b) Q w₂
  | _, .loop body s k, Q, w => ∃ J : _ → W → Prop, J s w ∧ ∀ s w, J s w →
      wp t (body s) (fun r w' => match r with
        | .inl s' => J s' w'
        | .inr b => wp t (k b) Q w') w

variable {S D K} {t : Nat} {α β γ σ : Type}

theorem wp_mono {p : Prog Op α} {Q Q' : α → W → Prop} (hQ : ∀ a w, K.inv w → Q a w → Q' a w)
    {w : W} (h : wp S D K t p Q w) : wp S D K t p Q' w := by
  induction p generalizing w with
  | pure a => exact fun w₁ hr hi => hQ a w₁ hi (h w₁ hr hi)
  | op o k ih =>
    intro w₁ hr hi c hc b w₂ he
    obtain ⟨h₁, h₂, h₃⟩ := h w₁ hr hi c hc b w₂ he
    exact ⟨h₁, h₂, ih b hQ h₃⟩
  | loop body s k ihb ihk =>
    obtain ⟨J, hJ, hb⟩ := h
    refine ⟨J, hJ, fun s w hs => ihb s ?_ (hb s w hs)⟩
    rintro (s' | b) w' - hw'
    · exact hw'
    · exact ihk b hQ hw'

theorem wp_of_rely {p : Prog Op α} {Q : α → W → Prop} {w : W}
    (h : ∀ w₁, K.rely t w w₁ → K.inv w₁ → wp S D K t p Q w₁) (hw : K.inv w) :
    wp S D K t p Q w := by
  cases p with
  | pure a => exact fun w₁ hr hi => h w₁ hr hi w₁ (K.refl t w₁) hi
  | op o k => exact fun w₁ hr hi => h w₁ hr hi w₁ (K.refl t w₁) hi
  | loop body s k => exact h w (K.refl t w) hw

theorem wp_stable {p : Prog Op α} {Q : α → W → Prop} {w w₁ : W} (h : wp S D K t p Q w)
    (hr : K.rely t w w₁) : wp S D K t p Q w₁ := by
  induction p generalizing w w₁ with
  | pure a => exact fun w₂ hr₂ hi => h w₂ (K.trans hr hr₂) hi
  | op o k => exact fun w₂ hr₂ hi => h w₂ (K.trans hr hr₂) hi
  | loop body s k ihb ihk =>
    obtain ⟨J, hJ, hb⟩ := h
    refine ⟨fun s w' => ∃ w₀, J s w₀ ∧ K.rely t w₀ w', ⟨w, hJ, hr⟩, ?_⟩
    rintro s w' ⟨w₀, hs, hw'⟩
    refine wp_mono ?_ (ihb s (hb s w₀ hs) hw')
    rintro (s' | b) w'' - hq
    · exact ⟨w'', hq, K.refl t w''⟩
    · exact hq

theorem wp_bind {p : Prog Op α} {f : α → Prog Op γ} {Q : γ → W → Prop} {w : W} (hw : K.inv w)
    (h : wp S D K t p (fun a w' => wp S D K t (f a) Q w') w) : wp S D K t (p.bind f) Q w := by
  induction p generalizing w with
  | pure a => exact wp_of_rely h hw
  | op o k ih =>
    intro w₁ hr hi c hc b w₂ he
    obtain ⟨h₁, h₂, h₃⟩ := h w₁ hr hi c hc b w₂ he
    exact ⟨h₁, h₂, ih b h₁ h₃⟩
  | loop body s k ihb ihk =>
    obtain ⟨J, hJ, hb⟩ := h
    refine ⟨fun s w' => J s w' , hJ, fun s w hs => wp_mono ?_ (hb s w hs)⟩
    rintro (s' | b) w' hi hq
    · exact hq
    · exact ihk b hi hq

theorem wp_turn {body : σ → Prog Op (σ ⊕ β)} {s : σ} {k : β → Prog Op α} {Q : α → W → Prop}
    {w : W} (hw : K.inv w) (h : wp S D K t (.loop body s k) Q w) :
    wp S D K t (turn body k s) Q w := by
  obtain ⟨J, hJ, hb⟩ := h
  refine wp_bind hw (wp_mono ?_ (hb s w hJ))
  rintro (s' | b) w' - hq
  · exact ⟨J, hq, hb⟩
  · exact hq

theorem wp_frame {F : W → Prop} (hs : Stable K t F)
    (hstep : ∀ (β : Type) (o : Op β) c w b w', F w → S.exec t o c w = some (b, w') → F w')
    {p : Prog Op α} {Q : α → W → Prop} {w : W} (hF : F w) (h : wp S D K t p Q w) :
    wp S D K t p (fun a w' => Q a w' ∧ F w') w := by
  induction p generalizing w with
  | pure a => exact fun w₁ hr hi => ⟨h w₁ hr hi, hs w w₁ hF hr hi⟩
  | op o k ih =>
    intro w₁ hr hi c hc b w₂ he
    obtain ⟨h₁, h₂, h₃⟩ := h w₁ hr hi c hc b w₂ he
    have hF₂ : F w₂ := hstep _ o c w₁ b w₂ (hs w w₁ hF hr hi) he
    exact ⟨h₁, h₂, ih b hF₂ h₃⟩
  | loop body s k ihb ihk =>
    obtain ⟨J, hJ, hb⟩ := h
    refine ⟨fun s w' => J s w' ∧ F w', ⟨hJ, hF⟩,
      fun s w hw => wp_mono ?_ (ihb s hw.2 (hb s w hw.1))⟩
    rintro (s' | b) w' - ⟨hq, hF'⟩
    · exact ⟨hq, hF'⟩
    · exact ihk b hF' hq

/-- A program whose operations all keep the contract and `P` needs no other argument. -/
theorem wp_only {P : W → Prop} (hs : Stable K t P) {p : Prog Op α}
    (hp : p.Only (Keeps S D K t P)) {w : W} (hP : P w) :
    wp S D K t p (fun _ w' => P w') w := by
  induction p generalizing w with
  | pure a => exact fun w₁ hr hi => hs w w₁ hP hr hi
  | op o k ih =>
    intro w₁ hr hi c hc b w₂ he
    obtain ⟨h₁, h₂, h₃⟩ := hp.1 w₁ c b w₂ (hs w w₁ hP hr hi) hi hc he
    exact ⟨h₁, h₂, ih b (hp.2 b) h₃⟩
  | loop body s k ihb ihk =>
    refine ⟨fun _ w' => P w', hP, fun s w hw => wp_mono ?_ (ihb s (hp.1 s) hw)⟩
    rintro (s' | b) w' - hq
    · exact hq
    · exact ihk b (hp.2 b) hq

end Prog

open Prog

/-- What the entry programs, the environment and cancellation owe a contract. -/
structure Upholds (S : System Op W C E) (D : Discipline Op W C E) (K : Contract W) : Prop where
  start : ∀ t w, K.inv w → K.idle t w → D.start t w →
    wp S D K t (S.entry t) (fun _ w' => K.idle t w') w
  env : ∀ e w w', K.inv w → D.env e w → S.env e w = some w' → K.inv w' ∧ ∀ i, K.rely i w w'
  cancel : ∀ t w, K.inv w → D.cancel t w →
    K.inv (S.drop t w) ∧ (∀ i, i ≠ t → K.rely i w (S.drop t w)) ∧ K.idle t (S.drop t w)

namespace Upholds

variable {S : System Op W C E} {D : Discipline Op W C E} {K : Contract W}

/-- The invariant of a run: the world keeps the contract's invariant, every task
in the pool meets the precondition of the program it still has to run, and the
others are idle. -/
def PoolInv (S : System Op W C E) (D : Discipline Op W C E) (K : Contract W)
    (q : Pool Op W) : Prop :=
  K.inv q.world ∧ (∀ t p, q.tasks t = some p → wp S D K t p (fun _ w => K.idle t w) q.world) ∧
    ∀ t, q.tasks t = none → K.idle t q.world

theorem poolInv_put {q : Pool Op W} (hq : PoolInv S D K q) {t : Nat} {p : Option (Prog Op Unit)}
    {w : W} (hw : K.inv w) (hr : ∀ i, i ≠ t → K.rely i q.world w)
    (hp : ∀ r, p = some r → wp S D K t r (fun _ w' => K.idle t w') w)
    (hn : p = none → K.idle t w) : PoolInv S D K (q.put t p w) := by
  refine ⟨hw, fun i r hi => ?_, fun i hi => ?_⟩
  · by_cases hit : i = t
    · subst hit
      exact hp r (by simpa using hi)
    · rw [Pool.put_tasks_ne q hit] at hi
      exact wp_stable (hq.2.1 i r hi) (hr i hit)
  · by_cases hit : i = t
    · subst hit
      exact hn (by simpa using hi)
    · rw [Pool.put_tasks_ne q hit] at hi
      exact K.idle_stable (hq.2.2 i hi) (hr i hit)

theorem poolInv_next (U : Upholds S D K) {e : Event C E} {q q' : Pool Op W}
    (hq : PoolInv S D K q) (hD : D.meets e q) (h : S.next e q = some q') : PoolInv S D K q' := by
  cases e with
  | start t =>
    obtain ⟨ht, rfl⟩ := System.next_start h
    refine poolInv_put hq hq.1 (fun i _ => K.refl i _) ?_ (by rintro ⟨⟩)
    rintro r ⟨⟩
    exact U.start t q.world hq.1 (hq.2.2 t ht) hD
  | step t c =>
    obtain ⟨β, o, k, b, w, ht, he, rfl⟩ := System.next_step h
    have hc : D.step t o c q.world := by simpa [Discipline.meets, ht] using hD
    obtain ⟨h₁, h₂, h₃⟩ := hq.2.1 t _ ht q.world (K.refl t _) hq.1 c hc b w he
    refine poolInv_put hq h₁ h₂ ?_ (by rintro ⟨⟩)
    rintro r ⟨⟩
    exact h₃
  | tau t =>
    rcases System.next_tau h with ⟨a, ht, rfl⟩ | ⟨β, σ, body, s, k, ht, rfl⟩
    · refine poolInv_put hq hq.1 (fun i _ => K.refl i _) (by rintro r ⟨⟩) fun _ => ?_
      exact hq.2.1 t _ ht q.world (K.refl t _) hq.1
    · refine poolInv_put hq hq.1 (fun i _ => K.refl i _) ?_ (by rintro ⟨⟩)
      rintro r ⟨⟩
      exact wp_turn hq.1 (hq.2.1 t _ ht)
  | cancel t =>
    obtain rfl := System.next_cancel h
    obtain ⟨h₁, h₂, h₃⟩ := U.cancel t q.world hq.1 hD
    exact poolInv_put hq h₁ h₂ (by rintro r ⟨⟩) fun _ => h₃
  | env e =>
    obtain ⟨w, he, rfl⟩ := System.next_env h
    obtain ⟨h₁, h₂⟩ := U.env e q.world w hq.1 hD he
    exact ⟨h₁, fun i p hi => wp_stable (hq.2.1 i p hi) (h₂ i),
      fun i hi => K.idle_stable (hq.2.2 i hi) (h₂ i)⟩

theorem poolInv_boot {w : W} (hw : K.inv w) (hidle : ∀ t, K.idle t w) :
    PoolInv S D K (Pool.boot w) :=
  ⟨hw, fun t p h => (by cases h), fun t _ => hidle t⟩

/-- An event is a step of at most one task, so all the others may rely on it. -/
theorem rely_next (U : Upholds S D K) {e : Event C E} {q q' : Pool Op W} (hq : PoolInv S D K q)
    (hD : D.meets e q) (h : S.next e q = some q') :
    ∃ t, ∀ i, i ≠ t → K.rely i q.world q'.world := by
  cases e with
  | start t =>
    obtain ⟨-, rfl⟩ := System.next_start h
    exact ⟨t, fun i _ => K.refl i _⟩
  | step t c =>
    obtain ⟨β, o, k, b, w, ht, he, rfl⟩ := System.next_step h
    have hc : D.step t o c q.world := by simpa [Discipline.meets, ht] using hD
    exact ⟨t, (hq.2.1 t _ ht q.world (K.refl t _) hq.1 c hc b w he).2.1⟩
  | tau t =>
    rcases System.next_tau h with ⟨a, -, rfl⟩ | ⟨β, σ, body, s, k, -, rfl⟩
    · exact ⟨t, fun i _ => K.refl i _⟩
    · exact ⟨t, fun i _ => K.refl i _⟩
  | cancel t =>
    obtain rfl := System.next_cancel h
    exact ⟨t, (U.cancel t q.world hq.1 hD).2.1⟩
  | env e =>
    obtain ⟨w, he, rfl⟩ := System.next_env h
    exact ⟨0, fun i _ => (U.env e q.world w hq.1 hD he).2 i⟩

theorem run_guarantee (U : Upholds S D K) {G : W → W → Prop}
    (hG : ∀ t w w', K.rely t w w' → G w w') (htrans : ∀ a b c, G a b → G b c → G a c)
    {es : List (Event C E)} {q q' : Pool Op W} (hq : PoolInv S D K q)
    (hrun : S.run es q = some q') (hD : S.Admits D.meets es q) : G q.world q'.world := by
  have hstep : ∀ e r r', (PoolInv S D K r ∧ G q.world r.world) → D.meets e r →
      S.next e r = some r' → PoolInv S D K r' ∧ G q.world r'.world := by
    intro e r r' hr hm hn
    obtain ⟨t, ht⟩ := rely_next U hr.1 hm hn
    have hlast : G r.world r'.world := hG (t + 1) _ _ (ht (t + 1) (by omega))
    exact ⟨poolInv_next U hr.1 hm hn, htrans _ _ _ hr.2 hlast⟩
  have hself : G q.world q.world := hG 0 _ _ (K.refl 0 _)
  exact (S.run_induct hstep ⟨hq, hself⟩ hrun hD).2

/-- In every run whose events meet the discipline the invariant holds throughout. -/
theorem inv_of_run (U : Upholds S D K) {es : List (Event C E)} {w : W} {q : Pool Op W}
    (hw : K.inv w) (hidle : ∀ t, K.idle t w) (hrun : S.run es (Pool.boot w) = some q)
    (hD : S.Admits D.meets es (Pool.boot w)) : K.inv q.world := by
  have hstep : ∀ e q q', PoolInv S D K q → D.meets e q → S.next e q = some q' →
      PoolInv S D K q' := fun e q q' hq hG hn => poolInv_next U hq hG hn
  exact (S.run_induct hstep (poolInv_boot hw hidle) hrun hD).1

theorem poolInv_of_run (U : Upholds S D K) {es : List (Event C E)} {q q' : Pool Op W}
    (hq : PoolInv S D K q) (hrun : S.run es q = some q') (hD : S.Admits D.meets es q) :
    PoolInv S D K q' :=
  S.run_induct (P := PoolInv S D K) (fun _ _ _ hq hG hn => poolInv_next U hq hG hn) hq hrun hD

end Upholds

end Effect
