import JmapBridge.Effect.Rely

/-! Rules of inference for programs under interference. A triple says that a
program started where its precondition and the invariant hold meets its weakest
precondition for the postcondition. -/

namespace Effect

open Prog

universe u

variable {Op : Type → Type u} {W C E : Type} {S : System Op W C E} {D : Discipline Op W C E}
  {K : Contract W} {t : Nat} {α β γ σ ε : Type}

def Triple (S : System Op W C E) (D : Discipline Op W C E) (K : Contract W) (t : Nat)
    (P : W → Prop) (p : Prog Op α) (Q : α → W → Prop) : Prop :=
  ∀ w, K.inv w → P w → wp S D K t p Q w

/-- What one operation of task `t` may take from `P` to `R`. -/
def Step (S : System Op W C E) (D : Discipline Op W C E) (K : Contract W) (t : Nat)
    (P : W → Prop) (o : Op β) (R : β → W → Prop) : Prop :=
  ∀ w c b w', K.inv w → P w → D.step t o c w → S.exec t o c w = some (b, w') →
    K.inv w' ∧ (∀ i, i ≠ t → K.rely i w w') ∧ R b w'

theorem Step.post {P : W → Prop} {o : Op β} {R R' : β → W → Prop} (h : Step S D K t P o R)
    (hR : ∀ b w, K.inv w → R b w → R' b w) : Step S D K t P o R' := by
  intro w c b w' hi hw hc he
  obtain ⟨h₁, h₂, h₃⟩ := h w c b w' hi hw hc he
  exact ⟨h₁, h₂, hR b w' h₁ h₃⟩

theorem Stable.and {P Q : W → Prop} (hP : Stable K t P) (hQ : Stable K t Q) :
    Stable K t fun w => P w ∧ Q w :=
  fun w w₁ h hr hi => ⟨hP w w₁ h.1 hr hi, hQ w w₁ h.2 hr hi⟩

theorem Stable.or {P Q : W → Prop} (hP : Stable K t P) (hQ : Stable K t Q) :
    Stable K t fun w => P w ∨ Q w :=
  fun w w₁ h hr hi => h.imp (hP w w₁ · hr hi) (hQ w w₁ · hr hi)

theorem Stable.const (p : Prop) : Stable K t fun _ => p := fun _ _ h _ _ => h

theorem Stable.forall {ι : Type} {P : ι → W → Prop} (h : ∀ i, Stable K t (P i)) :
    Stable K t fun w => ∀ i, P i w :=
  fun w w₁ hw hr hi i => h i w w₁ (hw i) hr hi

theorem Stable.exists {ι : Type} {P : ι → W → Prop} (h : ∀ i, Stable K t (P i)) :
    Stable K t fun w => ∃ i, P i w :=
  fun w w₁ ⟨i, hw⟩ hr hi => ⟨i, h i w w₁ hw hr hi⟩

namespace Triple

variable {P P' : W → Prop}

theorem pre {p : Prog Op α} {Q : α → W → Prop} (h : Triple S D K t P' p Q)
    (hP : ∀ w, K.inv w → P w → P' w) : Triple S D K t P p Q :=
  fun w hi hw => h w hi (hP w hi hw)

theorem frame {F : W → Prop} (hs : Stable K t F)
    (hstep : ∀ (β : Type) (o : Op β) c w b w', F w → S.exec t o c w = some (b, w') → F w')
    {p : Prog Op α} {Q : α → W → Prop} (h : Triple S D K t P p Q) :
    Triple S D K t (fun w => P w ∧ F w) p fun a w => Q a w ∧ F w :=
  fun w hi hw => wp_frame hs hstep hw.2 (h w hi hw.1)

theorem assume {c : Prop} {p : Prog Op α} {Q : α → W → Prop} (h : c → Triple S D K t P p Q) :
    Triple S D K t (fun w => P w ∧ c) p Q :=
  fun w hi hw => h hw.2 w hi hw.1

theorem post {p : Prog Op α} {Q Q' : α → W → Prop} (h : Triple S D K t P p Q)
    (hQ : ∀ a w, K.inv w → Q a w → Q' a w) : Triple S D K t P p Q' :=
  fun w hi hw => wp_mono hQ (h w hi hw)

theorem pure {a : α} {Q : α → W → Prop} (hP : Stable K t P)
    (h : ∀ w, K.inv w → P w → Q a w) : Triple S D K t P (.pure a) Q :=
  fun w _ hw w₁ hr hi => h w₁ hi (hP w w₁ hw hr hi)

theorem op {o : Op β} {k : β → Prog Op α} {R : β → W → Prop} {Q : α → W → Prop}
    (hP : Stable K t P) (ho : Step S D K t P o R) (hk : ∀ b, Triple S D K t (R b) (k b) Q) :
    Triple S D K t P (.op o k) Q := by
  intro w _ hw w₁ hr hi c hc b w₂ he
  obtain ⟨h₁, h₂, h₃⟩ := ho w₁ c b w₂ hi (hP w w₁ hw hr hi) hc he
  exact ⟨h₁, h₂, hk b w₂ h₁ h₃⟩

theorem call {o : Op β} {R : β → W → Prop} (hP : Stable K t P) (ho : Step S D K t P o R)
    (hR : ∀ b, Stable K t (R b)) : Triple S D K t P (Prog.call o) R :=
  op hP ho fun b => pure (hR b) fun _ _ h => h

theorem bind {p : Prog Op α} {f : α → Prog Op γ} {R : α → W → Prop} {Q : γ → W → Prop}
    (hp : Triple S D K t P p R) (hf : ∀ a, Triple S D K t (R a) (f a) Q) :
    Triple S D K t P (p.bind f) Q :=
  fun w hi hw => wp_bind hi (wp_mono (fun a w' hi' h => hf a w' hi' h) (hp w hi hw))

theorem only (hP : Stable K t P) {p : Prog Op α} (hp : p.Only (Keeps S D K t P)) :
    Triple S D K t P p fun _ => P :=
  fun _ _ hw => wp_only hP hp hw

theorem loop {body : σ → Prog Op (σ ⊕ β)} {s : σ} {k : β → Prog Op α} {J : σ → W → Prop}
    {R : β → W → Prop} {Q : α → W → Prop}
    (hb : ∀ s, Triple S D K t (J s) (body s) (Sum.elim J R))
    (hk : ∀ b, Triple S D K t (R b) (k b) Q) : Triple S D K t (J s) (.loop body s k) Q := by
  intro w hi hw
  refine ⟨fun s w => K.inv w ∧ J s w, ⟨hi, hw⟩, fun s w h => wp_mono ?_ (hb s w h.1 h.2)⟩
  rintro (s' | b) w' hi' h
  · exact ⟨hi', h⟩
  · exact hk b w' hi' h

theorem forEach {f : β → Prog Op Unit} (hP : Stable K t P) (xs : List β)
    (hf : ∀ x ∈ xs, Triple S D K t P (f x) fun _ => P) :
    Triple S D K t P (Prog.forEach f xs) fun _ => P := by
  induction xs with
  | nil => exact pure hP fun _ _ h => h
  | cons x xs ih =>
    exact bind (hf x List.mem_cons_self) fun _ => ih fun y hy => hf y (List.mem_cons_of_mem _ hy)

theorem forEachLeft {f : β → Prog Op Unit} {J : List β → W → Prop} (hs : Stable K t (J []))
    (hf : ∀ x xs, Triple S D K t (J (x :: xs)) (f x) fun _ => J xs) (xs : List β) :
    Triple S D K t (J xs) (Prog.forEach f xs) fun _ => J [] := by
  induction xs with
  | nil => exact pure hs fun _ _ h => h
  | cons x xs ih => exact bind (hf x xs) fun _ => ih

theorem closed (hP : Stable K t P) :
    Prog.Closed (Keeps S D K t P) fun _ p => Triple S D K t P p fun _ => P where
  pure _ := pure hP fun _ _ h => h
  call ho := call hP (fun w c b w' hi hw hc he => ho w c b w' hw hi hc he) fun _ => hP
  bind := bind
  loop {_ _ _ s} hb := by
    refine loop (J := fun _ => P) (R := fun _ => P) (s := s) (fun s => ?_) fun b =>
      pure hP fun _ _ h => h
    refine post (hb s) fun r w _ h => ?_
    cases r with
    | inl s' => exact h
    | inr b => exact h

end Triple

/-- The postcondition of a fallible program: `R` of its value, or `F` of its error. -/
def post (R : α → W → Prop) (F : ε → W → Prop) : Except ε α → W → Prop
  | .ok a => R a
  | .error e => F e

@[simp] theorem post_ok (R : α → W → Prop) (F : ε → W → Prop) (a : α) :
    post R F (.ok a) = R a := rfl

@[simp] theorem post_error (R : α → W → Prop) (F : ε → W → Prop) (e : ε) :
    post R F (.error e) = F e := rfl

namespace Triple

variable {P P' : W → Prop} {F : ε → W → Prop}

theorem ok {a : α} {R : α → W → Prop} (hP : Stable K t P) (h : ∀ w, K.inv w → P w → R a w) :
    Triple S D K t P (Act.ok a : Act Op ε α) (Effect.post R F) :=
  pure hP h

theorem fail {e : ε} {R : α → W → Prop} (hP : Stable K t P) (h : ∀ w, K.inv w → P w → F e w) :
    Triple S D K t P (Act.fail e : Act Op ε α) (Effect.post R F) :=
  pure hP h

theorem andThen {x : Act Op ε α} {f : α → Act Op ε γ} {R : α → W → Prop} {Q : γ → W → Prop}
    (hx : Triple S D K t P x (Effect.post R F)) (hF : ∀ e, Stable K t (F e))
    (hf : ∀ a, Triple S D K t (R a) (f a) (Effect.post Q F)) :
    Triple S D K t P (x.andThen f) (Effect.post Q F) := by
  refine bind hx fun r => ?_
  cases r with
  | ok a => exact hf a
  | error e => exact pure (hF e) fun _ _ h => h

theorem weaken {x : Act Op ε α} {R R' : α → W → Prop} {F' : ε → W → Prop}
    (hx : Triple S D K t P x (Effect.post R F)) (hR : ∀ a w, R a w → R' a w)
    (hF : ∀ e w, F e w → F' e w) : Triple S D K t P x (Effect.post R' F') := by
  refine post hx fun r w _ h => ?_
  cases r with
  | ok a => exact hR a w h
  | error e => exact hF e w h

theorem lift {p : Prog Op α} {R : α → W → Prop} (hp : Triple S D K t P p R)
    (hR : ∀ a, Stable K t (R a)) :
    Triple S D K t P (Act.lift p : Act Op ε α) (Effect.post R F) :=
  bind hp fun a => pure (hR a) fun _ _ h => h

theorem attempt {x : Act Op ε α} {R : Except ε α → W → Prop} (hx : Triple S D K t P x R)
    (hR : ∀ r, Stable K t (R r)) :
    Triple S D K t P x.attempt (Effect.post R F) :=
  bind hx fun r => pure (hR r) fun _ _ h => h

theorem actLoop {body : σ → Act Op ε (σ ⊕ β)} {s : σ} {J : σ → W → Prop} {R : β → W → Prop}
    (hJ : ∀ s, Stable K t (J s)) (hR : ∀ b, Stable K t (R b)) (hF : ∀ e, Stable K t (F e))
    (hb : ∀ s, Triple S D K t (J s) (body s) (Effect.post (Sum.elim J R) F)) :
    Triple S D K t (J s) (Act.loop body s) (Effect.post R F) := by
  refine loop (J := J) (R := Effect.post R F) (fun s => bind (hb s) ?_) fun b =>
    pure ?_ fun _ _ h => h
  · rintro (e | s' | b)
    · exact pure (hF e) fun _ _ h => h
    · exact pure (hJ s') fun _ _ h => h
    · exact pure (hR b) fun _ _ h => h
  · cases b with
    | ok b => exact hR b
    | error e => exact hF e

theorem actForEach {f : β → Act Op ε Unit} (hP : Stable K t P) (hF : ∀ e, Stable K t (F e))
    (xs : List β) (hf : ∀ x ∈ xs, Triple S D K t P (f x) (Effect.post (fun _ => P) F)) :
    Triple S D K t P (Act.forEach f xs) (Effect.post (fun _ => P) F) := by
  induction xs with
  | nil => exact pure hP fun _ _ h => h
  | cons x xs ih =>
    exact andThen (hf x List.mem_cons_self) hF fun _ =>
      ih fun y hy => hf y (List.mem_cons_of_mem _ hy)

theorem actForEachLeft {f : β → Act Op ε Unit} {J : List β → W → Prop}
    (hs : Stable K t (J [])) (hF : ∀ e, Stable K t (F e))
    (hf : ∀ x xs, Triple S D K t (J (x :: xs)) (f x) (Effect.post (fun _ => J xs) F))
    (xs : List β) :
    Triple S D K t (J xs) (Act.forEach f xs) (Effect.post (fun _ => J []) F) := by
  induction xs with
  | nil => exact pure hs fun _ _ h => h
  | cons x xs ih => exact andThen (hf x xs) hF fun _ => ih

end Triple

end Effect
