import JmapBridge.Effect.Eval

/-! What all executions of a program come to, and what some execution comes to, with
nobody else at work. -/

namespace Effect

open Prog

universe u

variable {Op : Type → Type u} {W C E : Type}

/-- Every execution that begins where `P` holds ends where `Q` does. -/
def Ends (S : System Op W C E) (D : Discipline Op W C E) (t : Nat) {α : Type} (P : W → Prop)
    (x : Prog Op α) (Q : α → W → Prop) : Prop :=
  ∀ w r w', P w → Eval S D t x w r w' → Q r w'

/-- Some execution that begins in the world ends where `Q` holds. -/
def Can (S : System Op W C E) (D : Discipline Op W C E) (t : Nat) {α : Type} (x : Prog Op α)
    (w : W) (Q : α → W → Prop) : Prop :=
  ∃ r w', Eval S D t x w r w' ∧ Q r w'

variable {S : System Op W C E} {D : Discipline Op W C E} {t : Nat} {α β γ ε : Type}
  {P P' : W → Prop}

namespace Ends

variable {Q Q' : α → W → Prop} {x : Prog Op α}

theorem weaken (h : Ends S D t P x Q) (hP : ∀ w, P' w → P w) (hQ : ∀ r w, Q r w → Q' r w) :
    Ends S D t P' x Q' := fun w r w' hw he => hQ r w' (h w r w' (hP w hw) he)

theorem post (h : Ends S D t P x Q) (hQ : ∀ r w, Q r w → Q' r w) : Ends S D t P x Q' :=
  h.weaken (fun _ h => h) hQ

theorem and (h : Ends S D t P x Q) (h' : Ends S D t P' x Q') :
    Ends S D t (fun w => P w ∧ P' w) x fun r w => Q r w ∧ Q' r w :=
  fun w r w' hw he => ⟨h w r w' hw.1 he, h' w r w' hw.2 he⟩

theorem pure {a : α} (h : ∀ w, P w → Q a w) : Ends S D t P (.pure a) Q := by
  intro w r w' hw he
  obtain ⟨rfl, rfl⟩ := Eval.pure_iff.mp he
  exact h _ hw

theorem call {o : Op α} (h : ∀ w c r w', P w → D.step t o c w → S.exec t o c w = some (r, w') →
    Q r w') : Ends S D t P (Prog.call o) Q := by
  intro w r w' hw he
  obtain ⟨c, hc, hexec⟩ := Eval.call_iff.mp he
  exact h w c r w' hw hc hexec

theorem bind {f : α → Prog Op β} {R : β → W → Prop} (hx : Ends S D t P x Q)
    (hf : ∀ a, Ends S D t (Q a) (f a) R) : Ends S D t P (x.bind f) R := by
  intro w r w' hw he
  obtain ⟨a, w₁, ha, hr⟩ := Eval.bind_iff.mp he
  exact hf a w₁ r w' (hx w a w₁ hw ha) hr

theorem only {φ : ∀ β : Type, Op β → Prop} (hφ : ∀ (β : Type) (o : Op β) (c : C) w b w', φ β o →
    D.step t o c w → S.exec t o c w = some (b, w') → P w → P w') (hx : x.Only φ) :
    Ends S D t P x fun _ => P := fun _ _ _ hw he => he.only hφ hx hw

theorem closed {φ : ∀ β : Type, Op β → Prop} (hφ : ∀ (β : Type) (o : Op β) (c : C) w b w', φ β o →
    D.step t o c w → S.exec t o c w = some (b, w') → P w → P w') :
    Prog.Closed φ fun _ x => Ends S D t P x fun _ => P where
  pure _ := pure fun _ h => h
  call ho := call fun w c r w' hw hc he => hφ _ _ c w r w' ho hc he hw
  bind hx hf := bind hx hf
  loop hbody := fun _ _ _ hw he => by
    obtain ⟨b, w₁, hR, hk⟩ := Eval.loop_induct (J := fun _ w => P w) (R := fun _ w => P w)
      (fun s w r w' hJ hturn => by
        have hkept := hbody s w r w' hJ hturn
        cases r with
        | inl _ => exact hkept
        | inr _ => exact hkept) he hw
    obtain ⟨rfl, rfl⟩ := Eval.pure_iff.mp hk
    exact hR

theorem forEach {f : β → Prog Op Unit} {J : List β → W → Prop}
    (hf : ∀ y ys, Ends S D t (J (y :: ys)) (f y) fun _ => J ys) (xs : List β) :
    Ends S D t (J xs) (Prog.forEach f xs) fun _ => J [] :=
  fun _ _ _ hw he => Eval.forEach_induct (fun y ys w₁ w₂ hJ hy => hf y ys w₁ () w₂ hJ hy) he hw

end Ends

/-! Fallible programs. -/

/-- `Q` of a value, and `F` of an error. -/
def onResult (Q : α → W → Prop) (F : ε → W → Prop) : Except ε α → W → Prop
  | .ok a => Q a
  | .error e => F e

namespace Ends

variable {Q : α → W → Prop} {F : ε → W → Prop} {x : Act Op ε α}

theorem ok {a : α} (h : ∀ w, P w → Q a w) :
    Ends S D t P (Act.ok a : Act Op ε α) (onResult Q F) := pure h

theorem fail {e : ε} (h : ∀ w, P w → F e w) :
    Ends S D t P (Act.fail e : Act Op ε α) (onResult Q F) := pure h

theorem andThen {f : α → Act Op ε β} {R : β → W → Prop}
    (hx : Ends S D t P x (onResult Q F)) (hf : ∀ a, Ends S D t (Q a) (f a) (onResult R F)) :
    Ends S D t P (x.andThen f) (onResult R F) :=
  bind hx fun
    | .ok a => hf a
    | .error _ => pure fun _ h => h

theorem after {f : α → Act Op ε β} {R : Except ε β → W → Prop}
    (hx : Ends S D t P x (onResult Q fun _ _ => False)) (hf : ∀ a, Ends S D t (Q a) (f a) R) :
    Ends S D t P (x.andThen f) R :=
  bind hx fun
    | .ok a => hf a
    | .error _ => fun _ _ _ h _ => h.elim

theorem actLoop {σ : Type} {body : σ → Act Op ε (σ ⊕ β)} {s : σ} {J : σ → W → Prop}
    {R : β → W → Prop} (hbody : ∀ s, Ends S D t (J s) (body s) (onResult (Sum.elim J R) F)) :
    Ends S D t (J s) (Act.loop body s) (onResult R F) := by
  intro w r w' hw he
  refine Eval.actLoop_induct (J := J) (fun s w r w' hJ hturn => ?_) he hw
  have hkept := hbody s w r w' hJ hturn
  match r with
  | .ok (.inl _) => exact hkept
  | .ok (.inr _) => exact hkept
  | .error _ => exact hkept

theorem always_iff {R : W → Prop} : Ends S D t P x (onResult (fun _ => R) fun _ => R) ↔
    Ends S D t P x fun _ => R := by
  constructor
  · refine fun h => h.post fun r w hr => ?_
    cases r with
    | ok _ => exact hr
    | error _ => exact hr
  · refine fun h => h.post fun r w hr => ?_
    cases r with
    | ok _ => exact hr
    | error _ => exact hr

/-- What holds however the first program ends is carried to the end of both. -/
theorem andThenAlways {f : α → Act Op ε β} {R R' : W → Prop} (hx : Ends S D t P x fun _ => R)
    (hf : ∀ a, Ends S D t R (f a) fun _ => R') (hR : ∀ w, R w → R' w) :
    Ends S D t P (x.andThen f) fun _ => R' :=
  bind hx fun
    | .ok a => hf a
    | .error _ => pure hR

theorem liftAlways {p : Prog Op α} {R : W → Prop} (h : Ends S D t P p fun _ => R) :
    Ends S D t P (Act.lift p : Act Op ε α) fun _ => R :=
  bind h fun _ => pure fun _ h => h

theorem attemptAlways {R : W → Prop} (h : Ends S D t P x fun _ => R) :
    Ends S D t P x.attempt fun _ => R :=
  bind h fun _ => pure fun _ h => h

theorem lift {p : Prog Op α} (h : Ends S D t P p Q) :
    Ends S D t P (Act.lift p : Act Op ε α) (onResult Q F) :=
  bind h fun _ => pure fun _ h => h

theorem attempt {R : Except ε α → W → Prop} (h : Ends S D t P x R) :
    Ends S D t P x.attempt (onResult R F) :=
  bind h fun _ => pure fun _ h => h

end Ends

namespace Can

variable {Q : α → W → Prop} {w : W}

theorem mono {Q' : α → W → Prop} {x : Prog Op α} (h : Can S D t x w Q)
    (hQ : ∀ r w', Q r w' → Q' r w') : Can S D t x w Q' := by
  obtain ⟨r, w', he, hq⟩ := h
  exact ⟨r, w', he, hQ r w' hq⟩

theorem pure {a : α} (h : Q a w) : Can S D t (.pure a) w Q := ⟨a, w, .pure, h⟩

theorem call {o : Op α} {c : C} {r : α} {w' : W} (hc : D.step t o c w)
    (he : S.exec t o c w = some (r, w')) (h : Q r w') : Can S D t (Prog.call o) w Q :=
  ⟨r, w', Eval.call_iff.mpr ⟨c, hc, he⟩, h⟩

theorem bind {x : Prog Op β} {f : β → Prog Op α}
    (h : Can S D t x w fun b w' => Can S D t (f b) w' Q) : Can S D t (x.bind f) w Q := by
  obtain ⟨b, w₁, hx, r, w₂, hf, hq⟩ := h
  exact ⟨r, w₂, hx.bind hf, hq⟩

theorem andThen {x : Act Op ε β} {f : β → Act Op ε γ} {Q : Except ε γ → W → Prop}
    (h : Can S D t x w (onResult (fun b w' => Can S D t (f b) w' Q) fun e w' => Q (.error e) w')) :
    Can S D t (x.andThen f) w Q := by
  refine bind (h.mono fun r w' hr => ?_)
  cases r with
  | ok b => exact hr
  | error e => exact pure hr

theorem lift {p : Prog Op β} {Q : Except ε β → W → Prop}
    (h : Can S D t p w fun b w' => Q (.ok b) w') : Can S D t (Act.lift p : Act Op ε β) w Q :=
  bind (h.mono fun _ _ hq => pure hq)

theorem ok {b : β} {Q : Except ε β → W → Prop} (h : Q (.ok b) w) :
    Can S D t (Act.ok b : Act Op ε β) w Q := pure h

theorem fail {e : ε} {Q : Except ε β → W → Prop} (h : Q (.error e) w) :
    Can S D t (Act.fail e : Act Op ε β) w Q := pure h

theorem attempt {x : Act Op ε β} {Q : Except ε (Except ε β) → W → Prop}
    (h : Can S D t x w fun r w' => Q (.ok r) w') : Can S D t x.attempt w Q :=
  bind (h.mono fun _ _ hq => pure hq)

theorem leave {σ : Type} {body : σ → Act Op ε (σ ⊕ β)} {s : σ} {Q : Except ε β → W → Prop}
    (h : Can S D t (body s) w (onResult (fun r w' => ∃ b, r = .inr b ∧ Q (.ok b) w')
      fun e w' => Q (.error e) w')) : Can S D t (Act.loop body s) w Q := by
  obtain ⟨r, w', hbody, hr⟩ := h
  cases r with
  | ok r =>
    obtain ⟨b, rfl, hq⟩ := hr
    exact ⟨.ok b, w', .done (hbody.bind .pure) .pure, hq⟩
  | error e => exact ⟨.error e, w', .done (hbody.bind .pure) .pure, hr⟩

end Can

/-! Programs without loops come to an end. -/

/-- The program has no loop. -/
def Prog.Straight : {α : Type} → Prog Op α → Prop
  | _, .pure _ => True
  | _, .op _ k => ∀ b, Straight (k b)
  | _, .loop _ _ _ => False

namespace Prog.Straight

theorem call {o : Op α} : (Prog.call o).Straight := fun _ => trivial

theorem bind {p : Prog Op α} {f : α → Prog Op β} (hp : p.Straight) (hf : ∀ a, (f a).Straight) :
    (p.bind f).Straight := by
  induction p with
  | pure a => exact hf a
  | op o k ih => exact fun b => ih b (hp b) hf
  | loop body s k => exact hp.elim

theorem andThen {x : Act Op ε α} {f : α → Act Op ε β} (hx : x.Straight)
    (hf : ∀ a, (f a).Straight) : (x.andThen f).Straight :=
  bind hx fun
    | .ok a => hf a
    | .error _ => trivial

theorem lift {p : Prog Op α} (h : p.Straight) : (Act.lift p : Act Op ε α).Straight :=
  bind h fun _ => trivial

theorem attempt {x : Act Op ε α} (h : x.Straight) : x.attempt.Straight := bind h fun _ => trivial

theorem can {p : Prog Op α} (hp : p.Straight)
    (hstep : ∀ {β : Type} (o : Op β) w, ∃ c r, D.step t o c w ∧ S.exec t o c w = some r) (w : W) :
    Can S D t p w fun _ _ => True := by
  induction p generalizing w with
  | pure a => exact Can.pure trivial
  | op o k ih =>
    obtain ⟨c, r, hc, he⟩ := hstep o w
    obtain ⟨a, w', heval, -⟩ := ih r.1 (hp r.1) r.2
    exact ⟨a, w', .op hc he heval, trivial⟩
  | loop body s k => exact hp.elim

end Prog.Straight

end Effect
