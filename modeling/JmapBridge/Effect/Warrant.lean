import JmapBridge.Effect.Triple
import JmapBridge.Effect.Watch

/-! Warrants. A run is logged, one entry for each operation, and an operation may be one that
needs a warrant: something the log says at that moment. Where every program performs such an
operation only with its warrant, every entry of the log of any interleaving is warranted by
the entries before it. -/

namespace Effect

universe u

variable {Op : Type → Type u} {W C E N : Type}

/-- What is logged of an operation, what warrants it, and what the log says of the world. -/
structure Book (S : System Op W C E) (N : Type) where
  entry : Nat → ∀ {β : Type}, Op β → C → β → W → N
  grant : List N → N → Prop
  agrees : W → List N → Prop := fun _ _ => True
  step : ∀ {t : Nat} {β : Type} {o : Op β} {c : C} {b : β} {w w' : W} {log : List N},
    agrees w log → grant log (entry t o c b w) → S.exec t o c w = some (b, w') →
      agrees w' (entry t o c b w :: log)
  env : ∀ {e : E} {w w' : W} {log : List N}, agrees w log → S.env e w = some w' → agrees w' log
  drop : ∀ {t : Nat} {w : W} {log : List N}, agrees w log → agrees (S.drop t w) log

variable {S : System Op W C E} {B : Book S N} {D : Discipline Op W C E} {t : Nat}
  {α β γ σ ε : Type}

namespace Book

/-- The newest entry comes first. -/
def watcher (B : Book S N) : Watcher Op W C (List N) where
  note t _ o c b w _ log := B.entry t o c b w :: log

/-- The log of a run. -/
def log (B : Book S N) (es : List (Event C E)) (w : W) : List N :=
  S.notes B.watcher es (Pool.boot w) []

/-- Every entry is warranted by the entries before it. -/
def Granted (B : Book S N) (log : List N) : Prop :=
  ∀ newer n older, log = newer ++ n :: older → B.grant older n

theorem granted_nil : B.Granted [] := by
  intro newer n older h
  simp at h

theorem Granted.cons {n : N} {log : List N} (h : B.Granted log) (hn : B.grant log n) :
    B.Granted (n :: log) := by
  intro newer n' older heq
  cases newer with
  | nil =>
    obtain ⟨rfl, rfl⟩ := List.cons.inj heq
    exact hn
  | cons m newer =>
    obtain ⟨-, hlog⟩ := List.cons.inj heq
    exact h newer n' older hlog

/-- The log only grows. -/
def contract (B : Book S N) : Contract (W × List N) where
  inv p := B.Granted p.2 ∧ B.agrees p.1 p.2
  rely _ p p' := ∃ newer, p'.2 = newer ++ p.2
  refl _ p := ⟨[], rfl⟩
  trans := by
    rintro _ a b c ⟨l, hl⟩ ⟨l', hl'⟩
    exact ⟨l' ++ l, by rw [hl', hl, List.append_assoc]⟩

theorem exec_watched {o : Op β} {c : C} {b : β} {p p' : W × List N}
    (h : (S.watched B.watcher).exec t o c p = some (b, p')) :
    ∃ w', S.exec t o c p.1 = some (b, w') ∧ p' = (w', B.entry t o c b p.1 :: p.2) := by
  obtain ⟨⟨b₁, w'⟩, hexec, heq⟩ := Option.map_eq_some_iff.mp h
  obtain ⟨rfl, rfl⟩ := Prod.mk.inj heq
  exact ⟨w', hexec, rfl⟩

end Book

/-! Assertions about the log. -/

/-- Further entries leave the assertion true. -/
def Lasting (P : List N → Prop) : Prop := ∀ n log, P log → P (n :: log)

namespace Lasting

theorem append {P : List N → Prop} (hP : Lasting P) (newer : List N) {log : List N}
    (h : P log) : P (newer ++ log) := by
  induction newer with
  | nil => exact h
  | cons n newer ih => exact hP n _ ih

theorem stable {P : List N → Prop} (hP : Lasting P) :
    Stable B.contract t fun p => P p.2 := by
  rintro p p' h ⟨newer, hlog⟩ -
  rw [hlog]
  exact hP.append newer h

theorem mem (n : N) : Lasting fun log : List N => n ∈ log :=
  fun _ _ h => List.mem_cons_of_mem _ h

theorem const (p : Prop) : Lasting fun _ : List N => p := fun _ _ h => h

theorem and {P Q : List N → Prop} (hP : Lasting P) (hQ : Lasting Q) :
    Lasting fun log => P log ∧ Q log := fun n log h => ⟨hP n log h.1, hQ n log h.2⟩

theorem imp {p : Prop} {P : List N → Prop} (hP : Lasting P) : Lasting fun log => p → P log :=
  fun n log h hp => hP n log (h hp)

end Lasting

theorem Lasting.exists {ι : Type} {P : ι → List N → Prop} (h : ∀ i, Lasting (P i)) :
    Lasting fun log => ∃ i, P i log := fun n log ⟨i, hi⟩ => ⟨i, h i n log hi⟩

/-- A fact holds from the start, or since an entry has written it. -/
def Since (held : Prop) (writes : N → Prop) (log : List N) : Prop := held ∨ ∃ n ∈ log, writes n

theorem Since.cons {held : Prop} {writes : N → Prop} {log : List N} (h : Since held writes log)
    (n : N) : Since held writes (n :: log) :=
  h.imp_right fun ⟨m, hm, hw⟩ => ⟨m, List.mem_cons_of_mem _ hm, hw⟩

theorem Since.of_head {held : Prop} {writes : N → Prop} {n : N} {log : List N} (h : writes n) :
    Since held writes (n :: log) := .inr ⟨n, List.mem_cons_self, h⟩

theorem Book.Granted.since {held : Prop} {writes : N → Prop} {newer log : List N}
    (hg : B.Granted (newer ++ log)) (h : Since held writes log) :
    held ∨ ∃ later n older, log = later ++ n :: older ∧ writes n ∧ B.grant older n := by
  rcases h with h | ⟨n, hmem, hw⟩
  · exact .inl h
  · obtain ⟨later, older, rfl⟩ := List.append_of_mem hmem
    exact .inr ⟨later, n, older, rfl, hw,
      hg (newer ++ later) n older (List.append_assoc ..).symm⟩

/-- Task `t` performs the operations of `x` only with their warrants, given `P` of the log. -/
def Careful (B : Book S N) (D : Discipline Op W C E) (t : Nat) (P : List N → Prop)
    (x : Prog Op α) (Q : α → List N → Prop) : Prop :=
  Triple (S.watched B.watcher) (D.watched (List N)) B.contract t (fun p => P p.2) x
    fun a p => Q a p.2

/-- The operation may be performed whatever the log says. -/
def Unguarded (B : Book S N) (t : Nat) (β : Type) (o : Op β) : Prop :=
  ∀ log c b w, B.grant log (B.entry t o c b w)

namespace Careful

variable {P P' : List N → Prop} {Q Q' : α → List N → Prop}

theorem pre {A : List N → Prop} {x : Prog Op α} (h : Careful B D t A x Q)
    (hP : ∀ log, P log → A log) : Careful B D t P x Q := Triple.pre h fun p _ => hP p.2

theorem absurd {x : Prog Op α} (hP : ∀ log, ¬P log) : Careful B D t P x Q :=
  fun p _ h => (hP p.2 h).elim

theorem forget {x : Prog Op α} (h : Careful B D t (fun _ => True) x Q) : Careful B D t P x Q :=
  pre h fun _ _ => trivial

theorem trust {x : Prog Op α} (h : Careful B D t P' x Q)
    (hP : ∀ log, B.Granted log → P log → P' log) : Careful B D t P x Q :=
  Triple.pre h fun p hi => hP p.2 hi.1

theorem post {x : Prog Op α} (h : Careful B D t P x Q) (hQ : ∀ a log, Q a log → Q' a log) :
    Careful B D t P x Q' := Triple.post h fun a p _ => hQ a p.2

theorem pure {a : α} (hP : Lasting P) (h : ∀ log, P log → Q a log) :
    Careful B D t P (.pure a) Q := Triple.pure hP.stable fun p _ => h p.2

theorem perform {o : Op β} {R : β → List N → Prop} (hP : Lasting P) (hR : ∀ b, Lasting (R b))
    (hg : ∀ log c b w w', P log → B.agrees w log → S.exec t o c w = some (b, w') →
      B.grant log (B.entry t o c b w))
    (hn : ∀ log c b w w', P log → B.agrees w log → S.exec t o c w = some (b, w') →
      R b (B.entry t o c b w :: log)) :
    Careful B D t P (Prog.call o) R := by
  refine Triple.call hP.stable (fun p c b p' hi hp _ he => ?_) fun b => (hR b).stable
  obtain ⟨w', hexec, rfl⟩ := Book.exec_watched he
  have hgrant : B.grant p.2 (B.entry t o c b p.1) := hg p.2 c b p.1 w' hp hi.2 hexec
  exact ⟨⟨hi.1.cons hgrant, B.step hi.2 hgrant hexec⟩, fun _ _ => ⟨[_], rfl⟩,
    hn p.2 c b p.1 w' hp hi.2 hexec⟩

theorem call {o : Op β} {R : β → List N → Prop} (hP : Lasting P) (hR : ∀ b, Lasting (R b))
    (hg : ∀ log c b w, P log → B.grant log (B.entry t o c b w))
    (hn : ∀ log c b w, P log → R b (B.entry t o c b w :: log)) :
    Careful B D t P (Prog.call o) R :=
  perform hP hR (fun log c b w _ hp _ _ => hg log c b w hp) fun log c b w _ hp _ _ =>
    hn log c b w hp

theorem bind {x : Prog Op α} {f : α → Prog Op γ} {Q : γ → List N → Prop}
    {R : α → List N → Prop} (hx : Careful B D t P x R)
    (hf : ∀ a, Careful B D t (R a) (f a) Q) : Careful B D t P (x.bind f) Q :=
  Triple.bind hx hf

theorem closed (hP : Lasting P) :
    Prog.Closed (Unguarded B t) fun _ x => Careful B D t P x fun _ => P :=
  (Triple.closed hP.stable).mono fun _ o ho p c b p' hp hi _ he => by
    obtain ⟨w', hexec, rfl⟩ := Book.exec_watched he
    have hgrant : B.grant p.2 (B.entry t o c b p.1) := ho p.2 c b p.1
    exact ⟨⟨hi.1.cons hgrant, B.step hi.2 hgrant hexec⟩, fun _ _ => ⟨[_], rfl⟩, hP _ _ hp⟩

theorem frame {F : List N → Prop} (hF : Lasting F) {x : Prog Op α} (h : Careful B D t P x Q) :
    Careful B D t (fun log => P log ∧ F log) x fun a log => Q a log ∧ F log := by
  refine Triple.frame (F := fun p : W × List N => F p.2) hF.stable (fun β o c p b p' hp he => ?_) h
  obtain ⟨w', -, rfl⟩ := Book.exec_watched he
  exact hF _ _ hp

end Careful

/-- What is known of the value of a fallible program. Nothing is of its errors. -/
def onOk (R : α → List N → Prop) : Except ε α → List N → Prop := post R fun _ _ => True

@[simp] theorem onOk_ok (R : α → List N → Prop) (a : α) :
    onOk R (.ok a : Except ε α) = R a := rfl

@[simp] theorem onOk_error (R : α → List N → Prop) (e : ε) (log : List N) :
    onOk R (.error e) log = True := rfl

theorem Lasting.onOk {R : α → List N → Prop} (hR : ∀ a, Lasting (R a)) (r : Except ε α) :
    Lasting (onOk R r) := by
  cases r with
  | ok a => exact hR a
  | error e => exact .const True

namespace Careful

variable {P : List N → Prop} {R : α → List N → Prop}

theorem ok {a : α} (hP : Lasting P) (h : ∀ log, P log → R a log) :
    Careful B D t P (Act.ok a : Act Op ε α) (onOk R) := pure hP h

theorem fail {e : ε} : Careful B D t P (Act.fail e : Act Op ε α) (onOk R) :=
  forget (pure (.const True) fun _ _ => trivial)

theorem ofOption {e : ε} {o : Option α} (hP : Lasting P) :
    Careful B D t P (Act.ofOption e o : Act Op ε α) (onOk fun a log => P log ∧ o = some a) := by
  cases o with
  | none => exact fail
  | some a => exact ok hP fun log h => ⟨h, rfl⟩

theorem andThen {x : Act Op ε α} {f : α → Act Op ε γ} {Q : γ → List N → Prop}
    (hx : Careful B D t P x (onOk R)) (hf : ∀ a, Careful B D t (R a) (f a) (onOk Q)) :
    Careful B D t P (x.andThen f) (onOk Q) := by
  refine bind hx fun r => ?_
  cases r with
  | ok a => exact hf a
  | error e => exact fail

theorem lift {x : Prog Op α} (hx : Careful B D t P x R) (hR : ∀ a, Lasting (R a)) :
    Careful B D t P (Act.lift x : Act Op ε α) (onOk R) :=
  bind hx fun a => pure (hR a) fun _ h => h

theorem attempt {x : Act Op ε α} (hx : Careful B D t P x (onOk R)) (hR : ∀ a, Lasting (R a)) :
    Careful B D t P x.attempt (onOk fun r : Except ε α => onOk R r) :=
  bind hx fun r => pure (.onOk hR r) fun _ h => h

theorem weaken {x : Act Op ε α} {R' : α → List N → Prop} (hx : Careful B D t P x (onOk R))
    (h : ∀ a log, R a log → R' a log) : Careful B D t P x (onOk R') := by
  refine post hx fun r log hr => ?_
  cases r with
  | ok a => exact h a log hr
  | error e => trivial

theorem quiet {x : Act Op ε α} (hP : Lasting P) (hx : Prog.Only (Unguarded B t) x) :
    Careful B D t P x (onOk fun _ => P) := by
  refine post ((closed hP).of_only hx) fun r log h => ?_
  cases r with
  | ok a => exact h
  | error e => trivial

theorem actLoop {body : σ → Act Op ε (σ ⊕ β)} {s : σ} {J : σ → List N → Prop}
    {R : β → List N → Prop} (hJ : ∀ s, Lasting (J s)) (hR : ∀ b, Lasting (R b))
    (hb : ∀ s, Careful B D t (J s) (body s) (onOk (Sum.elim J R))) :
    Careful B D t (J s) (Act.loop body s) (onOk R) := by
  have hturn : ∀ s, Triple (S.watched B.watcher) (D.watched (List N)) B.contract t
      (fun p => J s p.2) (body s)
      (Effect.post (Sum.elim (fun s p => J s p.2) fun b p => R b p.2) fun _ _ => True) := by
    intro s
    refine Triple.post (show Triple _ _ _ _ _ _ _ from hb s) fun r p _ h => ?_
    rcases r with e | (s' | b)
    · trivial
    · exact h
    · exact h
  refine Triple.post (Triple.actLoop (fun s => (hJ s).stable) (fun b => (hR b).stable)
    (fun _ => .const True) hturn) fun r p _ h => ?_
  cases r with
  | ok b => exact h
  | error e => trivial

theorem actForEach {f : β → Act Op ε Unit} (hP : Lasting P) (xs : List β)
    (hf : ∀ x ∈ xs, Careful B D t P (f x) (onOk fun _ => P)) :
    Careful B D t P (Act.forEach f xs) (onOk fun _ => P) := by
  induction xs with
  | nil => exact ok hP fun _ h => h
  | cons x xs ih =>
    exact andThen (hf x List.mem_cons_self) fun _ => ih fun y hy => hf y (List.mem_cons_of_mem _ hy)

end Careful

/-- The rule for warrants. A program may count on what the log says of a world in which it may
start. -/
theorem Book.granted_of_run
    (hentry : ∀ t, Careful B D t (fun log => ∃ w, B.agrees w log ∧ D.start t w) (S.entry t)
      fun _ _ => True)
    {es : List (Event C E)} {w : W} {q : Pool Op W} (hw : B.agrees w [])
    (hrun : S.run es (Pool.boot w) = some q) (hD : S.Admits D.meets es (Pool.boot w)) :
    B.Granted (B.log es w) ∧ B.agrees q.world (B.log es w) := by
  have hup : Upholds (S.watched B.watcher) (D.watched (List N)) B.contract :=
    { start := fun t p hi _ hstart => hentry t p hi ⟨p.1, hi.2, hstart⟩
      env := fun e p p' hi _ he => by
        obtain ⟨w', hw', rfl⟩ := Option.map_eq_some_iff.mp he
        exact ⟨⟨hi.1, B.env hi.2 hw'⟩, fun _ => ⟨[], rfl⟩⟩
      cancel := fun t p hi _ => ⟨⟨hi.1, B.drop hi.2⟩, fun _ _ => ⟨[], rfl⟩, trivial⟩ }
  exact hup.inv_of_notes ⟨Book.granted_nil, hw⟩ (fun _ => trivial) hrun hD

/-! Programs are shown careful by the rules alone. -/
attribute [irreducible] Careful

end Effect
