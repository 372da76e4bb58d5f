import JmapBridge.Effect.Prog

/-! Interleaved runs of programs over one shared world. The scheduler, the
answers of the environment and the moments of cancellation are all events of
the run, so a run is plain data and can be evaluated. -/

namespace Effect

universe u

/-- `exec` performs one operation for a task under an answer chosen by the
environment, and is `none` where that answer is not possible. `drop` is what
a cancelled task leaves behind. -/
structure System (Op : Type → Type u) (W C E : Type) where
  exec : Nat → ∀ {β : Type}, Op β → C → W → Option (β × W)
  env : E → W → Option W
  drop : Nat → W → W
  entry : Nat → Prog Op Unit

structure Pool (Op : Type → Type u) (W : Type) where
  world : W
  tasks : Nat → Option (Prog Op Unit)

inductive Event (C E : Type) where
  | start (t : Nat)
  | step (t : Nat) (c : C)
  | tau (t : Nat)
  | cancel (t : Nat)
  | env (e : E)

variable {Op : Type → Type u} {W C E : Type}

namespace Pool

def boot (w : W) : Pool Op W := ⟨w, fun _ => none⟩

def put (q : Pool Op W) (t : Nat) (p : Option (Prog Op Unit)) (w : W) : Pool Op W :=
  ⟨w, fun i => if i = t then p else q.tasks i⟩

@[simp] theorem put_world (q : Pool Op W) (t : Nat) (p : Option (Prog Op Unit)) (w : W) :
    (q.put t p w).world = w := rfl

@[simp] theorem put_tasks_self (q : Pool Op W) (t : Nat) (p : Option (Prog Op Unit)) (w : W) :
    (q.put t p w).tasks t = p := by simp [put]

theorem put_tasks_ne (q : Pool Op W) {t i : Nat} (h : i ≠ t) (p : Option (Prog Op Unit)) (w : W) :
    (q.put t p w).tasks i = q.tasks i := by simp [put, h]

end Pool

namespace System

variable (S : System Op W C E)

/-- One event. A task that has returned is removed by a silent event, and a
task at the head of a loop takes a silent event to enter the body. -/
def next : Event C E → Pool Op W → Option (Pool Op W)
  | .start t, q =>
    match q.tasks t with
    | none => some (q.put t (some (S.entry t)) q.world)
    | some _ => none
  | .step t c, q =>
    match q.tasks t with
    | some (.op o k) => (S.exec t o c q.world).map fun r => q.put t (some (k r.1)) r.2
    | _ => none
  | .tau t, q =>
    match q.tasks t with
    | some (.pure _) => some (q.put t none q.world)
    | some (.loop body s k) => some (q.put t (some (Prog.turn body k s)) q.world)
    | _ => none
  | .cancel t, q =>
    match q.tasks t with
    | some _ => some (q.put t none (S.drop t q.world))
    | none => none
  | .env e, q => (S.env e q.world).map fun w => { q with world := w }

def run : List (Event C E) → Pool Op W → Option (Pool Op W)
  | [], q => some q
  | e :: es, q => (S.next e q).bind (run es)

theorem run_append (es fs : List (Event C E)) (q : Pool Op W) :
    S.run (es ++ fs) q = (S.run es q).bind (S.run fs) := by
  induction es generalizing q with
  | nil => rfl
  | cons e es ih =>
    cases hn : S.next e q with
    | none => simp [run, hn]
    | some q' => simpa [run, hn] using ih q'

/-- Every event of the run satisfies `G` in the state where it happens. -/
def Admits (G : Event C E → Pool Op W → Prop) : List (Event C E) → Pool Op W → Prop
  | [], _ => True
  | e :: es, q => G e q ∧ ∀ q', S.next e q = some q' → Admits G es q'

instance decidableAdmits {G : Event C E → Pool Op W → Prop} [∀ e q, Decidable (G e q)] :
    ∀ es q, Decidable (S.Admits G es q)
  | [], _ => isTrue trivial
  | e :: es, q =>
    match hn : S.next e q with
    | none => decidable_of_iff (G e q) (by simp [Admits, hn])
    | some q' =>
      have : Decidable (S.Admits G es q') := decidableAdmits es q'
      decidable_of_iff (G e q ∧ S.Admits G es q') (by simp [Admits, hn])

theorem admits_of_mem {G : Event C E → Pool Op W → Prop} {es : List (Event C E)}
    (h : ∀ e ∈ es, ∀ q, G e q) (q : Pool Op W) : S.Admits G es q := by
  induction es generalizing q with
  | nil => trivial
  | cons e es ih =>
    exact ⟨h e List.mem_cons_self q, fun q' _ =>
      ih (fun e' he => h e' (List.mem_cons_of_mem _ he)) q'⟩

theorem admits_of_forall {G : Event C E → Pool Op W → Prop} (h : ∀ e q, G e q)
    (es : List (Event C E)) (q : Pool Op W) : S.Admits G es q :=
  S.admits_of_mem (fun e _ => h e) q

theorem admits_append {G : Event C E → Pool Op W → Prop} {es fs : List (Event C E)}
    {q q' : Pool Op W} (hrun : S.run es q = some q') (h : S.Admits G (es ++ fs) q) :
    S.Admits G es q ∧ S.Admits G fs q' := by
  induction es generalizing q with
  | nil =>
    obtain rfl : q = q' := Option.some.inj hrun
    exact ⟨trivial, h⟩
  | cons e es ih =>
    cases hn : S.next e q with
    | none => simp [run, hn] at hrun
    | some q₁ =>
      simp only [run, hn, Option.bind_some] at hrun
      have hrest := ih hrun (h.2 q₁ hn)
      refine ⟨⟨h.1, fun q₂ hq₂ => ?_⟩, hrest.2⟩
      obtain rfl : q₁ = q₂ := Option.some.inj (hn ▸ hq₂)
      exact hrest.1

/-- What is known in every state of the run may be used to strengthen the guard. -/
theorem admits_mono {G G' : Event C E → Pool Op W → Prop} {P : Pool Op W → Prop}
    (hstep : ∀ e q q', P q → G e q → S.next e q = some q' → P q')
    (hG : ∀ e q, P q → G e q → G' e q) {es : List (Event C E)} {q : Pool Op W} (h : P q)
    (hes : S.Admits G es q) : S.Admits G' es q := by
  induction es generalizing q with
  | nil => trivial
  | cons e es ih =>
    refine ⟨hG e q h hes.1, fun q' hq' => ?_⟩
    exact ih (hstep e q q' h hes.1 hq') (hes.2 q' hq')

theorem run_induct {G : Event C E → Pool Op W → Prop} {P : Pool Op W → Prop}
    (hstep : ∀ e q q', P q → G e q → S.next e q = some q' → P q')
    {es : List (Event C E)} {q q' : Pool Op W} (h : P q) (hrun : S.run es q = some q')
    (hG : S.Admits G es q) : P q' := by
  induction es generalizing q with
  | nil =>
    obtain rfl : q = q' := Option.some.inj hrun
    exact h
  | cons e es ih =>
    cases hn : S.next e q with
    | none => simp [run, hn] at hrun
    | some q₁ =>
      simp only [run, hn, Option.bind_some] at hrun
      exact ih (hstep e q q₁ h hG.1 hn) hrun (hG.2 q₁ hn)

variable {S}

theorem next_start {t : Nat} {q q' : Pool Op W} (h : S.next (.start t) q = some q') :
    q.tasks t = none ∧ q' = q.put t (some (S.entry t)) q.world := by
  cases ht : q.tasks t with
  | none => simpa [next, ht, eq_comm] using h
  | some p => simp [next, ht] at h

theorem next_step {t : Nat} {c : C} {q q' : Pool Op W} (h : S.next (.step t c) q = some q') :
    ∃ (β : Type) (o : Op β) (k : β → Prog Op Unit) (b : β) (w : W),
      q.tasks t = some (.op o k) ∧ S.exec t o c q.world = some (b, w) ∧
        q' = q.put t (some (k b)) w := by
  cases ht : q.tasks t with
  | none => simp [next, ht] at h
  | some p =>
    cases p with
    | pure a => simp [next, ht] at h
    | loop body s k => simp [next, ht] at h
    | op o k =>
      cases he : S.exec t o c q.world with
      | none => simp [next, ht, he] at h
      | some r =>
        refine ⟨_, o, k, r.1, r.2, rfl, he, ?_⟩
        simpa [next, ht, he, eq_comm] using h

theorem next_tau {t : Nat} {q q' : Pool Op W} (h : S.next (.tau t) q = some q') :
    (∃ a, q.tasks t = some (.pure a) ∧ q' = q.put t none q.world) ∨
    ∃ (β σ : Type) (body : σ → Prog Op (σ ⊕ β)) (s : σ) (k : β → Prog Op Unit),
      q.tasks t = some (.loop body s k) ∧
        q' = q.put t (some (Prog.turn body k s)) q.world := by
  cases ht : q.tasks t with
  | none => simp [next, ht] at h
  | some p =>
    cases p with
    | op o k => simp [next, ht] at h
    | pure a => exact .inl ⟨a, rfl, by simpa [next, ht, eq_comm] using h⟩
    | loop body s k =>
      exact .inr ⟨_, _, body, s, k, rfl, by simpa [next, ht, eq_comm] using h⟩

theorem next_cancel {t : Nat} {q q' : Pool Op W} (h : S.next (.cancel t) q = some q') :
    q' = q.put t none (S.drop t q.world) := by
  cases ht : q.tasks t with
  | none => simp [next, ht] at h
  | some p => simpa [next, ht, eq_comm] using h

theorem next_env {e : E} {q q' : Pool Op W} (h : S.next (.env e) q = some q') :
    ∃ w, S.env e q.world = some w ∧ q' = { q with world := w } := by
  cases he : S.env e q.world with
  | none => simp [next, he] at h
  | some w => exact ⟨w, rfl, by simpa [next, he, eq_comm] using h⟩

end System

end Effect
