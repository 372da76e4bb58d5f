import Mathlib.Logic.Basic

/-! Programs as trees of await points. A program either returns, performs one
operation and continues with the answer, or runs a loop body until it yields a
value. What an operation does is left to the system that runs the program. -/

namespace Effect

universe u

inductive Prog (Op : Type → Type u) : Type → Type (max 1 u) where
  | pure {α : Type} (a : α) : Prog Op α
  | op {α β : Type} (o : Op β) (k : β → Prog Op α) : Prog Op α
  | loop {α β σ : Type} (body : σ → Prog Op (σ ⊕ β)) (s : σ) (k : β → Prog Op α) : Prog Op α

namespace Prog

variable {Op : Type → Type u} {α β γ σ : Type}

def bind : Prog Op α → (α → Prog Op γ) → Prog Op γ
  | .pure a, f => f a
  | .op o k, f => .op o fun b => (k b).bind f
  | .loop body s k, f => .loop body s fun b => (k b).bind f

instance : Monad (Prog Op) where
  pure := .pure
  bind := .bind

/-- The operation `o` alone. -/
def call (o : Op β) : Prog Op β := .op o .pure

/-- One turn of a loop at its head. -/
def turn (body : σ → Prog Op (σ ⊕ β)) (k : β → Prog Op α) (s : σ) : Prog Op α :=
  (body s).bind fun
    | .inl s' => .loop body s' k
    | .inr b => k b

def forEach (f : β → Prog Op Unit) : List β → Prog Op Unit
  | [] => .pure ()
  | x :: xs => (f x).bind fun _ => forEach f xs

@[simp] theorem monad_bind_eq (p : Prog Op α) (f : α → Prog Op γ) : (p >>= f) = p.bind f := rfl

@[simp] theorem monad_pure_eq (a : α) : (Pure.pure a : Prog Op α) = .pure a := rfl

@[simp] theorem pure_bind (a : α) (f : α → Prog Op γ) : (Prog.pure a).bind f = f a := rfl

@[simp] theorem op_bind (o : Op β) (k : β → Prog Op α) (f : α → Prog Op γ) :
    (Prog.op o k).bind f = .op o fun b => (k b).bind f := rfl

@[simp] theorem loop_bind (body : σ → Prog Op (σ ⊕ β)) (s : σ) (k : β → Prog Op α)
    (f : α → Prog Op γ) :
    (Prog.loop body s k).bind f = .loop body s fun b => (k b).bind f := rfl

theorem bind_assoc (p : Prog Op α) (f : α → Prog Op β) (g : β → Prog Op γ) :
    (p.bind f).bind g = p.bind fun a => (f a).bind g := by
  induction p with
  | pure a => rfl
  | op o k ih => simp only [op_bind, ih]
  | loop body s k _ ih => simp only [loop_bind, ih]

/-- Every operation the program can reach satisfies `φ`. -/
def Only (φ : ∀ β : Type, Op β → Prop) : {α : Type} → Prog Op α → Prop
  | _, .pure _ => True
  | _, .op o k => φ _ o ∧ ∀ b, Only φ (k b)
  | _, .loop body _ k => (∀ s, Only φ (body s)) ∧ ∀ b, Only φ (k b)

section Only

variable {φ ψ : ∀ β : Type, Op β → Prop}

@[simp] theorem only_pure (a : α) : (Prog.pure a : Prog Op α).Only φ := trivial

@[simp] theorem only_op {o : Op β} {k : β → Prog Op α} :
    (Prog.op o k).Only φ ↔ φ _ o ∧ ∀ b, (k b).Only φ := Iff.rfl

@[simp] theorem only_loop {body : σ → Prog Op (σ ⊕ β)} {s : σ} {k : β → Prog Op α} :
    (Prog.loop body s k).Only φ ↔ (∀ s, (body s).Only φ) ∧ ∀ b, (k b).Only φ := Iff.rfl

@[simp] theorem only_call {o : Op β} : (call o).Only φ ↔ φ _ o := by simp [call]

theorem Only.bind {p : Prog Op α} {f : α → Prog Op γ} (hp : p.Only φ)
    (hf : ∀ a, (f a).Only φ) : (p.bind f).Only φ := by
  induction p with
  | pure a => exact hf a
  | op o k ih => exact ⟨hp.1, fun b => ih b (hp.2 b) hf⟩
  | loop body s k _ ih => exact ⟨hp.1, fun b => ih b (hp.2 b) hf⟩

theorem Only.and {p : Prog Op α} (hp : p.Only φ) (hq : p.Only ψ) :
    p.Only fun β o => φ β o ∧ ψ β o := by
  induction p with
  | pure a => trivial
  | op o k ih => exact ⟨⟨hp.1, hq.1⟩, fun b => ih b (hp.2 b) (hq.2 b)⟩
  | loop body s k ihb ih =>
    exact ⟨fun s => ihb s (hp.1 s) (hq.1 s), fun b => ih b (hp.2 b) (hq.2 b)⟩

theorem Only.mono (h : ∀ β o, φ β o → ψ β o) {p : Prog Op α} (hp : p.Only φ) : p.Only ψ := by
  induction p with
  | pure a => trivial
  | op o k ih => exact ⟨h _ _ hp.1, fun b => ih b (hp.2 b)⟩
  | loop body s k ihb ih => exact ⟨fun s => ihb s (hp.1 s), fun b => ih b (hp.2 b)⟩

theorem Only.turn {body : σ → Prog Op (σ ⊕ β)} {s : σ} {k : β → Prog Op α}
    (h : (Prog.loop body s k).Only φ) : (turn body k s).Only φ := by
  refine Only.bind (h.1 s) fun r => ?_
  cases r with
  | inl s' => exact h
  | inr b => exact h.2 b

end Only

/-- A property of programs that the constructors and sequencing preserve. `φ` says which
operations have it. -/
structure Closed (φ : ∀ β : Type, Op β → Prop) (C : ∀ α : Type, Prog Op α → Prop) : Prop where
  pure : ∀ {α : Type} (a : α), C α (.pure a)
  call : ∀ {β : Type} {o : Op β}, φ β o → C β (call o)
  bind : ∀ {α γ : Type} {p : Prog Op α} {f : α → Prog Op γ},
    C α p → (∀ a, C γ (f a)) → C γ (p.bind f)
  loop : ∀ {β σ : Type} {body : σ → Prog Op (σ ⊕ β)} {s : σ},
    (∀ s, C (σ ⊕ β) (body s)) → C β (.loop body s .pure)

theorem only_closed {φ : ∀ β : Type, Op β → Prop} : Closed φ fun _ p => p.Only φ where
  pure _ := trivial
  call h := only_call.mpr h
  bind hp hf := hp.bind hf
  loop h := ⟨h, fun _ => trivial⟩

namespace Closed

variable {φ ψ : ∀ β : Type, Op β → Prop} {C : ∀ α : Type, Prog Op α → Prop}

theorem mono (hC : Closed φ C) (h : ∀ β o, ψ β o → φ β o) : Closed ψ C where
  pure := hC.pure
  call hψ := hC.call (h _ _ hψ)
  bind := hC.bind
  loop := hC.loop

theorem of_only (hC : Closed φ C) {p : Prog Op α} (hp : p.Only φ) : C α p := by
  induction p with
  | pure a => exact hC.pure a
  | op o k ih => exact hC.bind (hC.call hp.1) fun b => ih b (hp.2 b)
  | loop body s k ihb ih =>
    have hbody : C _ (.loop body s .pure) := hC.loop fun s => ihb s (hp.1 s)
    exact hC.bind hbody fun b => ih b (hp.2 b)

theorem forEach (hC : Closed φ C) {f : β → Prog Op Unit} (xs : List β)
    (h : ∀ x ∈ xs, C Unit (f x)) : C Unit (Prog.forEach f xs) := by
  induction xs with
  | nil => exact hC.pure ()
  | cons x xs ih =>
    exact hC.bind (h x List.mem_cons_self) fun _ => ih fun y hy => h y (List.mem_cons_of_mem _ hy)

end Closed

end Prog

/-- A fallible program: the body of a function that returns a result. -/
def Act (Op : Type → Type u) (ε α : Type) : Type (max 1 u) := Prog Op (Except ε α)

namespace Act

variable {Op : Type → Type u} {ε α β γ σ : Type}

def ok (a : α) : Act Op ε α := Prog.pure (.ok a)

def fail (e : ε) : Act Op ε α := Prog.pure (.error e)

/-- Sequencing that returns early with the first error. -/
def andThen (x : Act Op ε α) (f : α → Act Op ε γ) : Act Op ε γ :=
  Prog.bind x fun
    | .ok a => f a
    | .error e => .pure (.error e)

instance : Monad (Act Op ε) where
  pure := ok
  bind := andThen

/-- An operation whose answer is itself a result. -/
def call (o : Op (Except ε α)) : Act Op ε α := Prog.call o

/-- An infallible program as a fallible one. -/
def lift (p : Prog Op α) : Act Op ε α := Prog.bind p fun a => .pure (.ok a)

/-- Run `x` and hand its result on as data, for a caller that looks at the error itself. -/
def attempt (x : Act Op ε α) : Act Op ε (Except ε α) := Prog.bind x fun r => .pure (.ok r)

def ofOption (e : ε) : Option α → Act Op ε α
  | some a => ok a
  | none => fail e

def mapError (f : ε → ε) (x : Act Op ε α) : Act Op ε α :=
  Prog.bind x fun r => .pure (r.mapError f)

def loop (body : σ → Act Op ε (σ ⊕ β)) (s : σ) : Act Op ε β :=
  Prog.loop (fun s => Prog.bind (body s) fun
    | .ok (.inl s') => .pure (.inl s')
    | .ok (.inr b) => .pure (.inr (.ok b))
    | .error e => .pure (.inr (.error e))) s .pure

def forEach (f : β → Act Op ε Unit) : List β → Act Op ε Unit
  | [] => ok ()
  | x :: xs => andThen (f x) fun _ => forEach f xs

@[simp] theorem monad_bind_eq (x : Act Op ε α) (f : α → Act Op ε γ) : (x >>= f) = x.andThen f := rfl

@[simp] theorem monad_pure_eq (a : α) : (Pure.pure a : Act Op ε α) = ok a := rfl

theorem andThen_assoc (x : Act Op ε α) (f : α → Act Op ε β) (g : β → Act Op ε γ) :
    (x.andThen f).andThen g = x.andThen fun a => (f a).andThen g := by
  refine (Prog.bind_assoc ..).trans (congrArg (Prog.bind x) (funext fun r => ?_))
  cases r with
  | ok a => rfl
  | error e => rfl

end Act

namespace Prog.Closed

variable {Op : Type → Type u} {ε α β γ σ : Type} {φ : ∀ β : Type, Op β → Prop}
  {C : ∀ α : Type, Prog Op α → Prop}

theorem andThen (hC : Closed φ C) {x : Act Op ε α} {f : α → Act Op ε γ} (hx : C _ x)
    (hf : ∀ a, C _ (f a)) : C _ (x.andThen f) := by
  refine hC.bind hx fun r => ?_
  cases r with
  | ok a => exact hf a
  | error e => exact hC.pure _

theorem lift (hC : Closed φ C) {p : Prog Op α} (hp : C _ p) : C _ (Act.lift p : Act Op ε α) :=
  hC.bind hp fun _ => hC.pure _

theorem attempt (hC : Closed φ C) {x : Act Op ε α} (hx : C _ x) : C _ x.attempt :=
  hC.bind hx fun _ => hC.pure _

theorem ofOption (hC : Closed φ C) {e : ε} {o : Option α} :
    C _ (Act.ofOption e o : Act Op ε α) := by
  cases o with
  | none => exact hC.pure _
  | some a => exact hC.pure _

theorem mapError (hC : Closed φ C) {f : ε → ε} {x : Act Op ε α} (hx : C _ x) :
    C _ (x.mapError f) :=
  hC.bind hx fun _ => hC.pure _

theorem actLoop (hC : Closed φ C) {body : σ → Act Op ε (σ ⊕ β)} {s : σ}
    (h : ∀ s, C _ (body s)) : C _ (Act.loop body s) := by
  refine hC.loop fun s => hC.bind (h s) fun r => ?_
  rcases r with e | (s' | b)
  · exact hC.pure _
  · exact hC.pure _
  · exact hC.pure _

theorem actForEach (hC : Closed φ C) {f : β → Act Op ε Unit} (xs : List β)
    (h : ∀ x ∈ xs, C _ (f x)) : C _ (Act.forEach f xs) := by
  induction xs with
  | nil => exact hC.pure _
  | cons x xs ih =>
    exact hC.andThen (h x List.mem_cons_self) fun _ =>
      ih fun y hy => h y (List.mem_cons_of_mem _ hy)

end Prog.Closed

end Effect
