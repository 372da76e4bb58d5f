import JmapBridge.Effect.Prog
import Mathlib.Data.List.Basic

/-! A stream of programs of which a bounded number is under way at a time. The next program
is taken when there is room, and the ones under way are run in any order. -/

namespace Effect

universe u

variable {Op : Type → Type u}

/-- An operation that was performed, with its answer. -/
structure Performed (Op : Type → Type u) where
  {Ans : Type}
  op : Op Ans
  answer : Ans

/-- `stream::iter(waiting).buffer_unordered(limit)`. -/
structure Buffered (Op : Type → Type u) where
  waiting : List (Prog Op Unit)
  active : List (Prog Op Unit) := []

namespace Buffered

inductive Step (limit : Nat) : Buffered Op → List (Performed Op) → Buffered Op → Prop
  | take {p : Prog Op Unit} {ps active : List (Prog Op Unit)} (h : active.length < limit) :
      Step limit ⟨p :: ps, active⟩ [] ⟨ps, active ++ [p]⟩
  | perform {α : Type} {o : Op α} {k : α → Prog Op Unit} (a : α) {ps l r : List (Prog Op Unit)} :
      Step limit ⟨ps, l ++ .op o k :: r⟩ [⟨o, a⟩] ⟨ps, l ++ k a :: r⟩
  | turn {β σ : Type} {body : σ → Prog Op (σ ⊕ β)} {s : σ} {k : β → Prog Op Unit}
      {ps l r : List (Prog Op Unit)} :
      Step limit ⟨ps, l ++ .loop body s k :: r⟩ [] ⟨ps, l ++ Prog.turn body k s :: r⟩
  | finish {ps l r : List (Prog Op Unit)} : Step limit ⟨ps, l ++ .pure () :: r⟩ [] ⟨ps, l ++ r⟩

/-- A run to the end of the stream, with what it performed. -/
inductive Drains (limit : Nat) : Buffered Op → List (Performed Op) → Prop
  | nil : Drains limit ⟨[], []⟩ []
  | step {q q' : Buffered Op} {log rest : List (Performed Op)} (h : Step limit q log q')
      (hrest : Drains limit q' rest) : Drains limit q (log ++ rest)

end Buffered

/-- Whatever it is answered, the program performs an operation that meets `φ`. -/
inductive Prog.Performs (φ : Performed Op → Prop) : Prog Op Unit → Prop
  | here {α : Type} {o : Op α} {k : α → Prog Op Unit} (h : ∀ a, φ ⟨o, a⟩) : Performs φ (.op o k)
  | later {α : Type} {o : Op α} {k : α → Prog Op Unit} (h : ∀ a, Performs φ (k a)) :
      Performs φ (.op o k)

theorem Buffered.Step.performs {φ : Performed Op → Prop} {limit : Nat} {q q' : Buffered Op}
    {log : List (Performed Op)} (h : Step limit q log q') {p : Prog Op Unit}
    (hp : p ∈ q.waiting ∨ p ∈ q.active) (hmust : p.Performs φ) :
    (∃ d ∈ log, φ d) ∨ ∃ p', (p' ∈ q'.waiting ∨ p' ∈ q'.active) ∧ p'.Performs φ := by
  cases h with
  | take _ =>
    refine .inr ⟨p, ?_, hmust⟩
    rcases hp with hp | hp
    · rcases List.mem_cons.mp hp with rfl | hp
      · exact .inr (List.mem_append_right _ (List.mem_singleton.mpr rfl))
      · exact .inl hp
    · exact .inr (List.mem_append_left _ hp)
  | perform a =>
    rcases hp with hp | hp
    · exact .inr ⟨p, .inl hp, hmust⟩
    rcases List.mem_append.mp hp with hp | hp
    · exact .inr ⟨p, .inr (List.mem_append_left _ hp), hmust⟩
    rcases List.mem_cons.mp hp with rfl | hp
    · cases hmust with
      | here h => exact .inl ⟨_, List.mem_singleton.mpr rfl, h a⟩
      | later h => exact .inr ⟨_, .inr (List.mem_append_right _ List.mem_cons_self), h a⟩
    · exact .inr ⟨p, .inr (List.mem_append_right _ (List.mem_cons_of_mem _ hp)), hmust⟩
  | turn =>
    rcases hp with hp | hp
    · exact .inr ⟨p, .inl hp, hmust⟩
    rcases List.mem_append.mp hp with hp | hp
    · exact .inr ⟨p, .inr (List.mem_append_left _ hp), hmust⟩
    rcases List.mem_cons.mp hp with rfl | hp
    · cases hmust
    · exact .inr ⟨p, .inr (List.mem_append_right _ (List.mem_cons_of_mem _ hp)), hmust⟩
  | finish =>
    rcases hp with hp | hp
    · exact .inr ⟨p, .inl hp, hmust⟩
    rcases List.mem_append.mp hp with hp | hp
    · exact .inr ⟨p, .inr (List.mem_append_left _ hp), hmust⟩
    rcases List.mem_cons.mp hp with rfl | hp
    · cases hmust
    · exact .inr ⟨p, .inr (List.mem_append_right _ hp), hmust⟩

theorem Buffered.Drains.performs {φ : Performed Op → Prop} {limit : Nat} {q : Buffered Op}
    {log : List (Performed Op)} (h : Drains limit q log) {p : Prog Op Unit}
    (hp : p ∈ q.waiting ∨ p ∈ q.active) (hmust : p.Performs φ) : ∃ d ∈ log, φ d := by
  induction h generalizing p with
  | nil => rcases hp with hp | hp <;> cases hp
  | step h _ ih =>
    rcases h.performs hp hmust with ⟨d, hd, hφ⟩ | ⟨p', hp', hmust'⟩
    · exact ⟨d, List.mem_append_left _ hd, hφ⟩
    · obtain ⟨d, hd, hφ⟩ := ih hp' hmust'
      exact ⟨d, List.mem_append_right _ hd, hφ⟩

end Effect
