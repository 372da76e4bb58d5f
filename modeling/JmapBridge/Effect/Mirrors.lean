import JmapBridge.Effect.Eval

/-! Programs over two sets of commands, of which the second does what the first does and may
see less of the answers. -/

namespace Effect

open Prog

universe u

variable {Op Op' : Type → Type u} {α α' β γ δ : Type}

/-- `q` asks what `p` asks and goes on alike: `R o o' f` says that the answer to `o'` is the
answer to `o` seen through `f`. Neither of the two has loops. -/
inductive Mirrors (R : ∀ {β γ : Type}, Op β → Op' γ → (β → γ) → Prop) (Q : α → α' → Prop) :
    Prog Op α → Prog Op' α' → Prop where
  | pure {a : α} {a' : α'} : Q a a' → Mirrors R Q (.pure a) (.pure a')
  | op {β γ : Type} {o : Op β} {o' : Op' γ} {f : β → γ} {k : β → Prog Op α}
    {k' : γ → Prog Op' α'} : R o o' f → (∀ b, Mirrors R Q (k b) (k' (f b))) →
      Mirrors R Q (.op o k) (.op o' k')

namespace Mirrors

variable {R : ∀ {β γ : Type}, Op β → Op' γ → (β → γ) → Prop} {p : Prog Op α} {q : Prog Op' α'}

theorem call {o : Op β} {o' : Op' γ} {f : β → γ} (h : R o o' f) :
    Mirrors R (fun b c => c = f b) (Prog.call o) (Prog.call o') :=
  .op h fun _ => .pure rfl

theorem bind {Q : α → α' → Prop} {Q' : β → γ → Prop} {f : α → Prog Op β} {f' : α' → Prog Op' γ}
    (h : Mirrors R Q p q) (hf : ∀ a a', Q a a' → Mirrors R Q' (f a) (f' a')) :
    Mirrors R Q' (p.bind f) (q.bind f') := by
  induction h with
  | pure h => exact hf _ _ h
  | op h _ ih => exact .op h ih

theorem map_right {Q : α → α' → Prop} {Q' : α → γ → Prop} {g : α' → γ} (h : Mirrors R Q p q)
    (hg : ∀ a a', Q a a' → Q' a (g a')) : Mirrors R Q' p (q.bind fun a' => .pure (g a')) := by
  induction h with
  | pure h => exact .pure (hg _ _ h)
  | op h _ ih => exact .op h ih

variable {W V C C' E E' : Type} {S : System Op W C E} {S' : System Op' V C' E'}
  {D : Discipline Op W C E} {D' : Discipline Op' V C' E'} {t : Nat}

/-- Where every command of the first system can be answered alike in the second, its executions
are executions there. -/
theorem eval {I : W → V → Prop}
    (hR : ∀ {β γ : Type} {o : Op β} {o' : Op' γ} {f : β → γ}, R o o' f → ∀ {w w₁ v c b}, I w v →
      D.step t o c w → S.exec t o c w = some (b, w₁) →
        ∃ c' v₁, D'.step t o' c' v ∧ S'.exec t o' c' v = some (f b, v₁) ∧ I w₁ v₁)
    {Q : α → α' → Prop} (h : Mirrors R Q p q) {w w' : W} {v : V} {a : α}
    (he : Eval S D t p w a w') (hi : I w v) :
    ∃ a' v', Q a a' ∧ Eval S' D' t q v a' v' ∧ I w' v' := by
  induction h generalizing w v with
  | pure h =>
    obtain ⟨rfl, rfl⟩ := Eval.pure_iff.mp he
    exact ⟨_, v, h, .pure, hi⟩
  | op hasks _ ih =>
    obtain ⟨c, b, w₁, hc, hexec, hk⟩ := Eval.op_iff.mp he
    obtain ⟨c', v₁, hc', hexec', hi₁⟩ := hR hasks hi hc hexec
    obtain ⟨a', v', hQ, hk', hi'⟩ := ih b hk hi₁
    exact ⟨a', v', hQ, .op hc' hexec' hk', hi'⟩

end Mirrors

end Effect
