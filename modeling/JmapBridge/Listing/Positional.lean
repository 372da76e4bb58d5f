import Mathlib.Data.List.Chain

/-! Walks by position over a list that changes between the queries: what such a walk
still owes, and the changes that take nothing from it. -/

namespace Positional

universe u

variable {α : Type u}

/-- A query: the list at that time, the position it started from, and what was returned. -/
structure Query (α : Type u) where
  held : List α
  start : Nat
  got : List α

/-- What the first list holds from `n` on is not in front of `n` in the second. -/
def Stays (n : Nat) (l l' : List α) : Prop := ∀ e ∈ l.drop n, e ∈ l' → e ∈ l'.drop n

namespace Stays

theorem refl (n : Nat) (l : List α) : Stays n l l := fun _ he _ => he

/-- Elements that are put in, wherever that is, only move the others away from the front. -/
theorem of_sublist {l l' : List α} (n : Nat) (h : l.Sublist l') : Stays n l l' := fun _ he _ =>
  (h.drop n).subset he

end Stays

/-- What has been in the list at every query has been returned or lies from `n` on. -/
def Outstanding (qs : List (Query α)) (n : Nat) : Prop :=
  ∀ e, (∀ q ∈ qs, e ∈ q.held) → (∃ q ∈ qs, e ∈ q.got) ∨ ∃ q ∈ qs.head?, e ∈ q.held.drop n

/-- Nothing is left to be returned. -/
def Returned (qs : List (Query α)) : Prop :=
  ∀ e, (∀ q ∈ qs, e ∈ q.held) → ∃ q ∈ qs, e ∈ q.got

variable {qs : List (Query α)} {a b : Query α} {n : Nat}

theorem Outstanding.first (h : ∀ e ∈ a.held, e ∈ a.got ∨ e ∈ a.held.drop n) :
    Outstanding [a] n := by
  intro e he
  have hgot := h e (he a List.mem_cons_self)
  exact hgot.imp (fun h => ⟨a, List.mem_cons_self, h⟩) fun h => ⟨a, rfl, h⟩

theorem Returned.outstanding (h : Returned qs) : Outstanding qs n := fun e he => .inl (h e he)

theorem Returned.first (h : ∀ e ∈ a.held, e ∈ a.got) : Returned [a] := fun e he =>
  ⟨a, List.mem_cons_self, h e (he a List.mem_cons_self)⟩

theorem Outstanding.query (h : Outstanding (a :: qs) b.start) (hstays : Stays b.start a.held b.held)
    (hgot : ∀ e ∈ b.held.drop b.start, e ∈ b.got ∨ e ∈ b.held.drop n) :
      Outstanding (b :: a :: qs) n := by
  intro e he
  rcases h e fun q hq => he q (List.mem_cons_of_mem b hq) with ⟨q, hq, hret⟩ | ⟨q, hq, hahead⟩
  · exact .inl ⟨q, List.mem_cons_of_mem b hq, hret⟩
  · obtain rfl : a = q := Option.some.inj hq
    have hb := hstays e hahead (he b List.mem_cons_self)
    exact (hgot e hb).imp (fun h => ⟨b, List.mem_cons_self, h⟩) fun h => ⟨b, rfl, h⟩

theorem Outstanding.last (h : Outstanding (a :: qs) b.start) (hstays : Stays b.start a.held b.held)
    (hgot : ∀ e ∈ b.held.drop b.start, e ∈ b.got) : Returned (b :: a :: qs) := by
  intro e he
  rcases h e fun q hq => he q (List.mem_cons_of_mem b hq) with ⟨q, hq, hret⟩ | ⟨q, hq, hahead⟩
  · exact ⟨q, List.mem_cons_of_mem b hq, hret⟩
  · obtain rfl : a = q := Option.some.inj hq
    exact ⟨b, List.mem_cons_self, hgot e (hstays e hahead (he b List.mem_cons_self))⟩

theorem mem_page_or_drop {l : List α} {n k : Nat} {e : α} (he : e ∈ l.drop n) :
    e ∈ (l.drop n).take k ∨ e ∈ l.drop (n + ((l.drop n).take k).length) := by
  rw [← List.take_append_drop k (l.drop n), List.mem_append] at he
  refine he.imp_right fun hdrop => ?_
  rw [List.drop_drop] at hdrop
  rw [List.length_take, List.length_drop]
  by_cases hk : k ≤ l.length - n
  · rwa [Nat.min_eq_left hk]
  · have hnil : l.drop (n + k) = [] := List.drop_eq_nil_of_le (by omega)
    rw [hnil] at hdrop
    cases hdrop

theorem page_eq_drop {l : List α} {n k : Nat} (h : l.length ≤ n + k) :
    (l.drop n).take k = l.drop n := by
  refine List.take_of_length_le ?_
  rw [List.length_drop]
  omega

end Positional
