import JmapBridge.Effect.Rely

/-! History variables. A watcher keeps notes of the operations of a run and never influences
it, so an invariant of the system that carries the notes in its world is an invariant of the
notes taken of any run of the system itself. -/

namespace Effect

universe u

/-- What a watcher writes down after one operation of a task, from its answer, its result and
the worlds before and after it. -/
structure Watcher (Op : Type → Type u) (W C H : Type) where
  note : Nat → ∀ {β : Type}, Op β → C → β → W → W → H → H

variable {Op : Type → Type u} {W C E H : Type}

namespace System

/-- The system with the notes in its world. -/
def watched (S : System Op W C E) (V : Watcher Op W C H) : System Op (W × H) C E where
  exec t _ o c w := (S.exec t o c w.1).map fun r => (r.1, r.2, V.note t o c r.1 w.1 r.2 w.2)
  env e w := (S.env e w.1).map fun w' => (w', w.2)
  drop t w := (S.drop t w.1, w.2)
  entry := S.entry

variable (S : System Op W C E) (V : Watcher Op W C H)

def notesOf : Event C E → Pool Op W → H → H
  | .step t c, q, h =>
    match q.tasks t with
    | some (.op o _) =>
      match S.exec t o c q.world with
      | some r => V.note t o c r.1 q.world r.2 h
      | none => h
    | _ => h
  | _, _, h => h

/-- The notes taken of a run. -/
def notes : List (Event C E) → Pool Op W → H → H
  | [], _, h => h
  | e :: es, q, h =>
    match S.next e q with
    | some q' => notes es q' (S.notesOf V e q h)
    | none => h

end System

def Pool.withNotes (q : Pool Op W) (h : H) : Pool Op (W × H) := ⟨(q.world, h), q.tasks⟩

/-- The runs of the watched system are those that meet the discipline without their notes. -/
def Discipline.watched (D : Discipline Op W C E) (H : Type) : Discipline Op (W × H) C E where
  start t w := D.start t w.1
  step t _ o c w := D.step t o c w.1
  cancel t w := D.cancel t w.1
  env e w := D.env e w.1

variable {S : System Op W C E} {V : Watcher Op W C H} {D : Discipline Op W C E}

theorem System.next_watched (e : Event C E) (q : Pool Op W) (h : H) :
    (S.watched V).next e (q.withNotes h) =
      (S.next e q).map fun q' => q'.withNotes (S.notesOf V e q h) := by
  cases e with
  | start t =>
    cases ht : q.tasks t with
    | none => simp [next, Pool.withNotes, ht, notesOf, watched, Pool.put]
    | some p => simp [next, Pool.withNotes, ht]
  | step t c =>
    cases ht : q.tasks t with
    | none => simp [next, Pool.withNotes, ht]
    | some p =>
      cases p with
      | pure a => simp [next, Pool.withNotes, ht]
      | loop body s k => simp [next, Pool.withNotes, ht]
      | op o k =>
        cases he : S.exec t o c q.world with
        | none => simp [next, Pool.withNotes, ht, watched, he]
        | some r => simp [next, Pool.withNotes, ht, watched, he, notesOf, Pool.put]
  | tau t =>
    cases ht : q.tasks t with
    | none => simp [next, Pool.withNotes, ht]
    | some p =>
      cases p with
      | pure a => simp [next, Pool.withNotes, ht, notesOf, Pool.put]
      | op o k => simp [next, Pool.withNotes, ht]
      | loop body s k => simp [next, Pool.withNotes, ht, notesOf, Pool.put]
  | cancel t =>
    cases ht : q.tasks t with
    | none => simp [next, Pool.withNotes, ht]
    | some p => simp [next, Pool.withNotes, ht, notesOf, watched, Pool.put]
  | env e =>
    cases he : S.env e q.world with
    | none => simp [next, Pool.withNotes, watched, he]
    | some w => simp [next, Pool.withNotes, watched, he, notesOf]

/-- Every run of the system is a run of the watched one, which ends with the notes of it. -/
theorem System.run_watched {es : List (Event C E)} {q q' : Pool Op W} (h : H)
    (hrun : S.run es q = some q') :
    (S.watched V).run es (q.withNotes h) = some (q'.withNotes (S.notes V es q h)) := by
  induction es generalizing q h with
  | nil =>
    obtain rfl : q = q' := Option.some.inj hrun
    rfl
  | cons e es ih =>
    cases hn : S.next e q with
    | none => simp [run, hn] at hrun
    | some q₁ =>
      simp only [run, hn, Option.bind_some] at hrun
      simp only [run, next_watched, hn, Option.map_some, Option.bind_some, notes]
      exact ih _ hrun

theorem System.meets_watched {e : Event C E} {q : Pool Op W} (h : H) (hD : D.meets e q) :
    (D.watched H).meets e (q.withNotes h) := by
  cases e with
  | step t c =>
    simp only [Discipline.meets] at hD ⊢
    exact hD
  | _ => exact hD

theorem System.admits_watched {es : List (Event C E)} {q : Pool Op W} (h : H)
    (hD : S.Admits D.meets es q) :
    (S.watched V).Admits (D.watched H).meets es (q.withNotes h) := by
  induction es generalizing q h with
  | nil => trivial
  | cons e es ih =>
    refine ⟨meets_watched h hD.1, fun r hr => ?_⟩
    rw [next_watched] at hr
    obtain ⟨q₁, hn, rfl⟩ := Option.map_eq_some_iff.mp hr
    exact ih _ (hD.2 q₁ hn)

/-- The rule for history variables: an invariant that the watched system upholds holds of the
world and the notes at the end of every run. -/
theorem Upholds.inv_of_notes {K : Contract (W × H)} (U : Upholds (S.watched V) (D.watched H) K)
    {es : List (Event C E)} {w : W} {h : H} {q : Pool Op W} (hw : K.inv (w, h))
    (hidle : ∀ t, K.idle t (w, h)) (hrun : S.run es (Pool.boot w) = some q)
    (hD : S.Admits D.meets es (Pool.boot w)) :
    K.inv (q.world, S.notes V es (Pool.boot w) h) := by
  have hboot : Upholds.PoolInv (S.watched V) (D.watched H) K ((Pool.boot w).withNotes h) :=
    Upholds.poolInv_boot hw hidle
  exact (U.poolInv_of_run hboot (System.run_watched h hrun) (System.admits_watched h hD)).1

end Effect
