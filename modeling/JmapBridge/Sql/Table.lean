import Mathlib.Data.List.AList

/-! Tables with a primary key. The newest row comes first, so a query ordered
by descending rowid returns the first match, and replacing a row makes it newest. -/

namespace Sql

abbrev Table (K V : Type) := AList fun _ : K => V

namespace Table

variable {K V : Type} [DecidableEq K]

/-- `UPDATE ... WHERE p`: the rows keep their places. -/
def modifyWhere (p : K → V → Bool) (f : V → V) (t : Table K V) : Table K V :=
  ⟨t.entries.map (Sigma.map id fun a v => if p a v then f v else v), t.nodupKeys.map₂ _ _⟩

/-- `UPDATE ... WHERE key = k`. -/
def modify (k : K) (f : V → V) (t : Table K V) : Table K V :=
  t.modifyWhere (fun a _ => decide (a = k)) f

/-- `DELETE ... WHERE p`. -/
def deleteWhere (p : K → V → Bool) (t : Table K V) : Table K V :=
  ⟨t.entries.filter fun r => !p r.1 r.2, t.nodupKeys.sublist List.filter_sublist⟩

/-- The newest row that satisfies `p`. -/
def findWhere (p : K → V → Bool) (t : Table K V) : Option (K × V) :=
  (t.entries.find? fun r => p r.1 r.2).map fun r => (r.1, r.2)

theorem lookup_modifyWhere (p : K → V → Bool) (f : V → V) (t : Table K V) (a : K) :
    (modifyWhere p f t).lookup a = (t.lookup a).map fun v => if p a v then f v else v :=
  List.dlookup_map₂ (f := fun a v => if p a v then f v else v) a

theorem lookup_modify (k a : K) (f : V → V) (t : Table K V) :
    (modify k f t).lookup a = (t.lookup a).map fun v => if a = k then f v else v := by
  simp [modify, lookup_modifyWhere]

@[simp] theorem lookup_modify_self (k : K) (f : V → V) (t : Table K V) :
    (modify k f t).lookup k = (t.lookup k).map f := by simp [lookup_modify]

theorem lookup_modify_ne {k a : K} (h : a ≠ k) (f : V → V) (t : Table K V) :
    (modify k f t).lookup a = t.lookup a := by simp [lookup_modify, h]

theorem erase_of_lookup_none {t : Table K V} {k : K} (h : t.lookup k = none) : t.erase k = t :=
  AList.ext (List.kerase_of_notMem_keys (AList.lookup_eq_none.mp h))

theorem lookup_deleteWhere_of_not {p : K → V → Bool} {t : Table K V} {k : K} {v : V}
    (hp : p k v = false) (h : t.lookup k = some v) : (deleteWhere p t).lookup k = some v := by
  rw [← Option.mem_def, AList.mem_lookup_iff] at h ⊢
  exact List.mem_filter.mpr ⟨h, by simp [hp]⟩

theorem lookup_of_lookup_deleteWhere {p : K → V → Bool} {t : Table K V} {k : K} {v : V}
    (h : (deleteWhere p t).lookup k = some v) : t.lookup k = some v ∧ p k v = false := by
  rw [← Option.mem_def, AList.mem_lookup_iff] at h
  obtain ⟨hm, hp⟩ := List.mem_filter.mp h
  exact ⟨AList.mem_lookup_iff.mpr hm, by simpa using hp⟩

theorem lookup_of_findWhere {p : K → V → Bool} {t : Table K V} {k : K} {v : V}
    (h : findWhere p t = some (k, v)) : t.lookup k = some v ∧ p k v = true := by
  obtain ⟨r, hr, he⟩ := Option.map_eq_some_iff.mp h
  obtain ⟨rfl, rfl⟩ := Prod.mk.inj he
  exact ⟨AList.mem_lookup_iff.mpr (List.mem_of_find?_eq_some hr), by
    simpa using List.find?_some hr⟩

end Table

end Sql
