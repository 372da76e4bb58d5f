import JmapBridge.Rust.Str

/-! `str::replace`, for a pattern that is not empty. -/

namespace Rust.Str

/-- `s.replace(pat, new)`, where the first `k` characters of `s` belong to an occurrence that
is replaced already. -/
def replaceFrom (pat new : Str) : Nat → Str → Str
  | _, [] => []
  | k + 1, _ :: s => replaceFrom pat new k s
  | 0, c :: s =>
    if pat.isPrefixOf (c :: s) then new ++ replaceFrom pat new (pat.length - 1) s
    else c :: replaceFrom pat new 0 s

def replace (pat new s : Str) : Str := replaceFrom pat new 0 s

theorem replaceFrom_skip (pat new w s : Str) :
    replaceFrom pat new w.length (w ++ s) = replace pat new s := by
  induction w with
  | nil => rfl
  | cons c w ih => exact ih

theorem replace_hit {pat : Str} (hne : pat ≠ []) (new s : Str) :
    replace pat new (pat ++ s) = new ++ replace pat new s := by
  obtain ⟨c, w, rfl⟩ := List.exists_cons_of_ne_nil hne
  have hstart : (c :: w).isPrefixOf (c :: (w ++ s)) = true :=
    List.isPrefixOf_iff_prefix.mpr ⟨s, rfl⟩
  show replaceFrom (c :: w) new 0 (c :: (w ++ s)) = _
  rw [replaceFrom, if_pos hstart]
  exact congrArg (new ++ ·) (replaceFrom_skip (c :: w) new w s)

theorem replace_pass {pat : Str} {c : Char} {s : Str} (h : pat.isPrefixOf (c :: s) = false)
    (new : Str) : replace pat new (c :: s) = c :: replace pat new s := by
  show replaceFrom pat new 0 (c :: s) = _
  rw [replaceFrom, if_neg (by simp [h])]
  rfl

theorem replace_free {e : Char} {w : Str} (hw : e ∉ w) (pat new s : Str) :
    replace (e :: pat) new (w ++ s) = w ++ replace (e :: pat) new s := by
  induction w with
  | nil => rfl
  | cons c w ih =>
    have hc : e ≠ c := fun h => hw (h ▸ List.mem_cons_self)
    have hpass : (e :: pat).isPrefixOf (c :: (w ++ s)) = false := by
      simp [List.isPrefixOf, hc]
    rw [List.cons_append, replace_pass hpass, ih fun h => hw (List.mem_cons_of_mem c h),
      List.cons_append]

end Rust.Str
