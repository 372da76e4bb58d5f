import Mathlib.Algebra.Order.Ring.Nat
import Mathlib.Data.Nat.Basic

/-! Blocks of addresses. An address of `width` bits is a number below `2 ^ width`, and a
block is what shares the first bits of its network, which is what a mask tests. -/

namespace Rust

/-- The block of the addresses whose first `len` bits, of `width`, are those of `net`. -/
structure Cidr (width : Nat) where
  net : Nat
  len : Nat

namespace Cidr

variable {width : Nat}

def Contains (r : Cidr width) (addr : Nat) : Prop :=
  addr / 2 ^ (width - r.len) = r.net / 2 ^ (width - r.len)

instance (r : Cidr width) (addr : Nat) : Decidable (r.Contains addr) :=
  inferInstanceAs (Decidable (_ = _))

/-- The address lies in one of the blocks. -/
def AnyContains (rs : List (Cidr width)) (addr : Nat) : Prop := ∃ r ∈ rs, r.Contains addr

instance (rs : List (Cidr width)) (addr : Nat) : Decidable (AnyContains rs addr) :=
  inferInstanceAs (Decidable (∃ r ∈ rs, _))

@[simp] theorem anyContains_nil (addr : Nat) : ¬ AnyContains ([] : List (Cidr width)) addr := by
  simp [AnyContains]

@[simp] theorem anyContains_cons (r : Cidr width) (rs : List (Cidr width)) (addr : Nat) :
    AnyContains (r :: rs) addr ↔ r.Contains addr ∨ AnyContains rs addr := by
  simp [AnyContains]

theorem anyContains_append (rs rs' : List (Cidr width)) (addr : Nat) :
    AnyContains (rs ++ rs') addr ↔ AnyContains rs addr ∨ AnyContains rs' addr := by
  simp [AnyContains, or_and_right, exists_or]

theorem and_high {x n k : Nat} (hx : x < 2 ^ n) (hk : k ≤ n) :
    x &&& (2 ^ n - 2 ^ k) = x / 2 ^ k * 2 ^ k := by
  have hmask : 2 ^ n - 2 ^ k = (2 ^ (n - k) - 1) <<< k := by
    rw [Nat.shiftLeft_eq, Nat.sub_mul, ← Nat.pow_add, Nat.sub_add_cancel hk, Nat.one_mul]
  have hdiv : x / 2 ^ k * 2 ^ k = (x >>> k) <<< k := by
    rw [Nat.shiftLeft_eq, Nat.shiftRight_eq_div_pow]
  rw [hmask, hdiv]
  apply Nat.eq_of_testBit_eq
  intro i
  rw [Nat.testBit_and, Nat.testBit_shiftLeft, Nat.testBit_shiftLeft, Nat.testBit_two_pow_sub_one,
    Nat.testBit_shiftRight]
  by_cases hi : i < k
  · simp [show ¬ k ≤ i by omega]
  · have hadd : k + (i - k) = i := by omega
    rw [hadd]
    by_cases hin : i < n
    · simp [show k ≤ i by omega, show i - k < n - k by omega]
    · have hbit : x.testBit i = false :=
        Nat.testBit_lt_two_pow (Nat.lt_of_lt_of_le hx (Nat.pow_le_pow_right (by omega) (by omega)))
      simp [hbit]

/-- The test of a mask against a network is a test of what a division by `2 ^ k` leaves. -/
theorem and_high_eq_iff {x n k net : Nat} (hx : x < 2 ^ n) (hk : k ≤ n) :
    x &&& (2 ^ n - 2 ^ k) = net * 2 ^ k ↔ x / 2 ^ k = net := by
  rw [and_high hx hk]
  exact Nat.mul_left_inj (Nat.ne_of_gt (Nat.two_pow_pos k))

end Cidr

end Rust
