import ScriptTree.Json.Basic
import ScriptTree.Proofs.Rounding

/-!
# Nearest numbers

A rational number is rounded to the double-precision number nearest to it, and a tie to the one with
the even significand. Up to `2 ^ 53 - 1` all whole numbers are held exactly, and these are the whole
numbers that are written without a fraction.

Main statements: `Binary64.isNearest_nearest` and `Json.ofBinary64_eq_integer_iff`.
-/

namespace ScriptTree

section Rounding

variable {q : ℚ}

lemma roundEven_closest (hq : 0 ≤ q) (z : Nat) : |(roundEven q : ℚ) - q| ≤ |(z : ℚ) - q| := by
  obtain ⟨hhigh, hlow⟩ := roundEven_close hq
  generalize roundEven q = r at *
  have hhalf : |(r : ℚ) - q| ≤ 1 / 2 := abs_le.2 ⟨by linarith, by linarith⟩
  rcases lt_trichotomy z r with hless | rfl | hmore
  · have hz : (z : ℚ) + 1 ≤ r := by exact_mod_cast hless
    exact hhalf.trans (le_abs.2 (Or.inr (by linarith)))
  · exact le_rfl
  · have hz : (r : ℚ) + 1 ≤ z := by exact_mod_cast hmore
    exact hhalf.trans (le_abs.2 (Or.inl (by linarith)))

/-- A tie goes to the even number. -/
lemma roundEven_even (hq : 0 ≤ q) {z : Nat} (hne : z ≠ roundEven q)
    (htie : |(z : ℚ) - q| = |(roundEven q : ℚ) - q|) : roundEven q % 2 = 0 := by
  have hhalf : 1 / 2 ≤ |(roundEven q : ℚ) - q| := by
    have hapart : (1 : ℚ) ≤ |(z : ℚ) - roundEven q| := by
      have hint : (1 : ℤ) ≤ |(z : ℤ) - roundEven q| := Int.one_le_abs (by omega)
      exact_mod_cast hint
    have htriangle := abs_sub_le (z : ℚ) q (roundEven q)
    rw [htie, abs_sub_comm q] at htriangle
    linarith
  have hle := Nat.floor_le hq
  have hlt := Nat.lt_floor_add_one q
  unfold roundEven at hhalf ⊢
  split
  next h =>
    rw [if_pos h, abs_sub_comm, abs_of_nonneg (by linarith)] at hhalf
    rcases h with hless | ⟨-, heven⟩
    · linarith
    · exact heven
  next h =>
    push Not at h
    rw [if_neg (by push Not; exact h)] at hhalf
    push_cast at hhalf
    rw [abs_of_nonneg (by linarith)] at hhalf
    have hodd := h.2 (by linarith [h.1])
    omega

end Rounding

namespace Binary64

/-- A finite number, in the form in which it is held. -/
def Held (x : Binary64) : Prop :=
  x.Canonical ∧ x ≠ infinite

/-- The whole number that a power of two makes a finite number of. -/
def significand : Binary64 → Nat
  | finite s _ => s
  | infinite => 0

/-- No number is closer, and one that is as close is only left for an even significand. -/
structure IsNearest (q : ℚ) (x : Binary64) : Prop where
  held : x.Held
  closest : ∀ y : Binary64, y.Held → |x.value - q| ≤ |y.value - q|
  even : ∀ y : Binary64, y.Held → y ≠ x → |y.value - q| = |x.value - q| → x.significand % 2 = 0

section Nearest

variable {q : ℚ} {x y : Binary64}

lemma Held.eq_of_value (hx : x.Held) (hy : y.Held) (h : x.value = y.value) : x = y := by
  rw [← nearest_value hx.1 hx.2, h, nearest_value hy.1 hy.2]

/-- A significand that has become too large is halved. -/
lemma value_normalize {r : Nat} {e : ℤ} (h : normalize r e ≠ infinite) :
    (normalize r e).value = r * 2 ^ e ∧ (r % 2 = 0 → (normalize r e).significand % 2 = 0) := by
  unfold normalize at h ⊢
  simp only [Nat.pow_eq] at h ⊢
  split at h
  next hcarry =>
    split at h
    next hexp =>
      rw [if_pos hcarry, if_pos hexp]
      refine ⟨?_, fun _ => by norm_num [significand]⟩
      rw [value, hcarry, zpow_add_one₀ two_ne_zero]
      push_cast
      ring
    next => exact absurd rfl h
  next hcarry =>
    split at h
    next hexp =>
      rw [if_neg hcarry, if_pos hexp]
      exact ⟨rfl, id⟩
    next => exact absurd rfl h

/-- On the grid on which a number is rounded some point is as close as a given number, and closer if
that number is not on the grid. -/
lemma exists_grid_point (hq : 0 < q) (hy : y.Held) :
    ∃ z : Nat, |z * 2 ^ exponentOf q - q| ≤ |y.value - q| ∧
      (|z * 2 ^ exponentOf q - q| = |y.value - q| → y.value = z * 2 ^ exponentOf q) := by
  obtain ⟨hcanonical, hfinite⟩ := hy
  cases hcanonical with
  | infinite => exact absurd rfl hfinite
  | @finite s e hs hlow hhigh hnormal =>
  rcases le_or_gt (exponentOf q) e with hcoarse | hfine
  · obtain ⟨n, hn⟩ := Int.le.dest hcoarse
    have hvalue : (finite s e).value = (s * 2 ^ n : Nat) * 2 ^ exponentOf q := by
      rw [value, ← hn, zpow_add₀ two_ne_zero, zpow_natCast]
      push_cast
      ring
    refine ⟨s * 2 ^ n, ?_⟩
    rw [hvalue]
    exact ⟨le_rfl, fun _ => rfl⟩
  · -- a number off the grid lies below the first point that is rounded on it
    have hfirst := (le_div_iff₀ (zpow_pos two_pos _)).1 (le_scaled hq (by omega))
    have hbelow : (finite s e).value < 2 ^ 52 * 2 ^ exponentOf q := by
      have hpow : (0 : ℚ) < 2 ^ e := by positivity
      calc (finite s e).value = s * 2 ^ e := rfl
        _ < 2 ^ 53 * 2 ^ e := by gcongr; exact_mod_cast hs
        _ = 2 ^ 52 * 2 ^ (e + 1) := by rw [zpow_add_one₀ two_ne_zero]; ring
        _ ≤ 2 ^ 52 * 2 ^ exponentOf q := by
          gcongr
          · norm_num
          · omega
    have hcloser : |((2 ^ 52 : Nat) : ℚ) * 2 ^ exponentOf q - q| < |(finite s e).value - q| := by
      push_cast
      rw [abs_sub_comm, abs_of_nonneg (by linarith), abs_sub_comm, abs_of_pos (by linarith)]
      linarith
    exact ⟨2 ^ 52, hcloser.le, fun heq => absurd heq hcloser.ne⟩

/-- Rounding yields the nearest number, unless the number is too large. -/
theorem isNearest_nearest (hq : 0 ≤ q) (hfinite : nearest q ≠ infinite) :
    IsNearest q (nearest q) := by
  rcases hq.eq_or_lt with rfl | hq
  · have hzero : nearest 0 = zero := if_pos rfl
    rw [hzero]
    have hvalue : zero.value = 0 := by simp [zero, value]
    refine ⟨⟨zero_canonical, Binary64.noConfusion⟩, fun y _ => ?_, fun _ _ _ _ => rfl⟩
    rw [hvalue, sub_zero, abs_zero]
    exact abs_nonneg _
  · have hpow : (0 : ℚ) < 2 ^ exponentOf q := by positivity
    have hscale : ∀ a : ℚ, |a * 2 ^ exponentOf q - q| =
        |a - q / 2 ^ exponentOf q| * 2 ^ exponentOf q := by
      intro a
      rw [← abs_of_pos hpow, ← abs_mul, abs_of_pos hpow, sub_mul, div_mul_cancel₀ _ hpow.ne']
    have hscaled : 0 ≤ q / 2 ^ exponentOf q := div_nonneg hq.le hpow.le
    have hheld : (nearest q).Held := ⟨nearest_canonical hq.le, hfinite⟩
    rw [nearest_eq hq] at hfinite hheld ⊢
    obtain ⟨hvalue, heven⟩ := value_normalize hfinite
    have hclosest : ∀ z : Nat,
        |(normalize (roundEven (q / 2 ^ exponentOf q)) (exponentOf q)).value - q| ≤
          |z * 2 ^ exponentOf q - q| := by
      intro z
      rw [hvalue, hscale, hscale]
      exact mul_le_mul_of_nonneg_right (roundEven_closest hscaled z) hpow.le
    refine ⟨hheld, fun y hy => ?_, fun y hy hne htie => ?_⟩
    · obtain ⟨z, hz, -⟩ := exists_grid_point hq hy
      exact (hclosest z).trans hz
    · obtain ⟨z, hz, hgrid⟩ := exists_grid_point hq hy
      have hyz := hgrid (le_antisymm hz (htie.le.trans (hclosest z)))
      refine heven (roundEven_even hscaled (z := z) ?_ ?_)
      · rintro rfl
        exact hne (hy.eq_of_value hheld (hyz.trans hvalue.symm))
      · rw [hyz, hvalue, hscale, hscale] at htie
        exact mul_right_cancel₀ hpow.ne' htie

end Nearest

section Whole

variable {x : Binary64} {k : Nat}

/-- A number that is whole is read off as a whole number. -/
lemma toNat?_of_value (hx : x ≠ infinite) (h : x.value = k) : x.toNat? = some k := by
  cases x with
  | infinite => exact absurd rfl hx
  | finite s e =>
    have hmul : s * 2 ^ e.toNat = k * 2 ^ (-e).toNat := by
      rw [value, zpow_eq_div 2, ← mul_div_assoc, div_eq_iff (by positivity)] at h
      exact_mod_cast h
    have hmod : s % 2 ^ (-e).toNat = 0 := by
      rcases Int.le_total 0 e with he | he
      · rw [show (-e).toNat = 0 by omega, pow_zero, Nat.mod_one]
      · rw [show e.toNat = 0 by omega, pow_zero, mul_one] at hmul
        rw [hmul, Nat.mul_mod_left]
    simp only [toNat?, Nat.pow_eq]
    rw [if_pos hmod, hmul, Nat.mul_div_cancel _ (Nat.pow_pos two_pos)]

/-- A whole number with at most 53 binary digits is held. -/
lemma exists_held (hk : k < 2 ^ 53) : ∃ x : Binary64, x.Held ∧ x.value = k := by
  rcases Nat.eq_zero_or_pos k with rfl | hpos
  · exact ⟨zero, ⟨zero_canonical, Binary64.noConfusion⟩, by simp [zero, value]⟩
  · have hlog : k.log2 < 53 := (Nat.log2_lt hpos.ne').2 hk
    have hlow := Nat.log2_self_le hpos.ne'
    have hhigh := @Nat.lt_log2_self k
    obtain ⟨m, hm⟩ : ∃ m, k.log2 + m = 52 := ⟨52 - k.log2, by omega⟩
    refine ⟨finite (k * 2 ^ m) (-m), ⟨.finite ?_ ?_ ?_ ?_, Binary64.noConfusion⟩, ?_⟩
    · calc k * 2 ^ m < 2 ^ (k.log2 + 1) * 2 ^ m := by gcongr
        _ = 2 ^ 53 := by rw [← pow_add, show k.log2 + 1 + m = 53 by omega]
    · omega
    · omega
    · intro hless
      have hge : 2 ^ 52 ≤ k * 2 ^ m := by
        rw [← hm, pow_add]
        gcongr
      omega
    · rw [value, zpow_neg, zpow_natCast]
      push_cast
      field_simp

/-- A whole number with at most 53 binary digits is not changed by rounding. -/
lemma nearest_natCast (hk : k < 2 ^ 53) : (nearest k).Held ∧ (nearest k).value = k := by
  obtain ⟨x, hheld, hvalue⟩ := exists_held hk
  rw [← hvalue, nearest_value hheld.1 hheld.2]
  exact ⟨hheld, rfl⟩

end Whole

end Binary64

/-- The numbers that are written as whole numbers are those that are whole and not too large. -/
theorem Json.ofBinary64_eq_integer_iff {x : Binary64} {k : Nat} :
    Json.ofBinary64 x = .integer k ↔ x ≠ .infinite ∧ x.value = k ∧ k ≤ Json.maxSafeInteger := by
  constructor
  · intro h
    unfold Json.ofBinary64 at h
    split at h
    next => cases h
    next =>
      split at h
      next n hn =>
        split at h
        next hle =>
          cases h
          exact ⟨Binary64.noConfusion, Binary64.value_of_toNat? hn, hle⟩
        next => cases h
      next => cases h
  · rintro ⟨hx, hvalue, hle⟩
    have hwhole := Binary64.toNat?_of_value hx hvalue
    cases x with
    | infinite => exact absurd rfl hx
    | finite s e =>
      unfold Json.ofBinary64
      simp only [hwhole, if_pos hle]

end ScriptTree
