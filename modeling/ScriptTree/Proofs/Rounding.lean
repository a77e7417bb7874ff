import Mathlib.Algebra.Order.Field.Power
import Mathlib.Algebra.Order.Floor.Semifield
import Mathlib.Data.Int.Log
import Mathlib.Data.Nat.Cast.Field
import Mathlib.Data.Rat.Floor
import Mathlib.Tactic.FieldSimp
import Mathlib.Tactic.Linarith
import Mathlib.Tactic.NormNum
import Mathlib.Tactic.Positivity
import Mathlib.Tactic.Ring
import ScriptTree.Number.Shortest

/-!
# Rounding and shortest digits

Rounding is done on quotients of natural numbers, and depends on the rational number alone. What lies
closer to a double-precision number than half the way to its neighbours is rounded to it. Of the
decimals with seventeen digits one is always that close, so the search for the shortest digits never
comes back without any.

Main statements: `Binary64.nearest_of_close`, `Binary64.nearest_shortest`.
-/

namespace ScriptTree

/-- A power with a whole exponent is a quotient of powers with natural exponents. -/
lemma zpow_eq_div (a : ℚ) (b : ℤ) : a ^ b = a ^ b.toNat / a ^ (-b).toNat := by
  rcases Int.le_total 0 b with hb | hb
  · obtain ⟨n, rfl⟩ := Int.eq_ofNat_of_zero_le hb
    simp
  · obtain ⟨n, hn⟩ := Int.eq_ofNat_of_zero_le (Int.neg_nonneg_of_nonpos hb)
    obtain rfl : b = -n := by omega
    simp

/-- The nearest natural number, a tie to the even one. -/
def roundEven (q : ℚ) : Nat :=
  if 2 * (q - ⌊q⌋₊) < 1 ∨ 2 * (q - ⌊q⌋₊) = 1 ∧ ⌊q⌋₊ % 2 = 0 then ⌊q⌋₊ else ⌊q⌋₊ + 1

lemma roundQuotient_eq {n d : Nat} (hd : 0 < d) : roundQuotient n d = roundEven (n / d) := by
  have hpos : (0 : ℚ) < d := by exact_mod_cast hd
  have hsplit : (n : ℚ) = d * (n / d : Nat) + (n % d : Nat) := by
    exact_mod_cast (Nat.div_add_mod n d).symm
  have hfraction : (n / d : ℚ) - (n / d : Nat) = (n % d : Nat) / d := by
    rw [div_sub' hpos.ne', div_left_inj' hpos.ne']
    linarith
  have hless : 2 * ((n / d : ℚ) - (n / d : Nat)) < 1 ↔ 2 * (n % d) < d := by
    rw [hfraction, ← mul_div_assoc, div_lt_one hpos]
    exact_mod_cast Iff.rfl
  have htie : 2 * ((n / d : ℚ) - (n / d : Nat)) = 1 ↔ 2 * (n % d) = d := by
    rw [hfraction, ← mul_div_assoc, div_eq_one_iff_eq hpos.ne']
    exact_mod_cast Iff.rfl
  unfold roundQuotient roundEven
  simp only [Nat.floor_div_eq_div, hless, htie]

lemma roundEven_of_close {q : ℚ} {k : Nat} (hq : 0 ≤ q) (hlow : k < q + 1 / 2)
    (hhigh : q < k + 1 / 2) : roundEven q = k := by
  unfold roundEven
  by_cases hk : (k : ℚ) ≤ q
  · have hfloor : ⌊q⌋₊ = k := (Nat.floor_eq_iff hq).2 ⟨hk, by linarith⟩
    rw [hfloor, if_pos (Or.inl (by linarith))]
  · have hpos : k ≠ 0 := by
      rintro rfl
      exact hk (by simpa using hq)
    obtain ⟨j, rfl⟩ := Nat.exists_eq_succ_of_ne_zero hpos
    push_cast at hlow hhigh hk
    have hfloor : ⌊q⌋₊ = j := (Nat.floor_eq_iff hq).2 ⟨by linarith, by linarith⟩
    rw [hfloor, if_neg]
    rintro (hless | ⟨htie, -⟩) <;> linarith

lemma roundEven_close {q : ℚ} (hq : 0 ≤ q) :
    (roundEven q : ℚ) ≤ q + 1 / 2 ∧ q ≤ roundEven q + 1 / 2 := by
  have hle := Nat.floor_le hq
  have hlt := Nat.lt_floor_add_one q
  unfold roundEven
  split
  next h =>
    refine ⟨by linarith, ?_⟩
    rcases h with hless | ⟨htie, -⟩ <;> linarith
  next h =>
    push Not at h
    push_cast
    exact ⟨by linarith [h.1], by linarith⟩

/-! ### Rounding to double precision -/

lemma floorLog2_eq {n d : Nat} (hn : 0 < n) (hd : 0 < d) : floorLog2 n d = Int.log 2 (n / d : ℚ) := by
  have hd' : (0 : ℚ) < d := by exact_mod_cast hd
  have hpos : (0 : ℚ) < n / d := div_pos (by exact_mod_cast hn) hd'
  have htwo : (2 : ℚ) ≠ 0 := two_ne_zero
  have hn1 : (2 : ℚ) ^ n.log2 ≤ n := by exact_mod_cast Nat.log2_self_le hn.ne'
  have hn2 : (n : ℚ) < 2 ^ (n.log2 + 1) := by exact_mod_cast Nat.lt_log2_self
  have hd1 : (2 : ℚ) ^ d.log2 ≤ d := by exact_mod_cast Nat.log2_self_le hd.ne'
  have hd2 : (d : ℚ) < 2 ^ (d.log2 + 1) := by exact_mod_cast Nat.lt_log2_self
  unfold floorLog2
  set b : ℤ := Int.ofNat n.log2 - Int.ofNat d.log2 with hb
  have hsub : (2 : ℚ) ^ b = 2 ^ n.log2 / 2 ^ d.log2 := by
    rw [hb, zpow_sub₀ htwo]
    simp
  have hup : (n / d : ℚ) < 2 ^ (b + 1) := by
    rw [zpow_add_one₀ htwo, hsub, div_lt_iff₀ hd']
    calc (n : ℚ) < 2 ^ (n.log2 + 1) := hn2
      _ = 2 ^ n.log2 / 2 ^ d.log2 * 2 * 2 ^ d.log2 := by field_simp; ring
      _ ≤ 2 ^ n.log2 / 2 ^ d.log2 * 2 * d := by gcongr
  have hdown : (2 : ℚ) ^ (b - 1) ≤ n / d := by
    rw [zpow_sub_one₀ htwo, hsub, le_div_iff₀ hd']
    calc (2 : ℚ) ^ n.log2 / 2 ^ d.log2 * 2⁻¹ * d
        ≤ 2 ^ n.log2 / 2 ^ d.log2 * 2⁻¹ * 2 ^ (d.log2 + 1) := by gcongr
      _ = 2 ^ n.log2 := by field_simp; ring
      _ ≤ n := hn1
  have htest : d * Nat.pow 2 b.toNat ≤ n * Nat.pow 2 (-b).toNat ↔ (2 : ℚ) ^ b ≤ n / d := by
    rw [zpow_eq_div 2, div_le_div_iff₀ (by positivity) hd', mul_comm d]
    simp only [Nat.pow_eq]
    exact_mod_cast Iff.rfl
  dsimp only
  simp only [htest]
  split
  next h =>
    refine le_antisymm ((Int.zpow_le_iff_le_log one_lt_two hpos).1 (by exact_mod_cast h)) ?_
    have hlt : Int.log 2 (n / d : ℚ) < b + 1 :=
      (Int.lt_zpow_iff_log_lt one_lt_two hpos).1 (by exact_mod_cast hup)
    omega
  next h =>
    refine le_antisymm ((Int.zpow_le_iff_le_log one_lt_two hpos).1 (by exact_mod_cast hdown)) ?_
    have hlt : Int.log 2 (n / d : ℚ) < b :=
      (Int.lt_zpow_iff_log_lt one_lt_two hpos).1 (by exact_mod_cast not_le.1 h)
    omega

namespace Binary64

/-- The power of two in whose multiples a positive number is held. -/
def exponentOf (q : ℚ) : ℤ :=
  max (Int.log 2 q - 52) (-1074)

lemma ofQuotient_eq {n d : Nat} (hn : 0 < n) (hd : 0 < d) :
    ofQuotient n d = normalize (roundEven ((n / d : ℚ) / 2 ^ exponentOf (n / d)))
      (exponentOf (n / d)) := by
  unfold ofQuotient
  rw [floorLog2_eq hn hd]
  change normalize (roundQuotient (n * 2 ^ (-exponentOf (n / d)).toNat)
    (d * 2 ^ (exponentOf (n / d)).toNat)) (exponentOf (n / d)) = _
  rw [roundQuotient_eq (Nat.mul_pos hd (Nat.pow_pos two_pos)), zpow_eq_div, div_div_div_eq]
  push_cast
  rfl

/-- The form in which each number is held. -/
inductive Canonical : Binary64 → Prop where
  | finite {s : Nat} {e : ℤ} (hs : s < 2 ^ 53) (hlow : -1074 ≤ e) (hhigh : e ≤ 971)
      (hnormal : s < 2 ^ 52 → e = -1074) : Canonical (finite s e)
  | infinite : Canonical infinite

/-- The exact value of a finite number. -/
def value : Binary64 → ℚ
  | finite s e => s * 2 ^ e
  | infinite => 0

lemma zero_canonical : Canonical zero :=
  .finite (by norm_num) (by norm_num) (by norm_num) fun _ => rfl

lemma scaled_lt {q : ℚ} : q / 2 ^ exponentOf q < 2 ^ 53 := by
  have hlog : q < 2 ^ (Int.log 2 q + 1) := by
    exact_mod_cast Int.lt_zpow_succ_log_self one_lt_two q
  rw [div_lt_iff₀ (by positivity)]
  calc q < 2 ^ (Int.log 2 q + 1) := hlog
    _ ≤ 2 ^ (53 + exponentOf q) := by
      refine zpow_le_zpow_right₀ one_le_two ?_
      unfold exponentOf
      omega
    _ = 2 ^ 53 * 2 ^ exponentOf q := by
      rw [zpow_add₀ two_ne_zero]
      norm_cast

lemma le_scaled {q : ℚ} (hq : 0 < q) (h : -1074 < exponentOf q) :
    2 ^ 52 ≤ q / 2 ^ exponentOf q := by
  have hlog : (2 : ℚ) ^ Int.log 2 q ≤ q := by exact_mod_cast Int.zpow_log_le_self one_lt_two hq
  have hexp : exponentOf q = Int.log 2 q - 52 := by
    unfold exponentOf at h ⊢
    omega
  rw [le_div_iff₀ (by positivity)]
  calc (2 : ℚ) ^ 52 * 2 ^ exponentOf q = 2 ^ Int.log 2 q := by
        rw [hexp, ← zpow_natCast, ← zpow_add₀ two_ne_zero]
        congr 1
        push_cast
        ring
    _ ≤ q := hlog

/-- Rounding makes the form in which the number is held. -/
lemma ofQuotient_canonical {n d : Nat} (hn : 0 < n) (hd : 0 < d) : Canonical (ofQuotient n d) := by
  rw [ofQuotient_eq hn hd]
  have hq : (0 : ℚ) < n / d := div_pos (by exact_mod_cast hn) (by exact_mod_cast hd)
  have hclose := roundEven_close (div_nonneg hq.le
    (zpow_nonneg zero_le_two (exponentOf (n / d)) : (0 : ℚ) ≤ 2 ^ exponentOf (n / d)))
  have hlow : -1074 ≤ exponentOf (n / d) := le_max_right _ _
  have hle : roundEven ((n / d : ℚ) / 2 ^ exponentOf (n / d)) ≤ 2 ^ 53 := by
    have hlt : (roundEven ((n / d : ℚ) / 2 ^ exponentOf (n / d)) : ℚ) < (2 ^ 53 : Nat) + 1 := by
      push_cast
      linarith [scaled_lt (q := n / d)]
    exact Nat.le_of_lt_succ (by exact_mod_cast hlt)
  have hnormal : roundEven ((n / d : ℚ) / 2 ^ exponentOf (n / d)) < 2 ^ 52 →
      exponentOf (n / d) = -1074 := by
    intro hlt
    by_contra hne
    have hscaled := le_scaled hq (lt_of_le_of_ne hlow (Ne.symm hne))
    have hcast : (roundEven ((n / d : ℚ) / 2 ^ exponentOf (n / d)) : ℚ) + 1 ≤ (2 ^ 52 : Nat) := by
      exact_mod_cast hlt
    push_cast at hcast
    linarith
  generalize roundEven ((n / d : ℚ) / 2 ^ exponentOf (n / d)) = s at *
  generalize exponentOf (n / d) = e at *
  unfold normalize
  simp only [Nat.pow_eq]
  split
  next h =>
    split
    · exact .finite (by norm_num) (by omega) (by omega) fun hlt => absurd hlt (by norm_num)
    · exact .infinite
  next h =>
    split
    · exact .finite (by omega) hlow (by omega) hnormal
    · exact .infinite

/-- The number nearest to a rational number that is not negative. -/
def nearest (q : ℚ) : Binary64 :=
  if q = 0 then zero else ofQuotient q.num.toNat q.den

lemma nearest_canonical {q : ℚ} (hq : 0 ≤ q) : Canonical (nearest q) := by
  unfold nearest
  split
  · exact zero_canonical
  next hne =>
    have hnum := Rat.num_pos.2 (lt_of_le_of_ne hq (Ne.symm hne))
    exact ofQuotient_canonical (by omega) q.den_pos

lemma num_toNat_div_den {q : ℚ} (hq : 0 < q) : (q.num.toNat / q.den : ℚ) = q := by
  have hnum : ((q.num.toNat : ℤ) : ℚ) = q.num := by
    rw [Int.toNat_of_nonneg (Rat.num_pos.2 hq).le]
  rw [← Int.cast_natCast, hnum, Rat.num_div_den]

lemma nearest_eq {q : ℚ} (hq : 0 < q) :
    nearest q = normalize (roundEven (q / 2 ^ exponentOf q)) (exponentOf q) := by
  have hnum : 0 < q.num.toNat := by
    have := Rat.num_pos.2 hq
    omega
  rw [nearest, if_neg hq.ne', ofQuotient_eq hnum q.den_pos, num_toNat_div_den hq]

/-- Rounding depends on the rational number alone. -/
lemma ofQuotient_eq_nearest {n d : Nat} (hn : 0 < n) (hd : 0 < d) :
    ofQuotient n d = nearest (n / d) := by
  rw [ofQuotient_eq hn hd, nearest_eq (div_pos (by exact_mod_cast hn) (by exact_mod_cast hd))]

lemma normalize_of_lt {s : Nat} {e : ℤ} (hs : s < 2 ^ 53) (he : e ≤ 971) :
    normalize s e = finite s e := by
  simp only [normalize, Nat.pow_eq]
  rw [if_neg hs.ne, if_pos he]

lemma normalize_carry {e : ℤ} (he : e < 971) :
    normalize (2 ^ 53) e = finite (2 ^ 52) (e + 1) := by
  simp only [normalize, Nat.pow_eq]
  rw [if_pos he]
  rfl

section Close

variable {s : Nat} {e : ℤ} {q : ℚ}

/-- What is close to a number is held in multiples of the same power of two, or lies below a number
that is itself a power of two. -/
lemma exponentOf_of_close (hc : Canonical (finite s e)) (hs : 0 < s)
    (hlow : (s - 1 / 2) * 2 ^ e < q) (hhigh : q < (s + 1 / 2) * 2 ^ e)
    (hstep : s = 2 ^ 52 → (s - 1 / 4) * 2 ^ e < q) :
    exponentOf q = e ∨ s = 2 ^ 52 ∧ exponentOf q = e - 1 ∧ q < 2 ^ 52 * 2 ^ e := by
  cases hc with
  | finite hs53 hmin hmax hnormal =>
  have hone : (1 : ℚ) ≤ s := by exact_mod_cast hs
  have hpow : (0 : ℚ) < 2 ^ e := by positivity
  have hq : 0 < q := lt_trans (mul_pos (by linarith) hpow) hlow
  have hupper : Int.log 2 q < 53 + e := by
    refine (Int.lt_zpow_iff_log_lt one_lt_two hq).1 (hhigh.trans_le ?_)
    have hle : (s : ℚ) + 1 ≤ 2 ^ 53 := by exact_mod_cast hs53
    rw [Nat.cast_ofNat, zpow_add₀ two_ne_zero]
    exact mul_le_mul_of_nonneg_right (by norm_num at hle ⊢; linarith) hpow.le
  rw [or_iff_not_imp_left]
  intro hexp
  have hbelow : Int.log 2 q < 52 + e := by
    unfold exponentOf at hexp
    omega
  have hqlt : q < 2 ^ 52 * 2 ^ e := by
    have hlt := (Int.lt_zpow_iff_log_lt one_lt_two hq).2 hbelow
    rw [Nat.cast_ofNat, zpow_add₀ two_ne_zero] at hlt
    exact_mod_cast hlt
  have hs52 : s = 2 ^ 52 := by
    have hge : 2 ^ 52 ≤ s := by
      by_contra hlt
      have := hnormal (not_le.1 hlt)
      unfold exponentOf at hexp
      omega
    have hle : (s : ℚ) < (2 ^ 52 : Nat) + 1 := by
      have := lt_of_mul_lt_mul_right (hlow.trans hqlt) hpow.le
      push_cast
      linarith
    exact le_antisymm (Nat.le_of_lt_succ (by exact_mod_cast hle)) hge
  have habove : 51 + e ≤ Int.log 2 q := by
    refine (Int.zpow_le_iff_le_log one_lt_two hq).1 ?_
    rw [Nat.cast_ofNat, zpow_add₀ two_ne_zero]
    refine le_trans (mul_le_mul_of_nonneg_right ?_ hpow.le) (hstep hs52).le
    rw [hs52]
    norm_num
  refine ⟨hs52, ?_, hqlt⟩
  unfold exponentOf at hexp ⊢
  omega

/-- What is closer to a number than half the way to its neighbours is rounded to it. Below a power of
two the neighbour is only half as far away. -/
theorem nearest_of_close (hc : Canonical (finite s e)) (hs : 0 < s)
    (hlow : (s - 1 / 2) * 2 ^ e < q) (hhigh : q < (s + 1 / 2) * 2 ^ e)
    (hstep : s = 2 ^ 52 → (s - 1 / 4) * 2 ^ e < q) : nearest q = finite s e := by
  have hone : (1 : ℚ) ≤ s := by exact_mod_cast hs
  have hpow : (0 : ℚ) < 2 ^ e := by positivity
  have hq : 0 < q := lt_trans (mul_pos (by linarith) hpow) hlow
  rw [nearest_eq hq]
  rcases exponentOf_of_close hc hs hlow hhigh hstep with hexp | ⟨hs52, hexp, hqlt⟩
  · have hround : roundEven (q / 2 ^ e) = s := by
      have habove := (lt_div_iff₀ hpow).2 hlow
      have hbelow := (div_lt_iff₀ hpow).2 hhigh
      exact roundEven_of_close (by positivity) (by linarith) hbelow
    cases hc with
    | finite hs53 hmin hmax hnormal => rw [hexp, hround, normalize_of_lt hs53 hmax]
  · have hround : roundEven (q / 2 ^ (e - 1)) = 2 ^ 53 := by
      have hhalf : q / 2 ^ (e - 1) = 2 * (q / 2 ^ e) := by
        rw [zpow_sub_one₀ two_ne_zero]
        field_simp
      have hfine := hstep hs52
      rw [hs52] at hfine
      have habove := (lt_div_iff₀ hpow).2 hfine
      have hbelow := (div_lt_iff₀ hpow).2 hqlt
      rw [hhalf]
      push_cast at habove
      refine roundEven_of_close (by positivity) ?_ ?_
      · push_cast
        linarith
      · push_cast
        linarith
    cases hc with
    | finite hs53 hmin hmax hnormal =>
      rw [hexp, hround, hs52, normalize_carry (by omega), Int.sub_add_cancel]

end Close

/-- Every number is nearest to its own value. -/
lemma nearest_value {x : Binary64} (hc : Canonical x) (hx : x ≠ infinite) : nearest x.value = x := by
  cases x with
  | infinite => exact absurd rfl hx
  | finite s e =>
    have hpow : (0 : ℚ) < 2 ^ e := by positivity
    rcases Nat.eq_zero_or_pos s with rfl | hs
    · cases hc with
      | finite _ _ _ hnormal => simp [value, nearest, zero, hnormal (by norm_num)]
    · refine nearest_of_close hc hs ?_ ?_ fun _ => ?_
      all_goals
        simp only [value]
        exact mul_lt_mul_of_pos_right (by linarith) hpow

/-- Beyond the largest numbers everything is infinite. -/
lemma nearest_of_large {q : ℚ} (h : 2 ^ (1024 : ℤ) ≤ q) : nearest q = infinite := by
  have hq : 0 < q := lt_of_lt_of_le (zpow_pos two_pos _) h
  have hlog : 1024 ≤ Int.log 2 q := (Int.zpow_le_iff_le_log one_lt_two hq).1 h
  have hexp : 972 ≤ exponentOf q := by
    unfold exponentOf
    omega
  rw [nearest_eq hq]
  unfold normalize
  rw [if_neg (show ¬exponentOf q < 971 by omega), if_neg (show ¬exponentOf q ≤ 971 by omega), ite_self]

/-- Below half of the smallest number everything is zero. -/
lemma nearest_of_small {q : ℚ} (hq : 0 < q) (h : q < 2 ^ (-1075 : ℤ)) : nearest q = zero := by
  have hlog : Int.log 2 q < -1075 :=
    (Int.lt_zpow_iff_log_lt one_lt_two hq).1 h
  have hexp : exponentOf q = -1074 := by
    unfold exponentOf
    omega
  have hhalf : q / 2 ^ (-1074 : ℤ) < 1 / 2 := by
    rw [div_lt_iff₀ (zpow_pos two_pos _)]
    have hpow : (2 : ℚ) ^ (-1075 : ℤ) = 1 / 2 * 2 ^ (-1074 : ℤ) := by
      rw [show (-1075 : ℤ) = -1074 - 1 from rfl, zpow_sub_one₀ two_ne_zero]
      ring
    rwa [← hpow]
  have hround : roundEven (q / 2 ^ (-1074 : ℤ)) = 0 := by
    have hnonneg : 0 ≤ q / 2 ^ (-1074 : ℤ) := div_nonneg hq.le (zpow_nonneg zero_le_two _)
    refine roundEven_of_close hnonneg ?_ ?_
    · rw [Nat.cast_zero]
      linarith
    · rw [Nat.cast_zero, zero_add]
      exact hhalf
  rw [nearest_eq hq, hexp, hround, normalize_of_lt (by norm_num) (by norm_num)]
  rfl

end Binary64

lemma digitCount_pos (n : Nat) : 0 < digitCount n :=
  Nat.length_toDigits_pos

lemma lt_pow_digitCount (n : Nat) : n < 10 ^ digitCount n :=
  (Nat.length_toDigits_le_iff (by norm_num) (digitCount_pos n)).1 (Nat.le_refl _)

lemma pow_digitCount_le {n : Nat} (hn : 0 < n) : 10 ^ (digitCount n - 1) ≤ n := by
  rcases Nat.eq_zero_or_pos (digitCount n - 1) with hzero | hpos
  · rw [hzero, pow_zero]
    exact hn
  · by_contra hlt
    have hle : digitCount n ≤ digitCount n - 1 :=
      (Nat.length_toDigits_le_iff (by norm_num) hpos).2 (not_le.1 hlt)
    omega

namespace Decimal

/-- The exact value of a decimal. -/
def value (x : Decimal) : ℚ :=
  x.coefficient * 10 ^ x.exponent

lemma toQuotient_div (x : Decimal) : (x.toQuotient.1 / x.toQuotient.2 : ℚ) = x.value := by
  simp only [toQuotient, value, Nat.pow_eq]
  push_cast
  rw [zpow_eq_div 10, mul_div_assoc]

lemma value_nonneg (x : Decimal) : 0 ≤ x.value := by
  unfold value
  positivity

lemma value_pos {x : Decimal} (h : 0 < x.coefficient) : 0 < x.value :=
  mul_pos (by exact_mod_cast h) (by positivity)

/-- The number of digits and the exponent bound a decimal. -/
lemma value_bounds {x : Decimal} (h : 0 < x.coefficient) :
    (10 : ℚ) ^ ((digitCount x.coefficient : ℤ) + x.exponent - 1) ≤ x.value ∧
      x.value < 10 ^ ((digitCount x.coefficient : ℤ) + x.exponent) := by
  have hten : (10 : ℚ) ≠ 0 := by norm_num
  have hpos := digitCount_pos x.coefficient
  have hlow : (10 : ℚ) ^ (digitCount x.coefficient - 1) ≤ x.coefficient := by
    exact_mod_cast pow_digitCount_le h
  have hhigh : (x.coefficient : ℚ) < 10 ^ digitCount x.coefficient := by
    exact_mod_cast lt_pow_digitCount x.coefficient
  unfold value
  constructor
  · have hexp : (digitCount x.coefficient : ℤ) + x.exponent - 1 =
        (digitCount x.coefficient - 1 : Nat) + x.exponent := by omega
    rw [hexp, zpow_add₀ hten, zpow_natCast]
    gcongr
  · rw [zpow_add₀ hten, zpow_natCast]
    gcongr

lemma two_zpow_1024_le : (2 : ℚ) ^ (1024 : ℤ) ≤ 10 ^ (309 : ℤ) := by
  have hnat : 2 ^ 1024 ≤ 10 ^ 309 := by decide +kernel
  have hcast : ((2 ^ 1024 : Nat) : ℚ) ≤ (10 ^ 309 : Nat) := Nat.cast_le.2 hnat
  rwa [Nat.cast_pow, Nat.cast_pow, ← zpow_natCast, ← zpow_natCast] at hcast

lemma le_two_zpow_1075 : (10 : ℚ) ^ (-324 : ℤ) ≤ 2 ^ (-1075 : ℤ) := by
  have hnat : 2 ^ 1075 ≤ 10 ^ 324 := by decide +kernel
  have hcast : ((2 ^ 1075 : Nat) : ℚ) ≤ (10 ^ 324 : Nat) := Nat.cast_le.2 hnat
  rw [Nat.cast_pow, Nat.cast_pow, ← zpow_natCast, ← zpow_natCast] at hcast
  rw [zpow_neg, zpow_neg]
  exact inv_anti₀ (zpow_pos two_pos _) hcast

/-- A decimal is read as the number nearest to it; the cases that are settled by the number of digits
make no difference. -/
theorem toBinary64_eq (x : Decimal) : x.toBinary64 = .nearest x.value := by
  unfold toBinary64
  by_cases hzero : x.coefficient = 0
  · rw [if_pos hzero]
    simp [value, hzero, Binary64.nearest]
  have hpos : 0 < x.coefficient := Nat.pos_of_ne_zero hzero
  obtain ⟨hlow, hhigh⟩ := value_bounds hpos
  rw [if_neg hzero]
  dsimp only
  split
  next hlarge =>
    refine (Binary64.nearest_of_large (le_trans ?_ hlow)).symm
    calc (2 : ℚ) ^ (1024 : ℤ) ≤ 10 ^ (309 : ℤ) := two_zpow_1024_le
      _ ≤ 10 ^ ((digitCount x.coefficient : ℤ) + x.exponent - 1) :=
        zpow_le_zpow_right₀ (by norm_num) (by omega)
  next =>
    split
    next hsmall =>
      refine (Binary64.nearest_of_small (value_pos hpos) (lt_of_lt_of_le hhigh ?_)).symm
      calc (10 : ℚ) ^ ((digitCount x.coefficient : ℤ) + x.exponent) ≤ 10 ^ (-324 : ℤ) :=
            zpow_le_zpow_right₀ (by norm_num) (by omega)
        _ ≤ 2 ^ (-1075 : ℤ) := le_two_zpow_1075
    next =>
      rw [Binary64.ofQuotient_eq_nearest, toQuotient_div]
      · exact Nat.mul_pos hpos (Nat.pow_pos (by norm_num))
      · exact Nat.pow_pos (by norm_num)

lemma toBinary64_canonical (x : Decimal) : x.toBinary64.Canonical := by
  rw [toBinary64_eq]
  exact Binary64.nearest_canonical x.value_nonneg

end Decimal

/-! ### Shortest digits -/

lemma floorLog10_spec {n d : Nat} (hn : 0 < n) (hd : 0 < d) :
    (10 : ℚ) ^ floorLog10 n d ≤ n / d ∧ (n / d : ℚ) < 10 ^ (floorLog10 n d + 1) := by
  have hd' : (0 : ℚ) < d := by exact_mod_cast hd
  unfold floorLog10
  split
  next hle =>
    have hpos : 0 < n / d := Nat.div_pos hle hd
    have hcount := digitCount_pos (n / d)
    have hlow := (Nat.le_div_iff_mul_le hd).1 (pow_digitCount_le hpos)
    have hhigh := (Nat.div_lt_iff_lt_mul hd).1 (lt_pow_digitCount (n / d))
    have hexp : Int.ofNat (digitCount (n / d)) - 1 = (digitCount (n / d) - 1 : Nat) := by
      simp only [Int.ofNat_eq_natCast]
      omega
    have hexp' : ((digitCount (n / d) - 1 : Nat) : ℤ) + 1 = (digitCount (n / d) : Nat) := by omega
    rw [hexp, hexp', zpow_natCast, zpow_natCast, le_div_iff₀ hd', div_lt_iff₀ hd']
    exact ⟨by exact_mod_cast hlow, by exact_mod_cast hhigh⟩
  next hlt =>
    have hpos : 0 < (d - 1) / n := Nat.div_pos (by omega) hn
    have hcount := digitCount_pos ((d - 1) / n)
    have hlow := (Nat.le_div_iff_mul_le hn).1 (pow_digitCount_le hpos)
    have hhigh := (Nat.div_lt_iff_lt_mul hn).1 (lt_pow_digitCount ((d - 1) / n))
    have hexp : -Int.ofNat (digitCount ((d - 1) / n)) + 1 =
        -((digitCount ((d - 1) / n) - 1 : Nat) : ℤ) := by
      simp only [Int.ofNat_eq_natCast]
      omega
    rw [hexp, Int.ofNat_eq_natCast, zpow_neg, zpow_neg, zpow_natCast, zpow_natCast, le_div_iff₀ hd',
      div_lt_iff₀ hd', inv_mul_le_iff₀ (by positivity), lt_inv_mul_iff₀ (by positivity)]
    have hd1 : d ≤ 10 ^ digitCount ((d - 1) / n) * n := by omega
    have hd2 : 10 ^ (digitCount ((d - 1) / n) - 1) * n < d := by omega
    exact ⟨by exact_mod_cast hd1, by exact_mod_cast hd2⟩

namespace Binary64

section Shortest

variable {s : Nat} {e m : ℤ}

lemma toQuotient_div (s : Nat) (e : ℤ) :
    ((finite s e).toQuotient.1 / (finite s e).toQuotient.2 : ℚ) = s * 2 ^ e := by
  simp only [toQuotient, Nat.pow_eq]
  push_cast
  rw [zpow_eq_div 2, mul_div_assoc]

/-- A decimal on a grid of which the number is at least `10 ^ 16` steps is close enough to it. -/
lemma nearest_of_grid (hc : Canonical (finite s e)) (hs : 0 < s) {t : ℤ}
    (ht : (10 : ℚ) ^ 16 * 10 ^ t ≤ s * 2 ^ e) :
    nearest (roundEven (s * 2 ^ e / 10 ^ t) * 10 ^ t) = finite s e := by
  have hpow : (0 : ℚ) < 2 ^ e := by positivity
  have hten : (0 : ℚ) < 10 ^ t := by positivity
  obtain ⟨hup, hdown⟩ := roundEven_close (q := s * 2 ^ e / 10 ^ t) (by positivity)
  generalize (roundEven (s * 2 ^ e / 10 ^ t) : ℚ) = c at *
  have hup' : c * 10 ^ t ≤ s * 2 ^ e + 1 / 2 * 10 ^ t := by
    have := mul_le_mul_of_nonneg_right hup hten.le
    rwa [add_mul, div_mul_cancel₀ _ hten.ne'] at this
  have hdown' : s * 2 ^ e ≤ c * 10 ^ t + 1 / 2 * 10 ^ t := by
    have := mul_le_mul_of_nonneg_right hdown hten.le
    rwa [add_mul, div_mul_cancel₀ _ hten.ne'] at this
  -- half a step of the grid is less than half a step of the number, which has at most 53 bits
  have hs53 : (s : ℚ) < 2 ^ 53 := by
    cases hc with
    | finite hs53 => exact_mod_cast hs53
  have hless : (s : ℚ) * 2 ^ e < 2 ^ 53 * 2 ^ e := by gcongr
  refine nearest_of_close hc hs ?_ ?_ fun hs52 => ?_
  · linarith
  · linarith
  · have hs52' : (s : ℚ) = 2 ^ 52 := by exact_mod_cast hs52
    rw [hs52'] at ht hdown' ⊢
    linarith

lemma withDigits?_seventeen (hc : Canonical (finite s e)) (hs : 0 < s)
    (hm : (10 : ℚ) ^ m ≤ s * 2 ^ e) : (finite s e).withDigits? m 17 ≠ none := by
  have hten : (10 : ℚ) ≠ 0 := by norm_num
  have hgrid : (10 : ℚ) ^ 16 * 10 ^ (m + 1 - 17) ≤ s * 2 ^ e := by
    rwa [← zpow_natCast, ← zpow_add₀ hten, show ((16 : Nat) : ℤ) + (m + 1 - 17) = m by omega]
  have hround : roundQuotient ((finite s e).toQuotient.1 * 10 ^ (-(m + 1 - 17)).toNat)
      ((finite s e).toQuotient.2 * 10 ^ (m + 1 - 17).toNat) =
        roundEven (s * 2 ^ e / 10 ^ (m + 1 - 17)) := by
    have hden : 0 < (finite s e).toQuotient.2 := Nat.pow_pos two_pos
    rw [roundQuotient_eq (Nat.mul_pos hden (Nat.pow_pos (by norm_num))), zpow_eq_div 10,
      ← toQuotient_div, div_div_div_eq]
    push_cast
    rfl
  intro hnone
  have hall := List.find?_eq_none.1 hnone
  refine hall ⟨roundEven (s * 2 ^ e / 10 ^ (m + 1 - 17)), m + 1 - 17⟩ ?_ ?_
  · rw [← hround]
    exact List.mem_cons_self
  · rw [decide_eq_true_eq, Decimal.toBinary64_eq]
    exact nearest_of_grid hc hs hgrid

/-- The shortest digits read back as the number that they were made for. -/
theorem nearest_shortest {x : Binary64} (hc : Canonical x) (hx : x ≠ infinite) :
    nearest x.shortest.value = x := by
  cases x with
  | infinite => exact absurd rfl hx
  | finite s e =>
    unfold shortest
    split
    next hzero =>
      have hs : s = 0 := by
        simpa [toQuotient, Nat.pow_eq] using hzero
      subst hs
      cases hc with
      | finite _ _ _ hnormal => simp [nearest, Decimal.value, zero, hnormal (by norm_num)]
    next hne =>
      have hs : 0 < s := by
        rcases Nat.eq_zero_or_pos s with rfl | hs
        · exact absurd (Nat.zero_mul _) hne
        · exact hs
      obtain ⟨hlog, -⟩ := floorLog10_spec (Nat.pos_of_ne_zero hne)
        (show 0 < (finite s e).toQuotient.2 from Nat.pow_pos two_pos)
      rw [toQuotient_div] at hlog
      dsimp only
      rcases hfound : (List.range' 1 17).findSome? ((finite s e).withDigits?
          (floorLog10 (finite s e).toQuotient.1 (finite s e).toQuotient.2)) with _ | found
      · have hnone := List.findSome?_eq_none_iff.1 hfound 17 (by decide)
        exact absurd hnone (withDigits?_seventeen hc hs hlog)
      · obtain ⟨count, -, hcount⟩ := List.exists_of_findSome?_eq_some hfound
        have hread := List.find?_some hcount
        rw [decide_eq_true_eq, Decimal.toBinary64_eq] at hread
        exact hread

end Shortest

/-- A whole number that is read off a number is its value. -/
lemma value_of_toNat? {x : Binary64} {n : Nat} (h : x.toNat? = some n) : x.value = n := by
  cases x with
  | infinite => cases h
  | finite s e =>
    simp only [toNat?, Nat.pow_eq] at h
    split at h
    next hmod =>
      cases h
      have hdvd : 2 ^ (-e).toNat ∣ s * 2 ^ e.toNat := Dvd.dvd.mul_right (Nat.dvd_of_mod_eq_zero hmod) _
      rw [Nat.cast_div hdvd (by positivity), value, zpow_eq_div 2]
      push_cast
      rw [mul_div_assoc]
    next => cases h

end Binary64

end ScriptTree
