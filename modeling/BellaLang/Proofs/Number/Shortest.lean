import BellaLang.Proofs.Number.Rounding

/-!
The shortest decimal lies in the interval of the double.

Decimals are compared with the ends of the interval on naturals, where nothing is rounded.  These
comparisons are those of the rationals (`compareScaled_eq`), so what the search takes for a
candidate does lie in the interval (`Magnitude.holds_of_covers`).  Nothing else is taken: should no
grid have a candidate, the number itself stands in, written out to its last place.  Stripping zeros
does not change a decimal.

Main statement: `Magnitude.holds_shortest`.
-/

namespace BellaLang.Number

/-- The rational number that a decimal stands for. -/
def Decimal.value (d : Decimal) : ℚ := d.digits * 10 ^ d.scale

/-! ## Comparisons -/

/-- Where the exponent is negative, the power with its size makes up for it. -/
theorem zpow_mul_pow_neg {b : ℚ} (hb : b ≠ 0) (e : Int) :
    b ^ e * b ^ (-e).toNat = b ^ e.toNat := by
  rw [← zpow_natCast, ← zpow_natCast, ← zpow_add₀ hb]
  congr 1
  omega

/-- **Comparing on naturals** gives what comparing the rationals would. -/
theorem compareScaled_eq (a : Nat) (i : Int) (b : Nat) (j : Int) :
    compareScaled a i b j = cmp (a * 10 ^ i : ℚ) (b * 2 ^ j) := by
  have hunit : (0 : ℚ) < 10 ^ (-i).toNat * 2 ^ (-j).toNat := by positivity
  have hleft : ((a * tenTo i.toNat * twoTo (-j).toNat : Nat) : ℚ) =
      a * 10 ^ i * (10 ^ (-i).toNat * 2 ^ (-j).toNat) := by
    rw [Nat.cast_mul, Nat.cast_mul, cast_tenTo, cast_twoTo,
      ← zpow_mul_pow_neg (by norm_num : (10 : ℚ) ≠ 0) i]
    ring
  have hright : ((b * twoTo j.toNat * tenTo (-i).toNat : Nat) : ℚ) =
      b * 2 ^ j * (10 ^ (-i).toNat * 2 ^ (-j).toNat) := by
    rw [Nat.cast_mul, Nat.cast_mul, cast_tenTo, cast_twoTo, ← zpow_mul_pow_neg two_ne_zero j]
    ring
  rw [compareScaled, ← cmp_eq_compare, ← (Nat.strictMono_cast (α := ℚ)).cmp_map_eq, hleft, hright,
    cmp_mul_pos_right hunit]

/-- What is taken for a candidate lies in the interval. -/
theorem Magnitude.holds_of_covers {x : Magnitude} {d : Decimal} (hpos : 0 < x.significand)
    (h : x.covers d = true) : x.Holds d.value := by
  have hquarter : (2 : ℚ) ^ (x.exponent - 2) = 2 ^ x.exponent / 4 := by
    rw [zpow_sub₀ two_ne_zero]
    norm_num
  have hleast : ((4 * x.significand - (if x.narrowBelow then 1 else 2) : Nat) : ℚ) *
      2 ^ (x.exponent - 2) = (x.significand - x.slack) * 2 ^ x.exponent := by
    rw [hquarter, slack]
    split
    · rw [Nat.cast_sub (by omega)]
      push_cast
      ring
    · rw [Nat.cast_sub (by omega)]
      push_cast
      ring
  have hgreatest : ((4 * x.significand + 2 : Nat) : ℚ) * 2 ^ (x.exponent - 2) =
      (x.significand + 1 / 2) * 2 ^ x.exponent := by
    rw [hquarter]
    push_cast
    ring
  unfold covers at h
  dsimp only at h
  rw [compareScaled_eq, compareScaled_eq, hleast, hgreatest, Bool.and_eq_true, Bool.or_eq_true,
    Bool.or_eq_true, Bool.and_eq_true, Bool.and_eq_true, beq_iff_eq, beq_iff_eq, beq_iff_eq,
    beq_iff_eq, beq_iff_eq, cmp_eq_gt_iff, cmp_eq_eq_iff, cmp_eq_lt_iff, cmp_eq_eq_iff] at h
  obtain ⟨hbelow, habove⟩ := h
  refine ⟨?_, ?_, fun hodd => ⟨?_, ?_⟩⟩
  · rcases hbelow with hless | ⟨-, heq⟩
    · exact hless.le
    · exact heq.ge
  · rcases habove with hless | ⟨-, heq⟩
    · exact hless.le
    · exact heq.le
  · exact hbelow.resolve_right fun heven => hodd heven.1
  · exact habove.resolve_right fun heven => hodd heven.1

/-! ## The search -/

theorem Magnitude.covers_of_onGrid? {x : Magnitude} {scale : Int} {d : Decimal}
    (h : x.onGrid? scale = some d) : x.covers d = true := by
  unfold onGrid? at h
  dsimp only at h
  split at h
  · cases h
  · rename_i hlower hupper
    rw [← Option.some.inj h]
    exact hlower
  · rename_i hlower hupper
    rw [← Option.some.inj h]
    exact hupper
  · rename_i hlower hupper
    split at h
    · rw [← Option.some.inj h]
      exact hlower
    · rw [← Option.some.inj h]
      exact hupper
    · split at h
      · rw [← Option.some.inj h]
        exact hlower
      · rw [← Option.some.inj h]
        exact hupper

/-- Without the zeros at the end a decimal is what it was. -/
theorem value_stripZeros (digits : Nat) (scale : Int) :
    (stripZeros digits scale).value = digits * 10 ^ scale := by
  induction digits, scale using stripZeros.induct with
  | case1 digits scale h ih =>
    have hten : (digits : ℚ) = (digits / 10 : Nat) * 10 := by
      exact_mod_cast (Nat.div_mul_cancel (Nat.dvd_of_mod_eq_zero h.2)).symm
    rw [stripZeros, dif_pos h, ih, hten, zpow_add_one₀ (by norm_num)]
    ring
  | case2 digits scale h =>
    rw [stripZeros, dif_neg h]
    rfl

/-- Written out to its last place a number is itself. -/
theorem Magnitude.value_exact (x : Magnitude) : x.exact.value = x.value := by
  unfold exact Decimal.value value
  split
  · rename_i hnegative
    have hexponent : x.exponent = -((-x.exponent).toNat : Int) := by omega
    generalize (-x.exponent).toNat = n at hexponent
    have hfive : (5 : ℚ) ^ n * 10 ^ (-(n : Int)) = 2 ^ (-(n : Int)) := by
      rw [zpow_neg, zpow_neg, zpow_natCast, zpow_natCast, ← div_eq_mul_inv, ← div_pow, ← inv_pow]
      norm_num
    rw [hexponent, Nat.cast_mul, mul_assoc, ← hfive]
    congr 2
    exact Nat.cast_pow 5 n
  · rename_i hnonneg
    have hexponent : x.exponent = (x.exponent.toNat : Int) := by omega
    rw [zpow_zero, mul_one, Nat.cast_mul, cast_twoTo]
    conv_rhs => rw [hexponent, zpow_natCast]

/-- **The shortest decimal lies in the interval of the double.** -/
theorem Magnitude.holds_shortest {x : Magnitude} (hpos : 0 < x.significand) :
    x.Holds x.shortest.value := by
  unfold shortest
  dsimp only
  rw [value_stripZeros]
  show x.Holds (Decimal.value _)
  cases hfound : gridSizes.findSome? fun (n : Nat) => x.onGrid? (x.decade - n) with
  | none =>
    rw [Option.getD_none, x.value_exact]
    exact x.holds_value
  | some d =>
    obtain ⟨n, -, hgrid⟩ := List.exists_of_findSome?_eq_some hfound
    exact holds_of_covers hpos (covers_of_onGrid? hgrid)

end BellaLang.Number
