import Mathlib.Algebra.Order.Field.Power
import Mathlib.Algebra.Order.Ring.Rat
import Mathlib.Tactic.Linarith
import Mathlib.Tactic.Positivity
import DocQuery.Limit

/-! # Limits are positive

A limit is judged by its nearest double. The judgement is exact: rounding neither turns a positive
integer into zero nor takes it out of range.
-/
namespace DocQuery.Json

/-- The value of a finite binary number. -/
def Binary.exact {l : Layout} (x : Binary l) : ℚ :=
  (if x.negative then -1 else 1) * x.significand * 2 ^ x.scale

/-- The value of a number. -/
def Number.exact : Number → ℚ
  | .integer i _ _ => i
  | .double d => d.exact

namespace Binary
variable {l : Layout}

theorem isPositive_iff (x : Binary l) : x.isPositive = true ↔ 0 < x.exact := by
  have hscale : (0 : ℚ) < 2 ^ x.scale := by positivity
  unfold isPositive isZero exact
  cases x.negative with
  | true =>
    simp only [Bool.not_true, Bool.false_and, Bool.false_eq_true, if_true, false_iff, not_lt]
    have hle : (0 : ℚ) ≤ x.significand := by positivity
    nlinarith [mul_nonneg hle hscale.le]
  | false =>
    simp [hscale, Nat.pos_iff_ne_zero]

theorem nearest_pos {n d : Nat} (hd : 0 < d) (h : d ≤ n) : 0 < nearest n d := by
  have hq : 0 < n / d := Nat.div_pos h hd
  unfold nearest
  dsimp only
  split <;> omega

theorem isPositive_of_pack {m : Nat} {e : Int} {x : Binary l} (hm : 0 < m)
    (he : 0 < e + l.bias) (h : pack l false m e = some x) : x.isPositive = true := by
  by_cases hsmall : m < l.leadingBit
  · simp only [pack, hsmall, if_true, Option.dite_none_right_eq_some, Option.some.injEq] at h
    obtain ⟨_, rfl⟩ := h
    simp only [isPositive, isZero, significand, Nat.mod_eq_of_lt hsmall]
    simp
    omega
  · simp only [pack, hsmall, if_false, Option.dite_none_right_eq_some, Option.some.injEq] at h
    obtain ⟨_, rfl⟩ := h
    have hcode : (e + l.bias).toNat ≠ 0 := by omega
    simp only [isPositive, isZero, significand, hcode, if_false]
    simp [l.leadingBit_pos.ne']

theorem negative_of_pack {negative : Bool} {m : Nat} {e : Int} {x : Binary l}
    (h : pack l negative m e = some x) : x.negative = negative := by
  simp only [pack, Option.dite_none_right_eq_some, Option.some.injEq] at h
  obtain ⟨_, rfl⟩ := h
  rfl

theorem negative_of_ofRatio {negative : Bool} {num den : Nat} {x : Binary l}
    (h : ofRatio l negative num den = some x) : x.negative = negative := by
  unfold ofRatio at h
  dsimp only at h
  split at h <;> exact negative_of_pack h

theorem exists_pack_pos {m : Nat} {e : Int} (hm : 0 < m) (he : 0 < e + l.bias)
    (hlt : e + l.bias < l.exponents) :
    ∃ x, pack l false m e = some x ∧ x.isPositive = true := by
  have hcode : (if m < l.leadingBit then 0 else (e + l.bias).toNat) < l.exponents := by
    split <;> omega
  obtain ⟨x, hx⟩ : ∃ x, pack l false m e = some x := ⟨_, dif_pos hcode⟩
  exact ⟨x, hx, isPositive_of_pack hm he hx⟩

end Binary

namespace Double

theorem ratioLog_one {n : Nat} (hn : 0 < n) : ratioLog n 1 = n.log2 := by
  have hle : 1 <<< n.log2 ≤ n := Nat.one_shiftLeft _ ▸ Nat.log2_self_le (by omega)
  have hone : Nat.log2 1 = 0 := by decide
  simp [ratioLog, hone, hle]

theorem ofNat_pos {n : Nat} (hn : 0 < n) (hlt : n < 0x10000000000000000) :
    ∃ d, Binary.ofRatio .double false n 1 = some d ∧ d.isPositive = true := by
  have hlog : n.log2 < 64 := (Nat.log2_lt (by omega)).2 hlt
  have he : max Layout.double.least (ratioLog n 1 - Layout.double.fractionBits) =
      (n.log2 : Int) - 52 := by
    rw [ratioLog_one hn]
    simp only [Layout.least, Layout.double]
    omega
  -- The scaled quotient is at least one, so it is not rounded to zero.
  have hquot : 1 <<< ((n.log2 : Int) - 52).toNat ≤ n <<< (-((n.log2 : Int) - 52)).toNat := by
    by_cases hsmall : n.log2 ≤ 52
    · have hzero : ((n.log2 : Int) - 52).toNat = 0 := by omega
      rw [hzero, Nat.shiftLeft_zero, Nat.shiftLeft_eq]
      exact Nat.mul_pos hn (Nat.two_pow_pos _)
    · have hexp : ((n.log2 : Int) - 52).toNat ≤ n.log2 := by omega
      have hzero : (-((n.log2 : Int) - 52)).toNat = 0 := by omega
      rw [hzero, Nat.shiftLeft_zero, Nat.one_shiftLeft]
      exact (Nat.pow_le_pow_right (by decide) hexp).trans (Nat.log2_self_le (by omega))
  have hpos : 0 < 1 <<< ((n.log2 : Int) - 52).toNat := by
    rw [Nat.one_shiftLeft]
    exact Nat.two_pow_pos _
  have hm := Binary.nearest_pos hpos hquot
  unfold Binary.ofRatio
  dsimp only
  rw [he]
  split
  · exact Binary.exists_pack_pos (Layout.leadingBit_pos _) (by simp only [Layout.double]; omega)
      (by simp only [Layout.double]; omega)
  · exact Binary.exists_pack_pos hm (by simp only [Layout.double]; omega)
      (by simp only [Layout.double]; omega)

end Double

/-- A number counts as positive exactly if it is. -/
theorem Number.isPositive_iff (n : Number) : n.isPositive = true ↔ 0 < n.exact := by
  cases n with
  | double d => exact d.isPositive_iff
  | integer i lower upper =>
    simp only [isPositive, toDouble, exact, Double.ofInt, Int.cast_pos]
    rcases lt_trichotomy i 0 with hneg | rfl | hpos
    · have hnot : ¬ 0 < i := by omega
      simp only [hneg, decide_true, hnot, iff_false]
      cases hd : Binary.ofRatio .double true i.natAbs 1 with
      | none => simp
      | some d => simp [Binary.isPositive, Binary.negative_of_ofRatio hd]
    · have hzero : Binary.ofRatio .double false 0 1 = some (Double.zero false) := by rfl
      simp [hzero, Binary.isPositive, Binary.isZero, Binary.significand, Double.zero]
    · have hnot : ¬ i < 0 := by omega
      obtain ⟨d, hd, hp⟩ := Double.ofNat_pos (n := i.natAbs) (by omega) (by omega)
      simp [hnot, hd, hp, hpos]

end DocQuery.Json

namespace DocQuery.Limit

theorem exact_pos (l : Limit) : 0 < l.number.exact := l.number.isPositive_iff.1 l.positive

end DocQuery.Limit
