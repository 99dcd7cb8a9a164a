import Mathlib.Data.Nat.Log
import Mathlib.Tactic.Ring
import Stencil.Number.Double

/-! Whole numbers rounded to floating-point ones. A greater number is never rounded to a smaller
one, and a number of at most 53 bits is not rounded at all, so no other number is rounded to it. -/

namespace Stencil.Double

variable {m n num num' den : Nat}

/-! Signs and magnitudes. -/

theorem toNat_bits_ofMagnitude (negative : Bool) (h : m < signWeight) :
    (ofMagnitude negative m).bits.toNat = if negative then signWeight + m else m := by
  have hbound : (if negative then signWeight + m else m) < 2 ^ 64 := by
    simp only [signWeight] at h ⊢
    split <;> omega
  exact (UInt64.toNat_ofNat').trans (Nat.mod_eq_of_lt hbound)

theorem magnitude_ofMagnitude (negative : Bool) (h : m < signWeight) :
    (ofMagnitude negative m).magnitude = m := by
  rw [magnitude, toNat_bits_ofMagnitude negative h]
  split
  · rw [Nat.add_mod_left, Nat.mod_eq_of_lt h]
  · exact Nat.mod_eq_of_lt h

theorem key_ofMagnitude (negative : Bool) (h : m < signWeight) :
    (ofMagnitude negative m).key = if negative then -(m : Int) else m := by
  have hnegative : (ofMagnitude negative m).negative = negative := by
    rw [Double.negative, toNat_bits_ofMagnitude negative h]
    cases negative <;> simp [h]
  rw [key, hnegative, magnitude_ofMagnitude negative h]

theorem key_eq_zero_iff {x : Double} : x.key = 0 ↔ x.magnitude = 0 := by
  rw [key]
  split <;> omega

/-! Rounding to a whole number. -/

theorem le_roundHalfEven (num den : Nat) : num / den ≤ roundHalfEven num den := by
  unfold roundHalfEven
  dsimp only
  split <;> omega

theorem roundHalfEven_le (num den : Nat) : roundHalfEven num den ≤ num / den + 1 := by
  unfold roundHalfEven
  dsimp only
  split <;> omega

theorem roundHalfEven_one (num : Nat) : roundHalfEven num 1 = num := by
  simp [roundHalfEven, Nat.mod_one]

theorem roundHalfEven_mono (h : num ≤ num') : roundHalfEven num den ≤ roundHalfEven num' den := by
  rcases Nat.lt_or_eq_of_le (Nat.div_le_div_right (c := den) h) with hlt | heq
  · calc roundHalfEven num den ≤ num / den + 1 := roundHalfEven_le num den
      _ ≤ num' / den := hlt
      _ ≤ roundHalfEven num' den := le_roundHalfEven num' den
  · -- between the same two whole numbers the one with the greater remainder goes up if any does
    have hmod : num % den ≤ num' % den := by
      have hnum := Nat.div_add_mod num den
      have hnum' := Nat.div_add_mod num' den
      rw [← heq] at hnum'
      omega
    unfold roundHalfEven
    dsimp only
    rw [← heq]
    grind

/-! Rounding a whole number to 53 bits. -/

/-- The significand of a whole number: 53 bits, or one more where it is carried. -/
def wholeSignificand (n : Nat) : Nat :=
  roundHalfEven (n * 2 ^ (52 - n.log2)) (2 ^ (n.log2 - 52))

/-- The magnitude of a whole number: its number of bits and its significand. -/
def wholeMagnitude (n : Nat) : Nat :=
  if n = 0 then 0 else (n.log2 + 1022) * exponentWeight + wholeSignificand n

/-- Shifting up to a width and down to it come to the same. -/
theorem pow_mul_pow_sub (bits width : Nat) :
    2 ^ bits * 2 ^ (width - bits) = 2 ^ width * 2 ^ (bits - width) := by
  rw [← Nat.pow_add, ← Nat.pow_add]
  congr 1
  omega

theorem le_shifted (h : n ≠ 0) (width : Nat) :
    2 ^ width * 2 ^ (n.log2 - width) ≤ n * 2 ^ (width - n.log2) := by
  rw [← pow_mul_pow_sub]
  exact Nat.mul_le_mul_right _ (Nat.log2_self_le h)

theorem shifted_lt (n width : Nat) :
    n * 2 ^ (width - n.log2) < 2 ^ (width + 1) * 2 ^ (n.log2 - width) := by
  calc n * 2 ^ (width - n.log2) < 2 ^ (n.log2 + 1) * 2 ^ (width - n.log2) :=
        Nat.mul_lt_mul_of_pos_right Nat.lt_log2_self (Nat.two_pow_pos _)
    _ = 2 ^ (width + 1) * 2 ^ (n.log2 - width) := by
      rw [Nat.pow_succ, Nat.mul_right_comm, pow_mul_pow_sub, Nat.pow_succ, Nat.mul_right_comm]

theorem le_wholeSignificand (h : n ≠ 0) : exponentWeight ≤ wholeSignificand n :=
  ((Nat.le_div_iff_mul_le (Nat.two_pow_pos _)).2 (le_shifted h 52)).trans (le_roundHalfEven _ _)

theorem wholeSignificand_le (n : Nat) : wholeSignificand n ≤ 2 * exponentWeight :=
  (roundHalfEven_le _ _).trans ((Nat.div_lt_iff_lt_mul (Nat.two_pow_pos _)).2 (shifted_lt n 52))

theorem wholeSignificand_of_lt (h : n < 2 ^ 53) :
    wholeSignificand n = n * 2 ^ (52 - n.log2) ∧ wholeSignificand n < 2 * exponentWeight := by
  have hbits : n.log2 - 52 = 0 := by
    rcases Nat.eq_zero_or_pos n with rfl | hpos
    · rfl
    · have hlog : n.log2 < 53 := (Nat.log2_lt hpos.ne').2 h
      omega
  have heq : wholeSignificand n = n * 2 ^ (52 - n.log2) := by
    rw [wholeSignificand, hbits]
    exact roundHalfEven_one _
  have hlt := shifted_lt n 52
  rw [hbits] at hlt
  exact ⟨heq, heq ▸ hlt⟩

theorem unitOf_one (h : n ≠ 0) : unitOf n 1 = (n.log2 : Int) - 52 := by
  have hbits : (Nat.log2 1 : Nat) = 0 := rfl
  have hneg : (-((n.log2 : Int) - 0 - 53)).toNat = 53 - n.log2 := by omega
  have hpos : ((n.log2 : Int) - 0 - 53).toNat = n.log2 - 53 := by omega
  have hlow := le_shifted h 53
  unfold unitOf scaled
  dsimp only
  rw [hbits, Int.natCast_zero, hneg, hpos, if_neg]
  · omega
  · rw [Nat.one_mul]
    exact Nat.not_lt.2 hlow

theorem nearestMagnitude_one (n : Nat) :
    nearestMagnitude n 1 = min (wholeMagnitude n) infinityMagnitude := by
  rw [nearestMagnitude, wholeMagnitude]
  split
  · rw [Nat.zero_min]
  · next h =>
    have hunit : ((n.log2 : Int) - 52 + 1074).toNat = n.log2 + 1022 := by omega
    have hneg : (-((n.log2 : Int) - 52)).toNat = 52 - n.log2 := by omega
    have hpos : ((n.log2 : Int) - 52).toNat = n.log2 - 52 := by omega
    unfold scaled
    dsimp only
    rw [unitOf_one h, hunit, hneg, hpos, Nat.one_mul]
    rfl

theorem log2_mono (hm : m ≠ 0) (h : m ≤ n) : m.log2 ≤ n.log2 :=
  (Nat.le_log2 (by omega)).2 ((Nat.log2_self_le hm).trans h)

/-- A number with more bits has the greater magnitude, whatever the significands are. -/
theorem wholeMagnitude_of_log2_lt (hn : n ≠ 0) (hlog : m.log2 < n.log2) :
    (m.log2 + 1022) * exponentWeight + 2 * exponentWeight ≤ wholeMagnitude n := by
  rw [wholeMagnitude, if_neg hn]
  calc (m.log2 + 1022) * exponentWeight + 2 * exponentWeight
      = (m.log2 + 1 + 1022) * exponentWeight + exponentWeight := by ring
    _ ≤ (n.log2 + 1022) * exponentWeight + wholeSignificand n :=
        Nat.add_le_add (Nat.mul_le_mul_right _ (by omega)) (le_wholeSignificand hn)

theorem wholeMagnitude_mono (h : m ≤ n) : wholeMagnitude m ≤ wholeMagnitude n := by
  rcases Nat.eq_zero_or_pos m with rfl | hm
  · exact Nat.zero_le _
  have hn : n ≠ 0 := by omega
  rcases Nat.lt_or_eq_of_le (log2_mono hm.ne' h) with hlog | hlog
  · refine Nat.le_trans ?_ (wholeMagnitude_of_log2_lt hn hlog)
    rw [wholeMagnitude, if_neg hm.ne']
    exact Nat.add_le_add_left (wholeSignificand_le m) _
  · rw [wholeMagnitude, wholeMagnitude, if_neg hm.ne', if_neg hn, wholeSignificand,
      wholeSignificand, hlog]
    exact Nat.add_le_add_left (roundHalfEven_mono (Nat.mul_le_mul_right _ h)) _

/-- A number of at most 53 bits is not rounded up to where a greater one stands. -/
theorem wholeMagnitude_lt (h : m < n) (hm : m < 2 ^ 53) : wholeMagnitude m < wholeMagnitude n := by
  have hn : n ≠ 0 := by omega
  obtain ⟨hexact, hbelow⟩ := wholeSignificand_of_lt hm
  rcases Nat.eq_zero_or_pos m with rfl | hpos
  · have hlow := le_wholeSignificand hn
    have hweight : 0 < exponentWeight := by decide
    rw [wholeMagnitude, wholeMagnitude, if_pos rfl, if_neg hn]
    omega
  rcases Nat.lt_or_eq_of_le (log2_mono hpos.ne' h.le) with hlog | hlog
  · refine Nat.lt_of_lt_of_le ?_ (wholeMagnitude_of_log2_lt hn hlog)
    rw [wholeMagnitude, if_neg hpos.ne']
    exact Nat.add_lt_add_left hbelow _
  · have hn53 : n < 2 ^ 53 := (Nat.log2_lt hn).1 (hlog ▸ (Nat.log2_lt hpos.ne').2 hm)
    rw [wholeMagnitude, wholeMagnitude, if_neg hpos.ne', if_neg hn, hexact,
      (wholeSignificand_of_lt hn53).1, hlog]
    exact Nat.add_lt_add_left (Nat.mul_lt_mul_of_pos_right h (Nat.two_pow_pos _)) _

/-! Rounding a whole number with its sign. -/

theorem nearestMagnitude_lt_signWeight (n : Nat) : nearestMagnitude n 1 < signWeight := by
  rw [nearestMagnitude_one]
  exact (Nat.min_le_right _ _).trans_lt (by decide)

theorem nearestMagnitude_mono (h : m ≤ n) : nearestMagnitude m 1 ≤ nearestMagnitude n 1 := by
  rw [nearestMagnitude_one, nearestMagnitude_one]
  exact min_le_min_right _ (wholeMagnitude_mono h)

theorem nearestMagnitude_lt (h : m < n) (hm : m < 2 ^ 53) :
    nearestMagnitude m 1 < nearestMagnitude n 1 := by
  have hfinite : wholeMagnitude m < infinityMagnitude :=
    (wholeMagnitude_lt hm hm).trans (by decide +kernel)
  rw [nearestMagnitude_one, nearestMagnitude_one, min_eq_left hfinite.le]
  exact lt_min (wholeMagnitude_lt h hm) hfinite

theorem isNaN_ofInt (n : Int) : (ofInt n).isNaN = false := by
  have hle : nearestMagnitude n.natAbs 1 ≤ infinityMagnitude := by
    rw [nearestMagnitude_one]
    exact Nat.min_le_right _ _
  rw [isNaN, ofInt, ofRatio, magnitude_ofMagnitude _ (nearestMagnitude_lt_signWeight _)]
  exact decide_eq_false (Nat.not_lt.2 hle)

theorem key_ofInt (n : Int) : (ofInt n).key =
    if n < 0 then -(nearestMagnitude n.natAbs 1 : Int) else nearestMagnitude n.natAbs 1 := by
  rw [ofInt, ofRatio, key_ofMagnitude _ (nearestMagnitude_lt_signWeight _)]
  simp only [decide_eq_true_eq]

section

variable {a b : Int}

theorem key_ofInt_mono (h : a ≤ b) : (ofInt a).key ≤ (ofInt b).key := by
  rw [key_ofInt, key_ofInt]
  split <;> split
  · have hle := nearestMagnitude_mono (show b.natAbs ≤ a.natAbs by omega)
    omega
  · omega
  · omega
  · have hle := nearestMagnitude_mono (show a.natAbs ≤ b.natAbs by omega)
    omega

theorem nearestMagnitude_pos (h : n ≠ 0) : 0 < nearestMagnitude n 1 :=
  (Nat.zero_le _).trans_lt (nearestMagnitude_lt (m := 0) (by omega) (by decide))

theorem key_ofInt_lt (h : a < b) (hexact : a.natAbs < 2 ^ 53 ∨ b.natAbs < 2 ^ 53) :
    (ofInt a).key < (ofInt b).key := by
  rw [key_ofInt, key_ofInt]
  split <;> split
  · have hlt := nearestMagnitude_lt (show b.natAbs < a.natAbs by omega) (by omega)
    omega
  · have hpos := nearestMagnitude_pos (show a.natAbs ≠ 0 by omega)
    omega
  · omega
  · have hlt := nearestMagnitude_lt (show a.natAbs < b.natAbs by omega) (by omega)
    omega

theorem key_ofInt_eq_zero_iff : (ofInt a).key = 0 ↔ a = 0 := by
  rw [key_ofInt]
  constructor
  · intro h
    by_contra hne
    have hpos := nearestMagnitude_pos (show a.natAbs ≠ 0 by omega)
    split at h <;> omega
  · rintro rfl
    rfl

/-- Rounded numbers that stand level are the same: there is no negative zero among them. -/
theorem ofInt_eq_of_key (h : (ofInt a).key = (ofInt b).key) : ofInt a = ofInt b := by
  rw [key_ofInt, key_ofInt] at h
  have hsame : (a < 0 ↔ b < 0) ∧ nearestMagnitude a.natAbs 1 = nearestMagnitude b.natAbs 1 := by
    split at h <;> split at h
    · omega
    · have hpos := nearestMagnitude_pos (show a.natAbs ≠ 0 by omega)
      omega
    · have hpos := nearestMagnitude_pos (show b.natAbs ≠ 0 by omega)
      omega
    · omega
  rw [ofInt, ofRatio, ofInt, ofRatio, hsame.2, decide_eq_decide.2 hsame.1]

/-- Whole numbers that are not rounded to one floating-point number are in order as these are. -/
theorem compare_key_ofInt (h : ofInt a ≠ ofInt b) :
    compare (ofInt a).key (ofInt b).key = compare a b := by
  have hkey : (ofInt a).key ≠ (ofInt b).key := mt ofInt_eq_of_key h
  rcases lt_trichotomy a b with hlt | rfl | hgt
  · rw [compare_lt_iff_lt.2 hlt, compare_lt_iff_lt]
    exact lt_of_le_of_ne (key_ofInt_mono hlt.le) hkey
  · exact absurd rfl h
  · rw [compare_gt_iff_gt.2 hgt, compare_gt_iff_gt]
    exact lt_of_le_of_ne (key_ofInt_mono hgt.le) hkey.symm

/-- A whole number below `2 ^ 53` is the only one that is rounded to it. -/
theorem ofInt_inj_of_lt (hexact : a.natAbs < 2 ^ 53 ∨ b.natAbs < 2 ^ 53)
    (h : ofInt a = ofInt b) : a = b := by
  have hkey := congrArg key h
  rcases lt_trichotomy a b with hlt | heq | hgt
  · exact absurd hkey (key_ofInt_lt hlt hexact).ne
  · exact heq
  · exact absurd hkey (key_ofInt_lt hgt hexact.symm).ne'

end

end Stencil.Double
