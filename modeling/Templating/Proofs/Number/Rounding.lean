import Templating.Proofs.Number.Places

/-!
# The floats nearest to integers

An integer becomes a float by shifting its digits until 53 of them are left and rounding by those
that were dropped. Both steps keep the order of integers, though they take different integers to
the same float: a greater integer never becomes a lesser float.
-/

namespace Templating

open Float.Model Float.Model.UnpackedFloat

namespace Number

section Shifting

/-- Shifting by one more digit. -/
theorem shiftRight_succ (em : ExtendedMantissa) (k : Nat) :
    em >>> (k + 1) = (em >>> k).shiftRightOne := rfl

/-- Shifting drops digits of the mantissa. -/
theorem mantissa_shiftRight (em : ExtendedMantissa) (k : Nat) :
    (em >>> k).mantissa = em.mantissa / 2 ^ k := by
  induction k with
  | zero => exact (Nat.div_one _).symm
  | succ k ih =>
    rw [shiftRight_succ, ExtendedMantissa.shiftRightOne, ih, Nat.div_div_eq_div_mul, Nat.pow_succ]

/-- Digits that are zero are dropped without a remainder. -/
theorem shiftRight_mul_two_pow (m k : Nat) :
    (⟨m * 2 ^ k, false, false⟩ : ExtendedMantissa) >>> k = ⟨m, false, false⟩ := by
  induction k generalizing m with
  | zero => rw [Nat.pow_zero, Nat.mul_one]; rfl
  | succ k ih =>
    rw [Nat.pow_succ, Nat.mul_comm (2 ^ k), ← Nat.mul_assoc, shiftRight_succ, ih]
    simp [ExtendedMantissa.shiftRightOne]

/-- The mantissa with its two further digits, as one number. -/
def grade (em : ExtendedMantissa) : Nat :=
  4 * em.mantissa + 2 * em.roundBit.toNat + em.stickyBit.toNat

/-- Shifting by one digit keeps all digits but tells the last two apart no longer. -/
theorem grade_shiftRightOne (em : ExtendedMantissa) :
    grade em.shiftRightOne = 2 * em.mantissa + (em.roundBit || em.stickyBit).toNat := by
  have hdigits := Nat.div_add_mod em.mantissa 2
  rcases Nat.mod_two_eq_zero_or_one em.mantissa with h | h <;>
    simp [grade, ExtendedMantissa.shiftRightOne, h] <;> omega

/-- Shifting keeps the order. -/
theorem grade_shiftRight {em em' : ExtendedMantissa} (h : grade em ≤ grade em') (k : Nat) :
    grade (em >>> k) ≤ grade (em' >>> k) := by
  induction k with
  | zero => exact h
  | succ k ih =>
    rw [shiftRight_succ, shiftRight_succ, grade_shiftRightOne, grade_shiftRightOne]
    revert ih
    generalize em >>> k = a
    generalize em' >>> k = b
    obtain ⟨m, r, s⟩ := a
    obtain ⟨m', r', s'⟩ := b
    cases r <;> cases s <;> cases r' <;> cases s' <;> simp [grade] <;> omega

/-- Rounding keeps the order. -/
theorem roundedMantissa_le {em em' : ExtendedMantissa} (h : grade em ≤ grade em') :
    em.roundedMantissa ≤ em'.roundedMantissa := by
  obtain ⟨m, r, s⟩ := em
  obtain ⟨m', r', s'⟩ := em'
  revert h
  cases r <;> cases s <;> cases r' <;> cases s' <;>
    simp [grade, ExtendedMantissa.roundedMantissa, ExtendedMantissa.accuracy,
      Accuracy.roundToNearestEven] <;> omega

/-- Rounding goes to the mantissa or to the next one. -/
theorem roundedMantissa_mem (em : ExtendedMantissa) :
    em.mantissa ≤ em.roundedMantissa ∧ em.roundedMantissa ≤ em.mantissa + 1 := by
  obtain ⟨m, r, s⟩ := em
  cases r <;> cases s <;>
    simp [ExtendedMantissa.roundedMantissa, ExtendedMantissa.accuracy,
      Accuracy.roundToNearestEven]
  omega

end Shifting

section Rounding

/-- The first 53 digits of a number that has as many, rounded by those that are dropped. -/
def leading (m : Nat) : Nat :=
  ((⟨m, false, false⟩ : ExtendedMantissa) >>> (m.log2 - 52)).roundedMantissa

/-- A mantissa of 53 digits and an exponent for a number that has at least as many digits. -/
def rounded (m : Nat) : Nat × Nat :=
  if leading m < 2 ^ 53 then (leading m, m.log2 - 52) else (2 ^ 52, m.log2 - 52 + 1)

variable {m n : Nat}

/-- A number of at least 53 digits. -/
theorem le_log2 (hm : 2 ^ 52 ≤ m) : 52 ≤ m.log2 :=
  (Nat.le_log2 (Nat.ne_of_gt (Nat.lt_of_lt_of_le (by decide) hm))).mpr hm

/-- Before it is rounded, the mantissa has 53 digits. -/
theorem leading_digits (hm : 2 ^ 52 ≤ m) :
    2 ^ 52 ≤ m / 2 ^ (m.log2 - 52) ∧ m / 2 ^ (m.log2 - 52) < 2 ^ 53 := by
  have hne : m ≠ 0 := Nat.ne_of_gt (Nat.lt_of_lt_of_le (by decide) hm)
  have hlog := le_log2 hm
  rw [Nat.le_div_iff_mul_le (Nat.two_pow_pos _), Nat.div_lt_iff_lt_mul (Nat.two_pow_pos _),
    ← Nat.pow_add, ← Nat.pow_add]
  constructor
  · rw [show 52 + (m.log2 - 52) = m.log2 by omega]
    exact Nat.log2_self_le hne
  · rw [show 53 + (m.log2 - 52) = m.log2 + 1 by omega]
    exact Nat.lt_log2_self

/-- The rounded mantissa has 53 digits or is the next power of two. -/
theorem leading_mem (hm : 2 ^ 52 ≤ m) : 2 ^ 52 ≤ leading m ∧ leading m ≤ 2 ^ 53 := by
  have hdigits := leading_digits hm
  have hround := roundedMantissa_mem ((⟨m, false, false⟩ : ExtendedMantissa) >>> (m.log2 - 52))
  rw [mantissa_shiftRight] at hround
  dsimp only [leading] at hround ⊢
  omega

/-- The mantissa has 53 digits. -/
theorem rounded_mem (hm : 2 ^ 52 ≤ m) : 2 ^ 52 ≤ (rounded m).1 ∧ (rounded m).1 < 2 ^ 53 := by
  have hlead := leading_mem hm
  rw [rounded]
  split
  · next hsmall => exact ⟨hlead.1, hsmall⟩
  · exact ⟨Nat.le_refl _, Nat.pow_lt_pow_right (by decide) (by decide)⟩

/-- Of two numbers with equally many digits, the greater one has no lesser mantissa. -/
theorem leading_le (hlog : m.log2 = n.log2) (h : m ≤ n) : leading m ≤ leading n := by
  rw [leading, leading, hlog]
  refine roundedMantissa_le (grade_shiftRight ?_ _)
  simp only [grade]
  omega

/-- Rounding does not take a greater number to a lesser one. -/
theorem rounded_le (hm : 2 ^ 52 ≤ m) (h : m ≤ n) {r r' : Nat × Nat} (hr : rounded m = r)
    (hr' : rounded n = r') : r.2 < r'.2 ∨ r.2 = r'.2 ∧ r.1 ≤ r'.1 := by
  subst hr hr'
  have hleadm := leading_mem hm
  have hleadn := leading_mem (Nat.le_trans hm h)
  have hlogm := le_log2 hm
  have hlog : m.log2 ≤ n.log2 := by
    rw [Nat.log2_eq_log_two, Nat.log2_eq_log_two]
    exact Nat.log_mono_right h
  rcases Nat.eq_or_lt_of_le hlog with heq | hlt
  · have hle := leading_le heq h
    simp only [rounded, heq]
    split <;> split <;> omega
  · simp only [rounded]
    split <;> split <;> omega

/-- Zeros behind a number are further digits. -/
theorem log2_mul_two_pow (hm : m ≠ 0) (k : Nat) : (m * 2 ^ k).log2 = m.log2 + k := by
  have hpos := Nat.two_pow_pos k
  rw [Nat.log2_eq_iff (Nat.mul_ne_zero hm (Nat.ne_of_gt hpos)), Nat.pow_add, Nat.add_right_comm,
    Nat.pow_add]
  exact ⟨Nat.mul_le_mul_right _ (Nat.log2_self_le hm),
    (Nat.mul_lt_mul_right hpos).mpr Nat.lt_log2_self⟩

/-- A number with 53 digits before zeros keeps them. -/
theorem rounded_mul_two_pow (hm : 2 ^ 52 ≤ m) (hlt : m < 2 ^ 53) (k : Nat) :
    rounded (m * 2 ^ k) = (m, k) := by
  have hne : m ≠ 0 := Nat.ne_of_gt (Nat.lt_of_lt_of_le (by decide) hm)
  have hlog : m.log2 = 52 := (Nat.log2_eq_iff hne).mpr ⟨hm, hlt⟩
  have hlogk : (m * 2 ^ k).log2 - 52 = k := by
    rw [log2_mul_two_pow hne, hlog]
    omega
  have hlead : leading (m * 2 ^ k) = m := by
    rw [leading, hlogk, shiftRight_mul_two_pow]
    rfl
  rw [rounded, hlead, hlogk, if_pos hlt]

end Rounding

section Packing

/-- The exponent that a mantissa is shifted to. -/
theorem targetExponent_eq (m : Nat) (e : Int) :
    Format.binary64.targetExponent (totalExponent m e) = max (m.log2 + e - 52) (-1074) := by
  simp only [Format.targetExponent, totalExponent]
  have hmin : Format.binary64.minExponent = -1074 := by decide
  have hbits : (Format.binary64.mantissaBits : Int) = 53 := by decide
  rw [hmin, hbits]
  omega

/-- A mantissa of 53 digits and more is shifted to 53 digits. -/
theorem shiftToTargetExponent_eq {m : Nat} (hm : 2 ^ 52 ≤ m) {e : Int} (he : -1074 ≤ e) :
    shiftToTargetExponent Format.binary64 m e .exact =
      ((⟨m, false, false⟩ : ExtendedMantissa) >>> (m.log2 - 52),
        e + ((m.log2 - 52 : Nat) : Int)) := by
  have hlog := le_log2 hm
  have hshift : (max (m.log2 + e - 52) (-1074) - e).toNat = m.log2 - 52 := by omega
  rw [shiftToTargetExponent, targetExponent_eq, shiftToExponent, hshift]
  rfl

/-- A rounded mantissa with one digit too many loses it by another shift. -/
theorem rounded_eq {m : Nat} (hm : 2 ^ 52 ≤ m) :
    rounded m = (leading m / 2 ^ ((leading m).log2 - 52),
      m.log2 - 52 + ((leading m).log2 - 52)) := by
  obtain ⟨hlow, hhigh⟩ := leading_mem hm
  have hne : leading m ≠ 0 := Nat.ne_of_gt (Nat.lt_of_lt_of_le (by decide) hlow)
  rw [rounded]
  split
  · next hsmall =>
    rw [(Nat.log2_eq_iff hne).mpr ⟨hlow, hsmall⟩, Nat.sub_self, Nat.pow_zero, Nat.div_one,
      Nat.add_zero]
  · next hlarge =>
    have hfull : leading m = 2 ^ 53 := Nat.le_antisymm hhigh (Nat.le_of_not_lt hlarge)
    have hhalf : 2 ^ 53 / 2 ^ (53 - 52) = 2 ^ 52 := Nat.pow_div (by decide) (by decide)
    simp only [hfull, Nat.log2_two_pow, hhalf]

/-- Rounding a number of at least 53 digits. -/
theorem roundWithAccuracy_eq (s : Sign) {m : Nat} (hm : 2 ^ 52 ≤ m) {e : Int} (he : -1074 ≤ e)
    {r : Nat × Nat} (hr : rounded m = r) :
    ∃ hpos, roundWithAccuracy Format.binary64 s m e .exact = .finite s r.1 (e + r.2) hpos := by
  have hpos : 0 < r.1 := hr ▸ Nat.lt_of_lt_of_le (by decide) (rounded_mem hm).1
  have hsecond := shiftToTargetExponent_eq (leading_mem hm).1
    (e := e + ((m.log2 - 52 : Nat) : Int)) (by omega)
  rw [rounded_eq hm] at hr
  subst hr
  refine ⟨hpos, ?_⟩
  rw [roundWithAccuracy, shiftToTargetExponent_eq hm he]
  dsimp only
  rw [← leading, hsecond]
  dsimp only
  simp only [mantissa_shiftRight]
  rw [dif_neg (Nat.ne_of_gt hpos), UnpackedFloat.finite.injEq]
  exact ⟨rfl, rfl, by omega⟩

/-- The implicit first digit of a mantissa. -/
theorem toNat_one_append (m : BitVec 52) : (1#1 ++ m).toNat = 2 ^ 52 + m.toNat := by
  rw [BitVec.toNat_append, ← Nat.shiftLeft_add_eq_or_of_lt m.isLt]
  rfl

/-- The sign of a packed number. -/
theorem ofBitVec_unpackSign {spec : Format} (s : Sign) (e : BitVec spec.exponentBits)
    (m : BitVec spec.mantissaBitsWithoutImplicit) :
    Sign.ofBitVec (unpackSign (packComponents spec s e m)) = s := by
  have hsign : unpackSign (packComponents spec s e m) = s.toBitVec := by
    apply BitVec.eq_of_getLsbD_eq
    intro i hi
    obtain rfl : i = 0 := by omega
    simp [unpackSign, packComponents, BitVec.getLsbD_append, BitVec.getElem_append]
  rw [hsign]
  cases s <;> rfl

/-- What is added to an exponent when it is packed. -/
theorem bias_eq : (Format.binary64.exponentBias : Int) +
    (Format.binary64.mantissaBitsWithoutImplicit : Int) = 1075 := by
  decide

/-- Packing keeps a mantissa of 53 digits, if there is room for the exponent. -/
theorem unpack_pack (s : Sign) {m : Nat} (hlow : 2 ^ 52 ≤ m) (hhigh : m < 2 ^ 53) {e : Int}
    (he : -1074 ≤ e) (he' : e ≤ 971) (hpos : 0 < m) :
    (Float.Model.pack (.finite s m e hpos)).unpack = .finite s m e hpos := by
  have hlog : m.log2 = 52 := (Nat.log2_eq_iff (Nat.ne_of_gt hpos)).mpr ⟨hlow, hhigh⟩
  obtain ⟨b, hb⟩ : ∃ b : Nat, (b : Int) = e + 1075 := ⟨(e + 1075).toNat, by omega⟩
  have hexponent : (BitVec.ofNat 11 b).toNat = b := by
    rw [BitVec.toNat_ofNat, Nat.mod_eq_of_lt (by omega)]
  have hmantissa : (1#1 ++ BitVec.ofNat 52 m).toNat = m := by
    rw [toNat_one_append, BitVec.toNat_ofNat]
    omega
  have hne (v : BitVec 11) (hv : v.toNat ≠ b) : BitVec.ofNat 11 b ≠ v := by
    rintro rfl
    exact hv hexponent
  have hlast : BitVec.ofNat 11 b ≠ -1#11 := hne _ (by
    have : (-1#11 : BitVec 11).toNat = 2047 := by decide
    omega)
  have hfirst : BitVec.ofNat 11 b ≠ 0#11 := hne _ (by
    have : (0#11).toNat = 0 := rfl
    omega)
  have hbias : (e + (Format.binary64.exponentBias : Int) +
      (Format.binary64.mantissaBitsWithoutImplicit : Int)).toNat = b := by
    rw [Int.add_assoc, bias_eq]
    omega
  have hpack : UnpackedFloat.pack Format.binary64 (.finite s m e hpos) =
      packComponents Format.binary64 s (BitVec.ofNat 11 b) (BitVec.ofNat 52 m) := by
    simp only [UnpackedFloat.pack]
    rw [hbias, if_neg (by omega), hlog, if_pos (by decide)]
  show UnpackedFloat.unpack Format.binary64 (UnpackedFloat.pack Format.binary64 _) = _
  rw [hpack, UnpackedFloat.unpack]
  simp only [unpackMantissa_packComponents, unpackExponent_packComponents, ofBitVec_unpackSign]
  rw [if_neg hlast, if_neg hfirst, UnpackedFloat.finite.injEq]
  refine ⟨rfl, hmantissa, ?_⟩
  rw [hexponent, bias_eq]
  omega

end Packing

section Integers

variable {n : Nat}

/-- With zeros behind it, a number has 53 digits. -/
theorem le_mul_two_pow (hpos : 0 < n) : 2 ^ 52 ≤ n * 2 ^ 53 :=
  Nat.le_trans (by decide) (Nat.le_mul_of_pos_left (2 ^ 53) hpos)

/-- The exponents of numbers below `2 ^ 64`. -/
theorem rounded_snd_le (hpos : 0 < n) (hn : n < 2 ^ 64) : (rounded (n * 2 ^ 53)).2 ≤ 65 := by
  have hlog : n.log2 < 64 := (Nat.log2_lt (Nat.ne_of_gt hpos)).mpr hn
  have hdigits : (n * 2 ^ 53).log2 = n.log2 + 53 := log2_mul_two_pow (Nat.ne_of_gt hpos) 53
  rw [rounded]
  split <;> simp only [hdigits] <;> omega

/-- The product of two finite numbers is rounded once, and packing keeps it. -/
theorem unpack_mul {m n : Nat} {e f : Int} (hpos : 0 < m) (hn : 0 < n)
    (hlarge : 2 ^ 52 ≤ m * n) {r : Nat × Nat} (hr : rounded (m * n) = r)
    (hlow : -1074 ≤ e + f) (hhigh : e + f + r.2 ≤ 971) :
    ∃ h, (Float.Model.pack (UnpackedFloat.mul Format.binary64 (.finite .positive m e hpos)
        (.finite .positive n f hn))).unpack = .finite .positive r.1 (e + f + r.2) h := by
  obtain ⟨h, hround⟩ := roundWithAccuracy_eq .positive hlarge hlow hr
  have hmul : UnpackedFloat.mul Format.binary64 (.finite .positive m e hpos)
      (.finite .positive n f hn) = .finite .positive r.1 (e + f + r.2) h := hround
  obtain ⟨hfew, hmany⟩ := hr ▸ rounded_mem hlarge
  rw [hmul]
  exact ⟨h, unpack_pack _ hfew hmany (by omega) hhigh h⟩

/-- A number of at most 53 digits, with zeros behind it to have 53. -/
theorem mul_two_pow_mem (hpos : 0 < n) (hsmall : n < 2 ^ 53) :
    2 ^ 52 ≤ n * 2 ^ (52 - n.log2) ∧ n * 2 ^ (52 - n.log2) < 2 ^ 53 := by
  have hne : n ≠ 0 := Nat.ne_of_gt hpos
  have hlog : n.log2 < 53 := (Nat.log2_lt hne).mpr hsmall
  have hdigits : (n * 2 ^ (52 - n.log2)).log2 = 52 := by
    rw [log2_mul_two_pow hne]
    omega
  exact (Nat.log2_eq_iff (Nat.mul_ne_zero hne (Nat.ne_of_gt (Nat.two_pow_pos _)))).mp hdigits

/-- A number of at most 53 digits is not changed by rounding. -/
theorem rounded_of_small (hpos : 0 < n) (hsmall : n < 2 ^ 53) :
    rounded (n * 2 ^ 53) = (n * 2 ^ (52 - n.log2), n.log2 + 1) := by
  obtain ⟨hlow, hhigh⟩ := mul_two_pow_mem hpos hsmall
  have hlog : n.log2 < 53 := (Nat.log2_lt (Nat.ne_of_gt hpos)).mpr hsmall
  have hzeros : n * 2 ^ 53 = n * 2 ^ (52 - n.log2) * 2 ^ (n.log2 + 1) := by
    rw [Nat.mul_assoc, ← Nat.pow_add]
    congr 2
    omega
  rw [hzeros, rounded_mul_two_pow hlow hhigh]

/-- A number of at most 53 digits is converted without rounding. -/
theorem unpack_toFloat (hpos : 0 < n) (hsmall : n < 2 ^ 53) :
    ∃ h, n.toUInt64.toFloat.toModel.unpack =
      .finite .positive (n * 2 ^ (52 - n.log2)) (-((52 - n.log2 : Nat) : Int)) h := by
  obtain ⟨hlow, hhigh⟩ := mul_two_pow_mem hpos hsmall
  have hword : n.toUInt64.toNat = n := by
    rw [Nat.toUInt64, UInt64.toNat_ofNat']
    exact Nat.mod_eq_of_lt (by omega)
  have hlog : n.log2 < 53 := (Nat.log2_lt (Nat.ne_of_gt hpos)).mpr hsmall
  have hshift : (-max ((n.log2 : Int) + 0 - 52) (-1074)).toNat = 52 - n.log2 := by omega
  have hkept : rounded (n * 2 ^ (52 - n.log2)) = (n * 2 ^ (52 - n.log2), 0) := by
    simpa using rounded_mul_two_pow hlow hhigh 0
  obtain ⟨h, hround⟩ := roundWithAccuracy_eq .positive hlow
    (e := -((52 - n.log2 : Nat) : Int)) (by omega) hkept
  have hnat : UnpackedFloat.ofUInt64 Format.binary64 n.toUInt64 =
      roundWithAccuracy Format.binary64 .positive (n * 2 ^ (52 - n.log2))
        (-((52 - n.log2 : Nat) : Int)) .exact := by
    rw [UnpackedFloat.ofUInt64, hword, UnpackedFloat.ofNat, UnpackedFloat.ofInt,
      UnpackedFloat.normalize, Int.compare_eq_gt.mpr (Int.natCast_pos.mpr hpos)]
    simp only [UnpackedFloat.round, decreaseExponent, Int.toNat_natCast, targetExponent_eq, hshift,
      Nat.shiftLeft_eq, Int.zero_sub]
  show ∃ h, (Float.Model.pack (UnpackedFloat.ofUInt64 Format.binary64 n.toUInt64)).unpack = _
  refine ⟨h, ?_⟩
  rw [hnat, hround]
  simp only [Int.natCast_zero, Int.add_zero]
  exact unpack_pack _ hlow hhigh (by omega) (by omega) h

set_option maxRecDepth 20000 in
/-- The float that stands for one. -/
theorem unpack_one : (Float.ofBits 0x3FF0000000000000).toModel.unpack =
    .finite .positive (2 ^ 52) (-52) (Nat.two_pow_pos 52) := rfl

/-- A number of at most 53 digits is converted as it is and multiplied by one. -/
theorem unpack_floatOfNat_of_small (hpos : 0 < n) (hsmall : n < 2 ^ 53) :
    ∃ h, (floatOfNat n).toModel.unpack =
      .finite .positive (n * 2 ^ (52 - n.log2)) (-((52 - n.log2 : Nat) : Int)) h := by
  obtain ⟨hpos', hfloat⟩ := unpack_toFloat hpos hsmall
  obtain ⟨hlow, hhigh⟩ := mul_two_pow_mem hpos hsmall
  have hfast : floatOfNat n = n.toUInt64.toFloat * Float.ofBits 0x3FF0000000000000 := by
    rw [floatOfNat, Float.ofScientific, dif_pos ⟨hsmall, by decide⟩]
    rfl
  have hlarge : 2 ^ 52 ≤ n * 2 ^ (52 - n.log2) * 2 ^ 52 :=
    Nat.le_trans hlow (Nat.le_mul_of_pos_right _ (Nat.two_pow_pos 52))
  obtain ⟨h, hunpack⟩ := unpack_mul (e := -((52 - n.log2 : Nat) : Int)) (f := -52) hpos'
    (Nat.two_pow_pos 52) hlarge (rounded_mul_two_pow hlow hhigh 52) (by omega)
    (by dsimp only; omega)
  refine ⟨h, ?_⟩
  rw [hfast]
  show (Float.Model.pack (UnpackedFloat.mul Format.binary64 n.toUInt64.toFloat.toModel.unpack
    (Float.ofBits 0x3FF0000000000000).toModel.unpack)).unpack = _
  rw [hfloat, unpack_one, hunpack, UnpackedFloat.finite.injEq]
  exact ⟨rfl, rfl, by dsimp only; omega⟩

/-- A number of more digits is rounded. -/
theorem unpack_floatOfNat_of_large (hlarge : 2 ^ 53 ≤ n) (hn : n < 2 ^ 64) {r : Nat × Nat}
    (hr : rounded (n * 2 ^ 53) = r) :
    ∃ h, (floatOfNat n).toModel.unpack = .finite .positive r.1 (r.2 - 53) h := by
  have hpos : 0 < n := Nat.lt_of_lt_of_le (by decide) hlarge
  have hexponent : r.2 ≤ 65 := hr ▸ rounded_snd_le hpos hn
  have hdigits : n <<< 53 * 10 ^ 0 = n * 2 ^ 53 := by
    rw [Nat.shiftLeft_eq, Nat.pow_zero, Nat.mul_one]
  have hshift : 0 < n <<< 53 := Nat.shiftLeft_pos_iff.mpr hpos
  have hproduct : UnpackedFloat.ofScientific Format.binary64 n 0 =
      UnpackedFloat.mul Format.binary64 (.finite .positive (n <<< 53) (-53) hshift)
        (.finite .positive (10 ^ 0) 0 (by decide)) := by
    have hlog : ¬ (0 : Int) < -(2 ^ Format.binary64.exponentBits + (n.log2 : Int)) := by
      have : (2 : Int) ^ Format.binary64.exponentBits = 2048 := by decide
      omega
    rw [UnpackedFloat.ofScientific, dif_neg (Nat.ne_of_gt hpos), if_neg (by decide), if_neg hlog,
      if_pos (by decide)]
    rfl
  have hslow : floatOfNat n =
      Float.ofModel (.pack (UnpackedFloat.ofScientific Format.binary64 n 0)) := by
    rw [floatOfNat, Float.ofScientific, dif_neg (fun h => Nat.not_lt_of_le hlarge h.1)]
    rfl
  obtain ⟨h, hunpack⟩ := unpack_mul (e := -53) (f := 0) hshift (n := 10 ^ 0) (by decide)
    (by rw [hdigits]; exact le_mul_two_pow hpos) (r := r) (by rw [hdigits, hr]) (by decide)
    (by omega)
  refine ⟨h, ?_⟩
  rw [hslow]
  show (Float.Model.pack (UnpackedFloat.ofScientific Format.binary64 n 0)).unpack = _
  rw [hproduct, hunpack, UnpackedFloat.finite.injEq]
  exact ⟨rfl, rfl, by omega⟩

/-- The float nearest to a number that is not zero. -/
theorem unpack_floatOfNat (hpos : 0 < n) (hn : n < 2 ^ 64) {r : Nat × Nat}
    (hr : rounded (n * 2 ^ 53) = r) :
    ∃ h, (floatOfNat n).toModel.unpack = .finite .positive r.1 (r.2 - 53) h := by
  by_cases hsmall : n < 2 ^ 53
  · have hlog : n.log2 < 53 := (Nat.log2_lt (Nat.ne_of_gt hpos)).mpr hsmall
    rw [rounded_of_small hpos hsmall] at hr
    subst hr
    obtain ⟨h, hunpack⟩ := unpack_floatOfNat_of_small hpos hsmall
    refine ⟨h, ?_⟩
    rw [hunpack, UnpackedFloat.finite.injEq]
    exact ⟨rfl, rfl, by dsimp only; omega⟩
  · exact unpack_floatOfNat_of_large (Nat.le_of_not_lt hsmall) hn hr

set_option maxRecDepth 20000 in
/-- The place of zero. -/
theorem place_floatOfNat_zero : place (floatOfNat 0) = (0, 0, 0) := rfl

/-- The place of the float nearest to a number. -/
theorem place_floatOfNat (hpos : 0 < n) (hn : n < 2 ^ 64) {r : Nat × Nat}
    (hr : rounded (n * 2 ^ 53) = r) :
    place (floatOfNat n) = (1, (r.2 : Int) - 53, (r.1 : Int)) := by
  obtain ⟨h, hunpack⟩ := unpack_floatOfNat hpos hn hr
  rw [place, hunpack, placeOf]

/-- The place of the float nearest to a negative number. -/
theorem place_neg_floatOfNat (hpos : 0 < n) (hn : n < 2 ^ 64) {r : Nat × Nat}
    (hr : rounded (n * 2 ^ 53) = r) :
    place (-floatOfNat n) = (-1, -((r.2 : Int) - 53), -(r.1 : Int)) := by
  obtain ⟨h, hunpack⟩ := unpack_floatOfNat hpos hn hr
  have hexponent : r.2 ≤ 65 := hr ▸ rounded_snd_le hpos hn
  obtain ⟨hlow, hhigh⟩ := hr ▸ rounded_mem (le_mul_two_pow hpos)
  have hneg : (-floatOfNat n).toModel.unpack = .finite .negative r.1 (r.2 - 53) h := by
    show (Float.Model.pack (floatOfNat n).toModel.unpack.neg).unpack = _
    rw [hunpack]
    exact unpack_pack .negative hlow hhigh (by omega) (by omega) h
  rw [place, hneg, placeOf]

/-- Of two numbers of one kind, the first is not behind the second if its exponent is less, or if
the exponents agree and its mantissa is not greater. -/
theorem comparePlaces_ne_gt {i e f a b : Int} (h : e < f ∨ e = f ∧ a ≤ b) :
    comparePlaces (i, e, a) (i, f, b) ≠ .gt := by
  rw [comparePlaces_same]
  rcases h with hlt | ⟨rfl, hle⟩
  · simp [Int.compare_eq_lt.mpr hlt]
  · simpa [Int.compare_eq_gt] using hle

/-- The float nearest to the greater of two positive numbers is not the lesser one, and the other
way around for the negative ones. -/
theorem comparePlaces_floatOfNat {a b : Nat} (ha : 0 < a) (h : a ≤ b) (hb : b < 2 ^ 64) :
    comparePlaces (place (floatOfNat a)) (place (floatOfNat b)) ≠ .gt ∧
      comparePlaces (place (-floatOfNat b)) (place (-floatOfNat a)) ≠ .gt := by
  obtain ⟨r, hr⟩ : ∃ r, rounded (a * 2 ^ 53) = r := ⟨_, rfl⟩
  obtain ⟨r', hr'⟩ : ∃ r', rounded (b * 2 ^ 53) = r' := ⟨_, rfl⟩
  have ha' : a < 2 ^ 64 := Nat.lt_of_le_of_lt h hb
  have hb' : 0 < b := Nat.lt_of_lt_of_le ha h
  have hle := rounded_le (le_mul_two_pow ha) (Nat.mul_le_mul_right (2 ^ 53) h) hr hr'
  rw [place_floatOfNat ha ha' hr, place_floatOfNat hb' hb hr', place_neg_floatOfNat ha ha' hr,
    place_neg_floatOfNat hb' hb hr']
  exact ⟨comparePlaces_ne_gt (by omega), comparePlaces_ne_gt (by omega)⟩

/-- The kinds of the floats nearest to positive and negative numbers. -/
theorem place_floatOfNat_fst (hpos : 0 < n) (hn : n < 2 ^ 64) :
    (place (floatOfNat n)).1 = 1 ∧ (place (-floatOfNat n)).1 = -1 := by
  rw [place_floatOfNat hpos hn rfl, place_neg_floatOfNat hpos hn rfl]
  exact ⟨rfl, rfl⟩

/-- The float nearest to the greater of two integers is not the lesser float. -/
theorem comparePlaces_floatOfInt {i j : Int} (h : i ≤ j) (hi : i.natAbs < 2 ^ 64)
    (hj : j.natAbs < 2 ^ 64) :
    comparePlaces (place (floatOfInt i)) (place (floatOfInt j)) ≠ .gt := by
  have hkinds {p q : Int × Int × Int} (hlt : p.1 < q.1) : comparePlaces p q ≠ .gt := by
    rw [comparePlaces_of_fst_lt hlt]
    decide
  have hzero : (place (floatOfNat 0)).1 = 0 := by rw [place_floatOfNat_zero]
  cases i with
  | ofNat a =>
    obtain ⟨b, rfl⟩ := Int.eq_ofNat_of_zero_le (Int.le_trans (Int.natCast_nonneg a) h)
    have hab : a ≤ b := Int.ofNat_le.mp h
    show comparePlaces (place (floatOfNat a)) (place (floatOfNat b)) ≠ .gt
    rcases Nat.eq_zero_or_pos a with rfl | ha
    · rcases Nat.eq_zero_or_pos b with rfl | hb
      · simp [Std.ReflCmp.compare_self]
      · exact hkinds (by rw [hzero, (place_floatOfNat_fst hb hj).1]; decide)
    · exact (comparePlaces_floatOfNat ha hab hj).1
  | negSucc a =>
    have ha := (place_floatOfNat_fst (Nat.succ_pos a) hi).2
    cases j with
    | ofNat b =>
      show comparePlaces (place (-floatOfNat (a + 1))) (place (floatOfNat b)) ≠ .gt
      rcases Nat.eq_zero_or_pos b with rfl | hb
      · exact hkinds (by rw [ha, hzero]; decide)
      · exact hkinds (by rw [ha, (place_floatOfNat_fst hb hj).1]; decide)
    | negSucc b => exact (comparePlaces_floatOfNat (Nat.succ_pos b) (by omega) hi).2

end Integers

end Number

end Templating
