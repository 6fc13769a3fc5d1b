import Mathlib
import TableScript.Number.Parts

/-!
The parts of a double, and what its operations are on them. The fields of its bits are the sign, the
units and the scale that arithmetic works with, so a finite double other than zero is a sign and a
magnitude.
-/

namespace TableScript

open Float.Model Float.Model.UnpackedFloat

/-- The sign of a double as its bit says. -/
def signOf (negative : Bool) : Sign :=
  if negative then .negative else .positive

theorem toNat_packComponents (sign : Sign) (exponent : BitVec 11) (mantissa : BitVec 52) :
    (packComponents .binary64 sign exponent mantissa).toNat =
      sign.toBitVec.toNat * 2 ^ 63 + exponent.toNat * 2 ^ 52 + mantissa.toNat := by
  have hmantissa := mantissa.isLt
  have hexponent := exponent.isLt
  rw [packComponents, BitVec.toNat_append, ← Nat.shiftLeft_add_eq_or_of_lt hmantissa,
    BitVec.toNat_append, ← Nat.shiftLeft_add_eq_or_of_lt hexponent, Nat.shiftLeft_eq,
    Nat.shiftLeft_eq]
  omega

theorem toNat_unpackMantissa (bits : BitVec 64) :
    (@unpackMantissa .binary64 bits).toNat = bits.toNat % 2 ^ 52 := by
  rw [unpackMantissa, BitVec.toNat_cast, BitVec.extractLsb_toNat]
  rfl

theorem toNat_unpackExponent (bits : BitVec 64) :
    (@unpackExponent .binary64 bits).toNat = bits.toNat / 2 ^ 52 % 2 ^ 11 := by
  rw [unpackExponent, BitVec.toNat_cast, BitVec.extractLsb_toNat, Nat.shiftRight_eq_div_pow]
  rfl

theorem toNat_unpackSign (bits : BitVec 64) :
    (@unpackSign .binary64 bits).toNat = bits.toNat / 2 ^ 63 % 2 := by
  rw [unpackSign, BitVec.toNat_cast, BitVec.extractLsb_toNat, Nat.shiftRight_eq_div_pow]
  rfl

namespace Parts

/-- The parts of a double as its logical model has them. -/
def unpacked : Parts → UnpackedFloat
  | .finite negative units scale =>
    if h : units = 0 then .zero (signOf negative)
    else .finite (signOf negative) units scale (Nat.pos_of_ne_zero h)
  | .infinite negative => .infinity (signOf negative)
  | .notANumber => .notANumber

theorem ofBitVec_unpackSign (bits : BitVec 64) :
    Sign.ofBitVec (@unpackSign .binary64 bits) = signOf (bits.toNat / 2 ^ 63 % 2 == 1) := by
  have hsign := toNat_unpackSign bits
  rw [Sign.ofBitVec, signOf]
  rcases Nat.mod_two_eq_zero_or_one (bits.toNat / 2 ^ 63) with h | h
  · rw [h] at hsign ⊢
    rw [if_pos (BitVec.eq_of_toNat_eq hsign)]
    rfl
  · rw [h] at hsign ⊢
    rw [if_neg (fun heq => by rw [heq] at hsign; cases hsign)]
    rfl

theorem finite_congr {sign sign' : Sign} {units units' : Nat} {scale scale' : Int}
    {hpos : 0 < units} {hpos' : 0 < units'} (hsign : sign = sign') (hunits : units = units')
    (hscale : scale = scale') :
    UnpackedFloat.finite sign units scale hpos = .finite sign' units' scale' hpos' := by
  subst hsign hunits hscale
  rfl

theorem unpack_eq (bits : BitVec 64) :
    UnpackedFloat.unpack .binary64 bits = (ofBits bits.toNat).unpacked := by
  have hexponent := toNat_unpackExponent bits
  have hmantissa := toNat_unpackMantissa bits
  have hones : @unpackExponent .binary64 bits = -1#11 ↔
      bits.toNat / 2 ^ 52 % 2 ^ 11 = 2047 := by
    rw [← BitVec.toNat_inj, hexponent]; rfl
  have hleast : @unpackExponent .binary64 bits = 0#11 ↔
      bits.toNat / 2 ^ 52 % 2 ^ 11 = 0 := by
    rw [← BitVec.toNat_inj, hexponent]; rfl
  have hnone : @unpackMantissa .binary64 bits = 0#52 ↔ bits.toNat % 2 ^ 52 = 0 := by
    rw [← BitVec.toNat_inj, hmantissa]; rfl
  rw [UnpackedFloat.unpack, ofBits, ofBitVec_unpackSign bits]
  simp only [Nat.pow_eq]
  by_cases hspecial : bits.toNat / 2 ^ 52 % 2 ^ 11 = 2047
  · rw [if_pos (hones.2 hspecial), if_pos hspecial]
    by_cases hfraction : bits.toNat % 2 ^ 52 = 0
    · rw [if_pos (hnone.2 hfraction), if_pos hfraction, unpacked]
    · rw [if_neg (mt hnone.1 hfraction), if_neg hfraction, unpacked]
  rw [if_neg (mt hones.1 hspecial), if_neg hspecial]
  by_cases hsubnormal : bits.toNat / 2 ^ 52 % 2 ^ 11 = 0
  · rw [if_pos (hleast.2 hsubnormal), if_pos hsubnormal, unpacked]
    by_cases hfraction : bits.toNat % 2 ^ 52 = 0
    · rw [dif_pos (hnone.2 hfraction), dif_pos hfraction]
    · rw [dif_neg (mt hnone.1 hfraction), dif_neg hfraction]
      refine finite_congr rfl hmantissa ?_
      rw [hexponent, hsubnormal]
      rfl
  · rw [if_neg (mt hleast.1 hsubnormal), if_neg hsubnormal, unpacked,
      dif_neg (Nat.ne_of_gt (Nat.lt_add_left _ (Nat.two_pow_pos 52)))]
    refine finite_congr rfl ?_ ?_
    · rw [BitVec.toNat_append, ← Nat.shiftLeft_add_eq_or_of_lt (BitVec.isLt _), hmantissa,
        Nat.add_comm]
      rfl
    · rw [hexponent]
      rfl

theorem unpack_toModel (x : Float) : x.toModel.unpack = (ofFloat x).unpacked :=
  unpack_eq x.toModel.toBits.toBitVec

end Parts

theorem float_ext {x y : Float} (h : x.toBits.toNat = y.toBits.toNat) : x = y := by
  obtain ⟨⟨bits, hbits⟩⟩ := x
  obtain ⟨⟨bits', hbits'⟩⟩ := y
  obtain rfl : bits = bits' := UInt64.toNat_inj.1 h
  rfl

/-- A bit pattern from its three fields. -/
def assemble (negative : Bool) (exponent fraction : Nat) : Nat :=
  (if negative then 2 ^ 63 else 0) + exponent * 2 ^ 52 + fraction

theorem toNat_packComponents_signOf (negative : Bool) (exponent fraction : Nat)
    (hexponent : exponent < 2 ^ 11) :
    (packComponents .binary64 (signOf negative) (.ofNat 11 exponent) (.ofNat 52 fraction)).toNat =
      assemble negative exponent (fraction % 2 ^ 52) := by
  have hsign : (signOf negative).toBitVec.toNat * 2 ^ 63 = if negative then 2 ^ 63 else 0 := by
    cases negative <;> rfl
  rw [toNat_packComponents, hsign, BitVec.toNat_ofNat, BitVec.toNat_ofNat,
    Nat.mod_eq_of_lt hexponent, assemble]

theorem Parts.ofBits_assemble {negative : Bool} {exponent fraction : Nat}
    (hexponent : exponent < 2047) (hfraction : fraction < 2 ^ 52) :
    Parts.ofBits (assemble negative exponent fraction) =
      if exponent = 0 then .finite negative fraction (-1074)
      else .finite negative (fraction + 2 ^ 52) (exponent - 1075) := by
  have hfields : ∀ bits, bits = assemble negative exponent fraction →
      (bits / 2 ^ 63 % 2 == 1) = negative ∧ bits / 2 ^ 52 % 2 ^ 11 = exponent ∧
        bits % 2 ^ 52 = fraction := by
    intro bits hbits
    rw [assemble] at hbits
    cases negative with
    | false =>
        rw [if_neg (by decide)] at hbits
        have hsign : bits / 2 ^ 63 % 2 = 0 := by omega
        rw [hsign]
        exact ⟨rfl, by omega, by omega⟩
    | true =>
        rw [if_pos rfl] at hbits
        have hsign : bits / 2 ^ 63 % 2 = 1 := by omega
        rw [hsign]
        exact ⟨rfl, by omega, by omega⟩
  obtain ⟨hsign, hhigh, hlow⟩ := hfields _ rfl
  rw [Parts.ofBits]
  simp only [Nat.pow_eq]
  rw [hsign, hhigh, hlow, if_neg (Nat.ne_of_lt hexponent)]

/-- The size of a finite double other than zero: a number of units, and the power of two that is one
unit. Above the least scale there are as many units as fit 53 bits. -/
structure Magnitude where
  units : Nat
  scale : Int
  units_pos : 0 < units
  units_lt : units < 2 ^ 53
  le_scale : -1074 ≤ scale
  scale_le : scale ≤ 971
  normal : -1074 < scale → 2 ^ 52 ≤ units

namespace Magnitude

def unpacked (m : Magnitude) (negative : Bool) : UnpackedFloat :=
  .finite (signOf negative) m.units m.scale m.units_pos

/-- The double of a given size and sign. -/
def toFloat (m : Magnitude) (negative : Bool) : Float :=
  .ofModel (.pack (m.unpacked negative))

/-- The exponent field, which is zero for what has fewer units than fit. -/
def exponent (m : Magnitude) : Nat :=
  if m.units < 2 ^ 52 then 0 else (m.scale + 1075).toNat

theorem toNat_toBits (m : Magnitude) (negative : Bool) :
    (m.toFloat negative).toBits.toNat = assemble negative m.exponent (m.units % 2 ^ 52) := by
  have hlow := m.le_scale
  have hhigh := m.scale_le
  have hbias : (m.scale + (Format.binary64.exponentBias : Int) + (52 : Nat)).toNat =
      (m.scale + 1075).toNat := by
    rw [show ((Format.binary64.exponentBias : Nat) : Int) = 1023 from rfl]
    omega
  change (UnpackedFloat.pack .binary64 (m.unpacked negative)).toNat = _
  rw [unpacked, UnpackedFloat.pack]
  dsimp only
  rw [hbias, if_neg (by omega), exponent]
  by_cases hfew : m.units < 2 ^ 52
  · have hlog : m.units.log2 < 52 := (Nat.log2_lt (Nat.ne_of_gt m.units_pos)).2 hfew
    have hbits : ¬m.units.log2 + 1 = Format.binary64.mantissaBits := by
      rw [show Format.binary64.mantissaBits = 53 from rfl]
      omega
    rw [if_neg hbits, if_pos hfew]
    exact toNat_packComponents_signOf negative 0 m.units (by decide)
  · have hlog : m.units.log2 = 52 :=
      (Nat.log2_eq_iff (Nat.ne_of_gt m.units_pos)).2 ⟨Nat.le_of_not_lt hfew, m.units_lt⟩
    rw [if_pos (by rw [hlog]; rfl), if_neg hfew]
    exact toNat_packComponents_signOf negative _ m.units (by omega)

@[simp]
theorem ofFloat_toFloat (m : Magnitude) (negative : Bool) :
    Parts.ofFloat (m.toFloat negative) = .finite negative m.units m.scale := by
  have hlt := m.units_lt
  have hlow := m.le_scale
  have hhigh := m.scale_le
  have hnormal := m.normal
  have hexponent : m.exponent < 2047 := by
    rw [exponent]
    split <;> omega
  rw [Parts.ofFloat, toNat_toBits,
    Parts.ofBits_assemble hexponent (Nat.mod_lt _ (Nat.two_pow_pos 52)), exponent]
  by_cases hfew : m.units < 2 ^ 52
  · rw [if_pos hfew, if_pos rfl, Nat.mod_eq_of_lt hfew]
    congr 1
    omega
  · rw [if_neg hfew, if_neg (by omega)]
    congr 1 <;> omega

@[simp]
theorem unpack_toFloat (m : Magnitude) (negative : Bool) :
    (m.toFloat negative).toModel.unpack = m.unpacked negative := by
  rw [Parts.unpack_toModel, ofFloat_toFloat, Parts.unpacked, dif_neg (Nat.ne_of_gt m.units_pos)]
  rfl

theorem neg_toFloat (m : Magnitude) (negative : Bool) :
    -m.toFloat negative = m.toFloat !negative := by
  change Float.ofModel (.pack (m.toFloat negative).toModel.unpack.neg) = _
  rw [unpack_toFloat]
  cases negative <;> rfl

end Magnitude

/-- A bit pattern is made up of its fields. -/
theorem assemble_fields {bits : Nat} (hbits : bits < 2 ^ 64) :
    bits = assemble (bits / 2 ^ 63 % 2 == 1) (bits / 2 ^ 52 % 2 ^ 11) (bits % 2 ^ 52) := by
  rw [assemble]
  by_cases hsign : bits / 2 ^ 63 % 2 = 1
  · rw [if_pos (by rw [hsign]; rfl)]
    omega
  · rw [if_neg (by simpa using hsign)]
    omega

/-- What is finite and not zero has a magnitude. -/
theorem exists_magnitude {x : Float} {negative : Bool} {units : Nat} {scale : Int}
    (h : Parts.ofFloat x = .finite negative units scale) (hpos : 0 < units) :
    ∃ m : Magnitude, m.units = units ∧ m.scale = scale ∧ x = m.toFloat negative := by
  have hbits := assemble_fields x.toBits.toNat_lt
  rw [Parts.ofFloat, Parts.ofBits] at h
  simp only [Nat.pow_eq] at h
  generalize hhigh : x.toBits.toNat / 2 ^ 52 % 2 ^ 11 = high at h hbits
  generalize hlow : x.toBits.toNat % 2 ^ 52 = low at h hbits
  have hhigh_lt : high < 2 ^ 11 := by omega
  have hlow_lt : low < 2 ^ 52 := by omega
  split at h
  · split at h <;> cases h
  next hordinary =>
    split at h
    next hleast =>
      cases h
      refine ⟨⟨units, -1074, hpos, by omega, by omega, by omega, by omega⟩, rfl, rfl, float_ext ?_⟩
      rw [Magnitude.toNat_toBits, Magnitude.exponent]
      simp only [if_pos hlow_lt, Nat.mod_eq_of_lt hlow_lt]
      rwa [hleast] at hbits
    next hsome =>
      cases h
      have hbias : ((high : Int) - 1075 + 1075).toNat = high := by omega
      refine ⟨⟨low + 2 ^ 52, high - 1075, hpos, by omega, by omega, by omega, by omega⟩, rfl, rfl,
        float_ext ?_⟩
      rw [Magnitude.toNat_toBits, Magnitude.exponent]
      dsimp only
      rwa [if_neg (by omega), Nat.add_mod_right, Nat.mod_eq_of_lt hlow_lt, hbias]

/-! ### Comparison -/

theorem beq_eq (x y : Float) :
    (x == y) = ((Parts.ofFloat x).unpacked.compare (Parts.ofFloat y).unpacked == some .eq) := by
  rw [← Parts.unpack_toModel, ← Parts.unpack_toModel]
  rfl

theorem Magnitude.beq_self (m : Magnitude) (negative : Bool) :
    (m.toFloat negative == m.toFloat negative) = true := by
  rw [beq_eq, ofFloat_toFloat, Parts.unpacked, dif_neg (Nat.ne_of_gt m.units_pos)]
  cases negative <;> simp [signOf, UnpackedFloat.compare]

theorem le_iff (x y : Float) :
    x ≤ y ↔ ((Parts.ofFloat x).unpacked.compare (Parts.ofFloat y).unpacked).any (·.isLE) = true := by
  rw [← Parts.unpack_toModel, ← Parts.unpack_toModel]
  exact decide_eq_true_iff

theorem ofFloat_zero : Parts.ofFloat 0 = .finite false 0 (-1074) := by
  decide +kernel

theorem zero_eq : (0.0 : Float) = 0 := by
  decide +kernel

namespace Magnitude

theorem not_nonneg (m : Magnitude) : ¬0 ≤ m.toFloat true := by
  rw [le_iff, ofFloat_zero, ofFloat_toFloat, Parts.unpacked, Parts.unpacked, dif_pos rfl,
    dif_neg (Nat.ne_of_gt m.units_pos)]
  exact Bool.false_ne_true

theorem beq_zero_eq_false (m : Magnitude) (negative : Bool) : (m.toFloat negative == 0) = false := by
  rw [beq_eq, ofFloat_zero, ofFloat_toFloat, Parts.unpacked, Parts.unpacked, dif_pos rfl,
    dif_neg (Nat.ne_of_gt m.units_pos)]
  cases negative <;> rfl

theorem isNaN_toFloat (m : Magnitude) (negative : Bool) : (m.toFloat negative).isNaN = false := by
  change (m.toFloat negative).toModel.unpack.isNaN = false
  rw [unpack_toFloat]
  rfl

theorem ofBits_toBits (m : Magnitude) (negative : Bool) :
    Float.ofBits (m.toFloat negative).toBits = m.toFloat negative := by
  change Float.ofModel (.pack (m.toFloat negative).toModel.unpack) = _
  rw [unpack_toFloat]
  rfl

end Magnitude

/-- Both zeros are equal. -/
theorem beq_zero {x : Float} {negative : Bool} {scale : Int}
    (h : Parts.ofFloat x = .finite negative 0 scale) : (x == 0) = true := by
  rw [beq_eq, h, ofFloat_zero]
  rfl

/-! ### Sums with zero -/

namespace Magnitude

theorem zero_add (m : Magnitude) (negative' : Bool) {x : Float} {negative : Bool} {scale : Int}
    (hx : Parts.ofFloat x = .finite negative 0 scale) : x + m.toFloat negative' = m.toFloat negative' := by
  change Float.ofModel (.pack (UnpackedFloat.add .binary64 x.toModel.unpack
    (m.toFloat negative').toModel.unpack)) = _
  rw [Parts.unpack_toModel, hx, unpack_toFloat]
  rfl

theorem add_zero (m : Magnitude) (negative : Bool) {y : Float} {negative' : Bool} {scale : Int}
    (hy : Parts.ofFloat y = .finite negative' 0 scale) : m.toFloat negative + y = m.toFloat negative := by
  change Float.ofModel (.pack (UnpackedFloat.add .binary64 (m.toFloat negative).toModel.unpack
    y.toModel.unpack)) = _
  rw [Parts.unpack_toModel y, hy, unpack_toFloat]
  rfl

end Magnitude

/-- Adding zero to a zero of either sign gives the positive one. -/
theorem add_zero_of_zero {x : Float} {negative : Bool} {scale : Int}
    (h : Parts.ofFloat x = .finite negative 0 scale) : x + 0 = 0 := by
  have hzero : Float.ofModel (.pack (.zero .positive)) = 0 := by decide +kernel
  change Float.ofModel (.pack (UnpackedFloat.add .binary64 x.toModel.unpack
    (0 : Float).toModel.unpack)) = _
  rw [Parts.unpack_toModel, Parts.unpack_toModel, h, ofFloat_zero]
  cases negative <;> exact hzero

theorem parts_of_isFinite {x : Float} (h : x.isFinite) :
    ∃ negative units scale, Parts.ofFloat x = .finite negative units scale := by
  have hfinite : (Parts.ofFloat x).unpacked.isFinite := by
    rw [← Parts.unpack_toModel]
    exact h
  cases hparts : Parts.ofFloat x with
  | finite negative units scale => exact ⟨_, _, _, rfl⟩
  | infinite negative =>
      rw [hparts] at hfinite
      cases hfinite
  | notANumber =>
      rw [hparts] at hfinite
      cases hfinite

end TableScript
