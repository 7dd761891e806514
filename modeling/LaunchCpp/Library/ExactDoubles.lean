import Mathlib.Tactic.Ring
import Mathlib.Algebra.Order.Ring.Nat

/-! # Doubles that are natural numbers

    `Float` is a `double`, with a model of its arithmetic on mantissas and
    exponents.  A positive natural number below `2 ^ 53` fits into a mantissa,
    so conversion, product and truncation are exact as long as every number
    stays below that bound; `IsNat` is what such a double is, with a lemma for
    each of the operations. -/

namespace ExactDoubles

open Float.Model Float.Model.UnpackedFloat

/-- The conversion of an integer to a `double`. -/
def toDouble (n : Int) : Float := .ofModel (.ofInt n)

/-- The integral part of a `double` that has one. -/
def truncate (x : Float) : Option Int :=
  match x.toModel.unpack with
  | .finite sign mantissa exponent _ => some (roundToInt sign mantissa exponent)
  | .zero _ => some 0
  | .infinity _ => none
  | .notANumber => none

/-- The conversion to an unsigned type of so many bits, defined only where the
    integral part is a value of the type. -/
def toUnsigned (bits : Nat) (x : Float) : Option Nat :=
  match truncate x with
  | some n => if 0 ≤ n ∧ n < 2 ^ bits then some n.toNat else none
  | none => none

/-! ## Packing and rounding -/

theorem toNat_append_one {f : Nat} (m : BitVec f) : (1#1 ++ m).toNat = 2 ^ f + m.toNat := by
  rw [BitVec.toNat_append, ← Nat.shiftLeft_add_eq_or_of_lt m.isLt]
  rw [Nat.shiftLeft_eq]
  show 1 * 2 ^ f + m.toNat = _
  rw [Nat.one_mul]

theorem finite_eq {m m' : Nat} {e e' : Int} (hm : m = m') (he : e = e') (hpos : 0 < m)
    (hpos' : 0 < m') :
    UnpackedFloat.finite .positive m e hpos = .finite .positive m' e' hpos' := by
  subst hm he
  rfl

/-- A positive number that is neither infinite nor subnormal, from its
    exponent and the mantissa without its first bit. -/
theorem unpack_packComponents {exponent : BitVec 11} {mantissa : BitVec 52} {m : Nat} {e : Int}
    (hones : exponent ≠ -1#11) (hzero : exponent ≠ 0#11) (hm : (1#1 ++ mantissa).toNat = m)
    (he : (exponent.toNat : Int) - (1023 + 52) = e) (hpos : 0 < m) :
    UnpackedFloat.unpack Format.binary64
      (packComponents Format.binary64 .positive exponent mantissa)
      = .finite .positive m e hpos := by
  have hexponent : @unpackExponent Format.binary64
      (packComponents Format.binary64 .positive exponent mantissa) = exponent :=
    unpackExponent_packComponents
  have hmantissa : @unpackMantissa Format.binary64
      (packComponents Format.binary64 .positive exponent mantissa) = mantissa :=
    unpackMantissa_packComponents
  have hsign : @unpackSign Format.binary64
      (packComponents Format.binary64 .positive exponent mantissa) = 0#1 := by
    ext i hi
    have hfirst : i = 0 := by omega
    subst hfirst
    show (BitVec.extractLsb' 63 1 (0#1 ++ exponent ++ mantissa))[0] = (0#1)[0]
    rw [BitVec.getElem_extractLsb', BitVec.getLsbD_append, BitVec.getLsbD_append,
      if_neg (by omega), if_neg (by omega)]
    exact BitVec.getLsbD_eq_getElem hi
  show (if @unpackExponent Format.binary64
      (packComponents Format.binary64 .positive exponent mantissa) = -1#11 then _
    else if @unpackExponent Format.binary64
      (packComponents Format.binary64 .positive exponent mantissa) = 0#11 then _
    else UnpackedFloat.finite (Sign.ofBitVec (@unpackSign Format.binary64
      (packComponents Format.binary64 .positive exponent mantissa))) _ _ _) = _
  rw [if_neg (by rw [hexponent]; exact hones), if_neg (by rw [hexponent]; exact hzero), hsign]
  refine finite_eq ?_ ?_ _ hpos
  · rw [hmantissa]
    exact hm
  · rw [hexponent]
    exact he

/-- A mantissa of 53 bits survives packing, at an exponent in the middle of
    the range. -/
theorem unpack_pack {m : Nat} {e : Int} (hpos : 0 < m) (hlow : 2 ^ 52 ≤ m) (hhigh : m < 2 ^ 53)
    (he : -52 ≤ e) (he' : e ≤ 0) :
    (Float.Model.pack (.finite .positive m e hpos)).unpack = .finite .positive m e hpos := by
  obtain ⟨b, hb⟩ : ∃ b : Nat, (b : Int) = e + 1075 := ⟨(e + 1075).toNat, by omega⟩
  have hlog : m.log2 = 52 := (Nat.log2_eq_iff hpos.ne').mpr ⟨hlow, hhigh⟩
  have hbiased : (e + (1023 : Int) + (52 : Int)).toNat = b := by omega
  have hexponent : (BitVec.ofNat 11 b).toNat = b := by
    rw [BitVec.toNat_ofNat, Nat.mod_eq_of_lt (by omega)]
  -- the exponent marks neither an infinity nor a subnormal number
  have hones : BitVec.ofNat 11 b ≠ -1#11 := by
    intro h
    have hnat := congrArg BitVec.toNat h
    rw [hexponent] at hnat
    have hmax : (-1#11).toNat = 2047 := rfl
    omega
  have hzero : BitVec.ofNat 11 b ≠ 0#11 := by
    intro h
    have hnat := congrArg BitVec.toNat h
    rw [hexponent] at hnat
    have hmin : (0#11).toNat = 0 := rfl
    omega
  have hmantissa : (1#1 ++ BitVec.ofNat 52 m).toNat = m := by
    rw [toNat_append_one, BitVec.toNat_ofNat]
    omega
  have hpacked : UnpackedFloat.pack Format.binary64 (.finite .positive m e hpos)
      = packComponents Format.binary64 .positive (BitVec.ofNat 11 b) (BitVec.ofNat 52 m) := by
    show (if 2 ^ 11 ≤ (e + (1023 : Int) + (52 : Int)).toNat + 1 then _
      else if m.log2 + 1 = 53 then
        packComponents Format.binary64 .positive
          (BitVec.ofNat 11 (e + (1023 : Int) + (52 : Int)).toNat) (BitVec.ofNat 52 m)
      else _) = _
    rw [hbiased, if_neg (by omega), if_pos (by omega)]
  show UnpackedFloat.unpack Format.binary64
    (UnpackedFloat.pack Format.binary64 (.finite .positive m e hpos)) = _
  rw [hpacked]
  refine unpack_packComponents hones hzero hmantissa ?_ hpos
  rw [hexponent]
  omega

/-- Shifting out zeros loses nothing. -/
theorem shiftRight_exact (m k : Nat) :
    Nat.repeat ExtendedMantissa.shiftRightOne k ⟨m * 2 ^ k, false, false⟩
      = ⟨m, false, false⟩ := by
  induction k generalizing m with
  | zero =>
      show (⟨m * 2 ^ 0, false, false⟩ : ExtendedMantissa) = _
      rw [pow_zero, Nat.mul_one]
  | succ k ih =>
      have hshift : m * 2 ^ (k + 1) = (m * 2) * 2 ^ k := by ring
      rw [Nat.repeat, hshift, ih, ExtendedMantissa.shiftRightOne]
      simp

/-- Rounding a mantissa with zeros at its end takes the zeros away. -/
theorem roundWithAccuracy_exact {m k : Nat} {e : Int} (hpos : 0 < m) (hlow : 2 ^ 52 ≤ m)
    (hhigh : m < 2 ^ 53) (he : -1074 ≤ e + k) :
    roundWithAccuracy Format.binary64 .positive (m * 2 ^ k) e .exact
      = .finite .positive m (e + k) hpos := by
  have hlog : m.log2 = 52 := (Nat.log2_eq_iff hpos.ne').mpr ⟨hlow, hhigh⟩
  have hpow : 0 < 2 ^ k := Nat.two_pow_pos k
  have hlogk : (m * 2 ^ k).log2 = 52 + k := by
    refine (Nat.log2_eq_iff (Nat.mul_pos hpos hpow).ne').mpr ⟨?_, ?_⟩
    · rw [pow_add]
      exact Nat.mul_le_mul_right _ hlow
    · have hsplit : 2 ^ (52 + k + 1) = 2 ^ 53 * 2 ^ k := by
        rw [← pow_add]
        congr 1
        omega
      rw [hsplit]
      exact Nat.mul_lt_mul_of_pos_right hhigh hpow
  have hfirst : shiftToTargetExponent Format.binary64 (m * 2 ^ k) e .exact
      = (⟨m, false, false⟩, e + k) := by
    have htarget : Format.binary64.targetExponent (totalExponent (m * 2 ^ k) e) = e + k := by
      rw [totalExponent, hlogk, Format.targetExponent]
      show max ((((52 + k : Nat) : Int) + 1 + e) - 53) (-1074) = e + k
      omega
    have hamount : (e + (k : Int) - e).toNat = k := by omega
    rw [shiftToTargetExponent, shiftToExponent]
    simp only [htarget, hamount]
    exact congrArg (fun em => (em, e + (k : Int))) (shiftRight_exact m k)
  have hsecond : shiftToTargetExponent Format.binary64 m (e + k) .exact
      = (⟨m, false, false⟩, e + k) := by
    have htarget : Format.binary64.targetExponent (totalExponent m (e + k)) = e + k := by
      rw [totalExponent, hlog, Format.targetExponent]
      show max ((((52 : Nat) : Int) + 1 + (e + k)) - 53) (-1074) = e + k
      omega
    have hamount : (e + (k : Int) - (e + k)).toNat = 0 := by omega
    rw [shiftToTargetExponent, shiftToExponent]
    simp only [htarget, hamount, Nat.cast_zero, Int.add_zero]
    rfl
  rw [roundWithAccuracy, hfirst]
  dsimp only
  rw [show (⟨m, false, false⟩ : ExtendedMantissa).roundedMantissa = m from rfl, hsecond]
  dsimp only
  rw [dif_neg hpos.ne']

/-! ## Natural numbers -/

/-- The exponent at which a number fills the mantissa. -/
def exponentOf (n : Nat) : Nat := 52 - n.log2

theorem log2_le {n : Nat} (hpos : 0 < n) (hlt : n < 2 ^ 53) : n.log2 ≤ 52 := by
  have hlow := (Nat.log2_eq_iff hpos.ne').mp rfl
  have hexp := (Nat.pow_lt_pow_iff_right (by omega)).mp (Nat.lt_of_le_of_lt hlow.1 hlt)
  omega

theorem mantissa_bounds {n : Nat} (hpos : 0 < n) (hlt : n < 2 ^ 53) :
    2 ^ 52 ≤ n * 2 ^ exponentOf n ∧ n * 2 ^ exponentOf n < 2 ^ 53 := by
  obtain ⟨hlow, hhigh⟩ := (Nat.log2_eq_iff hpos.ne').mp rfl
  have hlog := log2_le hpos hlt
  have hsum : n.log2 + exponentOf n = 52 := by
    rw [exponentOf]
    omega
  have hpow : 0 < 2 ^ exponentOf n := Nat.two_pow_pos _
  constructor
  · calc 2 ^ 52 = 2 ^ n.log2 * 2 ^ exponentOf n := by rw [← pow_add, hsum]
      _ ≤ n * 2 ^ exponentOf n := Nat.mul_le_mul_right _ hlow
  · calc n * 2 ^ exponentOf n < 2 ^ (n.log2 + 1) * 2 ^ exponentOf n :=
          Nat.mul_lt_mul_of_pos_right hhigh hpow
      _ = 2 ^ 53 := by
          rw [← pow_add]
          congr 1
          omega

/-- The `double` is a positive natural number. -/
def IsNat (x : Float) (n : Nat) : Prop :=
  0 < n ∧ n < 2 ^ 53 ∧ ∃ h, x.toModel.unpack
    = .finite .positive (n * 2 ^ exponentOf n) (-(exponentOf n : Int)) h

theorem mantissa_pos {n : Nat} (hpos : 0 < n) : 0 < n * 2 ^ exponentOf n :=
  Nat.mul_pos hpos (Nat.two_pow_pos _)

theorem exponentOf_le (n : Nat) : exponentOf n ≤ 52 := Nat.sub_le _ _

/-- What is packed as such a number is one. -/
theorem isNat_pack {n : Nat} (hpos : 0 < n) (hlt : n < 2 ^ 53) {x : Float}
    (hx : x.toModel = .pack (.finite .positive (n * 2 ^ exponentOf n) (-(exponentOf n : Int))
      (mantissa_pos hpos))) : IsNat x n := by
  obtain ⟨hlow, hhigh⟩ := mantissa_bounds hpos hlt
  have hle := exponentOf_le n
  refine ⟨hpos, hlt, mantissa_pos hpos, ?_⟩
  rw [hx]
  exact unpack_pack _ hlow hhigh (by omega) (by omega)

/-- Conversion is exact. -/
theorem isNat_toDouble {n : Nat} (hpos : 0 < n) (hlt : n < 2 ^ 53) : IsNat (toDouble n) n := by
  obtain ⟨hlow, hhigh⟩ := mantissa_bounds hpos hlt
  have hle := exponentOf_le n
  have hlog := log2_le hpos hlt
  refine isNat_pack hpos hlt ?_
  show Float.Model.pack (UnpackedFloat.normalize Format.binary64 n 0 .positive) = _
  have hcompare : compare (n : Int) 0 = .gt := by
    simpa using Int.compare_eq_gt.mpr (Int.natCast_pos.mpr hpos)
  have htarget : Format.binary64.targetExponent (totalExponent n 0) = -(exponentOf n : Int) := by
    rw [totalExponent, Format.targetExponent, exponentOf]
    show max ((n.log2 : Int) + 1 + 0 - 53) (-1074) = _
    omega
  have hamount : (0 - -(exponentOf n : Int)).toNat = exponentOf n := by omega
  have hrounded : UnpackedFloat.round Format.binary64 .positive n 0
      = roundWithAccuracy Format.binary64 .positive (n * 2 ^ exponentOf n * 2 ^ 0)
          (0 - (exponentOf n : Int)) .exact := by
    rw [UnpackedFloat.round]
    simp only [htarget, decreaseExponent, hamount, Nat.shiftLeft_eq, pow_zero, Nat.mul_one]
  have hnormalized : UnpackedFloat.normalize Format.binary64 n 0 .positive
      = UnpackedFloat.round Format.binary64 .positive n 0 := by
    rw [UnpackedFloat.normalize]
    simp only [hcompare, Int.toNat_natCast]
  rw [hnormalized, hrounded,
    roundWithAccuracy_exact (mantissa_pos hpos) hlow hhigh (by omega)]
  exact congrArg Float.Model.pack (finite_eq rfl (by omega) _ _)

/-- So is a product below the bound. -/
theorem IsNat.mul {x y : Float} {a b : Nat} (hx : IsNat x a) (hy : IsNat y b)
    (hlt : a * b < 2 ^ 53) : IsNat (x * y) (a * b) := by
  obtain ⟨ha, halt, hapos, hx⟩ := hx
  obtain ⟨hb, hblt, hbpos, hy⟩ := hy
  have hpos : 0 < a * b := Nat.mul_pos ha hb
  obtain ⟨hlow, hhigh⟩ := mantissa_bounds hpos hlt
  have hle := exponentOf_le (a * b)
  refine isNat_pack hpos hlt ?_
  show Float.Model.pack (UnpackedFloat.mul Format.binary64 x.toModel.unpack y.toModel.unpack) = _
  rw [hx, hy]
  -- the product of the mantissas has the zeros of both at its end
  have hlogs : a.log2 + b.log2 ≤ (a * b).log2 := by
    have hmul := Nat.mul_le_mul ((Nat.log2_eq_iff ha.ne').mp rfl).1
      ((Nat.log2_eq_iff hb.ne').mp rfl).1
    rw [← pow_add] at hmul
    exact (Nat.le_log2 hpos.ne').mpr hmul
  obtain ⟨k, hk⟩ : ∃ k, exponentOf a + exponentOf b = exponentOf (a * b) + k := by
    refine Nat.exists_eq_add_of_le ?_
    have hloga := log2_le ha halt
    have hlogb := log2_le hb hblt
    rw [exponentOf, exponentOf, exponentOf]
    omega
  have hmantissa : a * 2 ^ exponentOf a * (b * 2 ^ exponentOf b)
      = a * b * 2 ^ exponentOf (a * b) * 2 ^ k := by
    calc a * 2 ^ exponentOf a * (b * 2 ^ exponentOf b)
        = a * b * 2 ^ (exponentOf a + exponentOf b) := by ring
      _ = a * b * 2 ^ exponentOf (a * b) * 2 ^ k := by rw [hk]; ring
  have hexponent : -(exponentOf a : Int) + -(exponentOf b : Int) + k
      = -(exponentOf (a * b) : Int) := by omega
  have hround := roundWithAccuracy_exact (k := k)
    (e := -(exponentOf a : Int) + -(exponentOf b : Int)) (mantissa_pos hpos) hlow hhigh (by omega)
  rw [← hmantissa] at hround
  show Float.Model.pack (roundWithAccuracy Format.binary64 .positive _ _ .exact) = _
  rw [hround]
  exact congrArg Float.Model.pack (finite_eq rfl hexponent _ _)

/-- Truncation gives the number back. -/
theorem IsNat.truncate_eq {x : Float} {n : Nat} (hx : IsNat x n) : truncate x = some (n : Int) := by
  obtain ⟨hpos, hlt, hmantissa, hx⟩ := hx
  have hdown : (-(exponentOf n : Int)).toNat = 0 := by omega
  have hup : (0 - -(exponentOf n : Int)).toNat = exponentOf n := by omega
  have hround : roundToInt .positive (n * 2 ^ exponentOf n) (-(exponentOf n : Int)) = n := by
    simp only [roundToInt, decreaseExponent, shiftToExponent, hdown, Nat.shiftLeft_zero,
      Nat.cast_zero, Int.sub_zero, hup]
    show Sign.positive.apply ((Nat.repeat ExtendedMantissa.shiftRightOne (exponentOf n)
      ⟨n * 2 ^ exponentOf n, false, false⟩).mantissa : Int) = _
    rw [shiftRight_exact]
    rfl
  rw [truncate, hx]
  exact congrArg some hround

theorem unpack_toDouble_zero : (toDouble 0).toModel.unpack = .zero .positive := rfl

/-- A positive number is not at most zero. -/
theorem IsNat.not_le_zero {x : Float} {n : Nat} (hx : IsNat x n) : ¬ x ≤ toDouble 0 := by
  obtain ⟨-, -, hmantissa, hx⟩ := hx
  intro h
  have hle : UnpackedFloat.le x.toModel.unpack (toDouble 0).toModel.unpack = true :=
    of_decide_eq_true h
  rw [hx, unpack_toDouble_zero] at hle
  cases hle

/-- A natural number is converted to an unsigned type exactly if the type has
    it. -/
theorem IsNat.toUnsigned_eq {x : Float} {n : Nat} (hx : IsNat x n) (bits : Nat) :
    toUnsigned bits x = if n < 2 ^ bits then some n else none := by
  have hrange : (0 ≤ (n : Int) ∧ (n : Int) < 2 ^ bits) ↔ n < 2 ^ bits := by
    constructor
    · intro h
      exact_mod_cast h.2
    · intro h
      exact ⟨Int.natCast_nonneg n, by exact_mod_cast h⟩
  rw [toUnsigned, hx.truncate_eq]
  simp only [hrange, Int.toNat_natCast]

end ExactDoubles
