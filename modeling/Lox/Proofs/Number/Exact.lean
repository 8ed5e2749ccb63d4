import Lox.Proofs.Number.Numerals

/-!
Where doubles are exact. A finite double is a rational number, and doubles compare as these numbers do. A natural
number below `2 ^ 53` is a double, and one that is a double is found by truncation.
-/

open Float.Model Float.Model.UnpackedFloat

namespace Lox.Number

/-! ### The number that a double is -/

def Dyadic.toRat (d : Dyadic) : ℚ :=
  (if d.negative then -1 else 1) * d.mantissa * 2 ^ d.exponent

def Reading.toRat? : Reading → Option ℚ
  | .finite d => some d.toRat
  | .infinite _ | .notANumber => none

/-- The number that a double is; infinities and not-a-number are none. -/
def toRat? (x : Float) : Option ℚ :=
  (Reading.ofFloat x).toRat?

/-- The number that a double is, from its parts. -/
def partsToRat? : UnpackedFloat → Option ℚ
  | .zero _ => some 0
  | .finite .positive m e _ => some (m * 2 ^ e)
  | .finite .negative m e _ => some (-(m * 2 ^ e))
  | .infinity _ | .notANumber => none

theorem toRat?_eq_parts (x : Float) : toRat? x = partsToRat? x.toModel.unpack := by
  unfold toRat?
  rw [ofFloat_unpack]
  match x.toModel.unpack with
  | .infinity _ | .notANumber => rfl
  | .zero _ => simp [Reading.ofUnpacked, Reading.toRat?, Dyadic.toRat, partsToRat?]
  | .finite .positive _ _ _ => simp [Reading.ofUnpacked, Reading.toRat?, Dyadic.toRat, partsToRat?]
  | .finite .negative _ _ _ => simp [Reading.ofUnpacked, Reading.toRat?, Dyadic.toRat, partsToRat?]

/-- A power of two as a quotient of natural numbers. -/
theorem two_zpow (e : ℤ) : (2 : ℚ) ^ e = ((2 ^ e.toNat : ℕ) : ℚ) / ((2 ^ (-e).toNat : ℕ) : ℚ) := by
  push_cast
  rw [← zpow_natCast, ← zpow_natCast, ← zpow_sub₀ two_ne_zero]
  congr 1
  omega

/-- A magnitude is a natural number if the fraction that it is has it as its quotient. -/
theorem magnitude_eq_nat {m n : ℕ} {e : ℤ} :
    (m : ℚ) * 2 ^ e = n ↔ m * 2 ^ e.toNat = n * 2 ^ (-e).toNat := by
  have positive : ((2 ^ (-e).toNat : ℕ) : ℚ) ≠ 0 := Nat.cast_ne_zero.mpr (Nat.two_pow_pos _).ne'
  rw [two_zpow, ← mul_div_assoc, div_eq_iff positive]
  exact_mod_cast Iff.rfl

theorem whole?_eq_some {d : Dyadic} {n : ℕ} : d.whole? = some n ↔ (d.mantissa : ℚ) * 2 ^ d.exponent = n := by
  rw [magnitude_eq_nat]
  unfold Dyadic.whole?
  simp only [Nat.pow_eq]
  have divisor : 0 < 2 ^ (-d.exponent).toNat := Nat.two_pow_pos _
  have either : d.exponent.toNat = 0 ∨ (-d.exponent).toNat = 0 := by omega
  split
  · next divides =>
    obtain ⟨quotient, same⟩ := Nat.dvd_of_mod_eq_zero divides
    rw [same, Nat.mul_div_cancel_left _ divisor, Option.some_inj, mul_assoc, mul_comm n]
    exact (Nat.mul_right_inj divisor.ne').symm
  · next remainder =>
    refine iff_of_false nofun fun same => remainder ?_
    rcases either with none | none
    · rw [none, pow_zero, mul_one] at same
      exact same ▸ Nat.mul_mod_left ..
    · rw [none, pow_zero]
      exact Nat.mod_one _

theorem Dyadic.toRat_eq_int {d : Dyadic} {k : ℤ} :
    d.toRat = k ↔ ∃ n : ℕ, (d.mantissa : ℚ) * 2 ^ d.exponent = n ∧ (if d.negative then -(n : ℤ) else n) = k := by
  have nonneg : (0 : ℚ) ≤ d.mantissa * 2 ^ d.exponent := by positivity
  rw [Dyadic.toRat, mul_assoc]
  generalize (d.mantissa : ℚ) * 2 ^ d.exponent = magnitude at *
  constructor
  · intro same
    refine ⟨k.natAbs, ?_, ?_⟩
    · have sizes := congrArg (|·|) same
      rw [abs_mul, abs_of_nonneg nonneg] at sizes
      rw [Nat.cast_natAbs, Int.cast_abs, ← sizes]
      cases d.negative <;> simp
    · cases negative : d.negative with
      | true =>
        rw [negative] at same
        have below : (k : ℚ) ≤ 0 := by rw [← same]; simpa using nonneg
        have : k ≤ 0 := by exact_mod_cast below
        simp only [if_true]
        omega
      | false =>
        rw [negative] at same
        have above : (0 : ℚ) ≤ k := by rw [← same]; simpa using nonneg
        have : 0 ≤ k := by exact_mod_cast above
        simp only [Bool.false_eq_true, if_false]
        omega
  · rintro ⟨n, rfl, rfl⟩
    cases d.negative <;> simp

/-- Reading an integer is exact. -/
theorem integer?_eq_some {x : Float} {k : ℤ} : integer? x = some k ↔ toRat? x = some (k : ℚ) := by
  unfold integer? toRat?
  cases Reading.ofFloat x with
  | infinite => exact iff_of_false nofun nofun
  | notANumber => exact iff_of_false nofun nofun
  | finite d =>
    have signed : d.integer? = d.whole?.map fun n : ℕ => if d.negative then -(n : ℤ) else n := by
      unfold Dyadic.integer?
      cases d.whole? <;> rfl
    change d.integer? = some k ↔ some d.toRat = some (k : ℚ)
    rw [Option.some_inj, Dyadic.toRat_eq_int, signed, Option.map_eq_some_iff]
    exact exists_congr fun n => and_congr_left' whole?_eq_some

/-! ### Comparison -/

/-- The parts that a double can have. -/
def Canonical : UnpackedFloat → Prop
  | .finite _ m e _ => m < 2 ^ 53 ∧ leastExponent ≤ e ∧ (2 ^ 52 ≤ m ∨ e = leastExponent)
  | _ => True

theorem canonical_unpack (x : Float) : Canonical x.toModel.unpack := by
  unfold Float.Model.unpack UnpackedFloat.unpack
  have bias : ((Format.binary64.exponentBias : Nat) : Int) + (52 : Nat) = 1075 := by decide
  simp only [bias]
  split
  · split <;> trivial
  have fraction : (@unpackMantissa Format.binary64 x.toModel.toBits.toBitVec).toNat < 2 ^ 52 := BitVec.isLt _
  split
  · next empty =>
    split
    · trivial
    · refine ⟨fraction.trans (by norm_num), ?_, Or.inr ?_⟩ <;> simp [empty, leastExponent]
  · next some =>
    have exponent : 0 < (@unpackExponent Format.binary64 x.toModel.toBits.toBitVec).toNat := by
      rw [Nat.pos_iff_ne_zero]
      exact fun zero => some (BitVec.eq_of_toNat_eq zero)
    have mantissa : (1#1 ++ @unpackMantissa Format.binary64 x.toModel.toBits.toBitVec).toNat =
        2 ^ 52 + (@unpackMantissa Format.binary64 x.toModel.toBits.toBitVec).toNat := by
      rw [BitVec.toNat_append, ← Nat.shiftLeft_add_eq_or_of_lt fraction]
      rfl
    refine ⟨?_, ?_, Or.inl ?_⟩
    · rw [mantissa]
      omega
    · unfold leastExponent
      omega
    · rw [mantissa]
      omega

theorem magnitude_lt {m₁ m₂ : ℕ} {e₁ e₂ : ℤ} (small : m₁ < 2 ^ 53) (large : 2 ^ 52 ≤ m₂) (less : e₁ < e₂) :
    (m₁ : ℚ) * 2 ^ e₁ < m₂ * 2 ^ e₂ :=
  calc (m₁ : ℚ) * 2 ^ e₁ < 2 ^ 53 * 2 ^ e₁ := by gcongr; exact_mod_cast small
    _ = 2 ^ 52 * 2 ^ (e₁ + 1) := by rw [zpow_add₀ two_ne_zero]; ring
    _ ≤ m₂ * 2 ^ e₂ := by
      gcongr
      · exact_mod_cast large
      · norm_num
      · omega

/-- Magnitudes compare as their exponents do, or else as their mantissas do. -/
theorem compare_magnitudes {s₁ s₂ : Sign} {m₁ m₂ : ℕ} {e₁ e₂ : ℤ} {some₁ : 0 < m₁} {some₂ : 0 < m₂}
    (first : Canonical (.finite s₁ m₁ e₁ some₁)) (second : Canonical (.finite s₂ m₂ e₂ some₂)) :
    (compare e₁ e₂).then (compare m₁ m₂) = compare ((m₁ : ℚ) * 2 ^ e₁) (m₂ * 2 ^ e₂) := by
  obtain ⟨small₁, least₁, large₁⟩ := first
  obtain ⟨small₂, least₂, large₂⟩ := second
  rcases lt_trichotomy e₁ e₂ with less | rfl | greater
  · have less' := magnitude_lt small₁ (large₂.resolve_right (by omega)) less
    rw [compare_lt_iff_lt.mpr less, compare_lt_iff_lt.mpr less']
    rfl
  · have positive : (0 : ℚ) < 2 ^ e₁ := by positivity
    rw [compare_eq_iff_eq.mpr rfl]
    rcases lt_trichotomy m₁ m₂ with less | rfl | greater
    · rw [compare_lt_iff_lt.mpr less, compare_lt_iff_lt.mpr (by gcongr)]
      rfl
    · rw [compare_eq_iff_eq.mpr rfl, compare_eq_iff_eq.mpr rfl]
      rfl
    · rw [compare_gt_iff_gt.mpr greater, compare_gt_iff_gt.mpr (by gcongr)]
      rfl
  · have greater' := magnitude_lt small₂ (large₁.resolve_right (by omega)) greater
    rw [compare_gt_iff_gt.mpr greater, compare_gt_iff_gt.mpr greater']
    rfl

theorem compare_neg (p q : ℚ) : compare (-p) (-q) = (compare p q).swap := by
  rcases lt_trichotomy p q with less | rfl | greater
  · rw [compare_lt_iff_lt.mpr less, compare_gt_iff_gt.mpr (neg_lt_neg less)]
    rfl
  · rw [compare_eq_iff_eq.mpr rfl, compare_eq_iff_eq.mpr rfl]
    rfl
  · rw [compare_gt_iff_gt.mpr greater, compare_lt_iff_lt.mpr (neg_lt_neg greater)]
    rfl

/-- Finite doubles compare as the numbers that they are. -/
theorem compare_exact {u w : UnpackedFloat} (first : Canonical u) (second : Canonical w) {p q : ℚ}
    (left : partsToRat? u = some p) (right : partsToRat? w = some q) : u.compare w = some (compare p q) := by
  have positive {m : ℕ} (some : 0 < m) (e : ℤ) : (0 : ℚ) < m * 2 ^ e := by positivity
  have negative {m : ℕ} (some : 0 < m) (e : ℤ) : -(m * 2 ^ e : ℚ) < 0 := neg_neg_of_pos (positive some e)
  have below {p q : ℚ} (less : p < q) : some .lt = some (compare p q) :=
    congrArg some (compare_lt_iff_lt.mpr less).symm
  have above {p q : ℚ} (greater : p > q) : some .gt = some (compare p q) :=
    congrArg some (compare_gt_iff_gt.mpr greater).symm
  match u, w, left, right with
  | .zero _, .zero _, rfl, rfl => exact congrArg some (compare_eq_iff_eq.mpr rfl).symm
  | .zero _, .finite .positive _ _ some₂, rfl, rfl => exact below (positive some₂ _)
  | .zero _, .finite .negative _ _ some₂, rfl, rfl => exact above (negative some₂ _)
  | .finite .positive _ _ some₁, .zero _, rfl, rfl => exact above (positive some₁ _)
  | .finite .negative _ _ some₁, .zero _, rfl, rfl => exact below (negative some₁ _)
  | .finite .positive _ _ some₁, .finite .negative _ _ some₂, rfl, rfl =>
    exact above ((negative some₂ _).trans (positive some₁ _))
  | .finite .negative _ _ some₁, .finite .positive _ _ some₂, rfl, rfl =>
    exact below ((negative some₁ _).trans (positive some₂ _))
  | .finite .positive .., .finite .positive .., rfl, rfl => exact congrArg some (compare_magnitudes first second)
  | .finite .negative .., .finite .negative .., rfl, rfl =>
    exact congrArg some ((congrArg Ordering.swap (compare_magnitudes first second)).trans (compare_neg _ _).symm)

variable {x y : Float} {p q : ℚ}

theorem lt_exact (left : toRat? x = some p) (right : toRat? y = some q) : x < y ↔ p < q := by
  rw [toRat?_eq_parts] at left right
  have model : x < y ↔ (x.toModel.unpack.compare y.toModel.unpack == some .lt) = true := decide_eq_true_iff
  rw [model, compare_exact (canonical_unpack x) (canonical_unpack y) left right, beq_iff_eq, Option.some_inj]
  exact compare_lt_iff_lt

theorem le_exact (left : toRat? x = some p) (right : toRat? y = some q) : x ≤ y ↔ p ≤ q := by
  rw [toRat?_eq_parts] at left right
  have model : x ≤ y ↔ (x.toModel.unpack.compare y.toModel.unpack).any (·.isLE) = true := decide_eq_true_iff
  rw [model, compare_exact (canonical_unpack x) (canonical_unpack y) left right]
  exact Ordering.isLE_iff_ne_gt.trans compare_le_iff_le

/-! ### Natural numbers -/

theorem shifted (m k : ℕ) :
    ExtendedMantissa.ofMantissaAndAccuracy (m * 2 ^ k) .exact >>> k = .ofMantissaAndAccuracy m .exact := by
  change k.repeat ExtendedMantissa.shiftRightOne _ = _
  induction k generalizing m with
  | zero => rw [pow_zero, mul_one]; rfl
  | succ k ih =>
    rw [pow_succ', ← mul_assoc, Nat.repeat, ih]
    simp [ExtendedMantissa.shiftRightOne, ExtendedMantissa.ofMantissaAndAccuracy]

/-- Rounding keeps a normal number that is written with more digits. -/
theorem rounded_normal {m : ℕ} {e : ℤ} (sign : Sign) (some : 0 < m) (large : 2 ^ 52 ≤ m) (small : m < 2 ^ 53)
    (least : leastExponent ≤ e) (k : ℕ) :
    roundWithAccuracy .binary64 sign (m * 2 ^ k) (e - k) .exact = .finite sign m e some := by
  have digits (j : ℕ) : (m * 2 ^ j).log2 = 52 + j := by
    rw [Nat.log2_eq_iff (by positivity)]
    constructor
    · rw [pow_add]
      gcongr
    · rw [add_right_comm, pow_add]
      gcongr
  have target (j : ℕ) : Format.binary64.targetExponent (totalExponent (m * 2 ^ j) (e - j)) = e := by
    unfold Format.targetExponent totalExponent
    rw [digits]
    unfold leastExponent at least
    have bits : Format.binary64.mantissaBits = 53 := rfl
    have min : Format.binary64.minExponent = -1074 := rfl
    rw [bits, min]
    omega
  have shift (j : ℕ) : shiftToTargetExponent .binary64 (m * 2 ^ j) (e - j) .exact =
      (.ofMantissaAndAccuracy m .exact, e) := by
    unfold shiftToTargetExponent shiftToExponent
    simp only [target, sub_sub_cancel, Int.toNat_natCast, shifted, sub_add_cancel]
  have again := shift 0
  rw [pow_zero, mul_one, Int.natCast_zero, sub_zero] at again
  have rounded : (ExtendedMantissa.ofMantissaAndAccuracy m .exact).roundedMantissa = m := rfl
  have kept : (ExtendedMantissa.ofMantissaAndAccuracy m .exact).mantissa = m := rfl
  unfold roundWithAccuracy
  simp only [shift, rounded, again, kept, some.ne', dite_false]

/-- A normal number without digits behind the first 53 that is an integer is packed as it is. -/
theorem unpack_pack_normal {m : ℕ} {e : ℤ} (sign : Sign) (some : 0 < m) (large : 2 ^ 52 ≤ m) (small : m < 2 ^ 53)
    (least : leastExponent ≤ e) (bounded : e ≤ 0) :
    UnpackedFloat.unpack .binary64 (UnpackedFloat.pack .binary64 (.finite sign m e some)) = .finite sign m e some := by
  have digits : m.log2 + 1 = Format.binary64.mantissaBits :=
    congrArg (· + 1) ((Nat.log2_eq_iff some.ne').mpr ⟨large, small⟩)
  have bias : (Format.binary64.exponentBias : ℤ) + (52 : ℕ) = 1075 := by decide
  unfold leastExponent at least
  obtain ⟨biased, same⟩ : ∃ biased : ℕ, (biased : ℤ) = e + Format.binary64.exponentBias + (52 : ℕ) :=
    ⟨(e + 1075).toNat, by omega⟩
  have mantissa : (1#1 ++ BitVec.ofNat 52 m).toNat = m := by
    rw [BitVec.toNat_append, ← Nat.shiftLeft_add_eq_or_of_lt (BitVec.isLt _), BitVec.toNat_ofNat]
    change 1 <<< 52 + m % 2 ^ 52 = m
    omega
  have exponent : (BitVec.ofNat 11 biased).toNat = biased := Nat.mod_eq_of_lt (by omega)
  have packed : UnpackedFloat.pack .binary64 (.finite sign m e some) =
      packComponents .binary64 sign (BitVec.ofNat 11 biased) (BitVec.ofNat 52 m) := by
    unfold UnpackedFloat.pack
    simp only [digits, ← same, Int.toNat_natCast]
    rw [if_neg (by omega), if_pos trivial]
  have notFull : BitVec.ofNat 11 biased ≠ -1#11 := fun full => by
    have := congrArg BitVec.toNat full
    rw [exponent] at this
    change biased = 2047 at this
    omega
  have notEmpty : BitVec.ofNat 11 biased ≠ 0#11 := fun empty => by
    have := congrArg BitVec.toNat empty
    rw [exponent] at this
    change biased = 0 at this
    omega
  have signs : Sign.ofBitVec sign.toBitVec = sign := by cases sign <;> rfl
  rw [packed]
  unfold UnpackedFloat.unpack
  simp only [unpackMantissa_packComponents, unpackExponent_packComponents, unpackSign_packComponents, signs]
  rw [if_neg notFull, if_neg notEmpty]
  simp only [mantissa, exponent, UnpackedFloat.finite.injEq, true_and]
  omega

/-- A natural number below `2 ^ 53` has a normal number for it. -/
theorem ofNat_normal {n : ℕ} (some : 0 < n) (small : n < 2 ^ 53) :
    ∃ m e positive, UnpackedFloat.ofNat .binary64 n = .finite .positive m e positive ∧
      2 ^ 52 ≤ m ∧ m < 2 ^ 53 ∧ leastExponent ≤ e ∧ e ≤ 0 ∧ (m : ℚ) * 2 ^ e = n := by
  have digits : n.log2 < 53 := (Nat.log2_lt some.ne').mpr small
  obtain ⟨k, room⟩ : ∃ k, n.log2 + k = 52 := ⟨52 - n.log2, by omega⟩
  obtain ⟨lower, upper⟩ := (Nat.log2_eq_iff some.ne').mp rfl
  have large : 2 ^ 52 ≤ n * 2 ^ k := by
    rw [← room, pow_add]
    gcongr
  have bounded : n * 2 ^ k < 2 ^ 53 := by
    rw [show 53 = n.log2 + 1 + k by omega, pow_add]
    gcongr
  have least : leastExponent ≤ -(k : ℤ) := by
    unfold leastExponent
    omega
  have target : Format.binary64.targetExponent (totalExponent n 0) = -k := by
    unfold Format.targetExponent totalExponent
    have bits : Format.binary64.mantissaBits = 53 := rfl
    have min : Format.binary64.minExponent = -1074 := rfl
    rw [bits, min]
    omega
  refine ⟨n * 2 ^ k, -k, by positivity, ?_, large, bounded, least, by omega, ?_⟩
  · unfold UnpackedFloat.ofNat UnpackedFloat.ofInt UnpackedFloat.normalize
    rw [Int.compare_eq_gt.mpr (by omega)]
    unfold UnpackedFloat.round decreaseExponent
    simp only [Int.toNat_natCast, target, zero_sub, neg_neg, Nat.shiftLeft_eq]
    simpa using rounded_normal .positive (by positivity) large bounded least 0
  · rw [zpow_neg, zpow_natCast]
    push_cast
    field_simp

/-- A natural number below `2 ^ 53` is a double. -/
theorem toRat?_ofNat {n : ℕ} (small : n < 2 ^ 53) : toRat? (ofNat n) = some (n : ℚ) := by
  rw [toRat?_eq_parts]
  have fast : ofNat n = n.toUInt64.toFloat * Float.ofBits 0x3FF0000000000000 := by
    unfold ofNat Float.ofScientific
    rw [dif_pos ⟨small, Nat.zero_le _⟩]
    rfl
  have one : (Float.ofBits 0x3FF0000000000000).toModel.unpack = .finite .positive (2 ^ 52) (-52) (by norm_num) := rfl
  rcases Nat.eq_zero_or_pos n with rfl | some
  · rfl
  obtain ⟨m, e, positive, normal, large, bounded, least, most, value⟩ := ofNat_normal some small
  have kept := unpack_pack_normal .positive positive large bounded least most
  have word : n.toUInt64.toFloat.toModel.unpack = .finite .positive m e positive := by
    have size : n.toUInt64.toNat = n := Nat.mod_eq_of_lt (small.trans (by norm_num))
    change UnpackedFloat.unpack .binary64 (UnpackedFloat.pack .binary64 (.ofNat .binary64 n.toUInt64.toNat)) = _
    rw [size, normal, kept]
  have product : (ofNat n).toModel.unpack = .finite .positive m e positive := by
    rw [fast]
    change UnpackedFloat.unpack .binary64 (UnpackedFloat.pack .binary64 (UnpackedFloat.mul .binary64
      n.toUInt64.toFloat.toModel.unpack (Float.ofBits 0x3FF0000000000000).toModel.unpack)) = _
    rw [word, one]
    change UnpackedFloat.unpack .binary64 (UnpackedFloat.pack .binary64
      (roundWithAccuracy .binary64 .positive (m * 2 ^ 52) (e - (52 : ℕ)) .exact)) = _
    rw [rounded_normal .positive positive large bounded least, kept]
  rw [product, partsToRat?, value]

theorem mantissa_shifted (m k : ℕ) :
    (ExtendedMantissa.ofMantissaAndAccuracy m .exact >>> k).mantissa = m / 2 ^ k := by
  change (k.repeat ExtendedMantissa.shiftRightOne _).mantissa = _
  induction k with
  | zero => rw [pow_zero, Nat.div_one]; rfl
  | succ k ih =>
    rw [pow_succ, ← Nat.div_div_eq_div_mul, ← ih]
    rfl

/-- Truncation finds a natural number. -/
theorem toUInt64_exact {n : ℕ} (whole : toRat? x = some (n : ℚ)) (small : n < 2 ^ 64) : x.toUInt64.toNat = n := by
  have truncated : x.toModel.unpack.toInt 0 (UInt64.size - 1) = n := by
    rw [toRat?_eq_parts] at whole
    match x.toModel.unpack, whole with
    | .zero _, whole =>
      have zero : (0 : ℚ) = n := Option.some.inj whole
      change (0 : ℤ) = n
      exact_mod_cast zero
    | .finite .positive m e _, whole =>
      have same := magnitude_eq_nat.mp (Option.some.inj whole)
      change ((ExtendedMantissa.ofMantissaAndAccuracy (m <<< (e - 0).toNat) .exact >>>
        (0 - (e - (e - 0).toNat)).toNat).mantissa : ℤ) = n
      rw [mantissa_shifted, Nat.shiftLeft_eq, sub_zero, same, show (0 - (e - e.toNat)).toNat = (-e).toNat by omega,
        Nat.mul_div_cancel _ (Nat.two_pow_pos _)]
    | .finite .negative m e positive, whole =>
      have same : -(m * 2 ^ e) = (n : ℚ) := Option.some.inj whole
      have magnitude : (0 : ℚ) < m * 2 ^ e := by positivity
      have : (0 : ℚ) ≤ n := n.cast_nonneg
      linarith
  change (UInt64.ofNatClamp (x.toModel.unpack.toInt 0 (UInt64.size - 1)).toNat).toNat = n
  rw [truncated, Int.toNat_natCast, UInt64.ofNatClamp, dif_pos (show n < UInt64.size from small)]
  rfl

end Lox.Number
