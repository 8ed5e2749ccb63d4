import Mathlib
import Lox.Number.Text

/-!
The numbers that a text can name, and their numerals. A number of a text is a double that is not below
zero, or the infinity above all doubles if its digits name a number too great for a double. The numeral
of a finite one consists of digits with at most one point between them.
-/

open Float.Model Float.Model.UnpackedFloat

namespace Lox.Number

/-! ### Doubles by their parts -/

/-- What the parts of a double stand for. -/
def Reading.ofUnpacked : UnpackedFloat → Reading
  | .infinity sign => .infinite (sign == .negative)
  | .notANumber => .notANumber
  | .zero sign => .finite ⟨sign == .negative, 0, leastExponent⟩
  | .finite sign mantissa exponent _ => .finite ⟨sign == .negative, mantissa, exponent⟩

/-- The reading of a double from its bits is that of the parts by which its operations are defined. -/
theorem ofFloat_unpack (x : Float) : Reading.ofFloat x = .ofUnpacked x.toModel.unpack := by
  obtain ⟨⟨⟨bits⟩, valid⟩⟩ := x
  have fraction : bits.toNat % Nat.pow 2 52 = (@unpackMantissa Format.binary64 bits).toNat := by
    simp [unpackMantissa, BitVec.extractLsb]
  have biased : bits.toNat / Nat.pow 2 52 % Nat.pow 2 11 =
      (@unpackExponent Format.binary64 bits).toNat := by
    simp [unpackExponent, BitVec.extractLsb, Nat.shiftRight_eq_div_pow]
  have sign : bits.toNat / Nat.pow 2 63 % 2 = (@unpackSign Format.binary64 bits).toNat := by
    simp [unpackSign, BitVec.extractLsb, Nat.shiftRight_eq_div_pow]
  have negative (b : BitVec 1) : (b.toNat == 1) = (Sign.ofBitVec b == .negative) := by
    revert b
    decide
  have bias : ((Format.binary64.exponentBias : Nat) : Int) + (52 : Nat) = 1075 := by decide
  have full : @unpackExponent Format.binary64 bits = -1#11 ↔
      (@unpackExponent Format.binary64 bits).toNat = 2047 := by
    simp [← BitVec.toNat_inj]
  have empty : @unpackExponent Format.binary64 bits = 0#11 ↔
      (@unpackExponent Format.binary64 bits).toNat = 0 := by
    simp [← BitVec.toNat_inj]
  have none : @unpackMantissa Format.binary64 bits = 0#52 ↔
      (@unpackMantissa Format.binary64 bits).toNat = 0 := by
    simp [← BitVec.toNat_inj]
  simp only [Reading.ofFloat, Float.toBits, Reading.ofBits, Float.Model.unpack, UnpackedFloat.unpack, UInt64.toNat,
    fraction, biased, sign, negative, bias, full, empty, none]
  split
  · split <;> rfl
  split
  · next zero =>
    split
    · next nothing => simp [nothing, Reading.ofUnpacked]
    · simp [zero, Reading.ofUnpacked, leastExponent]
  · -- A normal double: the leading one is in front of the fraction.
    have mantissa : (1#1 ++ @unpackMantissa Format.binary64 bits).toNat =
        Nat.pow 2 52 + (@unpackMantissa Format.binary64 bits).toNat := by
      rw [BitVec.toNat_append, ← Nat.shiftLeft_add_eq_or_of_lt (BitVec.isLt _)]
      rfl
    have exponent : leastExponent + ((@unpackExponent Format.binary64 bits).toNat - 1 : Nat) =
        (@unpackExponent Format.binary64 bits).toNat - 1075 := by
      unfold leastExponent
      omega
    rw [Reading.ofUnpacked, mantissa, exponent]

/-! ### Numbers that are not below zero -/

/-- Neither below zero nor not-a-number. -/
def Positive : UnpackedFloat → Prop
  | .infinity sign | .zero sign | .finite sign _ _ _ => sign = .positive
  | .notANumber => False

section Operations

variable {spec : Format} {f : UnpackedFloat}

theorem positive_rounded (m : Nat) (e : Int) (accuracy : Accuracy) :
    Positive (roundWithAccuracy spec .positive m e accuracy) := by
  unfold roundWithAccuracy
  simp only
  split <;> rfl

theorem positive_ofNat (n : Nat) : Positive (UnpackedFloat.ofNat spec n) := by
  unfold UnpackedFloat.ofNat UnpackedFloat.ofInt UnpackedFloat.normalize
  split
  · next less =>
    have below : (n : Int) < 0 := Int.compare_eq_lt.mp less
    omega
  · rfl
  · exact positive_rounded ..

theorem positive_mul (positive : Positive f) {m : Nat} {e : Int} (some : 0 < m) :
    Positive (mul spec f (.finite .positive m e some)) := by
  cases f with
  | notANumber => exact positive
  | infinity | zero =>
    obtain rfl := positive
    rfl
  | finite =>
    obtain rfl := positive
    exact positive_rounded ..

/-- Division by a finite number other than zero. -/
theorem positive_div (positive : Positive f) {m : Nat} {e : Int} (some : 0 < m) :
    Positive (div spec f (.finite .positive m e some)) := by
  cases f with
  | notANumber => exact positive
  | infinity | zero =>
    obtain rfl := positive
    rfl
  | finite =>
    obtain rfl := positive
    exact positive_rounded ..

theorem positive_ofScientific (m : Nat) (e : Int) : Positive (UnpackedFloat.ofScientific spec m e) := by
  unfold UnpackedFloat.ofScientific
  split
  · rfl
  split
  · rfl
  split
  · rfl
  split
  · exact positive_mul (by rfl) _
  · exact positive_div (by rfl) _

theorem unpackSign_packComponents {sign : Sign} {exponent : BitVec spec.exponentBits}
    {mantissa : BitVec spec.mantissaBitsWithoutImplicit} :
    unpackSign (packComponents spec sign exponent mantissa) = sign.toBitVec := by
  ext i hi
  obtain rfl : i = 0 := by omega
  simp [unpackSign, packComponents, BitVec.getLsbD_eq_getElem, BitVec.getLsbD_append, BitVec.getElem_append]

theorem positive_unpack {b : BitVec spec.numBits} (sign : unpackSign b = 0#1)
    (infinite : unpackExponent b = -BitVec.ofNat spec.exponentBits 1 → unpackMantissa b = 0#_) :
    Positive (UnpackedFloat.unpack spec b) := by
  have positive : Sign.ofBitVec (unpackSign b) = .positive := if_pos sign
  unfold UnpackedFloat.unpack
  simp only
  split
  · next full =>
    rw [if_pos (infinite full)]
    exact positive
  · split
    · split <;> exact positive
    · exact positive

/-- Packing keeps the sign, and what it packs as a number is not read as not-a-number. -/
theorem positive_packed (positive : Positive f) :
    Positive (UnpackedFloat.unpack spec (UnpackedFloat.pack spec f)) := by
  refine positive_unpack ?_ ?_
  · fun_cases UnpackedFloat.pack with
    | case1 => exact positive.elim
    | _ =>
      obtain rfl := positive
      exact unpackSign_packComponents
  · fun_cases UnpackedFloat.pack with
    | case1 => exact positive.elim
    | case5 sign m e some bits biased small whole =>
      intro full
      have same := congrArg BitVec.toNat (unpackExponent_packComponents.symm.trans full)
      simp only [BitVec.toNat_ofNat, BitVec.neg_one_eq_allOnes, BitVec.toNat_allOnes] at same
      rw [Nat.mod_eq_of_lt (by omega)] at same
      omega
    | case6 =>
      intro full
      have same := congrArg BitVec.toNat (unpackExponent_packComponents.symm.trans full)
      simp only [BitVec.toNat_ofNat, BitVec.neg_one_eq_allOnes, BitVec.toNat_allOnes, Nat.zero_mod] at same
      have := Nat.one_lt_two_pow (Nat.ne_of_gt spec.he)
      omega
    | _ => exact fun _ => unpackMantissa_packComponents

end Operations

/-- A double that is not below zero, or the infinity above all doubles. -/
def Magnitude (x : Float) : Prop :=
  Positive x.toModel.unpack

theorem magnitude_pack {f : UnpackedFloat} (positive : Positive f) : Magnitude (.ofModel (.pack f)) :=
  positive_packed positive

theorem powers_finite : ∀ x ∈ Float.exactlyRepresentablePowersOfTen.toList,
    ∃ m e some, x.toModel.unpack = .finite .positive m e some := by
  have all : (Float.exactlyRepresentablePowersOfTen.toList.all fun x =>
      match x.toModel.unpack with
      | .finite .positive _ _ _ => true
      | _ => false) = true := by decide +kernel
  intro x member
  have good := List.all_eq_true.mp all x member
  revert good
  cases x.toModel.unpack with
  | finite sign m e some =>
    cases sign with
    | negative => exact fun no => nomatch no
    | positive => exact fun _ => ⟨m, e, some, rfl⟩
  | _ => exact fun no => nomatch no

/-- Digits name no number below zero, and nothing that is not a number. -/
theorem ofDigits_magnitude (whole fraction : List Char) : Magnitude (ofDigits whole fraction) := by
  unfold ofDigits Float.ofScientific
  split
  · next small =>
    have listed : fraction.length < Float.exactlyRepresentablePowersOfTen.size := Nat.lt_succ_of_le small.2
    obtain ⟨m, e, some, same⟩ := powers_finite Float.exactlyRepresentablePowersOfTen[fraction.length] (by simp)
    rw [if_pos rfl]
    refine magnitude_pack ?_
    rw [same]
    exact positive_div (positive_packed (positive_ofNat _)) some
  · exact magnitude_pack (positive_ofScientific _ _)

/-- Whether a double is the infinity above all doubles. -/
def infinite (x : Float) : Bool :=
  Reading.ofFloat x = .infinite false

theorem text_infinite {x : Float} (above : infinite x) : text x = "inf" := by
  unfold text
  rw [of_decide_eq_true above]
  rfl

theorem Magnitude.reading {x : Float} (magnitude : Magnitude x) :
    Reading.ofFloat x = .infinite false ∨ ∃ m e, Reading.ofFloat x = .finite ⟨false, m, e⟩ := by
  rw [ofFloat_unpack]
  unfold Magnitude at magnitude
  revert magnitude
  cases x.toModel.unpack with
  | notANumber => exact False.elim
  | infinity =>
    rintro rfl
    exact .inl rfl
  | zero | finite =>
    rintro rfl
    exact .inr ⟨_, _, rfl⟩

/-! ### Numerals -/

/-- Digits, with a point between them or without one. -/
inductive Numeral : List Char → Prop
  | whole {digits : List Char} (some : digits ≠ []) (all : ∀ d ∈ digits, d.isDigit) : Numeral digits
  | decimal {whole fraction : List Char} (some : whole ≠ []) (all : ∀ d ∈ whole, d.isDigit)
      (someBehind : fraction ≠ []) (allBehind : ∀ d ∈ fraction, d.isDigit) : Numeral (whole ++ '.' :: fraction)

theorem toDigits_digits (n : Nat) : ∀ d ∈ Nat.toDigits 10 n, d.isDigit :=
  fun _ => Nat.isDigit_of_mem_toDigits (by decide) (by decide)

theorem digits_zeros {cs : List Char} (all : ∀ d ∈ cs, d.isDigit) (n : Nat) :
    (∀ d ∈ cs ++ List.replicate n '0', d.isDigit) ∧ ∀ d ∈ List.replicate n '0' ++ cs, d.isDigit := by
  have zero : ∀ d ∈ List.replicate n '0', d.isDigit := fun d member => (List.mem_replicate.mp member).2 ▸ rfl
  exact ⟨fun d member => (List.mem_append.mp member).elim (all d) (zero d),
    fun d member => (List.mem_append.mp member).elim (zero d) (all d)⟩

theorem Decimal.numeral_spelled (d : Decimal) : Numeral d.numeral := by
  have all := toDigits_digits d.digits
  have some : Nat.toDigits 10 d.digits ≠ [] := Nat.toDigits_ne_nil
  unfold Decimal.numeral
  simp only
  split
  · exact .whole (List.append_ne_nil_of_left_ne_nil some _) (digits_zeros all _).1
  split
  · next fraction places =>
    refine .decimal ?_ (fun d member => all d (List.mem_of_mem_take member)) ?_
      fun d member => all d (List.mem_of_mem_drop member)
    · simp only [ne_eq, List.take_eq_nil_iff, not_or]
      exact ⟨by omega, some⟩
    · simp only [ne_eq, List.drop_eq_nil_iff]
      omega
  · exact .decimal (List.cons_ne_nil '0' []) (fun d member => List.mem_singleton.mp member ▸ rfl)
      (List.append_ne_nil_of_right_ne_nil _ some) (digits_zeros all _).2

theorem Dyadic.numeral_spelled (d : Dyadic) : Numeral d.numeral := by
  unfold Dyadic.numeral
  split
  · exact .whole (List.cons_ne_nil _ _) fun d member => List.mem_singleton.mp member ▸ rfl
  · exact (shortest _ _).numeral_spelled

/-- A numeral starts with a digit and goes on with digits and points. -/
theorem Numeral.chars {cs : List Char} (numeral : Numeral cs) :
    ∃ c rest, cs = c :: rest ∧ c.isDigit ∧ ∀ d ∈ cs, d.isDigit ∨ d = '.' := by
  cases numeral with
  | whole some all =>
    obtain ⟨c, rest, rfl⟩ := List.exists_cons_of_ne_nil some
    exact ⟨c, rest, rfl, all c List.mem_cons_self, fun d member => Or.inl (all d member)⟩
  | @decimal whole fraction some all someBehind allBehind =>
    obtain ⟨c, rest, rfl⟩ := List.exists_cons_of_ne_nil some
    refine ⟨c, rest ++ '.' :: fraction, rfl, all c List.mem_cons_self, fun d member => ?_⟩
    rcases List.mem_append.mp member with front | behind
    · exact Or.inl (all d front)
    · rcases List.mem_cons.mp behind with rfl | behind
      · exact Or.inr rfl
      · exact Or.inl (allBehind d behind)

theorem Magnitude.text {x : Float} (magnitude : Magnitude x) :
    infinite x = true ∧ Number.text x = "inf" ∨ infinite x = false ∧ Numeral (Number.text x).toList := by
  rcases magnitude.reading with above | ⟨m, e, finite⟩
  · have infinite : infinite x = true := decide_eq_true above
    exact .inl ⟨infinite, text_infinite infinite⟩
  · unfold infinite Number.text
    rw [finite]
    exact .inr ⟨rfl, by simpa [Reading.text, signed] using Dyadic.numeral_spelled ⟨false, m, e⟩⟩

end Lox.Number
