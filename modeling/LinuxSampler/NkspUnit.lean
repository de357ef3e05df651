import Mathlib.Data.Rat.Floor
import Mathlib.Data.Int.Log

/-!
# Numbers of the script language

The scalar types of scripts, standard units and metric prefixes, the
conversions between unit factors (`Unit::convIntToUnitFactor()` and its
real variant) and how numbers are shown.

`vmint` is an unbounded integer. What the operators make of numbers of
type `vmfloat` is given by the platform.
-/

namespace LinuxSampler

/-- `ExprType_t` -/
inductive ExprType where
  | empty
  | int
  | intArr
  | string
  | stringArr
  | real
  | realArr
deriving Repr, DecidableEq

/-- `StdUnit_t` -/
inductive StdUnit where
  | noUnit
  | second
  | hertz
  | bel
deriving Repr, DecidableEq

/-- `MetricPrefix_t` -/
inductive MetricPrefix where
  | noPrefix
  | kilo
  | hecto
  | deca
  | deci
  | centi
  | milli
  | micro
deriving Repr, DecidableEq

/-- `VM_NO_FACTOR` -/
def noFactor : ℚ := 1

/-! ## The platform -/

/-- A product or quotient that neither underflows to zero nor overflows when it is
rounded to `float`. -/
def InFloatRange (q : ℚ) : Prop := 1 / 2 ^ 150 < q ∧ q < 2 ^ 128 - 2 ^ 103

instance (q : ℚ) : Decidable (InFloatRange q) := inferInstanceAs (Decidable (_ ∧ _))

/-- The positive finite numbers of `float` are such. -/
def IsUnitFactor (f : ℚ) : Prop := 0 < f ∧ f < 2 ^ 128

instance (f : ℚ) : Decidable (IsUnitFactor f) := inferInstanceAs (Decidable (_ ∧ _))

/-- Operators whose operands C++ evaluates in either order. -/
inductive OpenOperator where
  | castToStr
  | concatString
  | mul
  | mod
  | bitwiseOr
  | bitwiseAnd
  | relation
deriving Repr, DecidableEq

/-- What C++ leaves to the platform: the arithmetic of `vmfloat`, and which operand is
evaluated first. A finite `vmfloat` is the rational number it is; the infinities and NaN
are rational numbers too, of a magnitude from 2^128 on. So an operator may answer any
number, and what is known of it is only how it rounds what is in the range of `float`. -/
class Platform where
  add : ℚ → ℚ → ℚ
  sub : ℚ → ℚ → ℚ
  mul : ℚ → ℚ → ℚ
  div : ℚ → ℚ → ℚ
  lt : ℚ → ℚ → Bool
  le : ℚ → ℚ → Bool
  eq : ℚ → ℚ → Bool
  isinf : ℚ → Bool
  isnan : ℚ → Bool
  /-- the conversion from `vmint` -/
  ofInt : Int → ℚ
  /-- `llroundf()` -/
  llround : ℚ → Int
  /-- a constant in the source -/
  literal : ℚ → ℚ
  /-- the text of an infinity or NaN -/
  notFiniteStr : ℚ → String
  leftFirst : OpenOperator → Bool
  isUnitFactor_mul : ∀ f g, IsUnitFactor f → IsUnitFactor g → InFloatRange (f * g) →
    IsUnitFactor (mul f g)
  isUnitFactor_div : ∀ f g, IsUnitFactor f → IsUnitFactor g → InFloatRange (f / g) →
    IsUnitFactor (div f g)
  mul_error : ∀ f g, 1 / 2 ^ 126 ≤ f * g → f * g ≤ 2 ^ 127 → |mul f g - f * g| ≤ f * g / 2 ^ 24
  literal_error : ∀ q, 1 / 10 ^ 6 ≤ q → q ≤ 1 → |literal q - q| ≤ q / 2 ^ 24

section

variable [Platform]

open Platform

/-- `_unitFactor()` -/
def MetricPrefix.unitFactor : MetricPrefix → ℚ
  | .noPrefix => 1
  | .kilo => 1000
  | .hecto => 100
  | .deca => 10
  | .deci => literal (1 / 10)
  | .centi => literal (1 / 100)
  | .milli => literal (1 / 1000)
  | .micro => literal (1 / 1000000)

/-- `VMUnit::unitFactor(prefixes, size)`: the product up to the first
`VM_NO_PREFIX`. -/
def unitFactorOfPrefixes (prefixes : List MetricPrefix) : ℚ :=
  (prefixes.takeWhile (· ≠ .noPrefix)).foldl (fun f p => mul f p.unitFactor) noFactor

/-- Unit factors of literals, which have two prefixes at most, and what is computed from
them satisfy `F`, as long as nothing leaves the range of `float`. -/
structure FactorClosed (F : ℚ → Prop) : Prop where
  metricPrefix : ∀ p : MetricPrefix, F p.unitFactor
  literal : ∀ ps : List MetricPrefix, ps.length ≤ 2 → F (unitFactorOfPrefixes ps)
  mul : ∀ f g, F f → F g → InFloatRange (f * g) → F (mul f g)
  div : ∀ f g, F f → F g → InFloatRange (f / g) → F (div f g)

theorem FactorClosed.one {F : ℚ → Prop} (hF : FactorClosed F) : F noFactor :=
  hF.literal [] (Nat.zero_le 2)

theorem MetricPrefix.unitFactor_bounds (p : MetricPrefix) :
    1 / 10 ^ 7 ≤ p.unitFactor ∧ p.unitFactor ≤ 1000 := by
  have hliteral {q : ℚ} (hlow : 1 / 10 ^ 6 ≤ q) (hhigh : q ≤ 1) :
      1 / 10 ^ 7 ≤ Platform.literal q ∧ Platform.literal q ≤ 1000 := by
    obtain ⟨h₁, h₂⟩ := abs_le.mp (literal_error q hlow hhigh)
    constructor <;> linarith
  cases p with
  | noPrefix | kilo | hecto | deca => norm_num [MetricPrefix.unitFactor]
  | deci | centi | milli | micro => exact hliteral (by norm_num) (by norm_num)

theorem MetricPrefix.isUnitFactor (p : MetricPrefix) : IsUnitFactor p.unitFactor := by
  obtain ⟨hlow, hhigh⟩ := p.unitFactor_bounds
  constructor <;> linarith

theorem MetricPrefix.noFactor_mul (p : MetricPrefix) :
    IsUnitFactor (mul noFactor p.unitFactor) ∧ 1 / 10 ^ 8 ≤ mul noFactor p.unitFactor ∧
      mul noFactor p.unitFactor ≤ 2000 := by
  obtain ⟨hlow, hhigh⟩ := p.unitFactor_bounds
  have herror := mul_error noFactor p.unitFactor (by rw [noFactor]; linarith)
    (by rw [noFactor]; linarith)
  have hone : IsUnitFactor noFactor := ⟨by norm_num [noFactor], by norm_num [noFactor]⟩
  refine ⟨isUnitFactor_mul _ _ hone p.isUnitFactor ?_, ?_⟩
  · constructor <;> rw [noFactor] <;> linarith
  · rw [noFactor, one_mul] at herror
    obtain ⟨h₁, h₂⟩ := abs_le.mp herror
    constructor <;> rw [noFactor] <;> linarith

/-- Unit factors are positive and finite. -/
theorem FactorClosed.isUnitFactor : FactorClosed IsUnitFactor where
  metricPrefix := MetricPrefix.isUnitFactor
  literal ps hps := by
    have hlength := (List.takeWhile_sublist (p := (· ≠ MetricPrefix.noPrefix)) (l := ps)).length_le
    unfold unitFactorOfPrefixes
    revert hlength
    generalize ps.takeWhile (· ≠ .noPrefix) = qs
    intro hlength
    match qs, hlength.trans hps with
    | [], _ => exact ⟨by norm_num [noFactor], by norm_num [noFactor]⟩
    | [p], _ => exact p.noFactor_mul.1
    | [p, q], _ =>
      obtain ⟨hunit, hlow, hhigh⟩ := p.noFactor_mul
      obtain ⟨hq, hq'⟩ := q.unitFactor_bounds
      refine isUnitFactor_mul _ _ hunit q.isUnitFactor ⟨?_, ?_⟩ <;> nlinarith
  mul := isUnitFactor_mul
  div := isUnitFactor_div

/-! ## Conversion and comparison -/

/-- The conversion of a real number to `vmint` drops the fraction. -/
def truncToInt (q : ℚ) : Int :=
  if q < 0 then -⌊-q⌋ else ⌊q⌋

/-- `Unit::convIntToUnitFactor(iValue, srcFactor, dstFactor)` -/
def convIntToUnitFactor (iValue : Int) (srcFactor dstFactor : ℚ) : Int :=
  llround (mul (ofInt iValue) (div srcFactor dstFactor))

/-- `Unit::convRealToUnitFactor(fValue, srcFactor, dstFactor)` -/
def convRealToUnitFactor (fValue srcFactor dstFactor : ℚ) : ℚ :=
  mul fValue (div srcFactor dstFactor)

/-- `RTMath::fEqual32()`: equal up to a tolerance of 2^-19, relative to `a`
unless one side is zero. -/
def fEqual32 (a b : ℚ) : Bool :=
  if eq a b then true
  else if isinf a || isinf b then isinf a == isinf b
  else if isnan a || isnan b then isnan a == isnan b
  else if eq a 0 then decide (|b| < 1 / 2 ^ 19)
  else if eq b 0 then decide (|a| < 1 / 2 ^ 19)
  else decide (|sub b a| ≤ |a / 2 ^ 19|)

end

/-! ## Exact arithmetic -/

/-- To the nearest integer, halves away from zero. -/
def roundHalfAway (q : ℚ) : Int :=
  if q < 0 then -⌊-q + 1 / 2⌋ else ⌊q + 1 / 2⌋

/-- Real arithmetic idealised as that of the rational numbers. -/
@[reducible] def Platform.exact : Platform where
  add := (· + ·)
  sub := (· - ·)
  mul := (· * ·)
  div := (· / ·)
  lt a b := decide (a < b)
  le a b := decide (a ≤ b)
  eq a b := decide (a = b)
  isinf _ := false
  isnan _ := false
  ofInt i := i
  llround := roundHalfAway
  literal q := q
  notFiniteStr _ := "inf"
  leftFirst _ := true
  isUnitFactor_mul f g hf hg h := ⟨mul_pos hf.1 hg.1, h.2.trans (by norm_num)⟩
  isUnitFactor_div f g hf hg h := ⟨div_pos hf.1 hg.1, h.2.trans (by norm_num)⟩
  mul_error f g h _ := by
    rw [sub_self, abs_zero]
    exact div_nonneg (le_trans (by norm_num) h) (by norm_num)
  literal_error q hq _ := by
    rw [sub_self, abs_zero]
    positivity

theorem Platform.exact_eq {a b : ℚ} : Platform.exact.eq a b = true ↔ a = b := decide_eq_true_iff

theorem Platform.exact_lt {a b : ℚ} : Platform.exact.lt a b = true ↔ a < b := decide_eq_true_iff

theorem floor_intCast_add_half (n : Int) : ⌊(n : ℚ) + 1 / 2⌋ = n := by
  rw [Int.floor_eq_iff]
  constructor <;> linarith

/-- An integer is not changed by rounding. -/
@[simp] theorem roundHalfAway_intCast (n : Int) : roundHalfAway n = n := by
  unfold roundHalfAway
  split
  · rw [← Int.cast_neg, floor_intCast_add_half, neg_neg]
  · exact floor_intCast_add_half n

/-! ## Text -/

/-- `lround(log10(unitFactor))`: of a positive factor the exponent `t` with
`10 ^ (2 * t - 1) ≤ unitFactor ^ 2 < 10 ^ (2 * t + 1)`. What is no number that
`long int` can hold, as the logarithms of 0 and of what is not finite, is converted to the
least one. -/
def roundLog10 (unitFactor : ℚ) : Int :=
  if IsUnitFactor unitFactor then Int.log 10 (10 * unitFactor * unitFactor) / 2 else -2 ^ 63

/-- The metric prefix of a power of ten. -/
def powerToShortStr : Int → String
  | 3 => "k"
  | 2 => "h"
  | 1 => "da"
  | 0 => ""
  | -1 => "d"
  | -2 => "c"
  | -3 => "m"
  | -4 => "md"
  | -5 => "mc"
  | -6 => "u"
  | tens => "*10^" ++ toString tens

/-- `_unitFactorToShortStr()` -/
def unitFactorToShortStr (unitFactor : ℚ) : String := powerToShortStr (roundLog10 unitFactor)

/-- `_unitToStr()` -/
def unitToStr (unitType : StdUnit) (unitFactor : ℚ) : String :=
  let sType :=
    match unitType with
    | .noUnit => ""
    | .second => "s"
    | .hertz => "Hz"
    | .bel => "B"
  unitFactorToShortStr unitFactor ++ sType

/-- The given number of decimal digits of `n`. -/
def paddedDigits (width n : Nat) : List Char :=
  let ds := (toString n).toList
  List.replicate (width - ds.length) '0' ++ ds

def dropTrailingZeros (ds : List Char) : List Char :=
  (ds.reverse.dropWhile (· = '0')).reverse

/-- A decimal point and the digits after it, if there are any left. -/
def fractionStr (ds : List Char) : String :=
  match dropTrailingZeros ds with
  | [] => ""
  | ds => "." ++ String.ofList ds

/-- `ToString()` of a real number: the default format of C++ streams, six
significant digits, in scientific notation for exponents below -4 or
above 5. -/
def realToString [Platform] (q : ℚ) : String :=
  if 2 ^ 128 ≤ |q| then Platform.notFiniteStr q
  else if q = 0 then "0"
  else
    let sign := if q < 0 then "-" else ""
    -- six digits may round up to a seventh, which moves the exponent
    let e₀ := Int.log 10 |q|
    let m₀ := (roundHalfAway (|q| * (10 : ℚ) ^ (5 - e₀))).toNat
    let (m, e) := if m₀ = 1000000 then (100000, e₀ + 1) else (m₀, e₀)
    let ds := paddedDigits 6 m
    if e < -4 ∨ 6 ≤ e then
      let expSign := if e < 0 then "-" else "+"
      sign ++ String.ofList (ds.take 1) ++ fractionStr (ds.drop 1) ++ "e" ++ expSign ++
        String.ofList (paddedDigits 2 e.natAbs)
    else if e < 0 then
      sign ++ "0" ++ fractionStr (List.replicate (e.natAbs - 1) '0' ++ ds)
    else
      sign ++ String.ofList (ds.take (e.toNat + 1)) ++ fractionStr (ds.drop (e.toNat + 1))

end LinuxSampler
