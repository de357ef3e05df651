import LinuxSampler.NkspPolicy

/-!
# Unit arithmetic

An integer expression denotes its value times its unit factor. Two
operands are brought to the smaller one of their factors before they are
added or compared (`rescale`); as factors are powers of ten, held as exact numbers,
the larger one is a multiple of the smaller, so that nothing is ever
rounded away.
Negation, addition, subtraction and multiplication are exact on
denotations therefore, and relations compare denotations.
-/

namespace LinuxSampler

open OpProg

-- from here on unit factors are exact numbers
attribute [local instance] Platform.exact

/-! ## Powers of ten -/

def PowerOfTen (f : ℚ) : Prop := ∃ k : ℤ, f = 10 ^ k

namespace PowerOfTen

variable {f g : ℚ}

theorem one : PowerOfTen 1 := ⟨0, rfl⟩

theorem pos (h : PowerOfTen f) : 0 < f := by
  obtain ⟨k, rfl⟩ := h
  exact zpow_pos (by norm_num) k

theorem mul (hf : PowerOfTen f) (hg : PowerOfTen g) : PowerOfTen (f * g) := by
  obtain ⟨k, rfl⟩ := hf
  obtain ⟨l, rfl⟩ := hg
  exact ⟨k + l, (zpow_add₀ (by norm_num) k l).symm⟩

theorem div (hf : PowerOfTen f) (hg : PowerOfTen g) : PowerOfTen (f / g) := by
  obtain ⟨k, rfl⟩ := hf
  obtain ⟨l, rfl⟩ := hg
  exact ⟨k - l, (zpow_sub₀ (by norm_num) k l).symm⟩

theorem metricPrefix (p : MetricPrefix) : PowerOfTen p.unitFactor := by
  cases p with
  | noPrefix => exact one
  | kilo => exact ⟨3, by norm_num [MetricPrefix.unitFactor]⟩
  | hecto => exact ⟨2, by norm_num [MetricPrefix.unitFactor]⟩
  | deca => exact ⟨1, by norm_num [MetricPrefix.unitFactor]⟩
  | deci => exact ⟨-1, by norm_num [MetricPrefix.unitFactor, Platform.literal]⟩
  | centi => exact ⟨-2, by norm_num [MetricPrefix.unitFactor, Platform.literal]⟩
  | milli => exact ⟨-3, by norm_num [MetricPrefix.unitFactor, Platform.literal]⟩
  | micro => exact ⟨-6, by norm_num [MetricPrefix.unitFactor, Platform.literal]⟩

/-- Of any number of prefixes. -/
theorem prefixes (ps : List MetricPrefix) : PowerOfTen (unitFactorOfPrefixes ps) := by
  unfold unitFactorOfPrefixes
  generalize ps.takeWhile (· ≠ .noPrefix) = qs
  have hfold : ∀ {f : ℚ}, PowerOfTen f →
      PowerOfTen (qs.foldl (fun f p => Platform.mul f p.unitFactor) f) := by
    induction qs with
    | nil => exact fun hf => hf
    | cons q qs ih => exact fun hf => ih (hf.mul (metricPrefix q))
  exact hfold one

/-- The larger of two powers of ten is a multiple of the smaller. -/
theorem exists_ratio (hf : PowerOfTen f) (hg : PowerOfTen g) (hle : g ≤ f) :
    ∃ n : ℤ, f / g = n := by
  obtain ⟨k, hk⟩ := hf.div hg
  have hone : (1 : ℚ) ≤ 10 ^ k := by
    rw [← hk]
    exact (one_le_div hg.pos).mpr hle
  have hk0 : 0 ≤ k := by
    by_contra hneg
    have := zpow_lt_one_of_neg₀ (show (1 : ℚ) < 10 by norm_num) (not_le.mp hneg)
    exact absurd hone (not_le.mpr this)
  obtain ⟨m, rfl⟩ := Int.eq_ofNat_of_zero_le hk0
  exact ⟨10 ^ m, by rw [hk]; push_cast; exact zpow_natCast 10 m⟩

end PowerOfTen

/-! ## Conversion to the smaller unit factor -/

/-- Nothing is lost by a conversion to a smaller factor. -/
theorem convIntToUnitFactor_mul {iValue : Int} {src dst : ℚ} (hsrc : PowerOfTen src)
    (hdst : PowerOfTen dst) (hle : dst ≤ src) :
    (convIntToUnitFactor iValue src dst : ℚ) * dst = iValue * src := by
  obtain ⟨n, hn⟩ := hsrc.exists_ratio hdst hle
  have hconv : convIntToUnitFactor iValue src dst = iValue * n := by
    show roundHalfAway (iValue * (src / dst)) = iValue * n
    rw [hn, ← Int.cast_mul, roundHalfAway_intCast]
  have hsrc' : src = n * dst := (div_eq_iff hdst.pos.ne').mp hn
  rw [hconv, hsrc']
  push_cast
  ring

/-- The factor that a sum reports. -/
def commonFactor (lfactor rfactor : ℚ) : ℚ :=
  if lfactor < rfactor then lfactor else rfactor

/-- The operands of a sum or a relation, brought to the smaller factor. -/
def rescale (lvalue rvalue : Int) (lfactor rfactor : ℚ) : Int × Int :=
  if lfactor = rfactor then (lvalue, rvalue)
  else if lfactor < rfactor then (lvalue, convIntToUnitFactor rvalue rfactor lfactor)
  else (convIntToUnitFactor lvalue lfactor rfactor, rvalue)

theorem PowerOfTen.commonFactor {lf rf : ℚ} (hl : PowerOfTen lf) (hr : PowerOfTen rf) :
    PowerOfTen (commonFactor lf rf) := by
  unfold LinuxSampler.commonFactor
  split
  · exact hl
  · exact hr

/-- Rescaling changes no denotation. -/
theorem rescale_mul (lvalue rvalue : Int) {lf rf : ℚ} (hl : PowerOfTen lf)
    (hr : PowerOfTen rf) :
    ((rescale lvalue rvalue lf rf).1 : ℚ) * commonFactor lf rf = lvalue * lf ∧
      ((rescale lvalue rvalue lf rf).2 : ℚ) * commonFactor lf rf = rvalue * rf := by
  unfold rescale commonFactor
  by_cases heq : lf = rf
  · subst heq
    simp
  · rw [if_neg heq]
    by_cases hlt : lf < rf
    · rw [if_pos hlt, if_pos hlt]
      exact ⟨rfl, convIntToUnitFactor_mul hr hl hlt.le⟩
    · rw [if_neg hlt, if_neg hlt]
      exact ⟨convIntToUnitFactor_mul hl hr (not_lt.mp hlt), rfl⟩

/-! ## Sums, products and relations -/

namespace Yields

variable {s : Store Mem} {l r : ExprNode} {lv rv : Int} {lf rf : ℚ}

/-- `Add::evalInt()` and `Sub::evalInt()` -/
theorem sumOp (opInt : Int → Int → Int) (opReal : ℚ → ℚ → ℚ) (hint : l.isIntExpr && r.isIntExpr)
    (hl : Yields l.evalInt s lv) (hr : Yields r.evalInt s rv) (hlf : Yields l.unitFactor s lf)
    (hrf : Yields r.unitFactor s rf) :
    Yields (ExprNode.sumOp opInt opReal l r).evalInt s
      (opInt (rescale lv rv lf rf).1 (rescale lv rv lf rf).2) := by
  show Yields (if l.isIntExpr && r.isIntExpr then _ else _) s _
  rw [if_pos hint]
  refine hl.bind (hr.bind (hlf.bind (hrf.bind ?_)))
  unfold rescale
  simp only [Platform.exact_eq, Platform.exact_lt]
  by_cases heq : lf = rf
  · rw [if_pos heq, if_pos heq]
    exact .pure _
  · rw [if_neg heq, if_neg heq]
    by_cases hlt : lf < rf
    · rw [if_pos hlt, if_pos hlt]
      exact (Yields.convInt rv rf lf).bind (.pure _)
    · rw [if_neg hlt, if_neg hlt]
      exact (Yields.convInt lv lf rf).bind (.pure _)

/-- `Add::unitFactor()` and `Sub::unitFactor()` -/
theorem sumOp_unitFactor (opInt : Int → Int → Int) (opReal : ℚ → ℚ → ℚ)
    (hlf : Yields l.unitFactor s lf) (hrf : Yields r.unitFactor s rf) :
    Yields (ExprNode.sumOp opInt opReal l r).unitFactor s (commonFactor lf rf) := by
  have hcommon : (if Platform.lt lf rf then lf else rf) = commonFactor lf rf := by
    simp only [Platform.exact_lt, commonFactor]
  rw [← hcommon]
  exact hlf.bind (hrf.bind (.pure _))

/-- `Mul::evalInt()` -/
theorem mul (hint : l.isIntExpr && r.isIntExpr) (hl : Yields l.evalInt s lv)
    (hr : Yields r.evalInt s rv) : Yields (ExprNode.mul l r).evalInt s (lv * rv) := by
  show Yields (if l.isIntExpr && r.isIntExpr then _ else _) s _
  rw [if_pos hint]
  exact (hl.evalBoth hr).bind (.pure _)

theorem evalIntRelation (type : RelationType) (lv rv : Int) (lf rf : ℚ) :
    Yields (LinuxSampler.evalIntRelation type lv rv lf rf) s
      (evalRelation type (.int (rescale lv rv lf rf).1) (.int (rescale lv rv lf rf).2)) := by
  unfold LinuxSampler.evalIntRelation rescale
  simp only [Platform.exact_eq, Platform.exact_lt]
  by_cases heq : lf = rf
  · rw [if_pos heq, if_pos heq]
    exact .pure _
  · rw [if_neg heq, if_neg heq]
    by_cases hlt : lf < rf
    · rw [if_pos hlt, if_pos hlt]
      exact (Yields.convInt rv rf lf).bind (.pure _)
    · rw [if_neg hlt, if_neg hlt]
      exact (Yields.convInt lv lf rf).bind (.pure _)

end Yields

/-! ## Relations between denotations -/

def RelationType.Holds : RelationType → ℚ → ℚ → Prop
  | .lessThan, a, b => a < b
  | .greaterThan, a, b => a > b
  | .lessOrEqual, a, b => a ≤ b
  | .greaterOrEqual, a, b => a ≥ b
  | .equal, a, b => a = b
  | .notEqual, a, b => a ≠ b

/-- A common positive factor does not matter. -/
theorem RelationType.holds_mul_iff {type : RelationType} {a b f : ℚ} (hf : 0 < f) :
    type.Holds (a * f) (b * f) ↔ type.Holds a b := by
  cases type with
  | lessThan | greaterThan => exact mul_lt_mul_iff_left₀ hf
  | lessOrEqual | greaterOrEqual => exact mul_le_mul_iff_left₀ hf
  | equal => exact mul_left_inj' hf.ne'
  | notEqual => exact not_congr (mul_left_inj' hf.ne')

theorem evalRelation_int (type : RelationType) (a b : Int) :
    evalRelation type (.int a) (.int b) = true ↔ type.Holds a b := by
  cases type <;> simp [evalRelation, RelationType.Holds, Number.lt, Number.le, Number.isEqual]

/-! ## Denotations -/

namespace Expression

/-- The integer expressions of unit arithmetic. The factors of literals and
of the variables in the memory `s` are powers of ten. -/
def IsUnitArithmetic (s : Store Mem) : Expression → Prop
  | intLiteral _ f _ _ | constIntVariable _ f _ _ => PowerOfTen f
  | intVariable v => PowerOfTen (run memMachine v.unitFactor s).val
  | builtInIntVariable _ => True
  | neg expr => expr.IsUnitArithmetic s
  | add lhs rhs | sub lhs rhs | mul lhs rhs => lhs.IsUnitArithmetic s ∧ rhs.IsUnitArithmetic s
  | _ => False

variable {s : Store Mem}

/-- Value times unit factor. -/
def denote (e : Expression) (s : Store Mem) : ℚ :=
  (run memMachine e.node.evalInt s).val * (run memMachine e.node.unitFactor s).val

/-- The expression is an integer expression of value `v` and unit factor `f`. -/
structure Evaluates (e : Expression) (s : Store Mem) (v : Int) (f : ℚ) : Prop where
  isInt : e.node.exprType = .int ∧ e.node.isIntExpr = true
  value : Yields e.node.evalInt s v
  factor : Yields e.node.unitFactor s f
  power : PowerOfTen f

theorem Evaluates.denote {e : Expression} {v : Int} {f : ℚ} (h : e.Evaluates s v f) :
    e.denote s = v * f := by
  unfold Expression.denote
  rw [h.value.1, h.factor.1]

variable {l r : Expression} {lv rv : Int} {lf rf : ℚ}

theorem Evaluates.isInt_and (hl : l.Evaluates s lv lf) (hr : r.Evaluates s rv rf) :
    (l.node.isIntExpr && r.node.isIntExpr) = true := by
  rw [hl.isInt.2, hr.isInt.2]
  rfl

theorem Evaluates.exprType (hl : l.Evaluates s lv lf) (hr : r.Evaluates s rv rf) :
    (if l.node.exprType = .real ∨ r.node.exprType = .real then ExprType.real else .int) =
      .int := by
  rw [hl.isInt.1, hr.isInt.1]
  rfl

theorem Evaluates.neg {e : Expression} {v : Int} {f : ℚ} (h : e.Evaluates s v f) :
    (Expression.neg e).Evaluates s (-v) f :=
  ⟨⟨h.isInt.1, rfl⟩, h.value.bind (.pure _), h.factor, h.power⟩

theorem Evaluates.add (hl : l.Evaluates s lv lf) (hr : r.Evaluates s rv rf) :
    (Expression.add l r).Evaluates s ((rescale lv rv lf rf).1 + (rescale lv rv lf rf).2)
      (commonFactor lf rf) :=
  ⟨⟨hl.exprType hr, rfl⟩, .sumOp _ _ (hl.isInt_and hr) hl.value hr.value hl.factor hr.factor,
    .sumOp_unitFactor _ _ hl.factor hr.factor, hl.power.commonFactor hr.power⟩

theorem Evaluates.sub (hl : l.Evaluates s lv lf) (hr : r.Evaluates s rv rf) :
    (Expression.sub l r).Evaluates s ((rescale lv rv lf rf).1 - (rescale lv rv lf rf).2)
      (commonFactor lf rf) :=
  ⟨⟨hl.exprType hr, rfl⟩, .sumOp _ _ (hl.isInt_and hr) hl.value hr.value hl.factor hr.factor,
    .sumOp_unitFactor _ _ hl.factor hr.factor, hl.power.commonFactor hr.power⟩

theorem Evaluates.mul (hl : l.Evaluates s lv lf) (hr : r.Evaluates s rv rf) :
    (Expression.mul l r).Evaluates s (lv * rv) (lf * rf) :=
  ⟨⟨hl.exprType hr, rfl⟩, .mul (hl.isInt_and hr) hl.value hr.value,
    hl.factor.bind (hr.factor.bind (.bind (.note _) (.pure _))), hl.power.mul hr.power⟩

/-- Unit arithmetic never fails and has no effects. -/
theorem exists_evaluates : ∀ e : Expression, e.IsUnitArithmetic s → ∃ v f, e.Evaluates s v f
  | intLiteral v f _ _, h | constIntVariable v f _ _, h =>
      ⟨v, f, ⟨rfl, rfl⟩, .pure v, .pure f, h⟩
  | builtInIntVariable ptr, _ =>
      ⟨_, _, ⟨rfl, rfl⟩, .read (.builtInInt ptr.id), .pure noFactor, .one⟩
  | intVariable v, h => by
      refine ⟨(run memMachine v.readInt s).val, (run memMachine v.unitFactor s).val, ⟨rfl, rfl⟩,
        ⟨rfl, ?_⟩, ⟨rfl, ?_⟩, h⟩
      · show (run memMachine v.readInt s).state = s
        unfold NumberVariable.readInt
        split <;> rfl
      · show (run memMachine v.unitFactor s).state = s
        unfold NumberVariable.unitFactor
        split <;> rfl
  | neg expr, h =>
      have ⟨_, _, he⟩ := exists_evaluates expr h
      ⟨_, _, he.neg⟩
  | add lhs rhs, h =>
      have ⟨_, _, hl⟩ := exists_evaluates lhs h.1
      have ⟨_, _, hr⟩ := exists_evaluates rhs h.2
      ⟨_, _, hl.add hr⟩
  | sub lhs rhs, h =>
      have ⟨_, _, hl⟩ := exists_evaluates lhs h.1
      have ⟨_, _, hr⟩ := exists_evaluates rhs h.2
      ⟨_, _, hl.sub hr⟩
  | mul lhs rhs, h =>
      have ⟨_, _, hl⟩ := exists_evaluates lhs h.1
      have ⟨_, _, hr⟩ := exists_evaluates rhs h.2
      ⟨_, _, hl.mul hr⟩

theorem denote_neg {e : Expression} (h : e.IsUnitArithmetic s) :
    (neg e).denote s = -e.denote s := by
  obtain ⟨v, f, he⟩ := exists_evaluates e h
  rw [he.neg.denote, he.denote]
  push_cast
  ring

theorem denote_add (hl : l.IsUnitArithmetic s) (hr : r.IsUnitArithmetic s) :
    (add l r).denote s = l.denote s + r.denote s := by
  obtain ⟨lv, lf, hl⟩ := exists_evaluates l hl
  obtain ⟨rv, rf, hr⟩ := exists_evaluates r hr
  obtain ⟨hlscale, hrscale⟩ := rescale_mul lv rv hl.power hr.power
  rw [(hl.add hr).denote, hl.denote, hr.denote, ← hlscale, ← hrscale]
  push_cast
  ring

theorem denote_sub (hl : l.IsUnitArithmetic s) (hr : r.IsUnitArithmetic s) :
    (sub l r).denote s = l.denote s - r.denote s := by
  obtain ⟨lv, lf, hl⟩ := exists_evaluates l hl
  obtain ⟨rv, rf, hr⟩ := exists_evaluates r hr
  obtain ⟨hlscale, hrscale⟩ := rescale_mul lv rv hl.power hr.power
  rw [(hl.sub hr).denote, hl.denote, hr.denote, ← hlscale, ← hrscale]
  push_cast
  ring

theorem denote_mul (hl : l.IsUnitArithmetic s) (hr : r.IsUnitArithmetic s) :
    (mul l r).denote s = l.denote s * r.denote s := by
  obtain ⟨lv, lf, hl⟩ := exists_evaluates l hl
  obtain ⟨rv, rf, hr⟩ := exists_evaluates r hr
  rw [(hl.mul hr).denote, hl.denote, hr.denote]
  push_cast
  ring

theorem evalInt_relation (type : RelationType) (hl : l.IsUnitArithmetic s)
    (hr : r.IsUnitArithmetic s) :
    (run memMachine (relation l type r).node.evalInt s).val ≠ 0 ↔
      type.Holds (l.denote s) (r.denote s) := by
  obtain ⟨lv, lf, hl⟩ := exists_evaluates l hl
  obtain ⟨rv, rf, hr⟩ := exists_evaluates r hr
  obtain ⟨hlscale, hrscale⟩ := rescale_mul lv rv hl.power hr.power
  have hholds : Yields (ExprNode.relationHolds l.node type r.node) s
      (evalRelation type (.int (rescale lv rv lf rf).1) (.int (rescale lv rv lf rf).2)) := by
    unfold ExprNode.relationHolds
    rw [hl.isInt.1, hr.isInt.1]
    exact hl.value.bind (hr.value.bind (hl.factor.bind (hr.factor.bind
      (.evalIntRelation type lv rv lf rf))))
  have hval : Yields (relation l type r).node.evalInt s
      (if evalRelation type (.int (rescale lv rv lf rf).1) (.int (rescale lv rv lf rf).2) then 1
        else 0) := hholds.bind (.pure _)
  rw [hval.1, hl.denote, hr.denote, ← hlscale, ← hrscale,
    RelationType.holds_mul_iff (hl.power.commonFactor hr.power).pos, ← evalRelation_int]
  split <;> simp_all

/-- Unit arithmetic is a homomorphism from expressions to rational numbers. -/
theorem unit_arithmetic_homomorphism (s : Store Mem) :
    (∀ e : Expression, e.IsUnitArithmetic s → (neg e).denote s = -e.denote s) ∧
      ∀ l r : Expression, l.IsUnitArithmetic s → r.IsUnitArithmetic s →
        (add l r).denote s = l.denote s + r.denote s ∧
          (sub l r).denote s = l.denote s - r.denote s ∧
          (mul l r).denote s = l.denote s * r.denote s ∧
          ∀ type : RelationType, (run memMachine (relation l type r).node.evalInt s).val ≠ 0 ↔
            type.Holds (l.denote s) (r.denote s) :=
  ⟨fun _ he => denote_neg he, fun _ _ hl hr =>
    ⟨denote_add hl hr, denote_sub hl hr, denote_mul hl hr, fun type => evalInt_relation type hl hr⟩⟩

/-- `3k` and a variable without a prefix. -/
theorem unit_arithmetic_homomorphism_kilo :
    let s : Store Mem := ⟨initialMem, ⟨[], [], []⟩⟩
    let lhs : Expression := intLiteral 3 (unitFactorOfPrefixes [.kilo]) .hertz false
    let rhs : Expression := intVariable { memPos := 0, unitFactorMemPos := 0, unitType := .hertz }
    (sub lhs (neg rhs)).denote s = lhs.denote s - (neg rhs).denote s := by
  intro s lhs rhs
  have hl : lhs.IsUnitArithmetic s := PowerOfTen.prefixes [.kilo]
  have hr : (neg rhs).IsUnitArithmetic s := PowerOfTen.one
  exact ((unit_arithmetic_homomorphism s).2 lhs (neg rhs) hl hr).2.1

end Expression

end LinuxSampler
