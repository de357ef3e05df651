import LinuxSampler.NkspCall

/-!
# Numbers as text

What `evalCastToStr()` shows of an integer expression: the value that
`evalInt()` answers, followed by the unit factor's metric prefix and the
unit. Two classes override the method and show something else: `Neg`
shows its operand, without the sign, and `Final` shows no unit
(`Expression.evalCastToStr_shows`).
-/

namespace LinuxSampler

open OpProg ExprNode

/-! ## Texts -/

/-- The power of ten that the metric prefix of a value stands for. What is no unit factor, as
the factor 0 that an array element out of range answers, stands for no prefix. -/
def prefixPower (unitFactor : ℚ) : Int :=
  if IsUnitFactor unitFactor then roundLog10 unitFactor else 0

/-- The metric prefix and unit of a value. -/
def unitSuffix (unitType : StdUnit) (unitFactor : ℚ) : String :=
  unitToStr unitType (if IsUnitFactor unitFactor then unitFactor else noFactor)

theorem isUnitFactor_noFactor : IsUnitFactor noFactor :=
  ⟨by norm_num [noFactor], by norm_num [noFactor]⟩

theorem roundLog10_noFactor : roundLog10 noFactor = 0 := by
  have hten : Int.log 10 (10 * noFactor * noFactor) = 1 := by
    rw [show (10 * noFactor * noFactor : ℚ) = ((10 : Nat) : ℚ) ^ (1 : Int) by
      norm_num [noFactor]]
    exact Int.log_zpow (by decide) 1
  unfold roundLog10
  rw [if_pos isUnitFactor_noFactor, hten]
  rfl

theorem unitFactorToShortStr_noFactor : unitFactorToShortStr noFactor = "" := by
  rw [unitFactorToShortStr, roundLog10_noFactor]
  rfl

theorem toString_append_ne {i j : Int} (hi : 0 ≤ i) (hj : j < 0) (u v : String) :
    toString i ++ u ≠ toString j ++ v := by
  intro h
  have hlist := congrArg String.toList h
  rw [Int.toString_eq_repr, Int.toString_eq_repr, Int.repr_eq_if, Int.repr_eq_if, if_pos hi,
    if_neg (not_le.mpr hj)] at hlist
  simp only [String.toList_append, Nat.toList_repr] at hlist
  cases hdigits : Nat.toDigits 10 i.toNat with
  | nil => exact Nat.toDigits_ne_nil hdigits
  | cons c cs =>
      rw [hdigits] at hlist
      have hc : c = '-' := (List.cons.inj hlist).1
      have hdigit : c.isDigit = true :=
        Nat.isDigit_of_mem_toDigits (by decide) (by decide) (hdigits ▸ List.mem_cons_self)
      rw [hc] at hdigit
      revert hdigit
      decide

/-- A sign is not made up for by what follows. -/
theorem toString_neg_append_ne {i : Int} (hi : i ≠ 0) (u v : String) :
    toString i ++ u ≠ toString (-i) ++ v := by
  rcases Int.lt_or_gt_of_ne hi with hneg | hpos
  · exact (toString_append_ne (by omega) hneg v u).symm
  · exact toString_append_ne (by omega) (by omega) u v

theorem toString_sign_append {n : Nat} {i : Int} {u v : String} :
    toString i ++ u = toString (if n % 2 = 0 then i else -i) ++ v ↔
      (n % 2 = 0 ∨ i = 0) ∧ u = v := by
  by_cases hn : n % 2 = 0
  · simp [hn, String.append_right_inj]
  · by_cases hi : i = 0
    · simp [hi, String.append_right_inj]
    · simp only [hn, hi, if_false, or_self, false_and, iff_false]
      exact toString_neg_append_ne hi u v

theorem toString_int_injective {i j : Int} (h : toString i = toString j) : i = j := by
  have happend : toString i ++ "" = toString j ++ "" := by rw [h]
  have hdigits {m n : Nat} (h : m.repr = n.repr) : m = n := by
    rw [← Nat.ofDigitChars_ten_toDigits (n := m), ← Nat.toList_repr, h, Nat.toList_repr,
      Nat.ofDigitChars_ten_toDigits]
  rw [Int.toString_eq_repr, Int.toString_eq_repr, Int.repr_eq_if, Int.repr_eq_if] at h
  by_cases hi : 0 ≤ i
  · by_cases hj : 0 ≤ j
    · rw [if_pos hi, if_pos hj] at h
      have := hdigits h
      omega
    · exact absurd happend (toString_append_ne hi (not_le.mp hj) _ _)
  · by_cases hj : 0 ≤ j
    · exact absurd happend.symm (toString_append_ne hj (not_le.mp hi) _ _)
    · rw [if_neg hi, if_neg hj, String.append_right_inj] at h
      have := hdigits h
      omega

/-- Different powers of ten have different prefixes. -/
theorem powerToShortStr_inj {i j : Int} : powerToShortStr i = powerToShortStr j ↔ i = j := by
  let named : List Int := [-6, -5, -4, -3, -2, -1, 0, 1, 2, 3]
  have hcases (t : Int) : t ∈ named ∨ powerToShortStr t = "*10^" ++ toString t := by
    unfold powerToShortStr
    split <;> simp [named]
  have hnamed : ∀ t ∈ named, (powerToShortStr t).toList.head? ≠ some '*' ∧
      ∀ u ∈ named, powerToShortStr t = powerToShortStr u → t = u := by
    decide
  have hstar (t : Int) : ("*10^" ++ toString t).toList.head? = some '*' := by
    simp [String.toList_append]
  refine ⟨fun h => ?_, fun h => by rw [h]⟩
  rcases hcases i with hi | hi
  · rcases hcases j with hj | hj
    · exact (hnamed i hi).2 j hj h
    · rw [hj] at h
      exact absurd (h ▸ hstar j) (hnamed i hi).1
  · rcases hcases j with hj | hj
    · rw [hi] at h
      exact absurd (h ▸ hstar i) (hnamed j hj).1
    · rw [hi, hj, String.append_right_inj] at h
      exact toString_int_injective h

theorem unitToStr_eq_suffix {u : StdUnit} {f g : ℚ} :
    unitToStr u f = unitSuffix u g ↔ roundLog10 f = prefixPower g := by
  have hpower : roundLog10 (if IsUnitFactor g then g else noFactor) = prefixPower g := by
    unfold prefixPower
    split
    · rfl
    · exact roundLog10_noFactor
  unfold unitSuffix unitToStr unitFactorToShortStr
  dsimp only
  rw [String.append_left_inj, hpower, powerToShortStr_inj]

/-- A prefix is shown that stands for the factor, unless that is none. -/
theorem roundLog10_eq_prefixPower_iff {f : ℚ} : roundLog10 f = prefixPower f ↔ IsUnitFactor f := by
  unfold prefixPower
  split
  · next h => exact iff_of_true rfl h
  · next h =>
    refine iff_of_false ?_ h
    rw [roundLog10, if_neg h]
    decide

/-! ## Operands of negations -/

namespace Expression

section

variable [Platform]

/-- What is below the unary minus operators an expression begins with. -/
def operand : Expression → Expression
  | neg expr => expr.operand
  | e => e

/-- The number of these operators. -/
def signs : Expression → Nat
  | neg expr => expr.signs + 1
  | _ => 0

def isFinalCast : Expression → Bool
  | final _ => true
  | _ => false

/-- The unit factor of an expression, when its value has been evaluated. -/
def factorAfter (e : Expression) (s : Store Mem) : ℚ :=
  (run memMachine e.node.unitFactor (run memMachine e.node.evalInt s).state).val

/-- Whether `evalCastToStr()` asks for the unit factor when it has evaluated the value. A
call asks the result object, which the function has left. -/
def asksAfter : Expression → Bool
  | functionCall _ _ _ => true
  | _ => Platform.leftFirst .castToStr

/-- The unit factor that it is answered. -/
def factorAsked (e : Expression) (s : Store Mem) : ℚ :=
  if e.asksAfter then e.factorAfter s else (run memMachine e.node.unitFactor s).val

def suffix (e : Expression) (s : Store Mem) : String :=
  unitSuffix e.node.unitType (e.factorAfter s)

/-- The value and the suffix that should be shown of an expression. -/
def shown (e : Expression) (s : Store Mem) : String :=
  toString (run memMachine e.node.evalInt s).val ++ e.suffix s

/-- No sign is dropped and no unit, and the prefix is that of the factor after evaluation. -/
def ShowsAll (e : Expression) (s : Store Mem) : Prop :=
  (e.signs % 2 = 0 ∨ (run memMachine e.operand.node.evalInt s).val = 0) ∧
    if e.operand.isFinalCast then e.operand.suffix s = ""
    else roundLog10 (e.operand.factorAsked s) = prefixPower (e.operand.factorAfter s)

/-- A negation is shown as its operand, but evaluated to the negated value. -/
theorem operand_node (e : Expression) :
    e.node.exprType = e.operand.node.exprType ∧
      e.node.unitType = e.operand.node.unitType ∧
      e.node.evalCastToStr = e.operand.node.evalCastToStr ∧
      e.node.unitFactor = e.operand.node.unitFactor ∧
      ∀ s, (run memMachine e.node.evalInt s).state =
          (run memMachine e.operand.node.evalInt s).state ∧
        (run memMachine e.node.evalInt s).val =
          (if e.signs % 2 = 0 then (run memMachine e.operand.node.evalInt s).val
            else -(run memMachine e.operand.node.evalInt s).val) := by
  fun_induction operand e with
  | case1 expr ih =>
      obtain ⟨htype, hunit, hcast, hfactor, hrun⟩ := ih
      refine ⟨htype, hunit, hcast, hfactor, fun s => ?_⟩
      have hneg : (run memMachine expr.neg.node.evalInt s).state =
            (run memMachine expr.node.evalInt s).state ∧
          (run memMachine expr.neg.node.evalInt s).val =
            -(run memMachine expr.node.evalInt s).val := by
        simp only [node, ExprNode.neg, val_bind, state_bind]
        exact ⟨rfl, rfl⟩
      rw [hneg.1, hneg.2, (hrun s).1, (hrun s).2, signs]
      refine ⟨rfl, ?_⟩
      split <;> split <;> omega
  | case2 e hneg =>
      have hsigns : e.signs = 0 := by
        cases e with
        | neg expr => exact absurd rfl (hneg expr)
        | _ => rfl
      exact ⟨rfl, rfl, rfl, rfl, fun s => ⟨rfl, by rw [hsigns]; rfl⟩⟩

omit [Platform] in
theorem operand_ne_neg (e expr : Expression) : e.operand ≠ expr.neg := by
  fun_induction operand e with
  | case1 e ih => exact ih
  | case2 e hneg => exact fun h => hneg expr h

/-- To ask for a unit factor changes nothing. -/
theorem state_unitFactor : ∀ (e : Expression) (s : Store Mem),
    (run memMachine e.node.unitFactor s).state = s
  | intLiteral _ _ _ _, _ | realLiteral _ _ _ _, _ | stringLiteral _, _
  | constIntVariable _ _ _ _, _ | constRealVariable _ _ _ _, _ | builtInIntVariable _, _
  | stringVariable _, _ | constStringVariable _, _ | dynamicVariableCall _, _
  | arrayVariable _, _ | mod _ _, _ | concatString _ _, _ | or _ _, _ | and _ _, _
  | bitwiseOr _ _, _ | bitwiseAnd _ _, _ | not _, _ | bitwiseNot _, _ | relation _ _ _, _ => rfl
  | intVariable v, s | realVariable v, s => by
      show (run memMachine v.unitFactor s).state = s
      unfold NumberVariable.unitFactor
      split <;> rfl
  | intArrayElement n array _, s | realArrayElement n array _, s => by
      show (run memMachine (elementUnitFactor n array) s).state = s
      have hsize (t : Store Mem) : (run memMachine array.arraySize t).state = t := by
        cases array <;> rfl
      have hfactor (i : Nat) (t : Store Mem) :
          (run memMachine (array.unitFactorOfElement i) t).state = t := by
        cases array with
        | intArray a | realArray a =>
            simp only [ArrayExpr.unitFactorOfElement]
            split <;> rfl
        | builtInIntArray id size | dynIntArray v => rfl
      unfold elementUnitFactor
      rw [state_bind, state_bind, hsize]
      split
      · rfl
      · exact hfactor _ s
  | add lhs rhs, s | sub lhs rhs, s => by
      show (run memMachine (lhs.node.unitFactor >>= fun l => rhs.node.unitFactor >>= fun r =>
        pure (if Platform.lt l r then l else r)) s).state = s
      rw [state_bind, state_bind, state_unitFactor lhs, state_unitFactor rhs]
      rfl
  | mul lhs rhs, s | div lhs rhs, s => by
      simp only [node, ExprNode.mul, ExprNode.div, varitypeScalarBinaryOp]
      rw [state_bind, state_bind, state_bind, state_unitFactor lhs, state_unitFactor rhs]
      rfl
  | neg expr, s | final expr, s => state_unitFactor expr s
  | functionCall n fn args, s => by
      cases fn with
      | none => rfl
      | some fn =>
          show (run memMachine (callUnitFactor n _) s).state = s
          unfold callUnitFactor
          split <;> rfl

theorem run_castIntToStr (p : MemProg Int) (u : StdUnit) {f : MemProg ℚ}
    (hf : ∀ s, (run memMachine f s).state = s) (s : Store Mem) :
    (run memMachine (castIntToStr p u f) s).val =
      toString (run memMachine p s).val ++
        unitToStr u (if Platform.leftFirst .castToStr
          then (run memMachine f (run memMachine p s).state).val
          else (run memMachine f s).val) := by
  unfold castIntToStr evalBoth
  split
  · simp only [val_bind]
    rfl
  · simp only [val_bind, hf]
    rfl

/-- A call leaves its result in its own result object. -/
theorem val_execVMFn (n : Nat) (fn : VMFunction) (args : List Expression) (s : Store Mem) :
    (run memMachine (execVMFn n fn (nodes args)) s).val = some n := by
  have hes : ∀ e ∈ args, e.RelatedWith (runsAlike fun _ => True) callByValue :=
    allRelated (fun _ _ _ hown hes => related_callByValue hown hes) args
      (allCallsOf_of_forall (fun _ _ _ => trivial) args)
  have hbody : RunsAlike (fun _ => True) (applyFn fn (nodes args)) (applyFn fn (byValues args)) :=
    rel_exec hes (.inr fun e _ c hc => hc.not_isForeign)
  exact (execVMFn_alike hbody trivial (.refl s)).1

/-- The result object is asked when the function is done. -/
theorem shown_functionCall {n : Nat} {fn : VMFunction} {args : List Expression}
    (htype : fn.returnType ((nodes args).map argInfo) = .int) (s : Store Mem) :
    let e : Expression := functionCall n (some fn) args
    (run memMachine e.node.evalCastToStr s).val =
      toString (run memMachine e.node.evalInt s).val ++
        unitToStr e.node.unitType (e.factorAsked s) := by
  have hcast (u : StdUnit) (t : Store Mem) :
      (run memMachine (castIntToStr (read (.resultInt n)) u (read (.resultUnitFactor n))) t).val =
        toString (run memMachine (read (.resultInt n)) t).val ++
          unitToStr u (run memMachine (read (.resultUnitFactor n)) t).val :=
    (run_castIntToStr _ u (fun _ => rfl) t).trans (by split <;> rfl)
  simp only [factorAsked, asksAfter, factorAfter, node, ExprNode.functionCall, callToStr, evalCall,
    callUnitFactor, val_bind, state_bind, val_execVMFn, htype, if_true, true_or, hcast]
  rfl

theorem shown_varitype {l r : ExprNode} {u : StdUnit} {evalInt : MemProg Int}
    {evalReal unitFactor : MemProg ℚ} (hf : ∀ s, (run memMachine unitFactor s).state = s)
    (htype : (varitypeScalarBinaryOp l r u evalInt evalReal unitFactor).exprType = .int)
    (s : Store Mem) :
    (run memMachine
        (varitypeScalarBinaryOp l r u evalInt evalReal unitFactor).evalCastToStr s).val =
      toString (run memMachine evalInt s).val ++
        unitToStr u (if Platform.leftFirst .castToStr
          then (run memMachine unitFactor (run memMachine evalInt s).state).val
          else (run memMachine unitFactor s).val) := by
  have hcond : ¬ (varitypeScalarBinaryOp l r u evalInt evalReal unitFactor).exprType = .real := by
    rw [htype]
    decide
  have hcast : (varitypeScalarBinaryOp l r u evalInt evalReal unitFactor).evalCastToStr =
      castIntToStr evalInt u unitFactor := if_neg hcond
  rw [hcast, run_castIntToStr _ _ hf]

/-- All classes but `Neg` and `Final` show the value and the unit. -/
theorem shown_of_not_overridden {e : Expression} (hneg : ∀ expr, e ≠ neg expr)
    (hfinal : e.isFinalCast = false) (htype : e.node.exprType = .int) (s : Store Mem) :
    (run memMachine e.node.evalCastToStr s).val =
      toString (run memMachine e.node.evalInt s).val ++
        unitToStr e.node.unitType (e.factorAsked s) := by
  have hf := e.state_unitFactor
  cases e with
  | neg expr => exact absurd rfl (hneg expr)
  | final expr => cases hfinal
  | functionCall n fn args =>
      cases fn with
      | none => cases htype
      | some fn => exact shown_functionCall htype s
  | dynamicVariableCall v =>
      have hv : v.exprType = .int := htype
      have hcast : (dynamicVariableCall v).node.evalCastToStr =
          (fun i => toString i) <$> read (.dynInt v.id) := by
        simp only [node, ExprNode.dynamicVariableCall, hv]
        rfl
      have hint : (dynamicVariableCall v).node.evalInt = read (.dynInt v.id) := if_pos hv
      rw [hcast, hint]
      have hfactor : (dynamicVariableCall v).factorAsked s = noFactor := ite_self _
      rw [hfactor]
      show toString (getCell s (.dynInt v.id)) = toString (getCell s (.dynInt v.id)) ++
        (unitFactorToShortStr noFactor ++ "")
      rw [unitFactorToShortStr_noFactor, String.append_empty, String.append_empty]
  | arrayVariable array => cases array <;> cases htype
  | realLiteral v f u fin | stringLiteral v | realVariable v | constRealVariable v f u fin
  | stringVariable memPos | constStringVariable v | realArrayElement n array index
  | concatString lhs rhs => cases htype
  | add lhs rhs | sub lhs rhs | mul lhs rhs | div lhs rhs => exact shown_varitype hf htype s
  | _ => exact run_castIntToStr _ _ hf s

theorem shown_final {expr : Expression} (htype : (final expr).node.exprType = .int)
    (s : Store Mem) :
    (run memMachine (final expr).node.evalCastToStr s).val =
      toString (run memMachine (final expr).node.evalInt s).val ++ "" := by
  have hcond : ¬ expr.node.exprType = .real := by
    rw [show expr.node.exprType = .int from htype]
    decide
  have hcast : (final expr).node.evalCastToStr = (fun i => toString i) <$> expr.node.evalInt :=
    if_neg hcond
  rw [hcast, String.append_empty]
  show (run memMachine (expr.node.evalInt >>= fun i => pure (toString i)) s).val = _
  rw [val_bind]
  rfl

/-- An integer expression is shown as its value and its suffix if and only if
an even number of signs is dropped, or the sign of zero, no unit of a `final`
operand is dropped, and the unit factor that is asked for has the prefix of
the one the expression has after its evaluation. -/
theorem evalCastToStr_shows (e : Expression) (htype : e.node.exprType = .int)
    (s : Store Mem) :
    (run memMachine e.node.evalCastToStr s).val = e.shown s ↔ e.ShowsAll s := by
  obtain ⟨htype', hunit, hcast, hfactor, hrun⟩ := e.operand_node
  have hafter : e.factorAfter s = e.operand.factorAfter s := by
    unfold factorAfter
    rw [hfactor, (hrun s).1]
  rw [htype'] at htype
  unfold shown ShowsAll suffix
  rw [hcast, (hrun s).2, hunit, hafter]
  cases hfinal : e.operand.isFinalCast with
  | false =>
      rw [shown_of_not_overridden e.operand_ne_neg hfinal htype, toString_sign_append,
        unitToStr_eq_suffix]
      rfl
  | true =>
      have hshown : (run memMachine e.operand.node.evalCastToStr s).val =
          toString (run memMachine e.operand.node.evalInt s).val ++ "" := by
        cases hoperand : e.operand with
        | final expr =>
            rw [hoperand] at htype
            exact shown_final htype s
        | _ =>
            rw [hoperand] at hfinal
            cases hfinal
      rw [hshown, toString_sign_append, eq_comm (a := "")]
      rfl

end

attribute [local instance] Platform.exact

theorem evalCastToStr_shows_milliseconds :
    let e : Expression := .neg (.neg (.intLiteral 3 (1 / 1000) .second false))
    let s : Store Mem := ⟨initialMem, ⟨[], [], []⟩⟩
    (run memMachine e.node.evalCastToStr s).val = e.shown s := by
  intro e s
  refine (evalCastToStr_shows e rfl s).mpr ⟨.inl (by simp only [e, signs]), ?_⟩
  have hmilli : IsUnitFactor (1 / 1000) := ⟨by norm_num, by norm_num⟩
  exact roundLog10_eq_prefixPower_iff.mpr hmilli

/-- The sign of `-3` is not shown. -/
theorem not_evalCastToStr_shows :
    ¬ ∀ (e : Expression) (s : Store Mem), e.node.exprType = .int →
      (run memMachine e.node.evalCastToStr s).val = e.shown s := by
  intro h
  have hshown := h (.neg (.intLiteral 3 noFactor .noUnit false)) ⟨initialMem, ⟨[], [], []⟩⟩ rfl
  have hcast : (run memMachine (castIntToStr (pure 3) .noUnit (pure noFactor))
      ⟨initialMem, ⟨[], [], []⟩⟩).val = _ := hshown
  rw [run_castIntToStr _ _ fun _ => rfl] at hcast
  exact toString_neg_append_ne (by decide) _ _ hcast

end Expression

end LinuxSampler
