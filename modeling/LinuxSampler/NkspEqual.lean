import LinuxSampler.NkspOperand

/-!
# Equality of numbers in scripts

A relation brings two numbers to the smaller one of their unit factors before
it compares them. `array_equal()` does the same on its own, but always has the
element with the smaller factor on the left, and the tolerance that real
numbers are compared with is relative to the left one. `search()` compares
the values alone.
-/

namespace LinuxSampler

open OpProg ExprNode

/-! ## Least elements -/

/-- Two sets have the same least element if any, exactly if below every element
of either is a common one. -/
theorem isLeast_iff_isLeast {α : Type} [LinearOrder α] [WellFoundedLT α] (P Q : Set α) :
    (∀ i, IsLeast P i ↔ IsLeast Q i) ↔
      ∀ i, i ∈ P ∨ i ∈ Q → ∃ j ≤ i, j ∈ P ∧ j ∈ Q := by
  have hleast : ∀ {R : Set α} {i : α}, i ∈ R → ∃ j ≤ i, IsLeast R j := fun {R i} hi =>
    have hmin : ∀ k ∈ R, wellFounded_lt.min R ⟨i, hi⟩ ≤ k := fun k hk =>
      not_lt.1 (wellFounded_lt.not_lt_min R hk)
    ⟨_, hmin i hi, wellFounded_lt.min_mem R ⟨i, hi⟩, hmin⟩
  constructor
  · rintro h i (hi | hi)
    · obtain ⟨j, hj, hP⟩ := hleast hi
      exact ⟨j, hj, hP.1, ((h j).1 hP).1⟩
    · obtain ⟨j, hj, hQ⟩ := hleast hi
      exact ⟨j, hj, ((h j).2 hQ).1, hQ.1⟩
  · intro h i
    constructor
    · rintro ⟨hi, hlow⟩
      obtain ⟨j, hj, hP, hQ⟩ := h i (.inl hi)
      refine ⟨le_antisymm hj (hlow hP) ▸ hQ, fun k hk => ?_⟩
      obtain ⟨l, hl, hlP, -⟩ := h k (.inr hk)
      exact (hlow hlP).trans hl
    · rintro ⟨hi, hlow⟩
      obtain ⟨j, hj, hP, hQ⟩ := h i (.inr hi)
      refine ⟨le_antisymm hj (hlow hQ) ▸ hP, fun k hk => ?_⟩
      obtain ⟨l, hl, -, hlQ⟩ := h k (.inl hk)
      exact (hlow hlQ).trans hl

/-- Two properties hold everywhere or fail somewhere together, exactly if they are
the same, fail at one place together, or each fails where the other holds. -/
theorem forall_iff_forall {α : Type} {d p q : α → Prop} :
    ((∀ i, d i → p i) ↔ ∀ i, d i → q i) ↔
      (∀ i, d i → ¬ (q i ∧ ¬ p i) ∧ ¬ (p i ∧ ¬ q i)) ∨
      (∃ i, d i ∧ ¬ q i ∧ ¬ (p i ∧ ¬ q i)) ∨
      (∃ i, d i ∧ q i ∧ ¬ p i) ∧ ∃ i, d i ∧ p i ∧ ¬ q i := by
  constructor
  · intro h
    by_cases hnone : ∃ i, d i ∧ ¬ q i ∧ ¬ p i
    · obtain ⟨i, hi, hq, hp⟩ := hnone
      exact .inr (.inl ⟨i, hi, hq, fun h => hp h.1⟩)
    · have heither : ∀ i, d i → ¬ q i → p i := fun i hi hq =>
        not_not.1 fun hp => hnone ⟨i, hi, hq, hp⟩
      by_cases hall : ∀ i, d i → q i
      · exact .inl fun i hi => ⟨fun hn => hn.2 (h.2 hall i hi), fun hn => hn.2 (hall i hi)⟩
      · have hnot : ¬ ∀ i, d i → p i := fun hp => hall (h.1 hp)
        obtain ⟨i, hi, hp⟩ : ∃ i, d i ∧ ¬ p i := by simpa only [not_forall, exists_prop] using hnot
        obtain ⟨j, hj, hq⟩ : ∃ j, d j ∧ ¬ q j := by simpa only [not_forall, exists_prop] using hall
        exact .inr (.inr ⟨⟨i, hi, not_not.1 fun hq => hp (heither i hi hq), hp⟩,
          j, hj, heither j hj hq, hq⟩)
  · rintro (hsame | ⟨i, hi, hq, hp⟩ | ⟨⟨i, hi, -, hp⟩, j, hj, -, hq⟩)
    · refine forall_congr' fun i => imp_congr_right fun hi => ⟨fun hp => ?_, fun hq => ?_⟩
      · exact not_not.1 fun hq => (hsame i hi).2 ⟨hp, hq⟩
      · exact not_not.1 fun hp => (hsame i hi).1 ⟨hq, hp⟩
    · exact iff_of_false (fun h => hp ⟨h i hi, hq⟩) fun h => hq (h i hi)
    · exact iff_of_false (fun h => hp (h i hi)) fun h => hq (h j hj)

/-! ## Comparison of elements -/

namespace Quantity

variable [Platform]

/-- The left number has the larger unit factor. -/
def IsLeftLarger (l r : Quantity) : Prop :=
  Platform.eq l.unitFactor r.unitFactor = false ∧ Platform.lt l.unitFactor r.unitFactor = false

instance (l r : Quantity) : Decidable (l.IsLeftLarger r) :=
  inferInstanceAs (Decidable (_ ∧ _))

/-- How `array_equal()` compares two elements: the one with the larger unit factor
is on the right. -/
def isSame (l r : Quantity) : Bool :=
  if l.IsLeftLarger r then (l.converted r).2.isEqual (l.converted r).1 else l.isEqual r

variable {l r : Quantity}

theorem isSame_of_eq (h : Platform.eq l.unitFactor r.unitFactor = true) :
    l.isSame r = l.value.isEqual r.value := by
  have hnot : ¬ l.IsLeftLarger r := fun h' => Bool.noConfusion (h'.1.symm.trans h)
  rw [isSame, if_neg hnot, isEqual, converted, if_pos h]

theorem isSame_of_lt (h : Platform.eq l.unitFactor r.unitFactor ≠ true)
    (h' : Platform.lt l.unitFactor r.unitFactor = true) :
    l.isSame r = l.value.isEqual (r.value.convert r.unitFactor l.unitFactor) := by
  have hnot : ¬ l.IsLeftLarger r := fun hlarger => Bool.noConfusion (hlarger.2.symm.trans h')
  rw [isSame, if_neg hnot, isEqual, converted, if_neg h, if_pos h']

theorem isSame_of_gt (h : Platform.eq l.unitFactor r.unitFactor ≠ true)
    (h' : Platform.lt l.unitFactor r.unitFactor ≠ true) :
    l.isSame r = r.value.isEqual (l.value.convert l.unitFactor r.unitFactor) := by
  have hlarger : l.IsLeftLarger r := ⟨Bool.eq_false_of_not_eq_true h, Bool.eq_false_of_not_eq_true h'⟩
  rw [isSame, if_pos hlarger, converted, if_neg h, if_neg h']

end Quantity

/-! ## Searching -/

/-- The first index of an array of `n` elements with the property. -/
def firstIndex (n : Int) (p : Nat → Bool) : Option Nat := (List.range' 0 n.toNat).find? p

theorem firstIndex_eq_some {n : Int} {p : Nat → Bool} {i : Nat} :
    firstIndex n p = some i ↔ IsLeast {j : Nat | (j : Int) < n ∧ p j} i := by
  rw [firstIndex, List.find?_range'_eq_some, List.mem_range'_1]
  constructor
  · rintro ⟨hi, hmem, hlow⟩
    refine ⟨⟨by omega, hi⟩, fun j hj => not_lt.1 fun hlt => ?_⟩
    have hnot := hlow j (Nat.zero_le j) hlt
    rw [hj.2] at hnot
    cases hnot
  · rintro ⟨⟨hi, hp⟩, hlow⟩
    refine ⟨hp, by omega, fun j _ hlt => ?_⟩
    cases hj : p j with
    | false => rfl
    | true => exact absurd hlt (not_lt.2 (hlow ⟨by omega, hj⟩))

theorem firstIndex_eq_none {n : Int} {p : Nat → Bool} :
    firstIndex n p = none ↔ ∀ i : Nat, (i : Int) < n → p i = false := by
  rw [firstIndex, List.find?_range'_eq_none]
  constructor
  · intro h i hi
    exact Bool.not_eq_true' _ ▸ h i (Nat.zero_le i) (by omega)
  · intro h i _ hi
    rw [h i (by omega)]
    rfl

section

variable [Platform]

namespace FnYields

variable {args : List ExprNode} {s : Store Mem}

/-- The loop finds the first index of which the answer is `found`. -/
theorem findFrom {f : Nat → FnProg Bool} {g : Nat → Bool} (found : Bool) :
    ∀ {n i : Nat}, (∀ j, i ≤ j → j < i + n → FnYields args (f j) s (g j)) →
      FnYields args (CoreVMFunction.findFrom f found n i) s
        ((List.range' i n).find? (g · == found))
  | 0, i, _ => pure none
  | n + 1, i, h => by
      refine bind (h i le_rfl (by omega)) ?_
      rw [List.range'_succ, List.find?_cons]
      by_cases hi : g i = found
      · rw [if_pos hi, beq_iff_eq.2 hi]
        exact pure _
      · rw [if_neg hi, beq_false_of_ne hi]
        exact findFrom found fun j hj hlt => h j (by omega) (by omega)

/-! ### Two arrays -/

section arrays

variable {a b : ArrayExpr} {t : Store Mem} (hst : SameMemory s t)

include hst

omit hst in
/-- Elements of one type are compared with the smaller unit factor on the left. -/
theorem elementEqual {α : Type} {args : List ExprNode} (number : α → Number)
    {equal : α → α → Bool} {conv : α → ℚ → ℚ → FnProg α} {converted : α → ℚ → ℚ → α}
    (hequal : ∀ v w, (number v).isEqual (number w) = equal v w)
    (hnumber : ∀ v src dst, (number v).convert src dst = number (converted v src dst))
    (hconv : ∀ v src dst, FnYields args (conv v src dst) t (converted v src dst))
    (lvalue rvalue : α) (lfactor rfactor : ℚ) :
    FnYields args
      (if Platform.eq lfactor rfactor then return equal lvalue rvalue
      else if Platform.lt lfactor rfactor then
        return equal lvalue (← conv rvalue rfactor lfactor)
      else return equal rvalue (← conv lvalue lfactor rfactor)) t
      (Quantity.isSame ⟨number lvalue, lfactor⟩ ⟨number rvalue, rfactor⟩) := by
  by_cases heq : Platform.eq lfactor rfactor = true
  · rw [if_pos heq, Quantity.isSame_of_eq heq, hequal]
    exact pure _
  · rw [if_neg heq]
    by_cases hlt : Platform.lt lfactor rfactor = true
    · rw [if_pos hlt, Quantity.isSame_of_lt heq hlt, hnumber, hequal]
      exact bind (hconv rvalue rfactor lfactor) (pure _)
    · rw [if_neg hlt, Quantity.isSame_of_gt heq hlt, hnumber, hequal]
      exact bind (hconv lvalue lfactor rfactor) (pure _)

theorem intElementEqual (ha : a.exprType ≠ .realArr) (hb : b.exprType ≠ .realArr) (i : Nat) :
    FnYields [arrayVariable a, arrayVariable b] (CoreVMFunction.intElementEqual i) t
      ((a.elementIn s i).isSame (b.elementIn s i)) := by
  refine bind (call (o := .evalIntElement 0 i) (a.reads_evalIntElement i s t hst))
    (bind (call (o := .evalIntElement 1 i) (b.reads_evalIntElement i s t hst))
      (bind (call (o := .unitFactorOfElement 0 i) (a.reads_unitFactorOfElement i s t hst))
        (bind (call (o := .unitFactorOfElement 1 i) (b.reads_unitFactorOfElement i s t hst)) ?_)))
  rw [ArrayExpr.elementIn, ArrayExpr.elementIn, if_neg ha, if_neg hb]
  exact elementEqual .int Number.isEqual_int (fun _ _ _ => rfl) convInt _ _ _ _

theorem realElementEqual (ha : a.exprType = .realArr) (hb : b.exprType = .realArr) (i : Nat) :
    FnYields [arrayVariable a, arrayVariable b] (CoreVMFunction.realElementEqual i) t
      ((a.elementIn s i).isSame (b.elementIn s i)) := by
  refine bind (call (o := .evalRealElement 0 i) (a.reads_evalRealElement i s t hst))
    (bind (call (o := .evalRealElement 1 i) (b.reads_evalRealElement i s t hst))
      (bind (call (o := .unitFactorOfElement 0 i) (a.reads_unitFactorOfElement i s t hst))
        (bind (call (o := .unitFactorOfElement 1 i) (b.reads_unitFactorOfElement i s t hst)) ?_)))
  rw [ArrayExpr.elementIn, ArrayExpr.elementIn, if_pos ha, if_pos hb]
  exact elementEqual .real (fun _ _ => rfl) (fun _ _ _ => rfl) convReal _ _ _ _

omit hst in
/-- Both functions go by the type of the first argument. -/
theorem argType_eq_intArr {args : List ExprNode} :
    CoreVMFunction.argType ((arrayVariable a :: args).map argInfo) 0 = .intArr ↔
      a.exprType ≠ .realArr := by
  cases a with
  | realArray a => exact iff_of_false nofun fun h => h rfl
  | _ => exact iff_of_true rfl nofun

/-- `array_equal()` compares the sizes and then the elements. -/
theorem arrayEqual (id : Nat) (htype : a.exprType = b.exprType) :
    FnYields [arrayVariable a, arrayVariable b]
      ((CoreVMFunction.arrayEqual id).exec ([arrayVariable a, arrayVariable b].map argInfo)) t
      (CoreVMFunction.intResult
        (if a.sizeIn s ≠ b.sizeIn s then 0
        else if (firstIndex (a.sizeIn s) fun i =>
          (a.elementIn s i).isSame (b.elementIn s i) == false).isSome then 0 else 1)
        noFactor) := by
  refine bind (call (o := .arraySize 0) (a.reads_arraySize s t hst))
    (bind (call (o := .arraySize 1) (b.reads_arraySize s t hst)) ?_)
  show FnYields _ (if a.sizeIn s ≠ b.sizeIn s then _ else _) t _
  by_cases hsize : a.sizeIn s = b.sizeIn s
  · rw [if_neg (not_not_intro hsize), if_neg (not_not_intro hsize)]
    refine bind (a := firstIndex (a.sizeIn s) fun i =>
      (a.elementIn s i).isSame (b.elementIn s i) == false) (findFrom false fun i _ _ => ?_) ?_
    · by_cases ha : a.exprType = .realArr
      · rw [if_neg fun h => argType_eq_intArr.1 h ha]
        exact realElementEqual hst ha (htype ▸ ha) i
      · rw [if_pos (argType_eq_intArr.2 ha)]
        exact intElementEqual hst ha (htype ▸ ha) i
    · exact pure _
  · rw [if_pos hsize, if_pos hsize]
    exact pure _

end arrays

/-! ### A number in an array -/

section needle

variable {a : ArrayExpr} {x : Quantity} {t : Store Mem}

theorem searchFor {f : Nat → FnProg Bool} {p : Nat → Bool} {n : Int}
    (h : ∀ i : Nat, FnYields args (f i) t (p i)) :
    FnYields args (CoreVMFunction.searchFor f n) t
      (CoreVMFunction.intResult
        (match firstIndex n p with
        | some i => (i : Int)
        | none => -1) noFactor) := by
  have hfind : ((List.range' 0 n.toNat).find? (p · == true)) = firstIndex n p :=
    congrArg (List.find? · _) (funext fun i => beq_true (p i))
  refine bind (findFrom true fun i _ _ => h i) ?_
  rw [hfind]
  cases firstIndex n p with
  | none => exact pure _
  | some i => exact pure _

/-- `search()` compares values without their unit factors. -/
theorem search (hst : SameMemory s t) (id : Nat)
    (htype : x.value.exprType = if a.exprType = .realArr then .real else .int) :
    FnYields [arrayVariable a, numberLiteral x]
      ((CoreVMFunction.search id).exec ([arrayVariable a, numberLiteral x].map argInfo)) t
      (CoreVMFunction.intResult
        (match firstIndex (a.sizeIn s) fun i => (a.elementIn s i).value.isEqual x.value with
        | some i => (i : Int)
        | none => -1) noFactor) := by
  obtain ⟨v, f⟩ := x
  refine bind (call (o := .arraySize 0) (a.reads_arraySize s t hst)) ?_
  by_cases ha : a.exprType = .realArr
  · rw [if_pos ha] at htype
    rw [if_neg fun h => argType_eq_intArr.1 h ha]
    cases v with
    | int v => cases htype
    | real v =>
        refine bind (call (o := .evalReal 1) (a := v) (.pure v)) (searchFor fun i => ?_)
        rw [ArrayExpr.elementIn, if_pos ha]
        exact bind (call (o := .evalRealElement 0 i) (a.reads_evalRealElement i s t hst)) (pure _)
  · rw [if_neg ha] at htype
    rw [if_pos (argType_eq_intArr.2 ha)]
    cases v with
    | int v =>
        refine bind (call (o := .evalInt 1) (a := v) (.pure v)) (searchFor fun i => ?_)
        rw [ArrayExpr.elementIn, if_neg ha, Number.isEqual_int]
        exact bind (call (o := .evalIntElement 0 i) (a.reads_evalIntElement i s t hst)) (pure _)
    | real v => cases htype

end needle

end FnYields

/-! ## Tolerances -/

/-- The difference is within the tolerance of `a` and not within that of `b`. -/
def WithinOnly (a b : ℚ) : Prop := fEqual32 a b = true ∧ fEqual32 b a = false

namespace Quantity

variable {l r : Quantity}

/-- Of real numbers, brought to the smaller unit factor, only the left one has the
difference in its tolerance. -/
def LeftOnly (l r : Quantity) : Prop :=
  match l.value, r.value with
  | .real v, .real w =>
      l.IsLeftLarger r ∧
        WithinOnly (convRealToUnitFactor v l.unitFactor r.unitFactor) w
  | _, _ => False

/-- Only the right one has. -/
def RightOnly (l r : Quantity) : Prop :=
  match l.value, r.value with
  | .real v, .real w =>
      l.IsLeftLarger r ∧
        WithinOnly w (convRealToUnitFactor v l.unitFactor r.unitFactor)
  | _, _ => False

/-- Integers are compared without a tolerance. -/
theorem isSame_eq_of_int {v w : Int} {lf rf : ℚ} :
    isSame ⟨.int v, lf⟩ ⟨.int w, rf⟩ = isEqual ⟨.int v, lf⟩ ⟨.int w, rf⟩ := by
  unfold isSame
  split
  · next hlarger =>
    rw [isEqual, converted, if_neg (Bool.eq_false_iff.1 hlarger.1),
      if_neg (Bool.eq_false_iff.1 hlarger.2)]
    exact decide_eq_decide.2 eq_comm
  · rfl

theorem isEqual_real {v w lf rf : ℚ} (h : IsLeftLarger ⟨.real v, lf⟩ ⟨.real w, rf⟩) :
    isEqual ⟨.real v, lf⟩ ⟨.real w, rf⟩ = fEqual32 (convRealToUnitFactor v lf rf) w := by
  rw [isEqual, converted, if_neg (Bool.eq_false_iff.1 h.1), if_neg (Bool.eq_false_iff.1 h.2)]
  rfl

/-- The operands are exchanged. -/
theorem isSame_real {v w lf rf : ℚ} (h : IsLeftLarger ⟨.real v, lf⟩ ⟨.real w, rf⟩) :
    isSame ⟨.real v, lf⟩ ⟨.real w, rf⟩ = fEqual32 w (convRealToUnitFactor v lf rf) := by
  rw [isSame, if_pos h, converted, if_neg (Bool.eq_false_iff.1 h.1),
    if_neg (Bool.eq_false_iff.1 h.2)]
  rfl

/-- The comparisons agree and have no tolerance or the same one, or they exchange the
operands. -/
theorem compared (htype : l.value.exprType = r.value.exprType) :
    (l.isSame r = l.isEqual r ∧ ¬ l.LeftOnly r ∧ ¬ l.RightOnly r) ∨
      ∃ v w, l.isEqual r = fEqual32 v w ∧ l.isSame r = fEqual32 w v ∧
        (l.LeftOnly r ↔ WithinOnly v w) ∧ (l.RightOnly r ↔ WithinOnly w v) := by
  obtain ⟨lv, lf⟩ := l
  obtain ⟨rv, rf⟩ := r
  cases lv with
  | int v =>
      cases rv with
      | int w => exact .inl ⟨isSame_eq_of_int, id, id⟩
      | real w => cases htype
  | real v =>
      cases rv with
      | int w => cases htype
      | real w =>
          by_cases hlarger : IsLeftLarger ⟨.real v, lf⟩ ⟨.real w, rf⟩
          · exact .inr ⟨_, w, isEqual_real hlarger, isSame_real hlarger,
              and_iff_right hlarger, and_iff_right hlarger⟩
          · exact .inl ⟨if_neg hlarger, fun h => hlarger h.1, fun h => hlarger h.1⟩

theorem leftOnly_iff (htype : l.value.exprType = r.value.exprType) :
    l.LeftOnly r ↔ l.isEqual r = true ∧ l.isSame r = false := by
  rcases compared htype with ⟨hsame, hleft, -⟩ | ⟨v, w, heq, hsame, hleft, -⟩
  · rw [hsame]
    exact iff_of_false hleft fun h => Bool.noConfusion (h.1.symm.trans h.2)
  · rw [heq, hsame, hleft, WithinOnly]

theorem rightOnly_iff (htype : l.value.exprType = r.value.exprType) :
    l.RightOnly r ↔ l.isSame r = true ∧ l.isEqual r = false := by
  rcases compared htype with ⟨hsame, -, hright⟩ | ⟨v, w, heq, hsame, -, hright⟩
  · rw [hsame]
    exact iff_of_false hright fun h => Bool.noConfusion (h.1.symm.trans h.2)
  · rw [heq, hsame, hright, WithinOnly]

end Quantity

/-! ## Agreement with the relation -/

/-- Whether the relation node `l = r` answers 1. -/
def RelationEqual (s : Store Mem) (l r : ExprNode) : Prop :=
  valueIn s (relation l .equal r).evalInt = 1

/-- What the call `array_equal(a, b)` answers. -/
def arrayEqualIn (s : Store Mem) (node id : Nat) (a b : ArrayExpr) : Int :=
  let args := [arrayVariable a, arrayVariable b]
  valueIn s (functionCall node (some (CoreVMFunction.arrayEqual id)) args).evalInt

/-- What the call `search(a, x)` answers. -/
def searchIn (s : Store Mem) (node id : Nat) (a : ArrayExpr) (x : Quantity) : Int :=
  let args := [arrayVariable a, numberLiteral x]
  valueIn s (functionCall node (some (CoreVMFunction.search id)) args).evalInt

variable {s : Store Mem} {a b : ArrayExpr} {x : Quantity} {node id lhs rhs : Nat}

/-- Both functions answer what the relation nodes of the elements do. -/
structure AgreesWithRelation (s : Store Mem) (node id lhs rhs : Nat) (a b : ArrayExpr)
    (x : Quantity) : Prop where
  arrayEqual : arrayEqualIn s node id a b = 1 ↔
    a.sizeIn s = b.sizeIn s ∧ ∀ i : Nat, (i : Int) < a.sizeIn s →
      RelationEqual s (arrayElement lhs a i) (arrayElement rhs b i)
  search : ∀ i : Nat, searchIn s node id a x = i ↔
    IsLeast {j : Nat | (j : Int) < a.sizeIn s ∧
      RelationEqual s (arrayElement lhs a j) (numberLiteral x)} i
  notFound : searchIn s node id a x = -1 ↔
    ∀ i : Nat, (i : Int) < a.sizeIn s →
      ¬ RelationEqual s (arrayElement lhs a i) (numberLiteral x)

theorem relationEqual_iff {l r : ExprNode} :
    RelationEqual s l r ↔ valueIn s (relationHolds l .equal r) = true := by
  have hval : valueIn s (relation l .equal r).evalInt =
      if valueIn s (relationHolds l .equal r) then 1 else 0 :=
    val_bind (relationHolds l .equal r) (fun h => Pure.pure (if h then 1 else 0)) s
  rw [RelationEqual, hval]
  cases valueIn s (relationHolds l .equal r) with
  | false => exact iff_of_false zero_ne_one Bool.false_ne_true
  | true => exact iff_of_true rfl rfl

omit [Platform] in
theorem ArrayExpr.exprType_elementIn (i : Nat) :
    (a.elementIn s i).value.exprType = if a.exprType = .realArr then .real else .int := by
  unfold ArrayExpr.elementIn
  by_cases ha : a.exprType = .realArr
  · rw [if_pos ha, if_pos ha]
    rfl
  · rw [if_neg ha, if_neg ha]
    rfl

theorem relationEqual_elements (htype : a.exprType = b.exprType) (hnodes : lhs ≠ rhs) {i : Nat}
    (ha : (i : Int) < a.sizeIn s) (hb : (i : Int) < b.sizeIn s) :
    RelationEqual s (arrayElement lhs a i) (arrayElement rhs b i) ↔
      (a.elementIn s i).isEqual (b.elementIn s i) = true := by
  have hown : ∀ c : Cell, c = .currentIndex lhs → ¬ c = .currentIndex rhs := by
    rintro c rfl h
    exact hnodes (Cell.currentIndex.inj h)
  have hsame : (a.elementIn s i).value.exprType = (b.elementIn s i).value.exprType := by
    rw [ArrayExpr.exprType_elementIn, ArrayExpr.exprType_elementIn, htype]
  rw [relationEqual_iff, (NumberOperand.of_element ha).relationHolds (.of_element hb) hown hsame]

theorem relationEqual_literal
    (htype : x.value.exprType = if a.exprType = .realArr then .real else .int) {i : Nat}
    (hi : (i : Int) < a.sizeIn s) :
    RelationEqual s (arrayElement lhs a i) (numberLiteral x) ↔
      (a.elementIn s i).isEqual x = true := by
  rw [relationEqual_iff, (NumberOperand.of_element hi).relationHolds (.of_literal x) (fun _ _ => id)
    ((ArrayExpr.exprType_elementIn i).trans htype.symm)]

theorem arrayEqualIn_iff (htype : a.exprType = b.exprType) :
    arrayEqualIn s node id a b = 1 ↔
      a.sizeIn s = b.sizeIn s ∧ ∀ i : Nat, (i : Int) < a.sizeIn s →
        (a.elementIn s i).isSame (b.elementIn s i) = true := by
  have hsame := (SameMemory.refl s).setCell (c := .boundResult id) rfl (some node)
  rw [arrayEqualIn, FnYields.evalInt rfl (FnYields.arrayEqual hsame id htype)]
  by_cases hsize : a.sizeIn s = b.sizeIn s
  · rw [if_neg (not_not_intro hsize), and_iff_right hsize]
    have hnone := firstIndex_eq_none (n := a.sizeIn s)
      (p := fun i => (a.elementIn s i).isSame (b.elementIn s i) == false)
    simp only [beq_eq_false_iff_ne, ne_eq, Bool.not_eq_false] at hnone
    rw [← hnone]
    cases firstIndex _ _ with
    | none => exact iff_of_true rfl rfl
    | some i => exact iff_of_false zero_ne_one fun h => nomatch h
  · rw [if_pos hsize]
    exact iff_of_false zero_ne_one fun h => hsize h.1

/-- The elements that have the value of `x`, whatever the unit factors are. -/
def sameValue (s : Store Mem) (a : ArrayExpr) (x : Quantity) : Set Nat :=
  {i | (i : Int) < a.sizeIn s ∧ (a.elementIn s i).value.isEqual x.value = true}

/-- The elements that are equal to `x`. -/
def equalElements (s : Store Mem) (a : ArrayExpr) (x : Quantity) : Set Nat :=
  {i | (i : Int) < a.sizeIn s ∧ (a.elementIn s i).isEqual x = true}

section search

variable (htype : x.value.exprType = if a.exprType = .realArr then .real else .int)

include htype

theorem searchIn_eq : searchIn s node id a x =
    match firstIndex (a.sizeIn s) fun i => (a.elementIn s i).value.isEqual x.value with
    | some i => (i : Int)
    | none => -1 :=
  FnYields.evalInt rfl (FnYields.search
    ((SameMemory.refl s).setCell (c := .boundResult id) rfl (some node)) id htype)

theorem searchIn_eq_iff {i : Nat} : searchIn s node id a x = i ↔ IsLeast (sameValue s a x) i := by
  rw [searchIn_eq htype, sameValue, ← firstIndex_eq_some]
  cases firstIndex _ _ with
  | none => exact iff_of_false (show ¬ (-1 : Int) = i by omega) fun h => nomatch h
  | some j => exact Int.ofNat_inj.trans (Option.some_inj).symm

theorem searchIn_eq_neg_one_iff : searchIn s node id a x = -1 ↔ sameValue s a x = ∅ := by
  rw [searchIn_eq htype, Set.eq_empty_iff_forall_notMem]
  have hnone := firstIndex_eq_none (n := a.sizeIn s)
    (p := fun i => (a.elementIn s i).value.isEqual x.value)
  have hset : (∀ i, i ∉ sameValue s a x) ↔ ∀ i : Nat, (i : Int) < a.sizeIn s →
      (a.elementIn s i).value.isEqual x.value = false :=
    forall_congr' fun i => not_and.trans (imp_congr_right fun _ => Bool.not_eq_true _ ▸ Iff.rfl)
  rw [hset, ← hnone]
  cases firstIndex _ _ with
  | none => exact iff_of_true rfl rfl
  | some j => exact iff_of_false (show ¬ (j : Int) = -1 by omega) fun h => nomatch h

end search

/-! ## When the functions agree -/

/-- Arrays of one size have no elements that only one side finds equal, or such on
both sides, or elements that neither side does. -/
def SidesAgree (s : Store Mem) (a b : ArrayExpr) : Prop :=
  let LeftOnlyAt (i : Nat) : Prop := (a.elementIn s i).LeftOnly (b.elementIn s i)
  let RightOnlyAt (i : Nat) : Prop := (a.elementIn s i).RightOnly (b.elementIn s i)
  let EqualAt (i : Nat) : Prop := (a.elementIn s i).isEqual (b.elementIn s i) = true
  a.sizeIn s = b.sizeIn s →
    (∀ i : Nat, (i : Int) < a.sizeIn s → ¬ LeftOnlyAt i ∧ ¬ RightOnlyAt i) ∨
    (∃ i : Nat, (i : Int) < a.sizeIn s ∧ ¬ EqualAt i ∧ ¬ RightOnlyAt i) ∨
    (∃ i : Nat, (i : Int) < a.sizeIn s ∧ LeftOnlyAt i) ∧
      ∃ i : Nat, (i : Int) < a.sizeIn s ∧ RightOnlyAt i

/-- The first element that is equal to `x`, or is so without the unit factors, is both. -/
def FactorsAgree (s : Store Mem) (a : ArrayExpr) (x : Quantity) : Prop :=
  ∀ i, i ∈ sameValue s a x ∨ i ∈ equalElements s a x →
    ∃ j ≤ i, j ∈ sameValue s a x ∧ j ∈ equalElements s a x

theorem sidesAgree_iff (htype : a.exprType = b.exprType) :
    SidesAgree s a b ↔ (a.sizeIn s = b.sizeIn s →
      ((∀ i : Nat, (i : Int) < a.sizeIn s → (a.elementIn s i).isSame (b.elementIn s i) = true) ↔
        ∀ i : Nat, (i : Int) < a.sizeIn s →
          (a.elementIn s i).isEqual (b.elementIn s i) = true)) := by
  have helem : ∀ i, (a.elementIn s i).value.exprType = (b.elementIn s i).value.exprType := by
    intro i
    rw [ArrayExpr.exprType_elementIn, ArrayExpr.exprType_elementIn, htype]
  refine imp_congr_right fun _ => ?_
  simp only [Quantity.leftOnly_iff (helem _), Quantity.rightOnly_iff (helem _),
    ← Bool.not_eq_true]
  exact forall_iff_forall.symm

variable (s a b x node id lhs rhs) in
/-- `array_equal()` agrees with the relation exactly if the side does not matter on
which an element with the larger unit factor stands, and `search()` exactly if it
does not matter that unit factors are ignored. -/
theorem agreesWithRelation_iff (htype : a.exprType = b.exprType)
    (hx : x.value.exprType = if a.exprType = .realArr then .real else .int) (hnodes : lhs ≠ rhs) :
    AgreesWithRelation s node id lhs rhs a b x ↔ SidesAgree s a b ∧ FactorsAgree s a x := by
  have helements : (a.sizeIn s = b.sizeIn s ∧ ∀ i : Nat, (i : Int) < a.sizeIn s →
      RelationEqual s (arrayElement lhs a i) (arrayElement rhs b i)) ↔
      a.sizeIn s = b.sizeIn s ∧ ∀ i : Nat, (i : Int) < a.sizeIn s →
        (a.elementIn s i).isEqual (b.elementIn s i) = true :=
    and_congr_right fun hsize => forall_congr' fun i => imp_congr_right fun hi =>
      relationEqual_elements htype hnodes hi (hsize ▸ hi)
  have hequal : {j : Nat | (j : Int) < a.sizeIn s ∧
      RelationEqual s (arrayElement lhs a j) (numberLiteral x)} = equalElements s a x :=
    Set.ext fun i => and_congr_right fun hi => relationEqual_literal hx hi
  have hnone : (∀ i : Nat, (i : Int) < a.sizeIn s →
      ¬ RelationEqual s (arrayElement lhs a i) (numberLiteral x)) ↔ equalElements s a x = ∅ := by
    rw [← hequal, Set.eq_empty_iff_forall_notMem]
    exact forall_congr' fun i => not_and.symm
  constructor
  · rintro ⟨harray, hsearch, -⟩
    rw [helements, arrayEqualIn_iff htype] at harray
    refine ⟨(sidesAgree_iff htype).2 fun hsize => ?_, (isLeast_iff_isLeast _ _).1 fun i => ?_⟩
    · rwa [and_iff_right hsize, and_iff_right hsize] at harray
    · rw [← searchIn_eq_iff hx, hsearch i, hequal]
  · rintro ⟨hsides, hfactors⟩
    refine ⟨?_, fun i => ?_, ?_⟩
    · rw [helements, arrayEqualIn_iff htype]
      exact and_congr_right ((sidesAgree_iff htype).1 hsides)
    · rw [searchIn_eq_iff hx, hequal]
      exact (isLeast_iff_isLeast _ _).2 hfactors i
    · rw [searchIn_eq_neg_one_iff hx, hnone, Set.eq_empty_iff_forall_notMem,
        Set.eq_empty_iff_forall_notMem]
      constructor
      · intro h i hi
        obtain ⟨j, -, hj, -⟩ := hfactors i (.inr hi)
        exact h j hj
      · intro h i hi
        obtain ⟨j, -, -, hj⟩ := hfactors i (.inl hi)
        exact h j hj

end

attribute [local instance] Platform.exact

/-- An array of one element, which a script has set to `1k`. -/
def kiloArray : ArrayExpr := .intArray ⟨0, 1, false⟩

def kiloMemory : Store Mem :=
  setCell (setCell ⟨initialMem, ⟨[], [], []⟩⟩ (.intElement ⟨0, 1, false⟩ 0) (1 : Int))
    (.intElementFactor ⟨0, 1, false⟩ 0) (1000 : ℚ)

theorem agreesWithRelation_kilo :
    (kiloArray.exprType = kiloArray.exprType ∧
      Number.exprType (.int 1) = (if kiloArray.exprType = .realArr then .real else .int) ∧
      1 ≠ 2) ∧
    (AgreesWithRelation kiloMemory 0 0 1 2 kiloArray kiloArray ⟨.int 1, noFactor⟩ ↔
      SidesAgree kiloMemory kiloArray kiloArray ∧
        FactorsAgree kiloMemory kiloArray ⟨.int 1, noFactor⟩) :=
  ⟨⟨rfl, rfl, by omega⟩, agreesWithRelation_iff kiloMemory kiloArray kiloArray
    ⟨.int 1, noFactor⟩ 0 0 1 2 rfl rfl (by omega)⟩

/-- Two arrays of one real number, `2.0da` and a little less than 20 without a prefix. -/
def roundedArray (id : Nat) : ArrayExpr := .realArray ⟨id, 1, false⟩

def roundedMemory : Store Mem :=
  setCell (setCell (setCell ⟨initialMem, ⟨[], [], []⟩⟩
    (.realElement ⟨0, 1, false⟩ 0) (2 : ℚ))
    (.realElementFactor ⟨0, 1, false⟩ 0) (10 : ℚ))
    (.realElement ⟨1, 1, false⟩ 0) (20 - 5 / 131072 : ℚ)

/-- `search(a, 1)` finds `1k`, which is not equal to 1, and `array_equal()` tells arrays
apart whose elements are equal. -/
theorem not_agreesWithRelation :
    ¬ AgreesWithRelation kiloMemory 0 0 1 2 kiloArray kiloArray ⟨.int 1, noFactor⟩ ∧
      ¬ AgreesWithRelation roundedMemory 0 0 1 2 (roundedArray 0) (roundedArray 1)
        ⟨.real 0, noFactor⟩ := by
  constructor
  · intro h
    have hfound : searchIn kiloMemory 0 0 kiloArray ⟨.int 1, noFactor⟩ = 0 := by decide +kernel
    have hequal := ((h.search 0).1 hfound).1.2
    have hnot : valueIn kiloMemory (relation (arrayElement 1 kiloArray 0) .equal
        (numberLiteral ⟨.int 1, noFactor⟩)).evalInt ≠ 1 := by
      decide +kernel
    exact hnot hequal
  · intro h
    have hanswer : arrayEqualIn roundedMemory 0 0 (roundedArray 0) (roundedArray 1) ≠ 1 := by
      decide +kernel
    have hequal : valueIn roundedMemory (relation (arrayElement 1 (roundedArray 0) 0) .equal
        (arrayElement 2 (roundedArray 1) 0)).evalInt = 1 := by
      decide +kernel
    refine hanswer (h.arrayEqual.2 ⟨rfl, fun i hi => ?_⟩)
    have hzero : i = 0 := by
      have hsize : (roundedArray 0).sizeIn roundedMemory = 1 := rfl
      omega
    exact hzero ▸ hequal

end LinuxSampler
