import LinuxSampler.FloatRound
import LinuxSampler.NkspCoreFn
import LinuxSampler.NkspExpr

/-!
# Built-in functions that compare numbers

`min()`, `max()`, `in_range()` and `sort()` multiply values and unit
factors and compare the products, as numbers of type `vmfloat`, which is
`float`. Here they are given for any rounding of integers and products to
numbers of that type; `toFloat` rounds to 24 bits.

The operator `<=` compares integers as they are. Both orders agree as
long as the integers can be told apart as `float`
(`ordering_builtins`).
-/

namespace LinuxSampler

open OpProg FloatRound

/-- The conversion of a number to `vmfloat`. -/
def toFloat : ℚ → ℚ := roundSig 23

theorem toFloat_mono {q r : ℚ} (h : q ≤ r) : toFloat q ≤ toFloat r := roundSig_mono 23 h

theorem toFloat_toFloat (q : ℚ) : toFloat (toFloat q) = toFloat q := roundSig_roundSig 23 q

namespace CoreVMFunction

/-! ## The functions -/

/-- `std::sort()` with a comparison of type `std::less`. -/
abbrev StdSort := ∀ {α : Type}, (α → α → Bool) → List α → List α

/-- The numbers a comparison tells apart by rank. -/
structure StrictWeakOrder {α : Type} (lt : α → α → Bool) : Prop where
  asymm : ∀ x y, lt x y = true → lt y x = false
  trans : ∀ x y z, lt x y = true → lt y z = true → lt x z = true
  incomp : ∀ x y z, lt x y = false → lt y z = false → lt x z = false

/-- What the standard promises of `std::sort()`. -/
def StdSort.Correct (stdSort : StdSort) : Prop :=
  ∀ {α : Type} (lt : α → α → Bool) (l : List α), StrictWeakOrder lt →
    (stdSort lt l).Perm l ∧ (stdSort lt l).Pairwise fun x y => lt y x = false

section

variable (fl : ℚ → ℚ)

/-- A value with its unit factor multiplied in. -/
def product (value unitFactor : ℚ) : ℚ := fl (fl value * unitFactor)

/-- `VMNumberExpr::evalCastReal()` -/
def evalCastFloat (infos : List ArgInfo) (arg : Nat) : FnProg ℚ :=
  if argType infos arg = .real then evalReal arg
  else do return fl (← evalInt arg)

/-- `min()` and `max()` -/
def selectFloat (id : Nat) (better : ℚ → ℚ → Bool) : VMFunction where
  id := id
  returnType infos :=
    if argType infos 0 = .real ∨ argType infos 1 = .real then .real else .int
  returnUnitType infos := argUnitType infos 0
  returnsFinal infos := argIsFinal infos 0 || argIsFinal infos 1
  exec infos :=
    if argType infos 0 = .real ∨ argType infos 1 = .real then do
      let lm ← evalCastFloat fl infos 0
      let rm ← evalCastFloat fl infos 1
      let lfactor ← unitFactor 0
      let rfactor ← unitFactor 1
      let left := better (product fl lm lfactor) (product fl rm rfactor)
      return realResult (if left then lm else rm) (if left then lfactor else rfactor)
    else do
      let lm ← evalInt 0
      let rm ← evalInt 1
      let lfactor ← unitFactor 0
      let rfactor ← unitFactor 1
      let left := better (product fl lm lfactor) (product fl rm rfactor)
      return intResult (if left then lm else rm) (if left then lfactor else rfactor)

def minFloat (id : Nat) : VMFunction :=
  selectFloat fl id fun lprod rprod => decide (lprod < rprod)

def maxFloat (id : Nat) : VMFunction :=
  selectFloat fl id fun lprod rprod => decide (lprod > rprod)

/-- Between the bounds, which are swapped if they are the wrong way round. -/
def isWithin (needle lo hi : ℚ) : Bool :=
  if lo > hi then decide (needle ≥ hi ∧ needle ≤ lo) else decide (needle ≥ lo ∧ needle ≤ hi)

/-- `in_range()` -/
def inRangeFloat (id : Nat) : VMFunction :=
  intFunction id fun infos => do
    let needle ← evalCastFloat fl infos 0
    let lo ← evalCastFloat fl infos 1
    let hi ← evalCastFloat fl infos 2
    let needle := product fl needle (← unitFactor 0)
    let lo := product fl lo (← unitFactor 1)
    let hi := product fl hi (← unitFactor 2)
    return intResult (if isWithin needle lo hi then 1 else 0) noFactor

/-- The comparison of elements: `operator<` or, for descending order, `operator>`. -/
def elementLess {α : Type} (ascending : Bool) (value : α → ℚ) (x y : α × ℚ) : Bool :=
  if ascending then decide (product fl (value x.1) x.2 < product fl (value y.1) y.2)
  else decide (product fl (value x.1) x.2 > product fl (value y.1) y.2)

def sortElementsFloat {α : Type} (stdSort : StdSort) (ascending : Bool) (value : α → ℚ)
    (element : Nat → FnProg α) (assign : Nat → α → FnProg Unit) (n : Nat) :
    FnProg FnResult := do
  let elements ← readElements element n 0
  writeElements assign (stdSort (elementLess fl ascending value) elements) 0
  return emptyResult .success

def sortFloat (stdSort : StdSort) (id : Nat) : VMFunction :=
  emptyFunction id fun infos => do
    let descending ← sortDirection infos
    let n ← arraySize 0
    if argType infos 0 = .intArr then
      sortElementsFloat fl stdSort (decide (descending = 0)) (fun v : Int => (v : ℚ))
        (evalIntElement 0) (assignIntElement 0) n.toNat
    else
      sortElementsFloat fl stdSort (decide (descending = 0)) (fun v : ℚ => v)
        (evalRealElement 0) (assignRealElement 0) n.toNat

end

/-! ## Exact numbers -/

theorem ite_isWithin (needle lo hi : ℚ) :
    (if isWithin needle lo hi then (1 : Int) else 0) =
      if Min.min lo hi ≤ needle ∧ needle ≤ Max.max lo hi then 1 else 0 := by
  unfold isWithin
  by_cases h : lo > hi
  · simp [h, min_eq_right h.le, max_eq_left h.le]
  · simp [h, min_eq_left (not_lt.mp h), max_eq_right (not_lt.mp h)]

/-- A sort that keeps the order of elements it can not tell apart. -/
def stableSort : StdSort := fun lt l => l.mergeSort fun x y => !lt y x

/-! ## Arguments without metric prefix -/

/-- Arguments that evaluate to the given integers, without unit factor. The first
one may be an array instead; its elements are the state. -/
def intArgs (ints : List Int) : Machine fnSig (List (Int × ℚ))
  | .evalInt i, s => (ints.getD i 0, s)
  | .evalReal _, s => ((0 : ℚ), s)
  | .evalStr _, s => ("", s)
  | .unitFactor _, s => (noFactor, s)
  | .arraySize _, s => ((s.length : Int), s)
  | .evalIntElement _ i, s => ((s.getD i (0, noFactor)).1, s)
  | .evalRealElement _ _, s => ((0 : ℚ), s)
  | .unitFactorOfElement _ i, s => ((s.getD i (0, noFactor)).2, s)
  | .assignIntElement _ i v, s => ((), s.modify i fun x => (v, x.2))
  | .assignRealElement _ _ _, s => ((), s)
  | .assignElementUnitFactor _ i f, s => ((), s.modify i fun x => (x.1, f))
  | .assignInt _ _ _, s => ((), s)
  | .convert _, s => ((), s)
  | .setSuspendMicroseconds _, s => ((), s)
  | .engineRead _, s => ((0 : Int), s)
  | .engineWrite _ _, s => ((), s)

/-- What a function of integers answers. -/
def answer (fn : VMFunction) (infos : List ArgInfo) (ints : List Int) : FnValue :=
  (run (intArgs ints) (fn.exec infos) []).val.value

/-- The operator `<=` of integers with the same unit factor. -/
def lessOrEqual [Platform] (a b : Int) : Bool := evalRelation .lessOrEqual (.int a) (.int b)

theorem lessOrEqual_iff [Platform] {a b : Int} : lessOrEqual a b = true ↔ a ≤ b := by
  simp [lessOrEqual, evalRelation, Number.le]

/-- All arguments are integers. -/
def AllInt (infos : List ArgInfo) : Prop := ∀ info ∈ infos, info.exprType = .int

theorem AllInt.argType_ne {infos : List ArgInfo} (h : AllInt infos) (i : Nat) :
    argType infos i ≠ .real := by
  unfold argType
  cases hi : infos[i]? with
  | none => simp
  | some info => simp [h info (List.mem_of_getElem? hi)]

theorem answer_selectFloat {infos : List ArgInfo} (h : AllInt infos) (id : Nat)
    (better : ℚ → ℚ → Bool) (a b : Int) :
    answer (selectFloat toFloat id better) infos [a, b] =
      .int (if better (toFloat a) (toFloat b) then a else b) noFactor := by
  have hprod (v : Int) : product toFloat v noFactor = toFloat v := by
    rw [product, noFactor, mul_one, toFloat_toFloat]
  unfold answer selectFloat
  simp only [h.argType_ne, or_self, if_false]
  show FnValue.int (if better (product toFloat a noFactor) (product toFloat b noFactor)
    then a else b) (if _ then noFactor else noFactor) = _
  rw [ite_self, hprod, hprod]

theorem answer_inRangeFloat {infos : List ArgInfo} (h : AllInt infos) (id : Nat)
    (x a b : Int) :
    answer (inRangeFloat toFloat id) infos [x, a, b] =
      .int (if Min.min (toFloat a) (toFloat b) ≤ toFloat x ∧
        toFloat x ≤ Max.max (toFloat a) (toFloat b) then 1 else 0) noFactor := by
  have hprod (v : Int) : product toFloat (toFloat v) noFactor = toFloat v := by
    rw [product, noFactor, mul_one, toFloat_toFloat, toFloat_toFloat]
  unfold answer inRangeFloat
  simp only [intFunction, evalCastFloat, h.argType_ne, if_false]
  show FnValue.int (if isWithin (product toFloat (toFloat x) noFactor)
    (product toFloat (toFloat a) noFactor) (product toFloat (toFloat b) noFactor)
      then 1 else 0) noFactor = _
  rw [hprod, hprod, hprod, ite_isWithin]

/-! ## Sorting -/

theorem strictWeakOrder_elementLess {α : Type} (fl : ℚ → ℚ) (ascending : Bool)
    (value : α → ℚ) : StrictWeakOrder (elementLess fl ascending value) := by
  cases ascending with
  | true =>
      refine ⟨fun x y h => ?_, fun x y z h h' => ?_, fun x y z h h' => ?_⟩
      · exact decide_eq_false (of_decide_eq_true h).asymm
      · exact decide_eq_true ((of_decide_eq_true h).trans (of_decide_eq_true h'))
      · exact decide_eq_false (not_lt.mpr
          ((not_lt.mp (of_decide_eq_false h')).trans (not_lt.mp (of_decide_eq_false h))))
  | false =>
      refine ⟨fun x y h => ?_, fun x y z h h' => ?_, fun x y z h h' => ?_⟩
      · exact decide_eq_false (of_decide_eq_true h).asymm
      · exact decide_eq_true (gt_trans (of_decide_eq_true h) (of_decide_eq_true h'))
      · exact decide_eq_false (not_lt.mpr
          ((not_lt.mp (of_decide_eq_false h)).trans (not_lt.mp (of_decide_eq_false h'))))

/-- All elements are read first. -/
theorem run_readElements (ints : List Int) (s : List (Int × ℚ)) (n i : Nat)
    (h : i + n = s.length) :
    (run (intArgs ints) (readElements (evalIntElement 0) n i) s).val = s.drop i ∧
      (run (intArgs ints) (readElements (evalIntElement 0) n i) s).state = s := by
  induction n generalizing i with
  | zero => exact ⟨(List.drop_eq_nil_of_le (by omega)).symm, rfl⟩
  | succ n ih =>
      obtain ⟨hval, hstate⟩ := ih (i + 1) (by omega)
      have hi : i < s.length := by omega
      have hget : s.getD i (0, noFactor) = s[i] := by
        rw [List.getD_eq_getElem?_getD, List.getElem?_eq_getElem hi]
        rfl
      simp only [readElements, Prog.bind_eq, run_bind]
      constructor
      · show s.getD i (0, noFactor) ::
          (run (intArgs ints) (readElements (evalIntElement 0) n (i + 1)) s).val = _
        rw [hval, hget, List.drop_eq_getElem_cons hi]
      · exact hstate

/-- Then they are written, from element `i` on. -/
theorem run_writeElements (ints : List Int) (s l : List (Int × ℚ)) (i : Nat)
    (h : i + l.length = s.length) :
    (run (intArgs ints) (writeElements (assignIntElement 0) l i) s).state =
      s.take i ++ l := by
  induction l generalizing s i with
  | nil =>
      rw [List.length_nil, Nat.add_zero] at h
      rw [h, List.take_length, List.append_nil]
      rfl
  | cons x l ih =>
      obtain ⟨value, factor⟩ := x
      rw [List.length_cons] at h
      have hset : (s.modify i fun y => (value, y.2)).modify i (fun y => (y.1, factor)) =
          s.set i (value, factor) := by
        apply List.ext_getElem?
        intro j
        by_cases hij : i = j
        · subst hij
          simp [show i < s.length by omega]
        · simp [hij]
      show (run (intArgs ints) (writeElements (assignIntElement 0) l (i + 1))
        ((s.modify i fun y => (value, y.2)).modify i fun y => (y.1, factor))).state = _
      rw [hset, ih (s.set i (value, factor)) (i + 1) (by rw [List.length_set]; omega),
        List.take_succ_eq_append_getElem (by rw [List.length_set]; omega),
        List.take_set_of_le (by omega), List.getElem_set_self, List.append_assoc]
      rfl

/-- Without second argument, or if that is 0. -/
def isAscending (infos : List ArgInfo) (direction : Int) : Bool :=
  decide (infos.length < 2 ∨ direction = 0)

/-- The array after `sort()`. -/
def sorted (stdSort : StdSort) (infos : List ArgInfo) (direction : Int)
    (array : List (Int × ℚ)) : List (Int × ℚ) :=
  (run (intArgs [0, direction]) ((sortFloat toFloat stdSort 0).exec infos) array).state

theorem run_sortElements {stdSort : StdSort} (hsort : stdSort.Correct) (ascending : Bool)
    (ints : List Int) (array : List (Int × ℚ)) :
    (run (intArgs ints) (sortElementsFloat toFloat stdSort ascending (fun v : Int => (v : ℚ))
      (evalIntElement 0) (assignIntElement 0) array.length) array).state =
        stdSort (elementLess toFloat ascending fun v : Int => (v : ℚ)) array := by
  obtain ⟨hval, hstate⟩ := run_readElements ints array array.length 0 (Nat.zero_add _)
  have hlength := (hsort _ array
    (strictWeakOrder_elementLess toFloat ascending fun v : Int => (v : ℚ))).1.length_eq
  simp only [sortElementsFloat, Prog.bind_eq, run_bind, hval, hstate, List.drop_zero]
  refine (run_writeElements ints array _ 0 ?_).trans rfl
  rw [Nat.zero_add]
  exact hlength

theorem sorted_eq {stdSort : StdSort} (hsort : stdSort.Correct) {infos : List ArgInfo}
    (h : argType infos 0 = .intArr) (direction : Int) (array : List (Int × ℚ)) :
    sorted stdSort infos direction array =
      stdSort (elementLess toFloat (isAscending infos direction) fun v : Int => (v : ℚ))
        array := by
  have hdirection : (run (intArgs [0, direction]) (sortDirection infos) array).state = array ∧
      decide ((run (intArgs [0, direction]) (sortDirection infos) array).val = 0) =
        isAscending infos direction := by
    unfold sortDirection isAscending
    split
    · rename_i hlt
      exact ⟨rfl, by simp [hlt]; rfl⟩
    · rename_i hlt
      exact ⟨rfl, by simp [hlt]; rfl⟩
  simp only [sorted, sortFloat, emptyFunction, Prog.bind_eq, run_bind, h, if_true]
  rw [hdirection.1, hdirection.2]
  exact run_sortElements hsort _ _ array

/-! ## Agreement with the operator -/

variable {a b x : Int}

theorem min_laws : (if toFloat a < toFloat b then a else b) ≤ a ∧
    (if toFloat a < toFloat b then a else b) ≤ b ↔ ¬ (a < b ∧ toFloat a = toFloat b) := by
  split
  · rename_i hlt
    have hab : a < b := lt_of_not_ge fun hge => absurd (toFloat_mono (Int.cast_le.mpr hge))
      (not_le.mpr hlt)
    simp [hab.le, hlt.ne]
  · rename_i hlt
    rw [not_lt] at hlt
    constructor
    · rintro ⟨hle, -⟩ ⟨hab, -⟩
      omega
    · intro h
      refine ⟨le_of_not_gt fun hab => h ⟨hab, ?_⟩, le_rfl⟩
      exact le_antisymm (toFloat_mono (Int.cast_le.mpr hab.le)) hlt

theorem max_laws : a ≤ (if toFloat a > toFloat b then a else b) ∧
    b ≤ (if toFloat a > toFloat b then a else b) ↔ ¬ (b < a ∧ toFloat a = toFloat b) := by
  split
  · rename_i hgt
    have hab : b < a := lt_of_not_ge fun hge => absurd (toFloat_mono (Int.cast_le.mpr hge))
      (not_le.mpr hgt)
    simp [hab.le, hgt.ne']
  · rename_i hgt
    rw [gt_iff_lt, not_lt] at hgt
    constructor
    · rintro ⟨hle, -⟩ ⟨hab, -⟩
      omega
    · intro h
      refine ⟨le_of_not_gt fun hab => h ⟨hab, ?_⟩, le_rfl⟩
      exact le_antisymm hgt (toFloat_mono (Int.cast_le.mpr hab.le))

theorem toFloat_min (a b : Int) :
    toFloat (Min.min a b : Int) = Min.min (toFloat a) (toFloat b) :=
  Monotone.map_min fun _ _ h => toFloat_mono (Int.cast_le.mpr h)

theorem toFloat_max (a b : Int) :
    toFloat (Max.max a b : Int) = Max.max (toFloat a) (toFloat b) :=
  Monotone.map_max fun _ _ h => toFloat_mono (Int.cast_le.mpr h)

/-- Rounding brings a number that is out of range into it only by making it a bound. -/
theorem in_range_laws :
    ((Min.min (toFloat a) (toFloat b) ≤ toFloat x ∧ toFloat x ≤ Max.max (toFloat a) (toFloat b)) ↔
      (Min.min a b ≤ x ∧ x ≤ Max.max a b)) ↔
    ¬ (x < Min.min a b ∧ toFloat x = toFloat (Min.min a b : Int) ∨
      Max.max a b < x ∧ toFloat x = toFloat (Max.max a b : Int)) := by
  rw [← toFloat_min, ← toFloat_max]
  have hle : Min.min a b ≤ Max.max a b := min_le_max
  generalize Min.min a b = lo at hle ⊢
  generalize Max.max a b = hi at hle ⊢
  have hmono {m n : Int} (h : m ≤ n) : toFloat m ≤ toFloat n := toFloat_mono (Int.cast_le.mpr h)
  rcases lt_or_ge x lo with hlt | hge
  · have hx := hmono hlt.le
    have hhi := hmono (hlt.le.trans hle)
    simp only [hlt, hhi, not_le.mpr hlt, not_lt.mpr (hlt.le.trans hle), true_and, false_and,
      and_true, or_false, iff_false]
    exact ⟨fun h heq => h heq.ge, fun h hle => h (le_antisymm hx hle)⟩
  · rcases lt_or_ge hi x with hgt | hle'
    · have hx := hmono hgt.le
      have hlo := hmono hge
      simp only [hgt, hlo, not_le.mpr hgt, not_lt.mpr hge, true_and, false_and, and_false,
        false_or, iff_false]
      exact ⟨fun h heq => h heq.le, fun h hle => h (le_antisymm hle hx)⟩
    · simp [hge, hle', hmono hge, hmono hle', not_lt.mpr hge, not_lt.mpr hle']

theorem truth_laws {p q : Prop} [Decidable p] :
    (∃ r : Int, (if p then 1 else 0) = r ∧ (r = 0 ∨ r = 1) ∧ (r = 1 ↔ q)) ↔ (p ↔ q) := by
  by_cases hp : p
  · simp [hp]
  · simp [hp]

theorem pair_sublist {α : Type} {x y : α} {l : List α} (hx : x ∈ l) (hy : y ∈ l) (hne : x ≠ y) :
    List.Sublist [x, y] l ∨ List.Sublist [y, x] l := by
  induction l with
  | nil => cases hx
  | cons z l ih =>
      rcases List.mem_cons.mp hx with rfl | hx'
      · have hy' := (List.mem_cons.mp hy).resolve_left hne.symm
        exact .inl ((List.singleton_sublist.mpr hy').cons_cons x)
      · rcases List.mem_cons.mp hy with rfl | hy'
        · exact .inr ((List.singleton_sublist.mpr hx').cons_cons y)
        · exact (ih hx' hy').imp (.cons z) (.cons z)

section

variable {α : Type} {lt : α → α → Bool} (hlt : StrictWeakOrder lt)
include hlt

theorem StrictWeakOrder.le_trans (x y z : α) (hxy : (!lt y x) = true) (hyz : (!lt z y) = true) :
    (!lt z x) = true := by
  rw [Bool.not_eq_true'] at hxy hyz ⊢
  exact hlt.incomp z y x hyz hxy

theorem StrictWeakOrder.le_total (x y : α) : (!lt y x || !lt x y) = true := by
  cases hyx : lt y x with
  | false => rfl
  | true => rw [hlt.asymm y x hyx]; rfl

end

theorem correct_stableSort : StdSort.Correct stableSort := by
  intro α lt l hlt
  refine ⟨List.mergeSort_perm _ _, ?_⟩
  refine (List.pairwise_mergeSort hlt.le_trans hlt.le_total l).imp fun h => ?_
  rwa [Bool.not_eq_true'] at h

/-- A sort that reverses the order of elements it can not tell apart. -/
def reversingSort : StdSort := fun lt l => stableSort lt l.reverse

theorem correct_reversingSort : StdSort.Correct reversingSort := by
  intro α lt l hlt
  obtain ⟨hperm, hsorted⟩ := correct_stableSort lt l.reverse hlt
  exact ⟨hperm.trans l.reverse_perm, hsorted⟩

/-- Some sort brings elements it can not tell apart in either order. -/
theorem exists_pair_sublist {α : Type} {lt : α → α → Bool} (hlt : StrictWeakOrder lt)
    {x y : α} {l : List α} (hx : x ∈ l) (hy : y ∈ l) (hne : x ≠ y) (hyx : lt y x = false) :
    ∃ stdSort : StdSort, stdSort.Correct ∧ List.Sublist [x, y] (stdSort lt l) := by
  have hle : (!lt y x) = true := by rw [hyx]; rfl
  rcases pair_sublist hx hy hne with hsub | hsub
  · exact ⟨stableSort, correct_stableSort,
      List.pair_sublist_mergeSort hlt.le_trans hlt.le_total hle hsub⟩
  · refine ⟨reversingSort, correct_reversingSort, ?_⟩
    exact List.pair_sublist_mergeSort hlt.le_trans hlt.le_total hle hsub.reverse

/-- In the order of the operator `<=`, or the other way round. -/
def InOrder [Platform] (ascending : Bool) (x y : Int) : Prop :=
  if ascending then lessOrEqual x y = true else lessOrEqual y x = true

theorem InOrder.antisymm [Platform] {ascending : Bool} (hxy : InOrder ascending a b)
    (hyx : InOrder ascending b a) : a = b := by
  unfold InOrder at hxy hyx
  cases ascending with
  | true => exact le_antisymm (lessOrEqual_iff.mp hxy) (lessOrEqual_iff.mp hyx)
  | false => exact le_antisymm (lessOrEqual_iff.mp hyx) (lessOrEqual_iff.mp hxy)

theorem elementLess_noFactor (ascending : Bool) (a b : Int) :
    elementLess toFloat ascending (fun v : Int => (v : ℚ)) (a, noFactor) (b, noFactor) =
      if ascending then decide (toFloat a < toFloat b) else decide (toFloat a > toFloat b) := by
  simp only [elementLess, product, noFactor, mul_one, toFloat_toFloat]

theorem sort_laws [Platform] {infos : List ArgInfo} (h : argType infos 0 = .intArr) (direction : Int)
    {array : List (Int × ℚ)} (hfactor : ∀ x ∈ array, x.2 = noFactor) :
    (∀ stdSort : StdSort, stdSort.Correct →
      (sorted stdSort infos direction array).Pairwise fun x y =>
        InOrder (isAscending infos direction) x.1 y.1) ↔
    ∀ x ∈ array, ∀ y ∈ array, toFloat x.1 = toFloat y.1 → x.1 = y.1 := by
  have hlt := strictWeakOrder_elementLess toFloat (isAscending infos direction)
    fun v : Int => (v : ℚ)
  have hpair {x y : Int × ℚ} (hx : x ∈ array) (hy : y ∈ array) :
      elementLess toFloat (isAscending infos direction) (fun v : Int => (v : ℚ)) x y =
        if isAscending infos direction then decide (toFloat x.1 < toFloat y.1)
        else decide (toFloat x.1 > toFloat y.1) := by
    rw [← elementLess_noFactor, ← hfactor x hx]
    nth_rewrite 2 [hfactor x hx]
    rw [← hfactor y hy]
  constructor
  · intro hsorted x hx y hy heq
    by_contra hne
    -- some sort puts the two in either order
    have horder {x y : Int × ℚ} (hx : x ∈ array) (hy : y ∈ array) (hne : x ≠ y)
        (heq : toFloat x.1 = toFloat y.1) : InOrder (isAscending infos direction) x.1 y.1 := by
      have hyx : elementLess toFloat (isAscending infos direction) (fun v : Int => (v : ℚ)) y x =
          false := by
        rw [hpair hy hx, heq]
        simp
      obtain ⟨stdSort, hsort, hsub⟩ := exists_pair_sublist hlt hx hy hne hyx
      have hpairwise := hsorted stdSort hsort
      rw [sorted_eq hsort h] at hpairwise
      have hxy := List.pairwise_pair.mp (hpairwise.sublist hsub)
      exact hxy
    have hne' : x ≠ y := fun hxy => hne (congrArg Prod.fst hxy)
    exact hne ((horder hx hy hne' heq).antisymm (horder hy hx hne'.symm heq.symm))
  · intro hdistinct stdSort hsort
    obtain ⟨hperm, hsorted⟩ := hsort _ array hlt
    rw [sorted_eq hsort h]
    refine hsorted.imp_of_mem fun {x y} hx hy hyx => ?_
    have hx := hperm.mem_iff.mp hx
    have hy := hperm.mem_iff.mp hy
    rw [hpair hy hx] at hyx
    unfold InOrder
    split at hyx
    · rename_i hasc
      rw [if_pos hasc, lessOrEqual_iff]
      refine le_of_not_gt fun hlt => hlt.ne ?_
      exact hdistinct y hy x hx (le_antisymm (toFloat_mono (Int.cast_le.mpr hlt.le))
        (not_lt.mp (of_decide_eq_false hyx)))
    · rename_i hasc
      rw [if_neg hasc, lessOrEqual_iff]
      refine le_of_not_gt fun hlt => hlt.ne ?_
      exact hdistinct x hx y hy (le_antisymm (toFloat_mono (Int.cast_le.mpr hlt.le))
        (not_lt.mp (of_decide_eq_false hyx)))

/-- The built-in functions agree with the operator `<=` on integers without
metric prefix as long as these can be told apart as `float`. -/
theorem ordering_builtins [Platform] (id : Nat) (infos : List ArgInfo) (direction : Int)
    (array : List (Int × ℚ)) :
    (AllInt infos →
      (∀ a b : Int,
        (∃ r, answer (minFloat toFloat id) infos [a, b] = .int r noFactor ∧ (r = a ∨ r = b) ∧
          lessOrEqual r a = true ∧ lessOrEqual r b = true) ↔
        ¬ (a < b ∧ toFloat a = toFloat b)) ∧
      (∀ a b : Int,
        (∃ r, answer (maxFloat toFloat id) infos [a, b] = .int r noFactor ∧ (r = a ∨ r = b) ∧
          lessOrEqual a r = true ∧ lessOrEqual b r = true) ↔
        ¬ (b < a ∧ toFloat a = toFloat b)) ∧
      ∀ x a b : Int,
        (∃ r, answer (inRangeFloat toFloat id) infos [x, a, b] = .int r noFactor ∧
          (r = 0 ∨ r = 1) ∧
          (r = 1 ↔ lessOrEqual (Min.min a b) x = true ∧ lessOrEqual x (Max.max a b) = true)) ↔
        ¬ (x < Min.min a b ∧ toFloat x = toFloat (Min.min a b : Int) ∨
          Max.max a b < x ∧ toFloat x = toFloat (Max.max a b : Int))) ∧
    (argType infos 0 = .intArr →
      (∀ stdSort : StdSort, stdSort.Correct →
        (sorted stdSort infos direction array).Perm array) ∧
      ((∀ x ∈ array, x.2 = noFactor) →
        ((∀ stdSort : StdSort, stdSort.Correct →
          (sorted stdSort infos direction array).Pairwise fun x y =>
            InOrder (isAscending infos direction) x.1 y.1) ↔
        ∀ x ∈ array, ∀ y ∈ array, toFloat x.1 = toFloat y.1 → x.1 = y.1))) := by
  refine ⟨fun hint => ⟨fun a b => ?_, fun a b => ?_, fun x a b => ?_⟩,
    fun h => ⟨fun stdSort hsort => ?_, sort_laws h direction⟩⟩
  · rw [← min_laws, minFloat, answer_selectFloat hint]
    simp only [decide_eq_true_eq, lessOrEqual_iff, FnValue.int.injEq, and_true]
    refine ⟨?_, fun hle => ⟨_, rfl, ?_, hle⟩⟩
    · rintro ⟨r, rfl, -, hle⟩
      exact hle
    · split
      · exact .inl rfl
      · exact .inr rfl
  · rw [← max_laws, maxFloat, answer_selectFloat hint]
    simp only [decide_eq_true_eq, lessOrEqual_iff, FnValue.int.injEq, and_true]
    refine ⟨?_, fun hle => ⟨_, rfl, ?_, hle⟩⟩
    · rintro ⟨r, rfl, -, hle⟩
      exact hle
    · split
      · exact .inl rfl
      · exact .inr rfl
  · rw [← in_range_laws, answer_inRangeFloat hint]
    simp only [lessOrEqual_iff, FnValue.int.injEq, and_true]
    exact truth_laws
  · rw [sorted_eq hsort h]
    exact (hsort _ array (strictWeakOrder_elementLess _ _ _)).1

attribute [local instance] Platform.exact

theorem ordering_builtins_small :
    let infos : List ArgInfo := [⟨.int, .noUnit, false, true, false, false⟩,
      ⟨.int, .noUnit, false, true, false, false⟩]
    ∃ r, answer (minFloat toFloat 0) infos [5, 3] = .int r noFactor ∧ (r = 5 ∨ r = 3) ∧
      lessOrEqual r 5 = true ∧ lessOrEqual r 3 = true := by
  intro infos
  have hint : AllInt infos := by
    simp [AllInt, infos]
  exact (((ordering_builtins 0 infos 0 []).1 hint).1 5 3).mpr fun h => absurd h.1 (by decide)

/-- The integers from `2 ^ 24` on can not all be told apart as `float`. -/
theorem toFloat_collision : toFloat (16777217 : Int) = toFloat (16777216 : Int) := by
  have hlog : Int.log 2 (16777217 : ℚ) = 24 := by
    rw [Int.log_ofNat, Nat.log_eq_of_pow_le_of_lt_pow (by norm_num : 2 ^ 24 ≤ 16777217)
      (by norm_num)]
    rfl
  have hulp : ulp 23 (16777217 : ℚ) = 2 := by
    rw [ulp, hlog]
    norm_num
  have hfloor : ⌊(16777217 / 2 : ℚ)⌋ = 8388608 := by
    rw [Int.floor_eq_iff]
    norm_num
  have hhalf : Int.fract (16777217 / 2 : ℚ) = 1 / 2 := by
    rw [Int.fract, hfloor]
    norm_num
  -- a tie between two significands, of which the even one is less
  have hround : roundEven (16777217 / 2 : ℚ) = 8388608 := by
    rw [roundEven, if_pos (.inr ⟨hhalf, by rw [hfloor]; rfl⟩), hfloor]
  have hodd : toFloat (16777217 : Int) = 16777216 := by
    rw [toFloat, roundSig, if_neg (by norm_num), roundPos]
    push_cast
    rw [hulp, hround]
    norm_num
  have heven : toFloat (16777216 : Int) = (16777216 : Int) := roundSig_intCast (by norm_num)
  rw [hodd, heven]
  norm_num

/-- The smaller one of `2 ^ 24` and `2 ^ 24 + 1` is not found. -/
theorem not_ordering_builtins :
    ¬ ∀ (infos : List ArgInfo) (a b : Int), AllInt infos →
      -2 ^ 63 ≤ a → a < 2 ^ 63 → -2 ^ 63 ≤ b → b < 2 ^ 63 →
      ∃ r, answer (minFloat toFloat 0) infos [a, b] = .int r noFactor ∧ (r = a ∨ r = b) ∧
        lessOrEqual r a = true ∧ lessOrEqual r b = true := by
  intro h
  have hint : AllInt [] := fun _ hinfo => by cases hinfo
  obtain ⟨r, hr, -, hle, -⟩ := h [] 16777216 16777217 hint (by decide) (by decide) (by decide)
    (by decide)
  rw [minFloat, answer_selectFloat hint, toFloat_collision] at hr
  rw [if_neg (by simp)] at hr
  cases hr
  exact absurd (lessOrEqual_iff.mp hle) (by decide)

end CoreVMFunction

end LinuxSampler
