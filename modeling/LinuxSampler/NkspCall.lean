import LinuxSampler.NkspRelate

/-!
# Nested function calls

All calls of a built-in function share its `VMFunction` object, which
holds one bound result object. A call binds its own result object for
the time the function executes and restores the binding it found, so
that the calls of a function in the arguments of another call of it
leave their results in their own result objects.

`callByValue` is a call that needs no binding: it applies the function to
the values of its arguments and hands the result on. Every expression
runs as it would if all its calls were of that kind
(`Expression.calls_by_value`).
-/

namespace LinuxSampler

open OpProg Policy ExprNode

/-! ## The binding of a function that answers numbers -/

/-- The members of `VMNumberResultFunction`: the bound result object, by its class. -/
structure VMNumberResultFunction where
  intResult : Option Nat
  realResult : Option Nat

namespace VMNumberResultFunction

variable (isIntResult isRealResult : Nat → Bool)

/-- The two casts of `bindResult()`. -/
def bindResult (res : Option Nat) : VMNumberResultFunction :=
  let intResult := res.filter isIntResult
  if intResult.isSome then ⟨intResult, none⟩ else ⟨none, res.filter isRealResult⟩

def boundResult (fn : VMNumberResultFunction) : Option Nat :=
  if fn.intResult.isSome then fn.intResult else fn.realResult

/-- Binding what was bound before restores both members. -/
theorem bindResult_boundResult (res : Option Nat) :
    bindResult isIntResult isRealResult (bindResult isIntResult isRealResult res).boundResult =
      bindResult isIntResult isRealResult res := by
  cases res with
  | none => rfl
  | some r =>
      cases hint : isIntResult r with
      | true => simp [bindResult, boundResult, Option.filter, hint]
      | false =>
          cases hreal : isRealResult r <;>
            simp [bindResult, boundResult, Option.filter, hint, hreal]

end VMNumberResultFunction

/-! ## Calls by value -/

namespace FnValue

variable (node : Nat)

/-- The integer in the result object of `node` after the function left a value in
it: a value of another class leaves it as it is. -/
def toInt : FnValue → MemProg Int
  | .int v _ => pure v
  | _ => read (.resultInt node)

def toReal : FnValue → MemProg ℚ
  | .real v _ => pure v
  | _ => read (.resultReal node)

def toStr : FnValue → MemProg String
  | .str v => pure v
  | _ => read (.resultStr node)

def toFactor : FnValue → MemProg ℚ
  | .int _ f | .real _ f => pure f
  | _ => read (.resultUnitFactor node)

end FnValue

section

variable [Platform]

namespace ExprNode

/-- What the function does with its arguments. -/
def applyFn (fn : VMFunction) (args : List ExprNode) : MemProg FnResult :=
  (fn.exec (args.map argInfo)).interp (performFnOp args)

/-- Apply the function, keep the result in the call's own object and hand it on. -/
def execByValue (node : Nat) (fn : VMFunction) (args : List ExprNode) : MemProg FnResult := do
  let res ← applyFn fn args
  storeResult (some node) res
  return res

def callByValue (node : Nat) (fn : Option VMFunction) (args : List ExprNode) : ExprNode :=
  match fn with
  | none => functionCall node none args
  | some fn =>
      let type := fn.returnType (args.map argInfo)
      let unitType := fn.returnUnitType (args.map argInfo)
      { functionCall node (some fn) args with
        evalInt := do
          let res ← execByValue node fn args
          if type = .int then res.value.toInt node else return 0
        evalReal := do
          let res ← execByValue node fn args
          if type = .real then res.value.toReal node else return 0
        evalStr := do
          let res ← execByValue node fn args
          if type = .string then res.value.toStr node else return ""
        evalCastToStr := do
          let res ← execByValue node fn args
          match type with
          | .string => res.value.toStr node
          | .real => castRealToStr (res.value.toReal node) unitType (res.value.toFactor node)
          | .int => castIntToStr (res.value.toInt node) unitType (res.value.toFactor node)
          | _ => return "" }

end ExprNode

/-- The object of an expression with calls by value. -/
def Expression.byValue : Expression → ExprNode := Expression.nodeWith ExprNode.callByValue

def Expression.byValues : List Expression → List ExprNode :=
  Expression.nodesWith ExprNode.callByValue

end

/-! ## Memories that differ in bindings -/

/-- The memories differ in what result objects are bound only. -/
structure SameButBound (s s' : Store Mem) : Prop where
  poly : s.poly = s'.poly
  global : ∀ c : Cell, c.isBoundResult = false → s.global c = s'.global c

/-- Bindings, and result objects of calls other than `own`. -/
def Cell.IsForeign (own : Nat → Prop) (c : Cell) : Prop :=
  c.isBoundResult = true ∨ ∃ n ∈ c.resultOf, ¬ own n

/-- The foreign cells are as before. -/
def KeepsForeign (own : Nat → Prop) (s s' : Store Mem) : Prop :=
  ∀ c : Cell, c.IsForeign own → s'.global c = s.global c

variable {own : Nat → Prop} {α β : Type}

theorem Cell.IsForeign.not_polyphonic {c : Cell} (h : c.IsForeign own) :
    c.isPolyphonic = false := by
  rcases h with h | ⟨n, h, -⟩
  · cases c <;> first | rfl | cases h
  · cases c <;> first | rfl | cases h

theorem Cell.IsForeign.not_otherState {c : Cell} (h : c.isOtherState = true) :
    ¬ c.IsForeign own := by
  rintro (hb | ⟨n, hn, -⟩)
  · simp [isOtherState, hb] at h
  · rw [Option.mem_def] at hn
    simp [isOtherState, hn] at h

theorem SameButBound.refl (s : Store Mem) : SameButBound s s := ⟨rfl, fun _ _ => rfl⟩

theorem SameButBound.getCell {s s' : Store Mem} (h : SameButBound s s') {c : Cell}
    (hc : c.isBoundResult = false) : getCell s c = getCell s' c := by
  obtain ⟨hpoly, hglobal⟩ := h
  cases hp : c.isPolyphonic with
  | true =>
      cases c with
      | polyphonicInt i | polyphonicReal i | polyphonicUnitFactor i =>
          simp only [LinuxSampler.getCell, hpoly]
      | _ => cases hp
  | false =>
      rw [getCell_of_not_polyphonic s hp, getCell_of_not_polyphonic s' hp]
      exact hglobal c hc

theorem global_setCell_ne (s : Store Mem) {c c' : Cell} (h : c' ≠ c) (v : c.Val) :
    (setCell s c v).global c' = s.global c' := by
  cases hp : c.isPolyphonic with
  | true => cases c <;> first | rfl | cases hp
  | false =>
      rw [setCell_of_not_polyphonic s hp]
      exact Function.update_of_ne h ..

theorem SameButBound.setCell {s s' : Store Mem} (h : SameButBound s s') (c : Cell) (v : c.Val) :
    SameButBound (setCell s c v) (setCell s' c v) := by
  obtain ⟨hpoly, hglobal⟩ := h
  cases hp : c.isPolyphonic with
  | true =>
      cases c with
      | polyphonicInt i | polyphonicReal i | polyphonicUnitFactor i =>
          exact ⟨by simp only [LinuxSampler.setCell, hpoly], hglobal⟩
      | _ => cases hp
  | false =>
      rw [setCell_of_not_polyphonic s hp, setCell_of_not_polyphonic s' hp]
      refine ⟨hpoly, fun c' hc' => ?_⟩
      by_cases heq : c' = c
      · subst heq
        exact (Function.update_self ..).trans (Function.update_self ..).symm
      · exact (Function.update_of_ne heq ..).trans
          ((hglobal c' hc').trans (Function.update_of_ne heq ..).symm)

/-- Writing a binding is not seen. -/
theorem SameButBound.setBound {s s' : Store Mem} (h : SameButBound s s') (fn : Nat)
    (res : Option Nat) : SameButBound (LinuxSampler.setCell s (.boundResult fn) res) s' := by
  refine ⟨h.poly, fun c hc => ?_⟩
  rw [global_setCell_ne s (by rintro rfl; cases hc)]
  exact h.global c hc

theorem KeepsForeign.refl (s : Store Mem) : KeepsForeign own s s := fun _ _ => rfl

theorem KeepsForeign.trans {s t u : Store Mem} (h : KeepsForeign own s t)
    (h' : KeepsForeign own t u) : KeepsForeign own s u :=
  fun c hc => (h' c hc).trans (h c hc)

theorem KeepsForeign.setCell (s : Store Mem) {c : Cell} (hc : ¬ c.IsForeign own) (v : c.Val) :
    KeepsForeign own s (setCell s c v) :=
  fun c' hc' => global_setCell_ne s (by rintro rfl; exact hc hc') v

/-- Memories that differ in no binding either are the same. -/
theorem SameButBound.eq {s s' : Store Mem} (h : SameButBound s s')
    (hbound : ∀ c : Cell, c.isBoundResult = true → s.global c = s'.global c) : s = s' := by
  obtain ⟨global, poly⟩ := s
  obtain ⟨global', poly'⟩ := s'
  obtain ⟨hpoly, hglobal⟩ := h
  have hmem : global = global' := by
    funext c
    cases hc : c.isBoundResult with
    | true => exact hbound c hc
    | false => exact hglobal c hc
  rw [hmem, show poly = poly' from hpoly]

/-! ## Runs that differ in bindings -/

/-- Two runs from memories that differ in bindings only end alike, and keep
all foreign cells. -/
structure Alike (own : Nat → Prop) (s s' : Store Mem)
    (o o' : OpProg.Outcome memSig α (Store Mem)) : Prop where
  val : o.val = o'.val
  same : SameButBound o.state o'.state
  keeps : KeepsForeign own s o.state
  keeps' : KeepsForeign own s' o'.state

/-- From memories that differ in bindings only the programs run alike. -/
def RunsAlike (own : Nat → Prop) (p q : MemProg α) : Prop :=
  ∀ s s', SameButBound s s' → Alike own s s' (run memMachine p s) (run memMachine q s')

theorem Alike.of_state {s s' t t' : Store Mem} {a : α} {tr tr' : List MemOp}
    (h : SameButBound t t') (hk : KeepsForeign own s t) (hk' : KeepsForeign own s' t') :
    Alike own s s' (⟨a, t, tr⟩ : OpProg.Outcome memSig α (Store Mem)) ⟨a, t', tr'⟩ :=
  ⟨rfl, h, hk, hk'⟩

theorem RunsAlike.bind {p q : MemProg α} {f g : α → MemProg β} (h : RunsAlike own p q)
    (hf : ∀ a, RunsAlike own (f a) (g a)) : RunsAlike own (p >>= f) (q >>= g) := by
  intro s s' hs
  obtain ⟨hval, hsame, hk, hk'⟩ := h s s' hs
  rw [Prog.bind_eq, Prog.bind_eq, run_bind, run_bind, ← hval]
  obtain ⟨hval₂, hsame₂, hk₂, hk₂'⟩ := hf (run memMachine p s).val _ _ hsame
  exact ⟨hval₂, hsame₂, hk.trans hk₂, hk'.trans hk₂'⟩

/-- Evaluation as an index differs in the trace only. -/
theorem run_inIndex (p : MemProg α) (s : Store Mem) :
    (run memMachine (inIndex p) s).val = (run memMachine p s).val ∧
      (run memMachine (inIndex p) s).state = (run memMachine p s).state := by
  induction p generalizing s with
  | pure a => exact ⟨rfl, rfl⟩
  | op o k ih => cases o <;> exact ih _ _

theorem RunsAlike.inIndex {p q : MemProg α} (h : RunsAlike own p q) :
    RunsAlike own (inIndex p) (inIndex q) := by
  intro s s' hs
  obtain ⟨hval, hsame, hk, hk'⟩ := h s s' hs
  obtain ⟨hv, ht⟩ := run_inIndex p s
  obtain ⟨hv', ht'⟩ := run_inIndex q s'
  exact ⟨hv.trans (hval.trans hv'.symm), by rw [ht, ht']; exact hsame, by rw [ht]; exact hk,
    by rw [ht']; exact hk'⟩

/-- Programs that run alike whatever is bound. -/
def runsAlike (own : Nat → Prop) : ProgRel where
  rel := RunsAlike own
  mayWrite c := ¬ c.IsForeign own
  pure _ s s' hs := .of_state hs (.refl s) (.refl s')
  bind := RunsAlike.bind
  inIndex := RunsAlike.inIndex
  read _ hc s s' hs := ⟨hs.getCell hc, hs, .refl s, .refl s'⟩
  write c v hc s s' hs := ⟨rfl, hs.setCell c v, .setCell s hc v, .setCell s' hc v⟩
  note _ s s' hs := .of_state hs (.refl s) (.refl s')
  otherState _ hc := Cell.IsForeign.not_otherState hc

/-! ## Result objects -/

/-- The result object of `node` holds the value. -/
def FnValue.HeldBy (v : FnValue) (node : Nat) (s : Store Mem) : Prop :=
  match v with
  | .empty => True
  | .int i f => s.global (.resultInt node) = i ∧ s.global (.resultUnitFactor node) = f
  | .real r f => s.global (.resultReal node) = r ∧ s.global (.resultUnitFactor node) = f
  | .str t => s.global (.resultStr node) = t

theorem global_setCell_self (s : Store Mem) {c : Cell} (hc : c.isPolyphonic = false)
    (v : c.Val) : (setCell s c v).global c = v := by
  rw [setCell_of_not_polyphonic s hc]
  exact Function.update_self ..

/-- Cells of a result object are written without effect on others. -/
theorem getCell_setCell_result {node : Nat} {c d : Cell} (s : Store Mem)
    (hd : d.resultOf = some node) (hc : c.resultOf ≠ some node) (v : d.Val) :
    getCell (setCell s d v) c = getCell s c :=
  getCell_setCell_of_ne s (by rintro rfl; exact hc hd) v

/-- A number is written to its object and nowhere else. -/
theorem stored_number {node : Nat} {d : Cell} (s : Store Mem) (flags : StmtFlags) (v : d.Val)
    (f : ℚ) (hd : d.resultOf = some node) (hpoly : d.isPolyphonic = false)
    (hne : d ≠ .resultUnitFactor node) :
    let t := setCell (setCell (setCell s (.resultFlags node) flags) d v) (.resultUnitFactor node) f
    (t.global d = v ∧ t.global (.resultUnitFactor node) = f) ∧
      ∀ c : Cell, c.resultOf ≠ some node → getCell t c = getCell s c := by
  intro t
  refine ⟨⟨?_, ?_⟩, fun c hc => ?_⟩
  · exact (global_setCell_ne _ hne _).trans (global_setCell_self _ hpoly v)
  · exact global_setCell_self (c := .resultUnitFactor node) _ rfl f
  · calc getCell t c
        = getCell (setCell (setCell s (.resultFlags node) flags) d v) c :=
          getCell_setCell_result _ (d := .resultUnitFactor node) rfl hc f
      _ = getCell (setCell s (.resultFlags node) flags) c :=
          getCell_setCell_result _ hd hc v
      _ = getCell s c :=
          getCell_setCell_result s (d := .resultFlags node) rfl hc flags

/-- A result is written to its object and nowhere else. -/
theorem run_storeResult (node : Nat) (res : FnResult) (s : Store Mem) :
    res.value.HeldBy node (run memMachine (storeResult (some node) res) s).state ∧
      ∀ c : Cell, c.resultOf ≠ some node →
        getCell (run memMachine (storeResult (some node) res) s).state c = getCell s c := by
  obtain ⟨flags, value⟩ := res
  cases value with
  | empty =>
      exact ⟨trivial, fun c hc =>
        getCell_setCell_result s (d := .resultFlags node) rfl hc flags⟩
  | int v f => exact stored_number (d := .resultInt node) s flags v f rfl rfl (by simp)
  | real v f => exact stored_number (d := .resultReal node) s flags v f rfl rfl (by simp)
  | str v =>
      refine ⟨global_setCell_self (c := .resultStr node) _ rfl v, fun c hc => ?_⟩
      exact (getCell_setCell_result _ (d := .resultStr node) rfl hc v).trans
        (getCell_setCell_result s (d := .resultFlags node) rfl hc flags)

/-! ## Calls -/

/-- Writing other cells leaves a result object as it is. -/
theorem FnValue.HeldBy.setCell {v : FnValue} {node : Nat} {s : Store Mem} (h : v.HeldBy node s)
    {c : Cell} (hc : c.resultOf = none) (w : c.Val) : v.HeldBy node (setCell s c w) := by
  have hne {c' : Cell} (hc' : c'.resultOf = some node) :
      (LinuxSampler.setCell s c w).global c' = s.global c' :=
    global_setCell_ne s (by rintro rfl; rw [hc] at hc'; cases hc') w
  cases v with
  | empty => trivial
  | int i f => exact ⟨(hne rfl).trans h.1, (hne rfl).trans h.2⟩
  | real r f => exact ⟨(hne rfl).trans h.1, (hne rfl).trans h.2⟩
  | str t => exact (hne rfl).trans h

theorem val_bind (p : MemProg α) (f : α → MemProg β) (s : Store Mem) :
    (run memMachine (p >>= f) s).val =
      (run memMachine (f (run memMachine p s).val) (run memMachine p s).state).val := by
  rw [Prog.bind_eq, run_bind]

theorem state_bind (p : MemProg α) (f : α → MemProg β) (s : Store Mem) :
    (run memMachine (p >>= f) s).state =
      (run memMachine (f (run memMachine p s).val) (run memMachine p s).state).state := by
  rw [Prog.bind_eq, run_bind]

variable {node : Nat} {fn : VMFunction}

theorem Cell.not_isForeign_of_resultOf {c : Cell} (hc : c.resultOf = some node)
    (hown : own node) : ¬ c.IsForeign own := by
  rintro (hb | ⟨n, hn, hne⟩)
  · cases c <;> first | (cases hc; done) | cases hb
  · rw [Option.mem_def, hc, Option.some_inj] at hn
    exact hne (hn ▸ hown)

section

variable [Platform] {args args' : List ExprNode}

/-- A call runs the function with its own result object bound, stores the
result and restores the binding, if the function kept its binding. -/
theorem run_execVMFn {s : Store Mem}
    (hb : getCell (run memMachine (applyFn fn args)
      (setCell s (.boundResult fn.id) (some node))).state (.boundResult fn.id) = some node) :
    let applied := run memMachine (applyFn fn args) (setCell s (.boundResult fn.id) (some node))
    (run memMachine (execVMFn node fn args) s).val = some node ∧
      (run memMachine (execVMFn node fn args) s).state =
        setCell (run memMachine (storeResult (some node) applied.val) applied.state).state
          (.boundResult fn.id) (getCell s (.boundResult fn.id)) := by
  intro applied
  have hread : (run memMachine (read (.boundResult fn.id)) applied.state).val = some node := hb
  have hrun : run memMachine (execVMFn node fn args) s =
      run memMachine (read (.boundResult fn.id) >>= fun oldRes =>
        write (.boundResult fn.id) (some node) >>= fun _ =>
          applyFn fn args >>= fun res =>
            read (.boundResult fn.id) >>= fun bound =>
              storeResult bound res >>= fun _ =>
                write (.boundResult fn.id) oldRes >>= fun _ => pure bound) s := rfl
  rw [hrun]
  simp only [val_bind, state_bind]
  refine ⟨hread, ?_⟩
  show setCell (run memMachine (storeResult
    (run memMachine (read (.boundResult fn.id)) applied.state).val applied.val) applied.state).state
      (.boundResult fn.id) (getCell s (.boundResult fn.id)) = _
  rw [hread]

/-- What a call by value hands on is stored in its result object. -/
theorem run_execByValue (node : Nat) (fn : VMFunction) (args : List ExprNode) (s : Store Mem) :
    let applied := run memMachine (applyFn fn args) s
    (run memMachine (execByValue node fn args) s).val = applied.val ∧
      (run memMachine (execByValue node fn args) s).state =
        (run memMachine (storeResult (some node) applied.val) applied.state).state := by
  have hrun : execByValue node fn args = applyFn fn args >>= fun res =>
    storeResult (some node) res >>= fun _ => pure res := rfl
  rw [hrun]
  simp only [val_bind, state_bind]
  exact ⟨rfl, rfl⟩

/-- Up to bindings, a call ends as a call by value of the same function and
leaves what that hands on in its result object. -/
theorem execVMFn_alike {s s' : Store Mem}
    (hbody : RunsAlike own (applyFn fn args) (applyFn fn args')) (hown : own node)
    (hs : SameButBound s s') :
    (run memMachine (execVMFn node fn args) s).val = some node ∧
      SameButBound (run memMachine (execVMFn node fn args) s).state
        (run memMachine (execByValue node fn args') s').state ∧
      KeepsForeign own s (run memMachine (execVMFn node fn args) s).state ∧
      KeepsForeign own s' (run memMachine (execByValue node fn args') s').state ∧
      (run memMachine (execByValue node fn args') s').val.value.HeldBy node
        (run memMachine (execVMFn node fn args) s).state := by
  obtain ⟨hval, hsame, hk, hk'⟩ := hbody _ s' (hs.setBound fn.id (some node))
  have hb : getCell (run memMachine (applyFn fn args)
      (setCell s (.boundResult fn.id) (some node))).state (.boundResult fn.id) = some node :=
    (hk (.boundResult fn.id) (.inl rfl)).trans
      (global_setCell_self s (c := .boundResult fn.id) rfl (some node))
  obtain ⟨hcall, hstate⟩ := run_execVMFn hb
  obtain ⟨hcall', hstate'⟩ := run_execByValue node fn args' s'
  rw [hcall, hstate, hcall', hstate', ← hval]
  have hstore := Expression.rel_storeResult (R := runsAlike own)
    (fun c hc => Cell.not_isForeign_of_resultOf hc hown)
    (run memMachine (applyFn fn args) (setCell s (.boundResult fn.id) (some node))).val
  obtain ⟨-, hsame₂, hk₂, hk₂'⟩ := hstore _ _ hsame
  refine ⟨rfl, hsame₂.setBound fn.id _, fun c hc => ?_, hk'.trans hk₂', ?_⟩
  · by_cases heq : c = .boundResult fn.id
    · rw [heq]
      exact global_setCell_self _ (c := .boundResult fn.id) rfl _
    · calc (setCell _ (.boundResult fn.id) (getCell s (.boundResult fn.id))).global c
          = _ := global_setCell_ne _ heq _
        _ = (setCell s (.boundResult fn.id) (some node)).global c := (hk.trans hk₂) c hc
        _ = s.global c := global_setCell_ne s heq _
  · exact (run_storeResult node _ _).1.setCell (c := .boundResult fn.id) rfl _

/-- What is done with the result object of a call is done alike with the value
that a call by value hands on. -/
theorem RunsAlike.call {f : Option Nat → MemProg α} {g : FnResult → MemProg α}
    (hbody : RunsAlike own (applyFn fn args) (applyFn fn args')) (hown : own node)
    (hfg : ∀ t t' res, SameButBound t t' → FnValue.HeldBy res.value node t →
      Alike own t t' (run memMachine (f (some node)) t) (run memMachine (g res) t')) :
    RunsAlike own (execVMFn node fn args >>= f) (execByValue node fn args' >>= g) := by
  intro s s' hs
  obtain ⟨hval, hsame, hk, hk', hheld⟩ := execVMFn_alike hbody hown hs
  obtain ⟨hval₂, hsame₂, hk₂, hk₂'⟩ := hfg _ _ _ hsame hheld
  rw [← hval] at hval₂ hsame₂ hk₂
  refine ⟨?_, ?_, ?_, ?_⟩
  · rw [val_bind, val_bind]
    exact hval₂
  · rw [state_bind, state_bind]
    exact hsame₂
  · rw [state_bind]
    exact hk.trans hk₂
  · rw [state_bind]
    exact hk'.trans hk₂'

end

section

variable {t t' : Store Mem} {v : FnValue} (hs : SameButBound t t') (hv : v.HeldBy node t)
include hs hv

/-- The value that is handed on is the one in the result object. -/
theorem yields_toInt : Yields (v.toInt node) t' (getCell t (.resultInt node)) := by
  cases v with
  | int i f => exact ⟨hv.1.symm, rfl⟩
  | _ => exact ⟨(hs.getCell (c := .resultInt node) rfl).symm, rfl⟩

theorem yields_toReal : Yields (v.toReal node) t' (getCell t (.resultReal node)) := by
  cases v with
  | real r f => exact ⟨hv.1.symm, rfl⟩
  | _ => exact ⟨(hs.getCell (c := .resultReal node) rfl).symm, rfl⟩

theorem yields_toStr : Yields (v.toStr node) t' (getCell t (.resultStr node)) := by
  cases v with
  | str u => exact ⟨hv.symm, rfl⟩
  | _ => exact ⟨(hs.getCell (c := .resultStr node) rfl).symm, rfl⟩

theorem yields_toFactor : Yields (v.toFactor node) t' (getCell t (.resultUnitFactor node)) := by
  cases v with
  | int i f | real r f => exact ⟨hv.2.symm, rfl⟩
  | _ => exact ⟨(hs.getCell (c := .resultUnitFactor node) rfl).symm, rfl⟩

omit hv in
/-- Two runs without effects that have the same value. -/
theorem Alike.of_yields {p q : MemProg α} {a : α} (hp : Yields p t a) (hq : Yields q t' a) :
    Alike own t t' (run memMachine p t) (run memMachine q t') := by
  refine ⟨hp.1.trans hq.1.symm, ?_, ?_, ?_⟩
  · rw [hp.2, hq.2]
    exact hs
  · rw [hp.2]
    exact .refl t
  · rw [hq.2]
    exact .refl t'

variable [Platform]

/-- The text of the number that is handed on, with its unit. -/
theorem alike_castIntToStr (u : StdUnit) :
    Alike own t t'
      (run memMachine (castIntToStr (read (.resultInt node)) u (read (.resultUnitFactor node))) t)
      (run memMachine (castIntToStr (v.toInt node) u (v.toFactor node)) t') :=
  .of_yields hs (((Yields.read _).evalBoth (.read _)).bind (.pure _))
    (((yields_toInt hs hv).evalBoth (yields_toFactor hs hv)).bind (.pure _))

theorem alike_castRealToStr (u : StdUnit) :
    Alike own t t'
      (run memMachine (castRealToStr (read (.resultReal node)) u (read (.resultUnitFactor node))) t)
      (run memMachine (castRealToStr (v.toReal node) u (v.toFactor node)) t') :=
  .of_yields hs (((Yields.read _).evalBoth (.read _)).bind (.pure _))
    (((yields_toReal hs hv).evalBoth (yields_toFactor hs hv)).bind (.pure _))

end

namespace Expression

/-- What an expression owns is no state of nodes. -/
theorem Owns.isNodeState {e : Expression} {c : Cell} (h : e.Owns c) : c.isNodeState = false := by
  have harray {array : ArrayExpr} (h : array.Owns c) : c.isNodeState = false := by
    cases array <;> cases c <;> first | rfl | cases h
  have hnumber {v : NumberVariable} :
      v.intCell.isNodeState = false ∧ v.realCell.isNodeState = false ∧
        v.unitFactorCell.isNodeState = false := by
    unfold NumberVariable.intCell NumberVariable.realCell NumberVariable.unitFactorCell
    cases v.polyphonic <;> exact ⟨rfl, rfl, rfl⟩
  cases e with
  | intVariable v =>
      rcases h with rfl | rfl
      · exact hnumber.1
      · exact hnumber.2.2
  | realVariable v =>
      rcases h with rfl | rfl
      · exact hnumber.2.1
      · exact hnumber.2.2
  | builtInIntVariable ptr | stringVariable memPos =>
      rw [show c = _ from h]
      rfl
  | arrayVariable array | intArrayElement n array index | realArrayElement n array index =>
      exact harray h
  | _ => cases h

theorem Owns.not_isForeign {e : Expression} {c : Cell} (h : e.Owns c) : ¬ c.IsForeign own := by
  have hnode := h.isNodeState
  rintro (hb | ⟨n, hn, -⟩)
  · cases c <;> first | (cases hb; done) | cases hnode
  · rw [Option.mem_def] at hn
    cases c <;> first | (cases hn; done) | cases hnode

/-- A call and the call by value run alike, if their arguments do. -/
theorem related_callByValue [Platform] (hown : own node) {fn : Option VMFunction}
    {es : List Expression}
    (hes : ∀ e ∈ es, e.RelatedWith (runsAlike own) callByValue) :
    (Expression.functionCall node fn es).RelatedWith (runsAlike own) callByValue := by
  cases fn with
  | none =>
      have hpure {α : Type} (a : α) : RunsAlike own (pure a : MemProg α) (pure a) :=
        (runsAlike own).pure a
      exact ⟨⟨rfl, rfl, hpure _, hpure _, hpure _, hpure _, hpure _⟩,
        fun _ => assignRelated_of_none rfl rfl rfl⟩
  | some fn =>
      have hbody : RunsAlike own (applyFn fn (nodes es)) (applyFn fn (byValues es)) :=
        rel_exec hes (.inr fun e _ c hc => hc.not_isForeign)
      have hinfos : (nodes es).map argInfo = (byValues es).map argInfo := argInfos_eq hes
      have hdefault {t t' : Store Mem} {α : Type} (a : α) (hs : SameButBound t t') :
          Alike own t t' (run memMachine (pure a : MemProg α) t)
            (run memMachine (pure a : MemProg α) t') := .of_state hs (.refl t) (.refl t')
      have hvalue {t t' : Store Mem} {c : Cell} {q : MemProg c.Val} (hs : SameButBound t t')
          (hq : Yields q t' (getCell t c)) :
          Alike own t t' (run memMachine (read c) t) (run memMachine q t') :=
        .of_yields hs (.read c) hq
      refine ⟨⟨?_, rfl, ?_, ?_, ?_, ?_, ?_⟩, fun _ => assignRelated_of_none rfl rfl rfl⟩
      · show VMExpr.info (ExprNode.functionCall node (some fn) (nodes es)).toVMExpr =
          VMExpr.info (callByValue node (some fn) (byValues es)).toVMExpr
        simp only [VMExpr.info, ExprNode.functionCall, callByValue, hinfos]
      · show RunsAlike own (evalCall _ _ _ _ _ _)
          (callByValue node (some fn) (byValues es)).evalInt
        simp only [callByValue, evalCall, hinfos]
        refine RunsAlike.call hbody hown fun t t' res hs hv => ?_
        dsimp only
        split
        · exact hvalue (c := .resultInt node) hs (yields_toInt hs hv)
        · exact hdefault _ hs
      · show RunsAlike own (evalCall _ _ _ _ _ _)
          (callByValue node (some fn) (byValues es)).evalReal
        simp only [callByValue, evalCall, hinfos]
        refine RunsAlike.call hbody hown fun t t' res hs hv => ?_
        dsimp only
        split
        · exact hvalue (c := .resultReal node) hs (yields_toReal hs hv)
        · exact hdefault _ hs
      · show RunsAlike own (evalCall _ _ _ _ _ _)
          (callByValue node (some fn) (byValues es)).evalStr
        simp only [callByValue, evalCall, hinfos]
        refine RunsAlike.call hbody hown fun t t' res hs hv => ?_
        dsimp only
        split
        · exact hvalue (c := .resultStr node) hs (yields_toStr hs hv)
        · exact hdefault _ hs
      · show RunsAlike own (callToStr _ _ _)
          (callByValue node (some fn) (byValues es)).evalCastToStr
        simp only [callByValue, callToStr, hinfos]
        refine RunsAlike.call hbody hown fun t t' res hs hv => ?_
        dsimp only
        cases fn.returnType ((byValues es).map argInfo) with
        | string => exact hvalue (c := .resultStr node) hs (yields_toStr hs hv)
        | real => exact alike_castRealToStr hs hv _
        | int => exact alike_castIntToStr hs hv _
        | _ => exact hdefault _ hs
      · show RunsAlike own (callUnitFactor node _) (callUnitFactor node _)
        rw [hinfos]
        show RunsAlike own (callUnitFactor node (fn.returnType ((byValues es).map argInfo)))
          (callUnitFactor node (fn.returnType ((byValues es).map argInfo)))
        unfold callUnitFactor
        split
        · exact (runsAlike own).read _ rfl
        · exact (runsAlike own).pure _

/-- An expression runs as with calls by value, if `own` are the nodes of its calls. -/
theorem runsAlike_byValue [Platform] (own : Nat → Prop) {e : Expression}
    (h : e.AllCalls fun n _ _ => own n) :
    e.node.Related (runsAlike own) e.byValue.toVMExpr :=
  (related (fun _ _ _ hown hes => related_callByValue hown hes) e h).expr

end Expression

/-- The relation holds between all methods of the objects. -/
structure VMExpr.Methods (rel : ∀ {α : Type}, MemProg α → MemProg α → Prop) (n d : VMExpr) :
    Prop where
  evalInt : rel n.evalInt d.evalInt
  evalReal : rel n.evalReal d.evalReal
  evalStr : rel n.evalStr d.evalStr
  evalCastToStr : rel n.evalCastToStr d.evalCastToStr
  unitFactor : rel n.unitFactor d.unitFactor

/-- From every memory the programs return the same value and leave the same
memory, with all bindings as they were. -/
def RunsAs (p q : MemProg α) : Prop :=
  ∀ s : Store Mem, (run memMachine p s).val = (run memMachine q s).val ∧
    (run memMachine p s).state = (run memMachine q s).state ∧
    ∀ fn, getCell (run memMachine p s).state (.boundResult fn) = getCell s (.boundResult fn)

/-- The program leaves the result object of a call as it is. -/
def LeavesResult (node : Nat) (p : MemProg α) : Prop :=
  ∀ (s : Store Mem) (c : Cell), c.resultOf = some node →
    getCell (run memMachine p s).state c = getCell s c

theorem RunsAlike.runsAs {p q : MemProg α} (h : RunsAlike own p q) : RunsAs p q := by
  intro s
  obtain ⟨hval, hsame, hk, hk'⟩ := h s s (.refl s)
  exact ⟨hval, hsame.eq fun c hc => (hk c (.inl hc)).trans (hk' c (.inl hc)).symm,
    fun fn => hk (.boundResult fn) (.inl rfl)⟩

theorem RunsAlike.leavesResult {p q : MemProg α} (h : RunsAlike own p q) {node : Nat}
    (hnode : ¬ own node) : LeavesResult node p := by
  intro s c hc
  have hforeign : c.IsForeign own := .inr ⟨node, hc, hnode⟩
  rw [getCell_of_not_polyphonic _ hforeign.not_polyphonic,
    getCell_of_not_polyphonic _ hforeign.not_polyphonic]
  exact (h s s (.refl s)).keeps c hforeign

open Expression in
/-- Every expression runs as if its calls handed their results on by value and
restores all bindings, it leaves the result objects of all calls but its
own as they are, and each call stores what its function answers for its own
arguments in its own result object only. What a function that answers
numbers has bound is restored in both its members. -/
theorem Expression.calls_by_value [Platform] :
    (∀ e : Expression, VMExpr.Methods RunsAs e.node.toVMExpr e.byValue.toVMExpr) ∧
    (∀ (e : Expression) (node : Nat), e.AllCalls (fun n _ _ => n ≠ node) →
      VMExpr.Methods (fun p _ => LeavesResult node p) e.node.toVMExpr e.node.toVMExpr) ∧
    (∀ (node : Nat) (fn : VMFunction) (es : List Expression) (s : Store Mem),
      let applied := run memMachine (applyFn fn (byValues es)) s
      let called := run memMachine (execVMFn node fn (nodes es)) s
      called.val = some node ∧
        called.state = (run memMachine (storeResult (some node) applied.val) applied.state).state ∧
        applied.val.value.HeldBy node called.state ∧
        (∀ c : Cell, c.resultOf ≠ some node →
          getCell called.state c = getCell applied.state c) ∧
        ∀ g, getCell called.state (.boundResult g) = getCell s (.boundResult g)) ∧
    ∀ (isIntResult isRealResult : Nat → Bool) (old : Option Nat),
      let bind := VMNumberResultFunction.bindResult isIntResult isRealResult
      bind (bind old).boundResult = bind old := by
  refine ⟨fun e => ?_, fun e node hnode => ?_, fun node fn es s => ?_,
    VMNumberResultFunction.bindResult_boundResult⟩
  · have h := runsAlike_byValue (fun _ => True)
      (allCalls_of_forall (fun _ _ _ => trivial) e)
    exact ⟨h.evalInt.runsAs, h.evalReal.runsAs, h.evalStr.runsAs, h.evalCastToStr.runsAs,
      h.unitFactor.runsAs⟩
  · have h := runsAlike_byValue (· ≠ node) hnode
    have hown : ¬ node ≠ node := fun h => h rfl
    exact ⟨h.evalInt.leavesResult hown, h.evalReal.leavesResult hown,
      h.evalStr.leavesResult hown, h.evalCastToStr.leavesResult hown,
      h.unitFactor.leavesResult hown⟩
  · intro applied called
    have hes : ∀ e ∈ es, e.RelatedWith (runsAlike fun _ => True) callByValue :=
      allRelated (fun _ _ _ hown hes => related_callByValue hown hes) es
        (allCallsOf_of_forall (fun _ _ _ => trivial) es)
    have hbody : RunsAlike (fun _ => True) (applyFn fn (nodes es)) (applyFn fn (byValues es)) :=
      rel_exec hes (.inr fun e _ c hc => hc.not_isForeign)
    have hown : (fun _ => True) node := trivial
    obtain ⟨hval, hsame, hk, hk', hheld⟩ := execVMFn_alike hbody hown (.refl s)
    obtain ⟨hval', hstate'⟩ := run_execByValue node fn (byValues es) s
    have hstate := hsame.eq fun c hc => (hk c (.inl hc)).trans (hk' c (.inl hc)).symm
    rw [hval'] at hheld
    rw [hstate'] at hstate
    refine ⟨hval, hstate, hheld, fun c hc => ?_, fun g => hk (.boundResult g) (.inl rfl)⟩
    show getCell called.state c = getCell applied.state c
    rw [show called.state = _ from hstate]
    exact (run_storeResult node applied.val applied.state).2 c hc

end LinuxSampler
