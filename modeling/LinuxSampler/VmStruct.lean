import LinuxSampler.VmStack

/-!
# Structural execution

What the statements of a script mean without an executor: `Executes`
follows the syntax tree and knows no stack, no calls and no instruction
limits. It relates a statement and a store to the store it ends in and to
what is observed on the way.

`Executes.steps` is the connection to the stack of frames: a statement
pushed on any stack is worked off, with the same observations, until
exactly the frames below it are left.
-/

namespace LinuxSampler

section

variable {L : ScriptLang}

/-- Terminating execution of a statement in which no leaf signals a
suspension, an abort or an error. -/
inductive Executes :
    Statement L → Store L.Global → List (VmEvent L) → Store L.Global → Prop where
  | leaf {leaf : L.Leaf} {s : Store L.Global} :
      (L.execLeaf leaf s).flags = .success →
        Executes (.leaf leaf) s [.leaf leaf] (L.execLeaf leaf s).store
  | listNil {s : Store L.Global} : Executes (.list []) s [] s
  | listCons {stmt : Statement L} {stmts : List (Statement L)} {s s₁ s₂ : Store L.Global}
      {t₁ t₂ : List (VmEvent L)} :
      Executes stmt s t₁ s₁ → Executes (.list stmts) s₁ t₂ s₂ →
        Executes (.list (stmt :: stmts)) s (t₁ ++ t₂) s₂
  | branchNone {stmt : Statement L} {s : Store L.Global} :
      stmt.isBranch = true → (stmt.evalBranch s).1 < 0 →
        Executes stmt s [.branch stmt (stmt.evalBranch s).1] (stmt.evalBranch s).2
  | branchTaken {stmt : Statement L} {body : Statements L} {s s' : Store L.Global}
      {t : List (VmEvent L)} :
      stmt.isBranch = true → 0 ≤ (stmt.evalBranch s).1 →
        stmt.branch (stmt.evalBranch s).1.toNat = some body →
        Executes (.list body) (stmt.evalBranch s).2 t s' →
        Executes stmt s (.branch stmt (stmt.evalBranch s).1 :: t) s'
  | loopEnd {c : L.IntExpr} {body : Statements L} {s : Store L.Global} :
      (L.evalInt c s).1 = 0 →
        Executes (.loop c body) s [.loop c false] (L.evalInt c s).2
  | loopNext {c : L.IntExpr} {body : Statements L} {s s₁ s₂ : Store L.Global}
      {t₁ t₂ : List (VmEvent L)} :
      (L.evalInt c s).1 ≠ 0 → Executes (.list body) (L.evalInt c s).2 t₁ s₁ →
        Executes (.loop c body) s₁ t₂ s₂ →
        Executes (.loop c body) s (.loop c true :: (t₁ ++ t₂)) s₂
  | sync {body : Statements L} {s s' : Store L.Global} {t : List (VmEvent L)} :
      Executes (.list body) s t s' → Executes (.sync body) s t s'

/-- The handlers of an event, one after the other. -/
inductive ExecutesHandlers :
    List (Statements L) → Store L.Global → List (VmEvent L) → Store L.Global → Prop where
  | nil {s : Store L.Global} : ExecutesHandlers [] s [] s
  | cons {h : Statements L} {hs : List (Statements L)} {s s₁ s₂ : Store L.Global}
      {t₁ t₂ : List (VmEvent L)} :
      Executes (.list h) s t₁ s₁ → ExecutesHandlers hs s₁ t₂ s₂ →
        ExecutesHandlers (h :: hs) s (.start h :: (t₁ ++ t₂)) s₂

/-! ## On the stack of frames -/

/-- Turns of the loop, without instruction limits. -/
inductive FrameSteps : List (Frame L) → Store L.Global → List (VmEvent L) →
    List (Frame L) → Store L.Global → Prop where
  | refl (K : List (Frame L)) (s : Store L.Global) : FrameSteps K s [] K s
  | head {f : Frame L} {K K' : List (Frame L)} {s s' : Store L.Global}
      {t : List (VmEvent L)} :
      (f.step s).flags = .success →
        FrameSteps ((f.step s).frames ++ K) (f.step s).store t K' s' →
        FrameSteps (f :: K) s ((f.step s).observed ++ t) K' s'

theorem FrameSteps.trans {K₁ K₂ K₃ : List (Frame L)} {s₁ s₂ s₃ : Store L.Global}
    {t₁ t₂ : List (VmEvent L)} (h : FrameSteps K₁ s₁ t₁ K₂ s₂)
    (h' : FrameSteps K₂ s₂ t₂ K₃ s₃) : FrameSteps K₁ s₁ (t₁ ++ t₂) K₃ s₃ := by
  induction h with
  | refl K s => exact h'
  | head hflags _ ih =>
      rw [List.append_assoc]
      exact .head hflags (ih h')

/-- One turn whose outcome is known. -/
theorem FrameSteps.of_step {f : Frame L} {K : List (Frame L)} {s : Store L.Global}
    {r : FrameStep L} (h : f.step s = r) (hflags : r.flags = .success) :
    FrameSteps (f :: K) s r.observed (r.frames ++ K) r.store := by
  subst h
  have hstep := FrameSteps.head (K := K) hflags (.refl _ _)
  rwa [List.append_nil] at hstep

/-- A list frame at the end of its list. -/
theorem FrameSteps.listEnd {args : Statements L} {i : Int} (K : List (Frame L))
    (s : Store L.Global) (h : ExecState.statementAt args i = none) :
    FrameSteps (⟨.list args, i⟩ :: K) s [] K s :=
  .of_step (r := { frames := [], store := s }) (by simp only [Frame.step, h]) rfl

theorem Frame.step_of_isBranch {f : Frame L} (h : f.statement.isBranch = true)
    (s : Store L.Global) : f.step s = f.branchStep s := by
  obtain ⟨stmt, i⟩ := f
  cases stmt with
  | ifElse _ _ _ | selectCase _ _ => rfl
  | leaf _ | list _ | loop _ _ | sync _ | noop => cases h

theorem FrameSteps.branchNone {stmt : Statement L} (K : List (Frame L)) {s : Store L.Global}
    (hbranch : stmt.isBranch = true) (h : (stmt.evalBranch s).1 < 0) :
    FrameSteps (.ofStatement stmt :: K) s [.branch stmt (stmt.evalBranch s).1] K
      (stmt.evalBranch s).2 := by
  have hstep : (Frame.ofStatement stmt).step s =
      { frames := [], store := (stmt.evalBranch s).2,
        observed := [.branch stmt (stmt.evalBranch s).1] } := by
    rw [Frame.step_of_isBranch hbranch, Frame.branchStep]
    simp only [Int.lt_irrefl, if_false, if_neg (Int.not_le.mpr h), ge_iff_le]
  exact .of_step hstep rfl

theorem FrameSteps.branchTaken {stmt : Statement L} {body : Statements L}
    (K : List (Frame L)) {s : Store L.Global} (hbranch : stmt.isBranch = true)
    (h : 0 ≤ (stmt.evalBranch s).1)
    (hbody : stmt.branch (stmt.evalBranch s).1.toNat = some body) :
    FrameSteps (.ofStatement stmt :: K) s [.branch stmt (stmt.evalBranch s).1]
      (.ofStatement (.list body) :: ⟨stmt, -1⟩ :: K) (stmt.evalBranch s).2 := by
  have hstep : (Frame.ofStatement stmt).step s =
      { frames := [.ofStatement (.list body), ⟨stmt, -1⟩], store := (stmt.evalBranch s).2,
        observed := [.branch stmt (stmt.evalBranch s).1] } := by
    rw [Frame.step_of_isBranch hbranch, Frame.branchStep]
    simp only [Int.lt_irrefl, if_false, ge_iff_le, if_pos h, hbody]
  exact .of_step hstep rfl

/-- The frame of a branch statement is dropped when its branch is done. -/
theorem FrameSteps.branchDone {stmt : Statement L} (K : List (Frame L)) (s : Store L.Global)
    (hbranch : stmt.isBranch = true) : FrameSteps (⟨stmt, -1⟩ :: K) s [] K s := by
  have hstep : Frame.step ⟨stmt, -1⟩ s = { frames := [], store := s } := by
    rw [Frame.step_of_isBranch hbranch]
    rfl
  exact .of_step hstep rfl

/-- Executing a statement structurally is working off its frame. For a
list this has to be said of any position in it. -/
theorem Executes.steps {stmt : Statement L} {s s' : Store L.Global} {t : List (VmEvent L)}
    (h : Executes stmt s t s') :
    (∀ K, FrameSteps (.ofStatement stmt :: K) s t K s') ∧
      (∀ K stmts args, ∀ i : Nat, stmt = .list stmts → args.drop i = stmts →
        FrameSteps (⟨.list args, i⟩ :: K) s t K s') := by
  have ofList : ∀ {stmts : Statements L} {s s' : Store L.Global} {t : List (VmEvent L)},
      (∀ K args, ∀ i : Nat, args.drop i = stmts →
        FrameSteps (⟨.list args, i⟩ :: K) s t K s') →
      (∀ K, FrameSteps (.ofStatement (.list stmts) :: K) s t K s') ∧
        (∀ K stmts' args, ∀ i : Nat, Statement.list stmts = .list stmts' →
          args.drop i = stmts' → FrameSteps (⟨.list args, i⟩ :: K) s t K s') := by
    intro stmts s s' t h
    refine ⟨fun K => h K stmts 0 rfl, fun K stmts' args i heq hdrop => ?_⟩
    cases heq
    exact h K args i hdrop
  induction h with
  | leaf hflags =>
      refine ⟨fun K => ?_, by simp⟩
      exact .of_step (r := { frames := [], store := _, flags := _, observed := _ }) rfl hflags
  | @listNil s =>
      refine ofList fun K args i hdrop => .listEnd K s ?_
      have hlen := List.drop_eq_nil_iff.mp hdrop
      simp [ExecState.statementAt, hlen]
  | @listCons stmt stmts s s₁ s₂ t₁ t₂ _ _ ih₁ ih₂ =>
      refine ofList fun K args i hdrop => ?_
      have hstmt : ExecState.statementAt args i = some stmt := by
        have hget : args[i]? = some stmt := by
          have := congrArg (·[0]?) hdrop
          simpa using this
        simp [ExecState.statementAt, hget]
      have hrest : args.drop (i + 1) = stmts := by
        rw [← List.drop_drop, hdrop]
        rfl
      have hpush : FrameSteps (⟨.list args, i⟩ :: K) s []
          (.ofStatement stmt :: ⟨.list args, (i + 1 : Nat)⟩ :: K) s := by
        have hstep : Frame.step ⟨.list args, i⟩ s =
            { frames := [.ofStatement stmt, ⟨.list args, (i + 1 : Nat)⟩], store := s } := by
          simp only [Frame.step, hstmt]
          rfl
        exact .of_step hstep rfl
      exact (hpush.trans (ih₁.1 _)).trans (ih₂.2 K stmts args (i + 1) rfl hrest)
  | branchNone hbranch hneg =>
      refine ⟨fun K => .branchNone K hbranch hneg, ?_⟩
      rintro _ _ _ _ rfl
      cases hbranch
  | branchTaken hbranch hpos hbody _ ih =>
      refine ⟨fun K => ?_, ?_⟩
      · have hbodySteps := (ih.1 _).trans (.branchDone K _ hbranch)
        rw [List.append_nil] at hbodySteps
        exact (FrameSteps.branchTaken K hbranch hpos hbody).trans hbodySteps
      · rintro _ _ _ _ rfl
        cases hbranch
  | @loopEnd c body s hzero =>
      refine ⟨fun K => ?_, by simp⟩
      have hstep : (Frame.ofStatement (.loop c body)).step s =
          { frames := [], store := (L.evalInt c s).2, observed := [.loop c false] } := by
        simp only [Frame.step, hzero, ne_eq, not_true_eq_false, if_false]
      exact .of_step hstep rfl
  | @loopNext c body s s₁ s₂ t₁ t₂ hnonzero _ _ ih₁ ih₂ =>
      refine ⟨fun K => ?_, by simp⟩
      have hround : FrameSteps (.ofStatement (.loop c body) :: K) s [.loop c true]
          (.ofStatement (.list body) :: .ofStatement (.loop c body) :: K)
          (L.evalInt c s).2 := by
        have hstep : (Frame.ofStatement (.loop c body)).step s =
            { frames := [.ofStatement (.list body), .ofStatement (.loop c body)],
              store := (L.evalInt c s).2,
              observed := [.loop c true],
              limit := instrPerCycleSoft } := by
          simp only [Frame.step, hnonzero, ne_eq, not_false_eq_true, if_true]
        exact .of_step hstep rfl
      exact hround.trans ((ih₁.1 _).trans (ih₂.1 K))
  | @sync body s s' t _ ih =>
      refine ⟨fun K => ?_, by simp⟩
      have henter : FrameSteps (.ofStatement (.sync body) :: K) s []
          (.ofStatement (.list body) :: ⟨.sync body, 1⟩ :: K) s :=
        .of_step (r := { frames := [_, _], store := s, synced := 1 }) rfl rfl
      have hleave : FrameSteps (⟨.sync body, 1⟩ :: K) s' [] K s' :=
        .of_step (r := { frames := [], store := s', synced := -1 }) rfl rfl
      have hbody := (henter.trans (ih.1 _)).trans hleave
      rwa [List.append_nil] at hbody

end

end LinuxSampler
