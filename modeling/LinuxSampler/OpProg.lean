import Mathlib.Logic.Function.Basic

/-!
# Programs over an operation signature

A program is a finite tree of operations: each node performs one
operation and goes on with a subtree chosen by the answer. Nothing here
knows what the operations are. A *handler* replaces every operation by a
program over another signature, a *machine* answers operations from a
state and leaves a trace of what was asked.

The program logic is `Safe`: a specification says which operations may be
performed, what their answers satisfy, and which operations end the
obligations. `run_of_safe` turns it into a statement about the trace and
the final state of every run, and `run_eq_of_agree` compares the runs
from two states that the performed operations cannot tell apart.
-/

namespace OpProg

/-- An operation signature: the operations and the type of each answer. -/
structure Sig where
  Op : Type
  Res : Op → Type

inductive Prog (S : Sig) (α : Type) : Type where
  | pure (a : α)
  | op (o : S.Op) (k : S.Res o → Prog S α)

variable {S T : Sig} {α β γ σ : Type}

namespace Prog

def bind : Prog S α → (α → Prog S β) → Prog S β
  | .pure a, f => f a
  | .op o k, f => .op o fun r => (k r).bind f

instance : Monad (Prog S) where
  pure := .pure
  bind := .bind

/-- The program that performs one operation and returns its answer. -/
def perform (o : S.Op) : Prog S (S.Res o) :=
  .op o .pure

/-- Replace every operation by the program its handler gives. -/
def interp (h : (o : S.Op) → Prog T (S.Res o)) : Prog S α → Prog T α
  | .pure a => .pure a
  | .op o k => (h o).bind fun r => (k r).interp h

theorem bind_eq (p : Prog S α) (f : α → Prog S β) : (p >>= f) = p.bind f := rfl

@[simp] theorem pure_bind (a : α) (f : α → Prog S β) : (Prog.pure a).bind f = f a := rfl

theorem bind_assoc (p : Prog S α) (f : α → Prog S β) (g : β → Prog S γ) :
    (p.bind f).bind g = p.bind fun a => (f a).bind g := by
  induction p with
  | pure a => rfl
  | op o k ih => exact congrArg (Prog.op o) (funext ih)

/-- A handler works on a sequence part by part. -/
theorem interp_bind (h : (o : S.Op) → Prog T (S.Res o)) (p : Prog S α) (f : α → Prog S β) :
    (p.bind f).interp h = (p.interp h).bind fun a => (f a).interp h := by
  induction p with
  | pure a => rfl
  | op o k ih =>
      calc (h o).bind (fun r => ((k r).bind f).interp h)
          = (h o).bind fun r => ((k r).interp h).bind fun a => (f a).interp h :=
            congrArg (h o).bind (funext ih)
        _ = ((h o).bind fun r => (k r).interp h).bind fun a => (f a).interp h :=
            (bind_assoc _ _ _).symm

end Prog

/-! ## Running a program -/

/-- What a run leaves: the returned value, the final state and the
operations performed, in order. -/
structure Outcome (S : Sig) (α σ : Type) where
  val : α
  state : σ
  trace : List S.Op

/-- A machine answers each operation from a state. -/
abbrev Machine (S : Sig) (σ : Type) := (o : S.Op) → σ → S.Res o × σ

def run (M : Machine S σ) : Prog S α → σ → Outcome S α σ
  | .pure a, s => ⟨a, s, []⟩
  | .op o k, s =>
      let rest := run M (k (M o s).1) (M o s).2
      { rest with trace := o :: rest.trace }

@[simp] theorem run_pure (M : Machine S σ) (a : α) (s : σ) :
    run M (Prog.pure a) s = ⟨a, s, []⟩ := rfl

theorem run_op (M : Machine S σ) (o : S.Op) (k : S.Res o → Prog S α) (s : σ) :
    run M (.op o k) s =
      ⟨(run M (k (M o s).1) (M o s).2).val, (run M (k (M o s).1) (M o s).2).state,
        o :: (run M (k (M o s).1) (M o s).2).trace⟩ := rfl

@[simp] theorem run_perform (M : Machine S σ) (o : S.Op) (s : σ) :
    run M (Prog.perform o) s = ⟨(M o s).1, (M o s).2, [o]⟩ := rfl

/-- A sequence runs its first part, then its second from where the first
ended. -/
theorem run_bind (M : Machine S σ) (p : Prog S α) (f : α → Prog S β) (s : σ) :
    run M (p.bind f) s =
      ⟨(run M (f (run M p s).val) (run M p s).state).val,
        (run M (f (run M p s).val) (run M p s).state).state,
        (run M p s).trace ++ (run M (f (run M p s).val) (run M p s).state).trace⟩ := by
  induction p generalizing s with
  | pure a => simp
  | op o k ih => simp [Prog.bind, run_op, ih]

/-! ## Safety -/

/-- What a program may do: `pre` permits an operation, `post` is what its
answer satisfies, and after a `stop` operation nothing is owed. -/
structure Spec (S : Sig) where
  pre : S.Op → Prop
  post : (o : S.Op) → S.Res o → Prop
  stop : S.Op → Prop

/-- Every operation the program can reach is permitted and every value it
can return satisfies `Q`, whatever answers allowed by `post` it gets. -/
def Safe (P : Spec S) : Prog S α → (α → Prop) → Prop
  | .pure a, Q => Q a
  | .op o k, Q => P.stop o ∨ P.pre o ∧ ∀ r, P.post o r → Safe P (k r) Q

variable {P : Spec S}

theorem safe_perform {o : S.Op} {Q : S.Res o → Prop} (hpre : P.stop o ∨ P.pre o)
    (hQ : ∀ r, P.post o r → Q r) : Safe P (Prog.perform o) Q := by
  rcases hpre with hs | hp
  · exact .inl hs
  · exact .inr ⟨hp, hQ⟩

theorem Safe.mono {Q R : α → Prop} {p : Prog S α} (h : Safe P p Q) (hQR : ∀ a, Q a → R a) :
    Safe P p R := by
  induction p with
  | pure a => exact hQR a h
  | op o k ih =>
      rcases h with hs | ⟨hp, hk⟩
      · exact .inl hs
      · exact .inr ⟨hp, fun r hr => ih r (hk r hr)⟩

theorem Safe.bind {Q : α → Prop} {R : β → Prop} {p : Prog S α} {f : α → Prog S β}
    (h : Safe P p Q) (hf : ∀ a, Q a → Safe P (f a) R) : Safe P (p.bind f) R := by
  induction p with
  | pure a => exact hf a h
  | op o k ih =>
      rcases h with hs | ⟨hp, hk⟩
      · exact .inl hs
      · exact .inr ⟨hp, fun r hr => ih r (hk r hr)⟩

theorem Safe.map {Q : α → Prop} {R : β → Prop} {p : Prog S α} {f : α → β}
    (h : Safe P p Q) (hf : ∀ a, Q a → R (f a)) : Safe P (f <$> p) R :=
  h.bind hf

/-- A safe program under a handler that meets the same specification is
safe. -/
theorem Safe.interp {P' : Spec T} {Q : α → Prop} {h : (o : S.Op) → Prog T (S.Res o)}
    {p : Prog S α} (hp : Safe P p Q) (hstop : ∀ o, ¬ P.stop o)
    (hh : ∀ o, P.pre o → Safe P' (h o) (P.post o)) : Safe P' (p.interp h) Q := by
  induction p with
  | pure a => exact hp
  | op o k ih =>
      rcases hp with hs | ⟨hpre, hk⟩
      · exact absurd hs (hstop o)
      · exact (hh o hpre).bind fun r hr => ih r (hk r hr)

/-- The specification that permits every operation and every answer. -/
def Spec.any : Spec S := ⟨fun _ => True, fun _ _ => True, fun _ => False⟩

theorem safe_any (p : Prog S α) : Safe Spec.any p fun _ => True := by
  induction p with
  | pure a => trivial
  | op o k ih => exact .inr ⟨trivial, fun r _ => ih r⟩

/-- A run of a safe program that meets no `stop` operation performs
permitted operations only, keeps every invariant they keep and returns a
value as promised. -/
theorem run_of_safe {M : Machine S σ} {I : σ → Prop} {Q : α → Prop}
    (hM : ∀ o s, I s → P.pre o → P.post o (M o s).1 ∧ I (M o s).2)
    {p : Prog S α} {s : σ} (hp : Safe P p Q) (hI : I s)
    (hstop : ∀ o ∈ (run M p s).trace, ¬ P.stop o) :
    Q (run M p s).val ∧ I (run M p s).state ∧ ∀ o ∈ (run M p s).trace, P.pre o := by
  induction p generalizing s with
  | pure a => exact ⟨hp, hI, fun o ho => by cases ho⟩
  | op o k ih =>
      rw [run_op] at hstop ⊢
      have hno : ¬ P.stop o := hstop o List.mem_cons_self
      obtain ⟨hpre, hk⟩ := hp.resolve_left hno
      obtain ⟨hpost, hI'⟩ := hM o s hI hpre
      obtain ⟨hQ, hIf, htr⟩ :=
        ih _ (hk _ hpost) hI' fun o' ho' => hstop o' (List.mem_cons_of_mem _ ho')
      refine ⟨hQ, hIf, ?_⟩
      rintro o' ho'
      rcases List.mem_cons.mp ho' with rfl | ho'
      · exact hpre
      · exact htr o' ho'

/-! ## Runs that cannot be told apart -/

/-- Each operation of the trace is good for what is known when it is performed. -/
def GoodTrace {K : Type} (good : K → S.Op → Prop) (learn : K → S.Op → K) : K → List S.Op → Prop
  | _, [] => True
  | k, o :: os => good k o ∧ GoodTrace good learn (learn k o) os

theorem GoodTrace.imp {K : Type} {good good' : K → S.Op → Prop} {learn : K → S.Op → K} {k : K}
    {os : List S.Op} (h : GoodTrace good learn k os) (hgood : ∀ o ∈ os, ∀ k, good k o → good' k o) :
    GoodTrace good' learn k os := by
  induction os generalizing k with
  | nil => trivial
  | cons o os ih =>
      exact ⟨hgood o List.mem_cons_self k h.1,
        ih h.2 fun o' ho' => hgood o' (List.mem_cons_of_mem _ ho')⟩

/-- If the operations of one run answer the same in related states and
keep them related, the run from the related state is the same run. What
relates two states may depend on what was done before. -/
theorem run_eq_of_agree {M : Machine S σ} {K : Type} {R : K → σ → σ → Prop}
    {good : K → S.Op → Prop} {learn : K → S.Op → K}
    (hM : ∀ k o s s', good k o → R k s s' →
      (M o s).1 = (M o s').1 ∧ R (learn k o) (M o s).2 (M o s').2)
    {p : Prog S α} {k : K} {s s' : σ} (hR : R k s s')
    (hgood : GoodTrace good learn k (run M p s).trace) :
    (run M p s').val = (run M p s).val ∧ (run M p s').trace = (run M p s).trace := by
  induction p generalizing k s s' with
  | pure a => exact ⟨rfl, rfl⟩
  | op o next ih =>
      simp only [run_op] at hgood ⊢
      obtain ⟨hval, hR'⟩ := hM k o s s' hgood.1 hR
      rw [← hval]
      obtain ⟨hval', htrace⟩ := ih _ hR' hgood.2
      exact ⟨hval', by rw [htrace]⟩

end OpProg
