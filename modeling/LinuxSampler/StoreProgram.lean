import Mathlib.Logic.Basic

/-!
# Programs over a shared store

A program reads a store and executes statements on it, which may fail, one
at a time: programs of other threads may take their steps in between.

`Meets` is the weakest precondition of a program that nobody interrupts:
all statements keep an invariant, and what it returns meets a
postcondition. Statements may rely on a condition that whoever executes
them has to see to. What a program meets, it meets after each of its steps
(`Meets.step`).

`Yields`: a run returns what meets a postcondition, or it throws and a given
reason is there. With no reason at all the program returns; with any reason
the postcondition is what can be said if it does.
-/

namespace LinuxSampler

namespace StoreProgram

variable {ι σ α β : Type}

/-- Statements of the type `ι` on a store `σ`; the program goes on with whether it worked. A query
that fails reads nothing. -/
inductive Prog (ι σ α : Type) where
  | ret (a : α)
  | fail
  | read (next : Option σ → Prog ι σ α)
  | exec (i : ι) (next : Bool → Prog ι σ α)

namespace Prog

def bind : Prog ι σ α → (α → Prog ι σ β) → Prog ι σ β
  | ret a, k => k a
  | fail, _ => fail
  | read next, k => read fun s => (next s).bind k
  | exec i next, k => exec i fun ok => (next ok).bind k

instance : Monad (Prog ι σ) where
  pure := ret
  bind := bind

/-- One query; the program fails if it does not work. -/
def select (query : σ → α) : Prog ι σ α :=
  read fun
    | some s => ret (query s)
    | none => fail

/-- One statement; the program fails if it does not work. -/
def statement (i : ι) : Prog ι σ Unit := exec i fun ok => if ok then ret () else fail

def require (c : Prop) [Decidable c] : Prog ι σ Unit := if c then ret () else fail

/-- Catches the failure of a program. -/
def attempt : Prog ι σ α → Prog ι σ (Option α)
  | ret a => ret (some a)
  | fail => ret none
  | read next => read fun s => (next s).attempt
  | exec i next => exec i fun ok => (next ok).attempt

def forEach (xs : List β) (f : β → Prog ι σ Unit) : Prog ι σ Unit :=
  match xs with
  | [] => ret ()
  | x :: xs => (f x).bind fun _ => forEach xs f

/-- One step, with the statements as `sem` says. -/
def step (sem : ι → σ → Option σ) : Prog ι σ α → σ → Prog ι σ α × σ
  | ret a, s => (ret a, s)
  | fail, s => (fail, s)
  | read next, s => (next (some s), s)
  | exec i next, s =>
      match sem i s with
      | some s' => (next true, s')
      | none => (next false, s)

/-- All steps, with nobody in between and no query that fails: the result and the store. -/
def run (sem : ι → σ → Option σ) : Prog ι σ α → σ → Option α × σ
  | ret a, s => (some a, s)
  | fail, s => (none, s)
  | read next, s => (next (some s)).run sem s
  | exec i next, s =>
      match sem i s with
      | some s' => (next true).run sem s'
      | none => (next false).run sem s

/-- The next statement, if it is one, can rely on its condition. -/
def Relies (good : ι → σ → Prop) : Prog ι σ α → σ → Prop
  | exec i _, s => good i s
  | _, _ => True

end Prog

/-! ## Rules -/

section

variable (sem : ι → σ → Option σ) (good : ι → σ → Prop) (Inv : σ → Prop)

/-- All statements keep the invariant, and the result meets `Q`. -/
def Meets (Q : α → σ → Prop) : Prog ι σ α → σ → Prop
  | .ret a, s => Q a s
  | .fail, s => Inv s
  | .read next, s => Meets Q (next (some s)) s
  | .exec i next, s => good i s →
      (∀ s', sem i s = some s' → Inv s' ∧ Meets Q (next true) s') ∧
        (sem i s = none → Meets Q (next false) s)

variable {sem good Inv} {Q Q' : α → σ → Prop} {s : σ}

open Prog

theorem meets_bind {R : β → σ → Prop} {p : Prog ι σ α} {k : α → Prog ι σ β} :
    Meets sem good Inv R (p.bind k) s ↔
      Meets sem good Inv (fun a s => Meets sem good Inv R (k a) s) p s := by
  induction p generalizing s with
  | ret a => exact Iff.rfl
  | fail => exact Iff.rfl
  | read next ih => exact ih (some s)
  | exec i next ih =>
      refine imp_congr_right fun _ => and_congr ?_ ?_
      · exact forall_congr' fun s' => imp_congr_right fun _ => and_congr_right fun _ => ih true
      · exact imp_congr_right fun _ => ih false

theorem Meets.mono {p : Prog ι σ α} (hQ : ∀ a s, Q a s → Q' a s)
    (h : Meets sem good Inv Q p s) : Meets sem good Inv Q' p s := by
  induction p generalizing s with
  | ret a => exact hQ a s h
  | fail => exact h
  | read next ih => exact ih (some s) h
  | exec i next ih =>
      intro hgood
      obtain ⟨hok, hnot⟩ := h hgood
      exact ⟨fun s' hs => ⟨(hok s' hs).1, ih true (hok s' hs).2⟩, fun hs => ih false (hnot hs)⟩

theorem meets_select {query : σ → α} :
    Meets sem good Inv Q (select query) s ↔ Q (query s) s := Iff.rfl

theorem meets_require {c : Prop} [Decidable c] {Q : Unit → σ → Prop}
    (hinv : Inv s) (h : c → Q () s) : Meets sem good Inv Q (require c) s := by
  unfold require
  by_cases hc : c
  · rw [if_pos hc]
    exact h hc
  · rw [if_neg hc]
    exact hinv

theorem meets_statement {i : ι} {Q : Unit → σ → Prop} (hinv : Inv s)
    (h : good i s → ∀ s', sem i s = some s' → Inv s' ∧ Q () s') :
    Meets sem good Inv Q (statement i) s :=
  fun hgood => ⟨h hgood, fun _ => hinv⟩

/-- Wherever the program fails, the invariant holds. -/
theorem meets_attempt {p : Prog ι σ α} {Q : Option α → σ → Prop}
    (h : Meets sem good Inv (fun a s => Q (some a) s) p s) (hnone : ∀ s, Inv s → Q none s) :
    Meets sem good Inv Q p.attempt s := by
  induction p generalizing s with
  | ret a => exact h
  | fail => exact hnone s h
  | read next ih => exact ih (some s) h
  | exec i next ih =>
      intro hgood
      obtain ⟨hok, hnot⟩ := h hgood
      exact ⟨fun s' hs => ⟨(hok s' hs).1, ih true (hok s' hs).2⟩, fun hs => ih false (hnot hs)⟩

/-- A loop with an invariant. -/
theorem meets_forEach {xs : List β} {f : β → Prog ι σ Unit} {J : σ → Prop}
    (hf : ∀ x ∈ xs, ∀ s, J s → Meets sem good Inv (fun _ s => J s) (f x) s) (hJ : J s) :
    Meets sem good Inv (fun _ s => J s) (forEach xs f) s := by
  induction xs generalizing s with
  | nil => exact hJ
  | cons x xs ih =>
      refine meets_bind.mpr ?_
      refine (hf x List.mem_cons_self s hJ).mono fun _ s hs => ?_
      exact ih (fun y hy => hf y (List.mem_cons_of_mem x hy)) hs

/-- A step keeps the invariant and what the program meets. -/
theorem Meets.step {p : Prog ι σ α} (h : Meets sem good Inv Q p s) (hinv : Inv s)
    (hgood : p.Relies good s) :
    Inv (p.step sem s).2 ∧ Meets sem good Inv Q (p.step sem s).1 (p.step sem s).2 := by
  cases p with
  | ret a => exact ⟨hinv, h⟩
  | fail => exact ⟨hinv, h⟩
  | read next => exact ⟨hinv, h⟩
  | exec i next =>
      obtain ⟨hok, hnot⟩ := h hgood
      have heq : (exec i next).step sem s = match sem i s with
        | some s' => (next true, s')
        | none => (next false, s) := rfl
      rw [heq]
      cases hs : sem i s with
      | some s' => exact hok s' hs
      | none => exact ⟨hinv, hnot hs⟩

end

/-! ## Runs that return -/

section

variable {sem : ι → σ → Option σ} {s s' : σ}

open Prog

theorem run_bind {p : Prog ι σ α} {k : α → Prog ι σ β} :
    (p >>= k).run sem s =
      match p.run sem s with
      | (some a, s') => (k a).run sem s'
      | (none, s') => (none, s') := by
  show (p.bind k).run sem s = _
  induction p generalizing s with
  | ret a => rfl
  | fail => rfl
  | read next ih => exact ih (some s)
  | exec i next ih =>
      rw [Prog.bind, run, run]
      cases sem i s with
      | some s' => exact ih true
      | none => exact ih false

theorem run_bind_eq_some {p : Prog ι σ α} {k : α → Prog ι σ β} {b : β} :
    (p >>= k).run sem s = (some b, s') ↔
      ∃ a s₁, p.run sem s = (some a, s₁) ∧ (k a).run sem s₁ = (some b, s') := by
  rw [run_bind]
  cases hp : p.run sem s with
  | mk r s₁ =>
      cases r with
      | none => simp
      | some a =>
          refine ⟨fun h => ⟨a, s₁, rfl, h⟩, fun ⟨a', s', heq, h⟩ => ?_⟩
          obtain ⟨rfl, rfl⟩ : a = a' ∧ s₁ = s' := by simpa using heq
          exact h

theorem run_select_bind {query : σ → α} {k : α → Prog ι σ β} :
    (select query >>= k).run sem s = (k (query s)).run sem s := rfl

theorem run_statement_eq_some {i : ι} {u : Unit} :
    (statement i).run sem s = (some u, s') ↔ sem i s = some s' := by
  rw [statement, run]
  cases sem i s with
  | some s₁ => simp [run]
  | none => simp [run]

end

/-! ## Programs that return, or throw for a reason -/

namespace Prog

theorem run_attempt {sem : ι → σ → Option σ} {p : Prog ι σ α} {s : σ} :
    (attempt p).run sem s = (some (p.run sem s).1, (p.run sem s).2) := by
  induction p generalizing s with
  | ret a => rfl
  | fail => rfl
  | read next ih => exact ih (some s)
  | exec i next ih =>
      rw [attempt, run, run]
      cases sem i s with
      | some s' => exact ih true
      | none => exact ih false

end Prog

open Prog

/-- The run returns what meets `Q`, or it throws and `C` is the case. -/
def Yields (sem : ι → σ → Option σ) (C : Prop) (Q : α → σ → Prop) (p : Prog ι σ α) (s : σ) : Prop :=
  match p.run sem s with
  | (some a, s') => Q a s'
  | (none, _) => C

section

variable {sem : ι → σ → Option σ} {C : Prop} {Q Q' : α → σ → Prop} {s s' : σ}

theorem yields_bind {R : β → σ → Prop} {p : Prog ι σ α} {k : α → Prog ι σ β} :
    Yields sem C R (p >>= k) s ↔ Yields sem C (fun a s => Yields sem C R (k a) s) p s := by
  unfold Yields
  rw [run_bind]
  cases p.run sem s with
  | mk r s' =>
      cases r with
      | some a => exact Iff.rfl
      | none => exact Iff.rfl

theorem Yields.mono {p : Prog ι σ α} (h : Yields sem C Q p s) (hQ : ∀ a s, Q a s → Q' a s) :
    Yields sem C Q' p s := by
  unfold Yields at h ⊢
  split
  · next heq =>
    rw [heq] at h
    exact hQ _ _ h
  · next heq =>
    rw [heq] at h
    exact h

theorem yields_select {query : σ → α} : Yields sem C Q (select query) s ↔ Q (query s) s := Iff.rfl

theorem yields_require {c : Prop} [Decidable c] {Q : Unit → σ → Prop} (hnot : ¬ c → C)
    (h : c → Q () s) : Yields sem C Q (require c) s := by
  unfold require
  split
  · next hc => exact h hc
  · next hc => exact hnot hc

theorem yields_statement {i : ι} {Q : Unit → σ → Prop} (h : sem i s = some s') (hQ : Q () s') :
    Yields sem C Q (statement i) s := by
  unfold Yields
  rw [run_statement_eq_some (u := ()) |>.mpr h]
  exact hQ

theorem yields_attempt {p : Prog ι σ α} {Q : Option α → σ → Prop}
    (h : Yields sem C (fun a s => Q (some a) s) p s) (hnone : C → ∀ s, Q none s) :
    Yields sem C Q p.attempt s := by
  unfold Yields at h ⊢
  rw [run_attempt]
  split at h
  · next heq =>
    rw [heq]
    exact h
  · next heq =>
    rw [heq]
    exact hnone h _

/-- A loop with an invariant on what has been done. -/
theorem yields_forEach {xs : List β} {f : β → Prog ι σ Unit} {J : List β → σ → Prop}
    (hf : ∀ done x rest s, xs = done ++ x :: rest → J done s →
      Yields sem C (fun _ s => J (done ++ [x]) s) (f x) s) (hJ : J [] s) :
    Yields sem C (fun _ s => J xs s) (forEach xs f) s := by
  have hall : ∀ (rest done : List β) (s : σ), xs = done ++ rest → J done s →
      Yields sem C (fun _ s => J xs s) (forEach rest f) s := by
    intro rest
    induction rest with
    | nil =>
        intro done s hxs hJ
        rw [List.append_nil] at hxs
        exact hxs ▸ hJ
    | cons x rest ih =>
        intro done s hxs hJ
        refine yields_bind.mpr ((hf done x rest s hxs hJ).mono fun _ s hJ => ?_)
        exact ih (done ++ [x]) s (by rw [hxs, List.append_assoc, List.singleton_append]) hJ
  exact hall xs [] s rfl hJ

theorem Yields.of_run {p : Prog ι σ α} {a : α} (h : Yields sem C Q p s)
    (hrun : p.run sem s = (some a, s')) : Q a s' := by
  unfold Yields at h
  rw [hrun] at h
  exact h

theorem Yields.returns {p : Prog ι σ α} (h : Yields sem C Q p s) (hC : ¬ C) :
    ∃ a s', p.run sem s = (some a, s') := by
  unfold Yields at h
  split at h
  · next heq => exact ⟨_, _, heq⟩
  · exact absurd h hC

end

end StoreProgram

end LinuxSampler
