import Mathlib.Data.List.Forall2

/-!
# Bytes at consecutive addresses

A device has parameters at addresses, and a block of bytes from an address
on takes effect byte by byte. If the block is cut into pieces, a piece
after the other has the same effect. An address where nothing takes effect
is quiet.
-/

namespace AddressRun

variable {σ β ε : Type}

/-- The bytes take effect in order, each at its own address. -/
def run (f : ℕ → β → σ → Except ε σ) : ℕ → List β → σ → Except ε σ
  | _, [], e => .ok e
  | a, b :: data, e => f a b e >>= run f (a + 1) data

/-- Nothing takes effect at the address, in a state of the invariant. -/
def Quiet (f : ℕ → β → σ → Except ε σ) (I : σ → Prop) (x : ℕ) : Prop :=
  ∀ b e, I e → f x b e = .ok e

/-- The invariant is kept. -/
def Keeps (f : ℕ → β → σ → Except ε σ) (I : σ → Prop) : Prop :=
  ∀ x b e e', I e → f x b e = .ok e' → I e'

variable {f : ℕ → β → σ → Except ε σ} {I : σ → Prop} {a : ℕ} {data : List β} {e e' : σ}

theorem run_append (f : ℕ → β → σ → Except ε σ) (a : ℕ) (data data' : List β) (e : σ) :
    run f a (data ++ data') e = run f a data e >>= run f (a + data.length) data' := by
  induction data generalizing a e with
  | nil => rfl
  | cons b data ih =>
      rw [List.cons_append, run, run, List.length_cons]
      cases f a b e with
      | error => rfl
      | ok e' =>
          show run f (a + 1) (data ++ data') e' = _
          rw [ih, show a + (data.length + 1) = a + 1 + data.length by omega]
          rfl

/-- Up to a position, and from there on. -/
theorem run_take_drop (f : ℕ → β → σ → Except ε σ) (a k : ℕ) (data : List β)
    (hk : k ≤ data.length) (e : σ) :
    run f a data e = run f a (data.take k) e >>= run f (a + k) (data.drop k) := by
  conv_lhs => rw [← List.take_append_drop k data]
  rw [run_append, List.length_take, Nat.min_eq_left hk]

theorem run_quiet (hI : I e) (hquiet : ∀ x, a ≤ x → x < a + data.length → Quiet f I x) :
    run f a data e = .ok e := by
  induction data generalizing a with
  | nil => rfl
  | cons b data ih =>
      rw [List.length_cons] at hquiet
      rw [run, hquiet a (Nat.le_refl _) (by omega) b e hI]
      exact ih fun x hx hlt => hquiet x (by omega) (by omega)

/-- A quiet stretch is passed over. -/
theorem run_skip (hI : I e) {k : ℕ} (hk : k ≤ data.length)
    (hquiet : ∀ x, a ≤ x → x < a + k → Quiet f I x) :
    run f a data e = run f (a + k) (data.drop k) e := by
  rw [run_take_drop f a k data hk, run_quiet hI]
  · rfl
  · rw [List.length_take, Nat.min_eq_left hk]
    exact hquiet

theorem run_keeps (hf : Keeps f I) (hI : I e) (hrun : run f a data e = .ok e') : I e' := by
  induction data generalizing a e with
  | nil =>
      cases hrun
      exact hI
  | cons b data ih =>
      rw [run] at hrun
      cases hb : f a b e with
      | error =>
          rw [hb] at hrun
          cases hrun
      | ok e₁ =>
          rw [hb] at hrun
          exact ih (hf a b e e₁ hI hb) hrun

/-! ## Pieces -/

/-- The block cut into pieces, below a bound. The width of a piece depends
on its address; `n` limits their number. -/
def piecesUpTo (width : ℕ → ℕ) (bound : ℕ) : ℕ → ℕ → List β → List (ℕ × List β)
  | 0, _, _ => []
  | n + 1, a, data =>
      if data = [] ∨ bound ≤ a then []
      else (a, data.take (width a)) ::
        piecesUpTo width bound n (a + width a) (data.drop (width a))

def pieces (width : ℕ → ℕ) (bound a : ℕ) (data : List β) : List (ℕ × List β) :=
  piecesUpTo width bound data.length a data

variable {width : ℕ → ℕ} {bound : ℕ}

theorem run_piecesUpTo (hf : Keeps f I) (hwidth : ∀ x, 0 < width x)
    (hbound : ∀ x, bound ≤ x → Quiet f I x) (hI : I e) {n : ℕ} (hn : data.length ≤ n) :
    (piecesUpTo width bound n a data).foldlM (fun e c => run f c.1 c.2 e) e = run f a data e := by
  induction n generalizing a data e with
  | zero =>
      have hnil : data = [] := List.eq_nil_of_length_eq_zero (by omega)
      rw [hnil]
      rfl
  | succ n ih =>
      rw [piecesUpTo]
      split
      · rename_i hend
        rcases hend with rfl | hend
        · rfl
        · rw [run_quiet hI fun x hx _ => hbound x (by omega)]
          rfl
      · rename_i hnot
        rw [not_or] at hnot
        have hpos := List.length_pos_iff.mpr hnot.1
        have hw := hwidth a
        have hrest : (data.drop (width a)).length ≤ n := by
          rw [List.length_drop]
          omega
        rw [List.foldlM_cons]
        by_cases hfit : width a ≤ data.length
        · rw [run_take_drop f a (width a) data hfit]
          dsimp only
          cases hrun : run f a (data.take (width a)) e with
          | error => rfl
          | ok e₁ => exact ih (run_keeps hf hI hrun) hrest
        · rw [List.take_of_length_le (by omega), List.drop_of_length_le (by omega)]
          dsimp only
          cases hrun : run f a data e with
          | error => rfl
          | ok e₁ =>
              cases n with
              | zero => rfl
              | succ n =>
                  rw [piecesUpTo, if_pos (.inl rfl)]
                  rfl

/-- A piece after the other has the effect of the whole block. -/
theorem run_pieces (hf : Keeps f I) (hwidth : ∀ x, 0 < width x)
    (hbound : ∀ x, bound ≤ x → Quiet f I x) (hI : I e) :
    (pieces width bound a data).foldlM (fun e c => run f c.1 c.2 e) e = run f a data e :=
  run_piecesUpTo hf hwidth hbound hI (Nat.le_refl _)

/-- What a piece is part of. -/
theorem mem_piecesUpTo {n : ℕ} {c : ℕ × List β} (hc : c ∈ piecesUpTo width bound n a data)
    (hwidth : ∀ x, 0 < width x) :
    a ≤ c.1 ∧ c.1 < bound ∧ c.2 ≠ [] ∧ c.2 = (data.drop (c.1 - a)).take (width c.1) := by
  induction n generalizing a data with
  | zero => cases hc
  | succ n ih =>
      rw [piecesUpTo] at hc
      split at hc
      · cases hc
      · rename_i hnot
        rw [not_or] at hnot
        rcases List.mem_cons.mp hc with rfl | hc
        · have hw := hwidth a
          have hpos := List.length_pos_iff.mpr hnot.1
          refine ⟨(Nat.le_refl _), by omega, ?_, by simp⟩
          rw [Ne, ← List.length_eq_zero_iff, List.length_take]
          omega
        · obtain ⟨hle, hlt, hne, heq⟩ := ih hc
          refine ⟨by omega, hlt, hne, ?_⟩
          rw [heq, List.drop_drop, show width a + (c.1 - (a + width a)) = c.1 - a by omega]

theorem mem_pieces {c : ℕ × List β} (hc : c ∈ pieces width bound a data)
    (hwidth : ∀ x, 0 < width x) :
    a ≤ c.1 ∧ c.1 < bound ∧ c.2 ≠ [] ∧ c.2 = (data.drop (c.1 - a)).take (width c.1) :=
  mem_piecesUpTo hc hwidth

/-- The pieces may be applied by something else that has their effect. -/
theorem foldlM_pieces {μ : Type} {R : μ → ℕ × List β → Prop} (hf : Keeps f I)
    {g : σ → μ → Except ε σ} {ms : List μ} {l : List (ℕ × List β)} (hl : List.Forall₂ R ms l)
    (hg : ∀ m, ∀ c ∈ l, R m c → ∀ e, I e → g e m = run f c.1 c.2 e) (hI : I e) :
    ms.foldlM g e = l.foldlM (fun e c => run f c.1 c.2 e) e := by
  induction hl generalizing e with
  | nil => rfl
  | @cons m c ms l hmc _ ih =>
      rw [List.foldlM_cons, List.foldlM_cons, hg m c List.mem_cons_self hmc e hI]
      cases hrun : run f c.1 c.2 e with
      | error => rfl
      | ok e₁ =>
          exact ih (fun m c hc => hg m c (List.mem_cons_of_mem _ hc)) (run_keeps hf hI hrun)

end AddressRun
