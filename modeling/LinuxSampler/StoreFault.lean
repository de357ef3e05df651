import LinuxSampler.StoreProgram

/-!
# Programs whose steps may fail

Each query and each statement has an outcome that the program does not
foresee. A run takes the outcomes one after the other; `Always` is what
holds at the end of all runs, however the steps turn out (`Always.runWith`).
-/

namespace LinuxSampler

namespace StoreProgram

variable {ι σ κ ο α β : Type}

/-- A store `κ`, of which queries see `σ`, with steps that depend on outcomes `ο`. -/
structure Faulty (ι σ κ ο : Type) where
  query : ο → κ → Option σ × κ
  exec : ι → ο → κ → Bool × κ

namespace Faulty

/-- A run; where the list of outcomes has ended, they are `works`. -/
def runWith (F : Faulty ι σ κ ο) (works : ο) : Prog ι σ α → List ο → κ → Option α × κ
  | .ret a, _, s => (some a, s)
  | .fail, _, s => (none, s)
  | .read next, os, s =>
      F.runWith works (next (F.query (os.headD works) s).1) os.tail (F.query (os.headD works) s).2
  | .exec i next, os, s =>
      F.runWith works (next (F.exec i (os.headD works) s).1) os.tail
        (F.exec i (os.headD works) s).2

/-- `Q` holds of the result and the store, whatever the outcomes. -/
def Always (F : Faulty ι σ κ ο) (Q : Option α → κ → Prop) : Prog ι σ α → κ → Prop
  | .ret a, s => Q (some a) s
  | .fail, s => Q none s
  | .read next, s => ∀ o, F.Always Q (next (F.query o s).1) (F.query o s).2
  | .exec i next, s => ∀ o, F.Always Q (next (F.exec i o s).1) (F.exec i o s).2

variable {F : Faulty ι σ κ ο} {Q Q' : Option α → κ → Prop} {s : κ}

theorem Always.runWith {p : Prog ι σ α} (h : F.Always Q p s) (works : ο) (os : List ο) :
    Q (F.runWith works p os s).1 (F.runWith works p os s).2 := by
  induction p generalizing s os with
  | ret a => exact h
  | fail => exact h
  | read next ih => exact ih _ (h (os.headD works)) os.tail
  | exec i next ih => exact ih _ (h (os.headD works)) os.tail

theorem Always.mono {p : Prog ι σ α} (hQ : ∀ r s, Q r s → Q' r s) (h : F.Always Q p s) :
    F.Always Q' p s := by
  induction p generalizing s with
  | ret a => exact hQ _ _ h
  | fail => exact hQ _ _ h
  | read next ih => exact fun o => ih _ (h o)
  | exec i next ih => exact fun o => ih _ (h o)

theorem Always.bind {p : Prog ι σ α} {k : α → Prog ι σ β} {R : Option β → κ → Prop}
    (h : F.Always Q p s) (hsome : ∀ a s, Q (some a) s → F.Always R (k a) s)
    (hnone : ∀ s, Q none s → R none s) : F.Always R (p >>= k) s := by
  show F.Always R (p.bind k) s
  induction p generalizing s with
  | ret a => exact hsome a s h
  | fail => exact hnone s h
  | read next ih => exact fun o => ih _ (h o)
  | exec i next ih => exact fun o => ih _ (h o)

/-- What was caught is a result. -/
theorem Always.attempt {p : Prog ι σ α} {R : Option (Option α) → κ → Prop}
    (h : F.Always Q p s) (hR : ∀ r s, Q r s → R (some r) s) : F.Always R p.attempt s := by
  induction p generalizing s with
  | ret a => exact hR _ s h
  | fail => exact hR _ s h
  | read next ih => exact fun o => ih _ (h o)
  | exec i next ih => exact fun o => ih _ (h o)

/-- A loop with an invariant. -/
theorem always_forEach {xs : List β} {f : β → Prog ι σ Unit} {J : κ → Prop}
    (hf : ∀ x ∈ xs, ∀ s, J s → F.Always (fun _ s => J s) (f x) s) (hJ : J s) :
    F.Always (fun _ s => J s) (Prog.forEach xs f) s := by
  induction xs generalizing s with
  | nil => exact hJ
  | cons x xs ih =>
      refine (hf x List.mem_cons_self s hJ).bind (fun _ s hs => ?_) fun _ hs => hs
      exact ih (fun y hy => hf y (List.mem_cons_of_mem x hy)) hs

theorem always_select {query : σ → α} (h : ∀ o, match (F.query o s).1 with
      | some t => Q (some (query t)) (F.query o s).2
      | none => Q none (F.query o s).2) : F.Always Q (Prog.select query) s := by
  intro o
  have ho := h o
  show F.Always Q (match (F.query o s).1 with
    | some s => .ret (query s)
    | none => .fail) (F.query o s).2
  cases hquery : (F.query o s).1 with
  | some t =>
      rw [hquery] at ho
      exact ho
  | none =>
      rw [hquery] at ho
      exact ho

theorem always_statement {i : ι} {Q : Option Unit → κ → Prop}
    (h : ∀ o, if (F.exec i o s).1 then Q (some ()) (F.exec i o s).2 else Q none (F.exec i o s).2) :
    F.Always Q (Prog.statement i) s := by
  intro o
  have ho := h o
  dsimp only
  split at ho
  · next heq =>
    rw [if_pos heq]
    exact ho
  · next heq =>
    rw [if_neg heq]
    exact ho

theorem always_require {c : Prop} [Decidable c] {Q : Option Unit → κ → Prop}
    (hsome : c → Q (some ()) s) (hnone : ¬ c → Q none s) : F.Always Q (Prog.require c) s := by
  unfold Prog.require
  split
  · next hc => exact hsome hc
  · next hc => exact hnone hc

end Faulty

end StoreProgram

end LinuxSampler
