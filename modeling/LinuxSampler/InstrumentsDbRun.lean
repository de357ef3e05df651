import LinuxSampler.InstrumentsDbCalls

/-!
# Runs of the instruments database

Whoever holds the mutex is alone with the database, so that every program
that runs under it keeps the directory tree (`Sound`). Two things about
scans break it: a scan inserts an instrument without looking whether its
directory is still there and free of the name, and a scan that has read a
file while another thread is within a transaction goes on without the
mutex. In runs without them the tree stays (`tree_of_careful`).
-/

namespace LinuxSampler

namespace InstrumentsDb

open Bytes StoreProgram Prog

instance (stmt : Stmt) (db : Db) : Decidable (Fits stmt db) := by
  unfold Fits
  split
  · infer_instance
  · infer_instance

instance (p : Program (Option Reading)) (db : Db) : Decidable (p.Relies Fits db) := by
  unfold Relies
  split
  · infer_instance
  · infer_instance

/-- The next statement of a scan finds its directory and no directory with the name, and scans
that have read a file find no transaction going on. -/
def Careful (sys : System) : Event → Prop
  | .call _ => True
  | .holder =>
      match sys.holder with
      | some p => p.Relies Fits sys.db
      | none => True
  | .pending n =>
      match sys.pending[n]? with
      | some (.reading _) => sys.db.inTransaction = false
      | _ => True

instance (sys : System) (e : Event) : Decidable (Careful sys e) := by
  unfold Careful
  split
  · infer_instance
  · split
    · infer_instance
    · infer_instance
  · split
    · infer_instance
    · infer_instance

instance (sys : System) (e : Event) : Decidable (threads.enabled sys e) := .isTrue trivial

/-- What the thread with the mutex has left to do keeps the invariant, and all scans without it
have yet to lock it. -/
structure Sound (sys : System) : Prop where
  inv : Inv sys.db
  holder : ∀ p, sys.holder = some p → DbMeets (fun _ db => Inv db) p sys.db
  locked : ∀ p r, Pending.unlocked p r ∉ sys.pending

theorem Sound.initial : Sound {} where
  inv := Inv.initial
  holder := fun _ hp => (Option.some_ne_none _ hp.symm).elim
  locked := fun _ _ hmem => nomatch hmem

theorem Sound.call {sys : System} (h : Sound sys) (c : Call) : Sound (sys.step (.call c)) := by
  dsimp only [System.step]
  cases hholder : sys.holder with
  | none =>
      refine ⟨h.inv, fun p hp => ?_, h.locked⟩
      cases hp
      exact safe_program c sys.db h.inv
  | some _ => exact h

theorem Sound.release {sys : System} (h : Sound sys) {pending : List Pending}
    (hlocked : ∀ p r, Pending.unlocked p r ∉ pending) :
    Sound { sys with holder := none, pending := pending } :=
  ⟨h.inv, fun _ hp => (Option.some_ne_none _ hp.symm).elim, hlocked⟩

/-- One step of the thread with the mutex. -/
theorem Sound.stepHolder {sys : System} (h : Sound sys) {p : Program (Option Reading)}
    (hp : sys.holder = some p) (hrelies : p.Relies Fits sys.db) : Sound (sys.stepHolder p) := by
  obtain ⟨hinv, hmeets⟩ := (h.holder p hp).step h.inv hrelies
  have hnext : Sound { sys with
      db := (p.step Stmt.exec sys.db).2, holder := some (p.step Stmt.exec sys.db).1 } := by
    refine ⟨hinv, fun q hq => ?_, h.locked⟩
    cases hq
    exact hmeets
  cases p with
  | ret result =>
      cases result with
      | none => exact h.release h.locked
      | some r =>
          refine h.release fun q r' hmem => ?_
          rcases List.mem_append.mp hmem with hmem | hmem
          · exact h.locked q r' hmem
          · exact nomatch List.mem_singleton.mp hmem
  | fail => exact h.release h.locked
  | read next => exact hnext
  | exec i next => exact hnext

/-- A scan locks the mutex, or waits for it. -/
theorem Sound.lock {sys : System} (h : Sound sys) (n : Nat) {p : Program (Option Reading)}
    (hp : Safe p) : Sound (sys.lock n p) := by
  dsimp only [System.lock]
  cases hholder : sys.holder with
  | none =>
      refine ⟨h.inv, fun q hq => ?_, fun q r hmem => ?_⟩
      · cases hq
        exact hp sys.db h.inv
      · exact h.locked q r (List.mem_of_mem_eraseIdx hmem)
  | some _ => exact h

theorem Sound.stepPending {sys : System} (h : Sound sys) {n : Nat} {p : Pending}
    (hp : sys.pending[n]? = some p) (hcareful : Careful sys (.pending n)) :
    Sound (sys.stepPending n p) := by
  cases p with
  | reading r =>
      have hfree : sys.db.inTransaction = false := by
        dsimp only [Careful] at hcareful
        rw [hp] at hcareful
        exact hcareful
      dsimp only [System.stepPending]
      rw [hfree]
      refine h.lock n fun db hinv => meets_bind.mpr ?_
      exact (r.safe_insert db hinv).mono fun _ db hinv => safe_scanFiles r.scan r.files db hinv
  | unlocked q r => exact absurd (List.mem_of_getElem? hp) (h.locked q r)
  | waiting r => exact h.lock n (safe_scanFiles r.scan r.files)

theorem Sound.step {sys : System} {e : Event} (h : Sound sys) (hcareful : Careful sys e) :
    Sound (sys.step e) := by
  cases e with
  | call c => exact h.call c
  | holder =>
      dsimp only [Careful] at hcareful
      dsimp only [System.step]
      cases hp : sys.holder with
      | none => exact h
      | some p =>
          rw [hp] at hcareful
          exact h.stepHolder hp hcareful
  | pending n =>
      dsimp only [System.step]
      cases hp : sys.pending[n]? with
      | none => exact h
      | some p => exact h.stepPending hp hcareful

/-- In every run whose scans find what they rely on, the directories are a tree whose names are
unique, whatever the calls and however the threads take turns. -/
theorem tree_of_careful {events : List Event}
    (hrun : threads.RunFrom Careful threads.init events) :
    Tree (threads.exec threads.init events).db := by
  have hsound : Sound (threads.exec threads.init events) :=
    hrun.invariant (fun _ _ h _ hcareful => h.step hcareful) Sound.initial
  exact hsound.inv.tree

/-- A file `/y.gig` with an instrument `X`. -/
def yFile : ScanFile where
  path := [slash, 121, 46, 103, 105, 103]
  baseName := [121, 46, 103, 105, 103]
  instruments := some [{ instrumentName := [88] }]

/-- A directory `/X`, and a scan of a file `/y.gig` with an instrument of that name, which gets
another one. -/
theorem tree_of_careful_scan :
    Tree (threads.exec threads.init
      (.call (.addDirectory [slash, 88]) :: List.replicate 12 .holder ++
        .call (.addInstruments ⟨[slash], false, -1⟩ [yFile]) ::
        List.replicate 6 .holder ++ .pending 0 :: List.replicate 12 .holder)).db :=
  tree_of_careful (by decide +kernel)

/-- The scan looks for a free name, but asks for directories with the first one only: with the
directories `/X` and `/X[2]` an instrument `X` is called `X[2]` as well. -/
theorem not_tree : ¬∀ events : List Event, Tree (threads.exec threads.init events).db := by
  intro h
  have htree := h
    (.call (.addDirectory [slash, 88]) :: List.replicate 12 .holder ++
      .call (.addDirectory [slash, 88, 91, 50, 93]) :: List.replicate 12 .holder ++
      .call (.addInstruments ⟨[slash], false, -1⟩ [yFile]) ::
      List.replicate 6 .holder ++ .pending 0 :: List.replicate 12 .holder)
  exact absurd (htree.names 0) (by decide +kernel)

end InstrumentsDb

end LinuxSampler
