import Mathlib.Data.List.Basic

/-!
# The mutex of a scan

`AddInstrumentsFromFile()` of `db/InstrumentsDb.cpp` as far as it locks and
unlocks the mutex of the database and finalizes its statement. What the
steps find or whether they throw is given: an `Outcome` for the file, a
`Round` for each instrument that is read from it.

The scan unlocks the mutex while the first instrument is read, and locks it
again behind that; at its end it locks the mutex once more.
-/

namespace LinuxSampler

namespace InstrumentsDbLock

/-- How often the thread holds the mutex, `pStmt`, how often that has been finalized, the flag
`unlocked`, and whether SQL has been executed without the mutex. -/
structure Scan where
  depth : Nat
  prepared : Bool := false
  finalized : Nat := 0
  unlocked : Bool := false
  unguarded : Bool := false

namespace Scan

def lock (s : Scan) : Scan := { s with depth := s.depth + 1 }

def unlock (s : Scan) : Scan := { s with depth := s.depth - 1 }

def finalize (s : Scan) : Scan := { s with finalized := s.finalized + 1 }

/-! ## Steps -/

/-- Goes on, or throws. -/
def check (ok : Bool) (s : Scan) : Except Scan Scan := if ok then .ok s else .error s

/-- Executes SQL. -/
def query (ok : Bool) (s : Scan) : Except Scan Scan :=
  ({ s with unguarded := s.unguarded || s.depth == 0 }).check ok

def queries (oks : List Bool) (s : Scan) : Except Scan Scan :=
  oks.foldlM (fun s ok => s.query ok) s

/-- `BindTextParam()` and `BindIntParam()` finalize the statement before they throw. -/
def bind (ok : Bool) (s : Scan) : Except Scan Scan := if ok then .ok s else .error s.finalize

end Scan

/-- What one round of the loop finds. `GetUniqueName()` asks at least once. -/
structure Round where
  query : Bool
  queries : List Bool
  named : Bool
  product : Bool
  artists : Bool
  keywords : Bool
  count : Option Nat
  name : Bool
  nr : Bool
  comments : Bool
  drum : Bool
  insert : Bool
  /-- The next instrument can be read. -/
  next : Bool

/-- `GetUniqueName()` -/
def Round.uniqueName (r : Round) (s : Scan) : Except Scan Scan := do
  let s ← s.query r.query
  let s ← s.queries r.queries
  s.check r.named

/-- From the name on. -/
def Round.store (r : Round) (s : Scan) : Except Scan Scan := do
  let s ← s.bind r.product
  let s ← s.bind r.artists
  let s ← s.bind r.keywords
  let s ← s.query r.count.isSome
  if r.count.getD 0 > 0 then return s
  let s ← s.bind r.name
  let s ← s.bind r.nr
  let s ← s.bind r.comments
  let s ← s.bind r.drum
  s.query r.insert

def Round.run (r : Round) (s : Scan) : Except Scan Scan := do
  let s ← r.uniqueName s
  r.store s

/-- The loop `while (info)`; there is a round for each instrument. -/
def runRounds (index : Int) : List Round → Scan → Except Scan Scan
  | [], s => return s
  | r :: rs, s => do
      let s ← r.run s
      if index ≠ -1 then return s
      let s ← s.check r.next
      runRounds index rs s

/-- What a scan finds: whether the file is supported, the directory, the file, `fileInfo`
(which `getFileInfoFor()` may throw, or be `NULL`), the statement and its parameters, whether the
first instrument can be read, whether there is a transaction then, and the rounds. -/
structure Outcome where
  supported : Bool
  lookUp : List Bool
  dirFound : Bool
  isFile : Bool
  fileInfo : Option Bool
  prepared : Bool
  path : Bool
  family : Bool
  version : Bool
  first : Bool
  inTransaction : Bool
  rounds : List Round

/-- The `try` block of `AddInstrumentsFromFilePriv()`, from the statement on. -/
def Outcome.scan (o : Outcome) (index : Int) (s : Scan) : Except Scan Scan := do
  let s ← s.check o.prepared
  let s := { s with prepared := true }
  let s ← s.bind o.path
  let s ← s.bind o.family
  let s ← s.bind o.version
  -- no transaction is going on, so the mutex is always unlocked
  let s := { s.unlock with unlocked := true }
  let s ← s.check o.first
  let s := if o.inTransaction then s else s.lock
  runRounds index o.rounds s

/-- What follows the `try` block, and what is in the `catch` blocks. -/
def Scan.cleanUp (s : Scan) : Scan :=
  let s := if s.prepared then s.finalize else s
  if s.unlocked then s.lock else s

theorem Scan.cleanUp_depth (s : Scan) :
    s.cleanUp.depth = if s.unlocked then s.depth + 1 else s.depth := by
  obtain ⟨d, p, f, u, g⟩ := s
  cases p <;> cases u <;> rfl

theorem Scan.cleanUp_unguarded (s : Scan) : s.cleanUp.unguarded = s.unguarded := by
  obtain ⟨d, p, f, u, g⟩ := s
  cases p <;> cases u <;> rfl

def addInstrumentsFromFilePriv (index : Int) (o : Outcome) (s : Scan) : Except Scan Scan :=
  match o.fileInfo with
  | none => .error s.cleanUp
  | some false => .ok s
  | some true =>
      match o.scan index s with
      | .ok s => .ok s.cleanUp
      | .error s => .error s.cleanUp

/-- The state after a step, thrown or not. -/
def after : Except Scan Scan → Scan
  | .ok s => s
  | .error s => s

/-- Exceptions are printed. -/
def addInstrumentsFromFile (index : Int) (o : Outcome) (s : Scan) : Scan :=
  if o.supported then
    after do
      let s ← s.queries o.lookUp
      let s ← s.check o.dirFound
      let s ← s.check o.isFile
      addInstrumentsFromFilePriv index o s
  else s

/-! ## What the steps keep -/

/-- The mutex and the flags are as before. -/
structure Keeps (s s' : Scan) : Prop where
  depth : s'.depth = s.depth
  prepared : s'.prepared = s.prepared
  unlocked : s'.unlocked = s.unlocked
  unguarded : s.unguarded = true → s'.unguarded = true

namespace Keeps

variable {s s' s'' : Scan}

theorem refl (s : Scan) : Keeps s s := ⟨rfl, rfl, rfl, id⟩

theorem trans (h : Keeps s s') (h' : Keeps s' s'') : Keeps s s'' :=
  ⟨h'.depth.trans h.depth, h'.prepared.trans h.prepared, h'.unlocked.trans h.unlocked,
    fun hs => h'.unguarded (h.unguarded hs)⟩

theorem bind {r : Except Scan Scan} {f : Scan → Except Scan Scan} (h : Keeps s (after r))
    (hf : ∀ s', Keeps s' (after (f s'))) : Keeps s (after (r >>= f)) := by
  cases r with
  | ok s' => exact h.trans (hf s')
  | error s' => exact h

theorem check (ok : Bool) (s : Scan) : Keeps s (after (s.check ok)) := by
  cases ok <;> exact refl s

theorem query (ok : Bool) (s : Scan) : Keeps s (after (s.query ok)) := by
  have hflag : Keeps s { s with unguarded := s.unguarded || s.depth == 0 } :=
    ⟨rfl, rfl, rfl, fun hs => by rw [hs, Bool.true_or]⟩
  exact hflag.trans (check ok _)

theorem queries (oks : List Bool) (s : Scan) : Keeps s (after (s.queries oks)) := by
  induction oks generalizing s with
  | nil => exact refl s
  | cons ok oks ih => exact (query ok s).bind ih

theorem bindParam (ok : Bool) (s : Scan) : Keeps s (after (s.bind ok)) := by
  cases ok <;> exact ⟨rfl, rfl, rfl, id⟩

theorem uniqueName (r : Round) (s : Scan) : Keeps s (after (r.uniqueName s)) :=
  (query _ s).bind fun s => (queries _ s).bind fun s => check _ s

theorem store (r : Round) (s : Scan) : Keeps s (after (r.store s)) := by
  refine (bindParam _ s).bind fun s => (bindParam _ s).bind fun s => (bindParam _ s).bind fun s => ?_
  refine (query _ s).bind fun s => ?_
  split
  · exact refl s
  · refine (bindParam _ s).bind fun s => (bindParam _ s).bind fun s => ?_
    exact (bindParam _ s).bind fun s => (bindParam _ s).bind fun s => query _ s

theorem run (r : Round) (s : Scan) : Keeps s (after (r.run s)) :=
  (uniqueName r s).bind (store r)

theorem runRounds (index : Int) (rs : List Round) (s : Scan) :
    Keeps s (after (runRounds index rs s)) := by
  induction rs generalizing s with
  | nil => exact refl s
  | cons r rs ih =>
      refine (run r s).bind fun s => ?_
      split
      · exact refl s
      · exact (check _ s).bind ih

end Keeps

theorem unguarded_bind {r : Except Scan Scan} {f : Scan → Except Scan Scan}
    (h : (after r).unguarded = true) (hf : ∀ s, Keeps s (after (f s))) :
    (after (r >>= f)).unguarded = true := by
  cases r with
  | ok s => exact (hf s).unguarded h
  | error s => exact h

/-- A round executes SQL whether the mutex is held or not. -/
theorem unguarded_runRounds (index : Int) (r : Round) (rs : List Round) {s : Scan}
    (hs : s.depth = 0) : (after (runRounds index (r :: rs) s)).unguarded = true := by
  have hquery : (after (s.query r.query)).unguarded = true := by
    rw [Scan.query, hs]
    cases r.query <;> exact Bool.or_true _
  have hname : (after (r.uniqueName s)).unguarded = true :=
    unguarded_bind hquery fun s => (Keeps.queries _ s).bind fun s => Keeps.check _ s
  have hrun : (after (r.run s)).unguarded = true := unguarded_bind hname (Keeps.store r)
  refine unguarded_bind hrun fun s => ?_
  split
  · exact Keeps.refl s
  · exact (Keeps.check _ s).bind (Keeps.runRounds index rs)

/-! ## Balance -/

theorem query_guarded {s : Scan} (hs : s.depth ≠ 0) (ok : Bool) : s.query ok = s.check ok := by
  rw [Scan.query, beq_false_of_ne hs, Bool.or_false]

/-- With the mutex held, queries change nothing. -/
theorem queries_guarded {s : Scan} (hs : s.depth ≠ 0) (oks : List Bool) :
    s.queries oks = s.check (oks.all id) := by
  induction oks with
  | nil => rfl
  | cons ok oks ih =>
      rw [Scan.queries, List.foldlM_cons, query_guarded hs]
      cases ok with
      | false => rfl
      | true => exact ih

/-- The caller holds the mutex. -/
def held : Scan := { depth := 1 }

/-- The mutex is held as before, a statement has been finalized once, and all SQL has been executed
with the mutex. -/
structure Balanced (s : Scan) : Prop where
  depth : s.depth = held.depth
  finalized : s.finalized = if s.prepared then 1 else 0
  guarded : s.unguarded = false

/-- The scan ends before it has a statement. -/
def Outcome.StopsEarly (o : Outcome) : Prop :=
  o.supported = false ∨ o.lookUp.all id = false ∨ o.dirFound = false ∨ o.isFile = false ∨
    o.fileInfo ≠ some true ∨ o.prepared = false

/-- The parameters are bound, and the first instrument cannot be read, or there is none while a
transaction is going on. -/
def Outcome.FindsNothing (o : Outcome) : Prop :=
  o.path = true ∧ o.family = true ∧ o.version = true ∧
    (o.first = false ∨ o.inTransaction = true ∧ o.rounds = [])

/-- What happens before the file is opened. -/
theorem addInstrumentsFromFile_held (index : Int) (o : Outcome) :
    addInstrumentsFromFile index o held =
      if o.supported ∧ o.lookUp.all id ∧ o.dirFound ∧ o.isFile then
        after (addInstrumentsFromFilePriv index o held)
      else held := by
  unfold addInstrumentsFromFile
  rw [queries_guarded Nat.one_ne_zero]
  cases o.supported
  · rfl
  cases o.lookUp.all id
  · rfl
  cases o.dirFound
  · rfl
  cases o.isFile <;> rfl

theorem addInstrumentsFromFilePriv_held (index : Int) (o : Outcome) :
    after (addInstrumentsFromFilePriv index o held) =
      if o.fileInfo = some true then (after (o.scan index held)).cleanUp else held := by
  unfold addInstrumentsFromFilePriv
  cases o.fileInfo with
  | none => rfl
  | some b =>
      cases b with
      | false => rfl
      | true =>
          dsimp only
          rw [if_pos rfl]
          cases o.scan index held <;> rfl

theorem balanced_held : Balanced held := ⟨rfl, rfl, rfl⟩

theorem balanced_of_stopsEarly (index : Int) {o : Outcome} (h : o.StopsEarly) :
    Balanced (addInstrumentsFromFile index o held) := by
  rw [addInstrumentsFromFile_held, addInstrumentsFromFilePriv_held]
  split
  · next hopen =>
    split
    · next hinfo =>
      have hprepared : o.prepared = false := by simpa [Outcome.StopsEarly, hopen, hinfo] using h
      rw [Outcome.scan, hprepared]
      exact balanced_held
    · exact balanced_held
  · exact balanced_held

theorem addInstrumentsFromFile_eq (index : Int) {o : Outcome} (h : ¬ o.StopsEarly) :
    addInstrumentsFromFile index o held = (after (o.scan index held)).cleanUp ∧
      o.prepared = true := by
  simp only [Outcome.StopsEarly, not_or, Bool.not_eq_false, not_not] at h
  obtain ⟨hsupported, hlookUp, hdir, hfile, hinfo, hprepared⟩ := h
  rw [addInstrumentsFromFile_held, if_pos ⟨hsupported, hlookUp, hdir, hfile⟩,
    addInstrumentsFromFilePriv_held, if_pos hinfo]
  exact ⟨rfl, hprepared⟩

/-- A statement whose parameters cannot be bound is finalized twice. -/
theorem not_balanced_twice : ¬ Balanced { depth := 1, prepared := true, finalized := 2 } :=
  fun h => nomatch h.finalized

theorem balanced_scan_iff (index : Int) {o : Outcome} (hprepared : o.prepared = true) :
    Balanced (after (o.scan index held)).cleanUp ↔ o.FindsNothing := by
  unfold Outcome.scan Outcome.FindsNothing
  rw [hprepared]
  cases o.path
  · exact iff_of_false not_balanced_twice (fun h => nomatch h.1)
  cases o.family
  · exact iff_of_false not_balanced_twice (fun h => nomatch h.2.1)
  cases o.version
  · exact iff_of_false not_balanced_twice (fun h => nomatch h.2.2.1)
  cases o.first
  · exact iff_of_true ⟨rfl, rfl, rfl⟩ ⟨rfl, rfl, rfl, .inl rfl⟩
  cases o.inTransaction with
  | false =>
      refine iff_of_false (fun h => ?_) fun h => by simp at h
      -- the mutex has been locked again, and at the end it is locked once more
      let s : Scan := { depth := 1, prepared := true, unlocked := true }
      have hkeeps := Keeps.runRounds index o.rounds s
      have hdepth : (after (runRounds index o.rounds s)).cleanUp.depth = 1 := h.depth
      rw [Scan.cleanUp_depth, hkeeps.unlocked, if_pos rfl, hkeeps.depth] at hdepth
      exact Nat.noConfusion (Nat.succ.inj hdepth)
  | true =>
      cases o.rounds with
      | nil => exact iff_of_true ⟨rfl, rfl, rfl⟩ ⟨rfl, rfl, rfl, .inr ⟨rfl, rfl⟩⟩
      | cons r rs =>
          refine iff_of_false (fun h => ?_) fun h => by simp at h
          let s : Scan := { depth := 0, prepared := true, unlocked := true }
          have hunguarded := unguarded_runRounds index r rs (s := s) rfl
          have hguarded : (after (runRounds index (r :: rs) s)).cleanUp.unguarded = false := h.guarded
          rw [Scan.cleanUp_unguarded, hunguarded] at hguarded
          exact Bool.noConfusion hguarded

/-- The mutex, the statement and the SQL are as they should be if and only if the scan stops early
or finds nothing. -/
theorem addInstrumentsFromFile_balanced_iff (index : Int) (o : Outcome) :
    Balanced (addInstrumentsFromFile index o held) ↔ o.StopsEarly ∨ o.FindsNothing := by
  by_cases hearly : o.StopsEarly
  · exact iff_of_true (balanced_of_stopsEarly index hearly) (.inl hearly)
  · obtain ⟨heq, hprepared⟩ := addInstrumentsFromFile_eq index hearly
    rw [heq, balanced_scan_iff index hprepared]
    exact (or_iff_right hearly).symm

/-- A file that is read without any fault, with one instrument that is new. -/
def plainFile : Outcome where
  supported := true
  lookUp := [true]
  dirFound := true
  isFile := true
  fileInfo := some true
  prepared := true
  path := true
  family := true
  version := true
  first := true
  inTransaction := false
  rounds := [⟨true, [true], true, true, true, true, some 0, true, true, true, true, true, true⟩]

/-- The mutex is still held once when the caller has released it. -/
theorem not_addInstrumentsFromFile_balanced :
    ¬ ∀ (index : Int) (o : Outcome), Balanced (addInstrumentsFromFile index o held) :=
  fun h => nomatch (h (-1) plainFile).depth

end InstrumentsDbLock

end LinuxSampler
