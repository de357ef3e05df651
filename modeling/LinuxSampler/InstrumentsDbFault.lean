import LinuxSampler.InstrumentsDbEscape
import LinuxSampler.InstrumentsDbTree
import LinuxSampler.StoreFault

/-!
# Calls that fail

The connection to the database, whose statements may fail at any point: an
error leaves the content as it was, or rolls a transaction back. A call that
throws ends its transaction like any other, which commits what has been
done: `EndTransaction()` is all there is. The mutex is released and
`InTransaction` is reset in any case (`failed_call`). Calls with one statement have
done nothing when they throw.
-/

namespace LinuxSampler

namespace InstrumentsDb

open Bytes StoreProgram Prog Faulty

/-! ## Connection -/

/-- How a statement turns out. -/
inductive Outcome where
  | works
  | fails
  | rollsBack
  deriving DecidableEq

/-- What the connection sees, what is committed, whether SQLite has a transaction open, and how
often the thread holds the mutex. -/
structure Conn where
  db : Db
  committed : Db
  isOpen : Bool := false
  depth : Nat := 0

namespace Conn

def rollBack (c : Conn) : Conn :=
  if c.isOpen then
    { c with db := { c.committed with inTransaction := c.db.inTransaction }, isOpen := false }
  else c

/-- After a statement that did not work. -/
def failed (c : Conn) (o : Outcome) : Conn := if o = .rollsBack then c.rollBack else c

def query (o : Outcome) (c : Conn) : Option Db × Conn :=
  if o = .works then (some c.db, c) else (none, c.failed o)

/-- `BeginTransaction()`. An error is only printed. -/
def beginTransaction (o : Outcome) (c : Conn) : Conn :=
  let c := { c with depth := c.depth + 1 }
  if c.db.inTransaction then c
  else
    let c := { c with db.inTransaction := true }
    if o = .works then { c with isOpen := true } else c.failed o

/-- `EndTransaction()` -/
def endTransaction (o : Outcome) (c : Conn) : Conn :=
  let ended :=
    if c.db.inTransaction then
      let c := { c with db.inTransaction := false }
      if o = .works then
        if c.isOpen then { c with committed := c.db, isOpen := false } else c
      else c.failed o
    else c
  { ended with depth := ended.depth - 1 }

/-- Without a transaction a statement is committed at once. -/
def change (stmt : Stmt) (o : Outcome) (c : Conn) : Bool × Conn :=
  if o = .works then
    match stmt.exec c.db with
    | some db => (true, { c with db := db, committed := if c.isOpen then c.committed else db })
    | none => (false, c)
  else (false, c.failed o)

def exec (stmt : Stmt) (o : Outcome) (c : Conn) : Bool × Conn :=
  match stmt with
  | .beginTransaction => (true, c.beginTransaction o)
  | .endTransaction => (true, c.endTransaction o)
  | stmt => c.change stmt o

end Conn

def connection : Faulty Stmt Db Conn Outcome := ⟨Conn.query, Conn.exec⟩

/-! ## Calls -/

/-- `GetDirectoryPath()` of a number, which goes up 999 levels at most. -/
def directoryPath : Nat → Int → Program Bytes
  | 0, _ => fail
  | levels + 1, dirId =>
      if dirId = 0 then ret [slash]
      else do
        let row ← select fun db => db.dirs.find? fun d => d.id = dirId
        let name := (row.map DirRow.name).getD []
        require (name ≠ [])
        let parent ← select fun db => db.findParent dirId
        require (parent ≠ -1)
        let path ← directoryPath levels parent
        ret (path ++ name ++ [slash])

/-- The loop of `GetInstrumentsByFile()`. -/
def instrumentPaths : List Int → Program (List Bytes)
  | [] => ret []
  | id :: ids => do
      let row ← select fun db => db.instruments.find? fun i => i.id = id
      let dirId ← select fun db =>
        ((db.instruments.find? fun i => i.id = id).map InstrumentRow.dir).getD (-1)
      let dir ← directoryPath 999 dirId
      let paths ← instrumentPaths ids
      ret ((dir ++ (row.map fun i => toAbstractName i.name).getD []) :: paths)

def getInstrumentsByFile (file : Bytes) : Program (List Bytes) :=
  transaction do
    let ids ← select fun db =>
      (db.instruments.filter fun i => i.file = bindText (toEscapedFsPath file)).map InstrumentRow.id
    instrumentPaths ids

def setInstrumentFilePath (oldPath newPath : Bytes) : Program Unit :=
  if oldPath = newPath then ret ()
  else
    transaction do
      let _ ← getInstrumentsByFile oldPath
      statement (.setInstrumentFile (toEscapedFsPath newPath) (toEscapedFsPath oldPath))

inductive Operation where
  | addDirectory (dir : Bytes)
  | removeDirectory (dir : Bytes) (force : Bool)
  | renameDirectory (dir name : Bytes)
  | moveDirectory (dir dst : Bytes)
  | copyDirectory (dir dst : Bytes)
  | renameInstrument (instr name : Bytes)
  | moveInstrument (instr dst : Bytes)
  | copyInstrument (instr dst : Bytes)
  | removeInstrument (instr : Bytes)
  | setInstrumentFilePath (oldPath newPath : Bytes)

namespace Operation

def program : Operation → Program Unit
  | addDirectory dir => InstrumentsDb.addDirectory dir
  | removeDirectory dir force => InstrumentsDb.removeDirectory dir force
  | renameDirectory dir name => InstrumentsDb.renameDirectory dir name
  | moveDirectory dir dst => InstrumentsDb.moveDirectory dir dst
  | copyDirectory dir dst => InstrumentsDb.copyDirectory dir dst
  | renameInstrument instr name => InstrumentsDb.renameInstrument instr name
  | moveInstrument instr dst => InstrumentsDb.moveInstrument instr dst
  | copyInstrument instr dst => InstrumentsDb.copyInstrument instr dst
  | removeInstrument instr => InstrumentsDb.removeInstrument instr
  | setInstrumentFilePath oldPath newPath => InstrumentsDb.setInstrumentFilePath oldPath newPath

/-- It does not copy or remove what is in a directory. -/
def isSingle : Operation → Bool
  | removeDirectory _ force => !force
  | copyDirectory _ _ => false
  | _ => true

end Operation

/-- Nothing is going on. -/
structure Conn.Idle (c : Conn) : Prop where
  committed : c.committed = c.db
  inTransaction : c.db.inTransaction = false
  closed : c.isOpen = false

/-- The rows of both tables. -/
def Db.content (db : Db) : List DirRow × List InstrumentRow := (db.dirs, db.instruments)

/-! ## Mutex and transaction -/

/-- The mutex is held as often as before, and no transaction is left. -/
structure Ended (c c' : Conn) : Prop where
  depth : c'.depth = c.depth
  inTransaction : c.db.inTransaction = false → c'.db.inTransaction = false

namespace Ended

variable {c c' c'' : Conn}

theorem refl (c : Conn) : Ended c c := ⟨rfl, id⟩

theorem trans (h : Ended c c') (h' : Ended c' c'') : Ended c c'' :=
  ⟨h'.depth.trans h.depth, fun hc => h'.inTransaction (h.inTransaction hc)⟩

theorem failed (c : Conn) (o : Outcome) : Ended c (c.failed o) := by
  unfold Conn.failed Conn.rollBack
  split
  · split
    · exact ⟨rfl, id⟩
    · exact refl c
  · exact refl c

theorem query (o : Outcome) (c : Conn) : Ended c (c.query o).2 := by
  unfold Conn.query
  split
  · exact refl c
  · exact failed c o

end Ended

/-- The statements that are not about transactions. -/
def Stmt.Changes (stmt : Stmt) : Prop := stmt ≠ .beginTransaction ∧ stmt ≠ .endTransaction

theorem inTransaction_withDirs {db db' : Db} {dirs : List DirRow}
    (h : db.withDirs dirs = some db') : db'.inTransaction = db.inTransaction := by
  rw [(withDirs_eq h).2]

theorem inTransaction_withInstruments {db db' : Db} {instruments : List InstrumentRow}
    (h : db.withInstruments instruments = some db') : db'.inTransaction = db.inTransaction := by
  rw [(withInstruments_eq h).2]

theorem Stmt.Changes.inTransaction {stmt : Stmt} (hstmt : stmt.Changes) {db db' : Db}
    (h : stmt.exec db = some db') : db'.inTransaction = db.inTransaction := by
  cases stmt with
  | beginTransaction => exact absurd rfl hstmt.1
  | endTransaction => exact absurd rfl hstmt.2
  | insertDirectory parent name =>
      have h : Db.withDirs { db with lastDir := db.lastDir + 1 } _ = some db' := h
      rw [(withDirs_eq h).2]
  | deleteDirectory id => exact inTransaction_withDirs h
  | deleteDirectories parent => exact inTransaction_withDirs h
  | renameDirectory id name => exact inTransaction_withDirs h
  | moveDirectory id parent => exact inTransaction_withDirs h
  | insertInstrument dir name file nr columns =>
      have h : Db.withInstruments { db with lastInstrument := db.lastInstrument + 1 } _ = some db' := h
      rw [(withInstruments_eq h).2]
  | scanInstrument dir name file nr columns =>
      have h : Db.withInstruments { db with lastInstrument := db.lastInstrument + 1 } _ = some db' := h
      rw [(withInstruments_eq h).2]
  | deleteInstrument id => exact inTransaction_withInstruments h
  | deleteInstruments dir => exact inTransaction_withInstruments h
  | renameInstrument id name => exact inTransaction_withInstruments h
  | moveInstrument id dir => exact inTransaction_withInstruments h
  | setInstrumentFile newPath oldPath => exact inTransaction_withInstruments h

theorem Stmt.Changes.exec_eq {stmt : Stmt} (hstmt : stmt.Changes) (o : Outcome) (c : Conn) :
    c.exec stmt o = c.change stmt o := by
  unfold Conn.exec
  split
  · exact absurd rfl hstmt.1
  · exact absurd rfl hstmt.2
  · rfl

/-- Whatever the outcomes, the mutex and `InTransaction` are as they were. -/
def Balanced {α : Type} (p : Program α) : Prop :=
  ∀ c, connection.Always (fun _ c' => Ended c c') p c

variable {α β : Type}

theorem balanced_ret (a : α) : Balanced (ret a) := Ended.refl

theorem balanced_fail : Balanced (fail : Program α) := Ended.refl

theorem balanced_select (query : Db → α) : Balanced (select query) := by
  refine fun c => always_select fun o => ?_
  split
  · exact .query o c
  · exact .query o c

theorem balanced_require (c : Prop) [Decidable c] : Balanced (require c) :=
  fun s => always_require (fun _ => .refl s) fun _ => .refl s

theorem balanced_statement {stmt : Stmt} (hstmt : stmt.Changes) : Balanced (statement stmt) := by
  refine fun c => always_statement fun o => ?_
  show if (c.exec stmt o).1 then Ended c (c.exec stmt o).2 else Ended c (c.exec stmt o).2
  rw [ite_self, hstmt.exec_eq]
  unfold Conn.change
  split
  · split
    · next db hdb => exact ⟨rfl, fun hc => (hstmt.inTransaction hdb).trans hc⟩
    · exact .refl c
  · exact .failed c o

namespace Balanced

theorem bind {p : Program α} {k : α → Program β} (hp : Balanced p) (hk : ∀ a, Balanced (k a)) :
    Balanced (p >>= k) :=
  fun c => (hp c).bind (fun a c' h => (hk a c').mono fun _ _ h' => h.trans h') fun _ h => h

theorem forEach {xs : List β} {f : β → Program Unit} (hf : ∀ x ∈ xs, Balanced (f x)) :
    Balanced (forEach xs f) :=
  fun c => always_forEach (fun x hx c' h => (hf x hx c').mono fun _ _ h' => h.trans h') (.refl c)

end Balanced

theorem beginTransaction_depth (o : Outcome) (c : Conn) :
    (c.beginTransaction o).depth = c.depth + 1 := by
  unfold Conn.beginTransaction
  dsimp only
  split
  · rfl
  · split
    · rfl
    · exact (Ended.failed _ o).depth

theorem endTransaction_depth (o : Outcome) (c : Conn) :
    (c.endTransaction o).depth = c.depth - 1 := by
  unfold Conn.endTransaction
  dsimp only
  congr 1
  split
  · split
    · split
      · rfl
      · rfl
    · exact (Ended.failed _ o).depth
  · rfl

theorem endTransaction_inTransaction (o : Outcome) (c : Conn) :
    (c.endTransaction o).db.inTransaction = false := by
  unfold Conn.endTransaction
  dsimp only
  split
  · split
    · split
      · rfl
      · rfl
    · exact (Ended.failed _ o).inTransaction rfl
  · next h => exact Bool.not_eq_true _ ▸ h

/-- A transaction is over in any case. -/
theorem Balanced.transaction {p : Program α} (hp : Balanced p) : Balanced (transaction p) := by
  intro c
  have hbegin : connection.Always (fun r c' => r = some () ∧ c'.depth = c.depth + 1)
      (statement .beginTransaction) c := fun o => ⟨rfl, beginTransaction_depth o c⟩
  refine hbegin.bind (fun _ c₁ h₁ => ?_) fun _ h => nomatch h.1
  have hattempt : connection.Always (fun r c₂ => r ≠ none ∧ Ended c₁ c₂) (Prog.attempt p) c₁ :=
    (hp c₁).attempt fun r _ h => ⟨Option.some_ne_none r, h⟩
  refine hattempt.bind (fun r c₂ h₂ => ?_) fun _ h => absurd rfl h.1
  have hend : connection.Always (fun r c' => r = some () ∧ Ended c c')
      (statement .endTransaction) c₂ := by
    refine fun o => ⟨rfl, ?_, fun _ => endTransaction_inTransaction o c₂⟩
    refine (endTransaction_depth o c₂).trans ?_
    rw [h₂.2.depth, h₁.2, Nat.add_sub_cancel]
  refine hend.bind (fun _ c₃ h₃ => ?_) fun _ h => nomatch h.1
  cases r with
  | some a => exact h₃.2
  | none => exact h₃.2

/-! ## Content -/

/-- What the connection sees and what is committed is `T`. -/
structure Holds (T : List DirRow × List InstrumentRow) (c : Conn) : Prop where
  db : c.db.content = T
  committed : c.committed.content = T

namespace Holds

variable {T : List DirRow × List InstrumentRow} {c : Conn}

theorem failed (h : Holds T c) (o : Outcome) : Holds T (c.failed o) := by
  unfold Conn.failed Conn.rollBack
  split
  · split
    · exact ⟨h.committed, h.committed⟩
    · exact h
  · exact h

theorem query (h : Holds T c) (o : Outcome) : Holds T (c.query o).2 := by
  unfold Conn.query
  split
  · exact h
  · exact h.failed o

theorem beginTransaction (h : Holds T c) (o : Outcome) : Holds T (c.beginTransaction o) := by
  unfold Conn.beginTransaction
  dsimp only
  split
  · exact ⟨h.db, h.committed⟩
  · split
    · exact ⟨h.db, h.committed⟩
    · refine failed ?_ o
      exact ⟨h.db, h.committed⟩

theorem endTransaction (h : Holds T c) (o : Outcome) : Holds T (c.endTransaction o) := by
  have hended : Holds T
      (if c.db.inTransaction then
        let c := { c with db.inTransaction := false }
        if o = .works then
          if c.isOpen then { c with committed := c.db, isOpen := false } else c
        else c.failed o
      else c) := by
    split
    · dsimp only
      split
      · split
        · exact ⟨h.db, h.db⟩
        · exact ⟨h.db, h.committed⟩
      · refine failed ?_ o
        exact ⟨h.db, h.committed⟩
    · exact h
  exact ⟨hended.db, hended.committed⟩

/-- A statement after which the connection sees the same has committed nothing else. -/
theorem exec (h : Holds T c) (stmt : Stmt) (o : Outcome)
    (hsees : (c.exec stmt o).2.db.content = T) : Holds T (c.exec stmt o).2 := by
  unfold Conn.exec at hsees ⊢
  split at hsees
  · exact h.beginTransaction o
  · exact h.endTransaction o
  · refine ⟨hsees, ?_⟩
    unfold Conn.change at hsees ⊢
    split
    · next hworks =>
      rw [if_pos hworks] at hsees
      split at hsees
      · show Db.content (if c.isOpen then c.committed else _) = T
        split
        · exact h.committed
        · exact hsees
      · exact h.committed
    · exact (h.failed o).committed

end Holds

/-- The program only reads. -/
def Quiet (p : Program α) : Prop :=
  ∀ T c, Holds T c → connection.Always (fun _ c' => Holds T c') p c

/-- If the program fails it has done nothing. -/
def Single (p : Program α) : Prop :=
  ∀ T c, Holds T c → connection.Always (fun r c' => r = none → Holds T c') p c

theorem quiet_ret (a : α) : Quiet (ret a) := fun _ _ h => h

theorem quiet_fail : Quiet (fail : Program α) := fun _ _ h => h

theorem quiet_select (query : Db → α) : Quiet (select query) := by
  refine fun T c h => always_select fun o => ?_
  split
  · exact h.query o
  · exact h.query o

theorem quiet_require (c : Prop) [Decidable c] : Quiet (require c) :=
  fun _ _ h => always_require (fun _ => h) fun _ => h

theorem single_statement {stmt : Stmt} (hstmt : stmt.Changes) : Single (statement stmt) := by
  refine fun T c h => always_statement fun o => ?_
  show if (c.exec stmt o).1 then _ else _
  split
  · exact fun hnone => nomatch hnone
  · next hno =>
    intro _
    show Holds T (c.exec stmt o).2
    rw [hstmt.exec_eq] at hno ⊢
    unfold Conn.change at hno ⊢
    split
    · next hworks =>
      rw [if_pos hworks] at hno
      cases hdb : stmt.exec c.db with
      | some db =>
          rw [hdb] at hno
          exact absurd rfl hno
      | none => exact h
    · exact h.failed o

namespace Quiet

theorem single {p : Program α} (hp : Quiet p) : Single p :=
  fun T c h => (hp T c h).mono fun _ _ h' _ => h'

theorem bind {p : Program α} {k : α → Program β} (hp : Quiet p) (hk : ∀ a, Quiet (k a)) :
    Quiet (p >>= k) :=
  fun T c h => (hp T c h).bind (fun a c' h' => hk a T c' h') fun _ h' => h'

theorem bind_single {p : Program α} {k : α → Program β} (hp : Quiet p) (hk : ∀ a, Single (k a)) :
    Single (p >>= k) :=
  fun T c h => (hp T c h).bind (fun a c' h' => hk a T c' h') fun _ h' _ => h'

end Quiet

theorem quiet_beginTransaction : Quiet (statement .beginTransaction) :=
  fun _ _ h o => h.beginTransaction o

theorem quiet_endTransaction : Quiet (statement .endTransaction) :=
  fun _ _ h o => h.endTransaction o

theorem Quiet.transaction {p : Program α} (hp : Quiet p) : Quiet (transaction p) := by
  refine quiet_beginTransaction.bind fun _ => ?_
  have hattempt : Quiet (Prog.attempt p) := fun T c h => (hp T c h).attempt fun _ _ h' => h'
  refine hattempt.bind fun r => quiet_endTransaction.bind fun _ => ?_
  cases r with
  | some a => exact quiet_ret a
  | none => exact quiet_fail

/-- If a transaction throws, its program has failed. -/
theorem Single.transaction {p : Program α} (hp : Single p) : Single (transaction p) := by
  refine quiet_beginTransaction.bind_single fun _ T c h => ?_
  have hattempt : connection.Always (fun r c' => r ≠ none ∧ (r = some none → Holds T c'))
      (Prog.attempt p) c :=
    (hp T c h).attempt fun r _ h' => ⟨Option.some_ne_none r, fun hr => h' (Option.some.inj hr)⟩
  refine hattempt.bind (fun r c₁ h₁ => ?_) fun _ h' => absurd rfl h'.1
  cases r with
  | none => exact (quiet_endTransaction.bind fun _ => quiet_fail).single T c₁ (h₁.2 rfl)
  | some a =>
      have hend : connection.Always (fun r _ => r = some ()) (statement .endTransaction) c₁ :=
        fun o => rfl
      exact hend.bind (fun _ _ _ hnone => nomatch hnone) fun _ h' => nomatch h'

/-! ## Queries -/

/-- The program only reads, and the mutex is held as before. -/
structure IsQuery (p : Program α) : Prop where
  quiet : Quiet p
  balanced : Balanced p

/-- If the program fails it has done nothing, and the mutex is held as before. -/
structure Atomic (p : Program α) : Prop where
  single : Single p
  balanced : Balanced p

namespace IsQuery

theorem ret (a : α) : IsQuery (ret a) := ⟨quiet_ret a, balanced_ret a⟩

theorem fail : IsQuery (fail : Program α) := ⟨quiet_fail, balanced_fail⟩

theorem select (query : Db → α) : IsQuery (select query) :=
  ⟨quiet_select query, balanced_select query⟩

theorem require (c : Prop) [Decidable c] : IsQuery (require c) :=
  ⟨quiet_require c, balanced_require c⟩

theorem bind {p : Program α} {k : α → Program β} (hp : IsQuery p) (hk : ∀ a, IsQuery (k a)) :
    IsQuery (p >>= k) :=
  ⟨hp.quiet.bind fun a => (hk a).quiet, hp.balanced.bind fun a => (hk a).balanced⟩

theorem atomic {p : Program α} (hp : IsQuery p) : Atomic p := ⟨hp.quiet.single, hp.balanced⟩

theorem bind_atomic {p : Program α} {k : α → Program β} (hp : IsQuery p)
    (hk : ∀ a, Atomic (k a)) : Atomic (p >>= k) :=
  ⟨hp.quiet.bind_single fun a => (hk a).single, hp.balanced.bind fun a => (hk a).balanced⟩

theorem transaction {p : Program α} (hp : IsQuery p) : IsQuery (transaction p) :=
  ⟨hp.quiet.transaction, hp.balanced.transaction⟩

theorem getDirId (parent : Int) (name : Bytes) : IsQuery (getDirId parent name) := select _

theorem lookUp (id : Int) (names : List Bytes) : IsQuery (lookUp id names) := by
  induction names generalizing id with
  | nil => exact ret id
  | cons name names ih => exact (getDirId id name).bind ih

theorem getDirectoryId (dir : Bytes) : IsQuery (getDirectoryId dir) := by
  refine (require _).bind fun _ => ?_
  split
  · exact ret _
  · split
    · exact ret _
    · exact lookUp 0 _

theorem getInstrumentId (dirId : Int) (name : Bytes) : IsQuery (getInstrumentId dirId name) := by
  unfold InstrumentsDb.getInstrumentId
  split
  · exact ret _
  · exact select _

theorem getInstrumentIdOf (instr : Bytes) : IsQuery (getInstrumentIdOf instr) := by
  unfold InstrumentsDb.getInstrumentIdOf
  split
  · exact ret _
  · exact (getDirectoryId _).bind fun dirId => getInstrumentId dirId _

theorem requireEmpty (dirId : Int) : IsQuery (requireEmpty dirId) :=
  (select _).bind fun _ => (select _).bind fun _ => require _

theorem checkTarget (dir dst : Bytes) : IsQuery (checkTarget dir dst) := by
  refine (getDirectoryId dir).bind fun dirId => (require _).bind fun _ => ?_
  refine (getDirectoryId dst).bind fun dstId => (require _).bind fun _ => ?_
  refine (require _).bind fun _ => (require _).bind fun _ => ?_
  refine (getDirId dstId _).bind fun _ => (require _).bind fun _ => ?_
  exact (getInstrumentId dstId _).bind fun _ => (require _).bind fun _ => ret _

theorem lookUpInstrument (instr dst : Bytes) : IsQuery (lookUpInstrument instr dst) := by
  refine (getDirectoryId _).bind fun dirId => (require _).bind fun _ => ?_
  refine (getInstrumentId dirId _).bind fun instrId => (require _).bind fun _ => ?_
  exact (getDirectoryId dst).bind fun dstId => (require _).bind fun _ => ret _

theorem directoryPath (levels : Nat) (dirId : Int) : IsQuery (directoryPath levels dirId) := by
  induction levels generalizing dirId with
  | zero => exact fail
  | succ levels ih =>
      unfold InstrumentsDb.directoryPath
      split
      · exact ret _
      · refine (select _).bind fun row => (require _).bind fun _ => ?_
        refine (select _).bind fun parent => (require _).bind fun _ => ?_
        exact (ih parent).bind fun path => ret _

theorem instrumentPaths (ids : List Int) : IsQuery (instrumentPaths ids) := by
  induction ids with
  | nil => exact ret _
  | cons id ids ih =>
      refine (select _).bind fun row => (select _).bind fun dirId => ?_
      exact (directoryPath 999 dirId).bind fun dir => ih.bind fun paths => ret _

theorem getInstrumentsByFile (file : Bytes) : IsQuery (getInstrumentsByFile file) :=
  ((select _).bind fun ids => instrumentPaths ids).transaction

end IsQuery

/-! ## Calls with one statement -/

namespace Atomic

theorem statement {stmt : Stmt} (hstmt : stmt.Changes) : Atomic (statement stmt) :=
  ⟨single_statement hstmt, balanced_statement hstmt⟩

theorem transaction {p : Program α} (hp : Atomic p) : Atomic (transaction p) :=
  ⟨hp.single.transaction, hp.balanced.transaction⟩

theorem addDirectory (dir : Bytes) : Atomic (addDirectory dir) := by
  refine (IsQuery.require _).bind_atomic fun _ => transaction ?_
  refine (IsQuery.require _).bind_atomic fun _ => ?_
  refine (IsQuery.getDirectoryId _).bind_atomic fun id => (IsQuery.require _).bind_atomic fun _ => ?_
  refine (IsQuery.getDirId id _).bind_atomic fun _ => (IsQuery.require _).bind_atomic fun _ => ?_
  refine (IsQuery.getInstrumentId id _).bind_atomic fun _ => ?_
  exact (IsQuery.require _).bind_atomic fun _ => statement ⟨nofun, nofun⟩

theorem removeDirectory (dir : Bytes) : Atomic (removeDirectory dir false) := by
  refine transaction ((IsQuery.getDirectoryId dir).bind_atomic fun dirId => ?_)
  refine (IsQuery.require _).bind_atomic fun _ => (IsQuery.ret ()).bind_atomic fun _ => ?_
  refine (IsQuery.select _).bind_atomic fun _ => (IsQuery.select _).bind_atomic fun _ => ?_
  exact (IsQuery.require _).bind_atomic fun _ => statement ⟨nofun, nofun⟩

theorem renameDirectory (dir name : Bytes) : Atomic (renameDirectory dir name) := by
  refine (IsQuery.require _).bind_atomic fun _ => transaction ?_
  refine (IsQuery.getDirectoryId dir).bind_atomic fun _ => (IsQuery.require _).bind_atomic fun _ => ?_
  refine (IsQuery.select _).bind_atomic fun parent => (IsQuery.require _).bind_atomic fun _ => ?_
  refine (IsQuery.getDirId parent _).bind_atomic fun _ => (IsQuery.require _).bind_atomic fun _ => ?_
  refine (IsQuery.getInstrumentId parent _).bind_atomic fun _ => ?_
  exact (IsQuery.require _).bind_atomic fun _ => statement ⟨nofun, nofun⟩

theorem moveDirectory (dir dst : Bytes) : Atomic (moveDirectory dir dst) := by
  refine (IsQuery.require _).bind_atomic fun _ => transaction ?_
  exact (IsQuery.checkTarget dir dst).bind_atomic fun _ => statement ⟨nofun, nofun⟩

theorem renameInstrument (instr name : Bytes) : Atomic (renameInstrument instr name) := by
  refine (IsQuery.require _).bind_atomic fun _ => transaction ?_
  refine (IsQuery.getDirectoryId _).bind_atomic fun dirId =>
    (IsQuery.require _).bind_atomic fun _ => ?_
  refine (IsQuery.getInstrumentId dirId _).bind_atomic fun _ => ?_
  refine (IsQuery.require _).bind_atomic fun _ => ?_
  refine (IsQuery.getInstrumentId dirId _).bind_atomic fun _ => ?_
  refine (IsQuery.require _).bind_atomic fun _ => ?_
  refine (IsQuery.getDirId dirId _).bind_atomic fun _ => ?_
  exact (IsQuery.require _).bind_atomic fun _ => statement ⟨nofun, nofun⟩

theorem moveInstrument (instr dst : Bytes) : Atomic (moveInstrument instr dst) := by
  refine (IsQuery.require _).bind_atomic fun _ => transaction ?_
  refine (IsQuery.lookUpInstrument instr dst).bind_atomic fun ⟨instrId, dirId, dstId⟩ => ?_
  dsimp only
  split
  · exact (IsQuery.ret ()).atomic
  · refine (IsQuery.getInstrumentId dstId _).bind_atomic fun _ => ?_
    refine (IsQuery.require _).bind_atomic fun _ => (IsQuery.getDirId dstId _).bind_atomic fun _ => ?_
    exact (IsQuery.require _).bind_atomic fun _ => statement ⟨nofun, nofun⟩

theorem copyInstrumentRow (instrId : Int) (name : Bytes) (dstDirId : Int) :
    Atomic (copyInstrumentRow instrId name dstDirId) := by
  refine (IsQuery.getInstrumentId dstDirId name).bind_atomic fun _ => ?_
  refine (IsQuery.require _).bind_atomic fun _ =>
    (IsQuery.getDirId dstDirId name).bind_atomic fun _ => ?_
  refine (IsQuery.require _).bind_atomic fun _ => (IsQuery.select _).bind_atomic fun info => ?_
  cases info with
  | none => exact IsQuery.fail.atomic
  | some i => exact statement ⟨nofun, nofun⟩

theorem copyInstrument (instr dst : Bytes) : Atomic (copyInstrument instr dst) := by
  refine (IsQuery.require _).bind_atomic fun _ => transaction ?_
  refine (IsQuery.lookUpInstrument instr dst).bind_atomic fun ⟨instrId, dirId, dstId⟩ => ?_
  dsimp only
  split
  · exact (IsQuery.ret ()).atomic
  · exact copyInstrumentRow instrId _ dstId

theorem removeInstrument (instr : Bytes) : Atomic (removeInstrument instr) := by
  refine (IsQuery.require _).bind_atomic fun _ => transaction ?_
  refine (IsQuery.getInstrumentIdOf instr).bind_atomic fun _ => ?_
  exact (IsQuery.require _).bind_atomic fun _ => statement ⟨nofun, nofun⟩

theorem setInstrumentFilePath (oldPath newPath : Bytes) :
    Atomic (setInstrumentFilePath oldPath newPath) := by
  unfold InstrumentsDb.setInstrumentFilePath
  split
  · exact (IsQuery.ret ()).atomic
  · refine transaction ((IsQuery.getInstrumentsByFile oldPath).bind_atomic fun _ => ?_)
    exact statement ⟨nofun, nofun⟩

end Atomic

/-! ## Calls with many statements -/

namespace Balanced

theorem removeAllDirectories (dirId : Int) : Balanced (removeAllDirectories dirId) := by
  refine (balanced_select _).bind fun dirIds => ?_
  refine (forEach fun id _ => (IsQuery.requireEmpty id).balanced).bind fun _ => ?_
  exact balanced_statement ⟨nofun, nofun⟩

theorem removeDirectoryContent (levels : Nat) (dirId : Int) :
    Balanced (removeDirectoryContent levels dirId) := by
  induction levels generalizing dirId with
  | zero => exact balanced_fail
  | succ levels ih =>
      refine (balanced_select _).bind fun dirIds => ?_
      refine (forEach fun id _ => ih id).bind fun _ => ?_
      exact (removeAllDirectories dirId).bind fun _ => balanced_statement ⟨nofun, nofun⟩

theorem removeDirectory (dir : Bytes) (force : Bool) : Balanced (removeDirectory dir force) := by
  cases force with
  | false => exact (Atomic.removeDirectory dir).balanced
  | true =>
      refine transaction ((IsQuery.getDirectoryId dir).balanced.bind fun dirId => ?_)
      refine (balanced_require _).bind fun _ => (removeDirectoryContent 1001 dirId).bind fun _ => ?_
      refine (balanced_select _).bind fun _ => (balanced_select _).bind fun _ => ?_
      exact (balanced_require _).bind fun _ => balanced_statement ⟨nofun, nofun⟩

theorem copyInstruments (dir : Bytes) (dirId : Int) :
    Balanced (do
      let dstDirId ← getDirectoryId dir
      require (dstDirId ≠ -1)
      let ids ← select fun db => db.instrumentIds dirId
      Prog.forEach ids fun id => do
        let info ← select fun db => db.instruments.find? fun i => i.id = id
        let name := (info.map fun i => toAbstractName i.name).getD []
        copyInstrumentRow id name dstDirId) := by
  refine (IsQuery.getDirectoryId _).balanced.bind fun dstDirId => ?_
  refine (balanced_require _).bind fun _ => (balanced_select _).bind fun ids => ?_
  refine forEach fun id _ => (balanced_select _).bind fun info => ?_
  exact (Atomic.copyInstrumentRow id _ dstDirId).balanced

theorem copyContent (srcParentDir destDir path : Bytes) (dirId : Int) :
    Balanced (copyContent srcParentDir destDir path dirId) := by
  unfold InstrumentsDb.copyContent
  dsimp only
  split
  · refine (Atomic.addDirectory _).balanced.bind fun _ => ?_
    exact copyInstruments _ dirId
  · exact (balanced_ret ()).bind fun _ => copyInstruments destDir dirId

theorem directoryTreeWalk {process : Bytes → Int → Program Unit}
    (hprocess : ∀ path id, Balanced (process path id)) (levels : Nat) (path : Bytes) (dirId : Int) :
    Balanced (directoryTreeWalk process levels path dirId) := by
  induction levels generalizing path dirId with
  | zero => exact balanced_fail
  | succ levels ih =>
      refine (hprocess path dirId).bind fun _ => (balanced_select _).bind fun names => ?_
      refine forEach fun name _ => (balanced_select _).bind fun id => ?_
      exact ih _ id

theorem copyDirectory (dir dst : Bytes) : Balanced (copyDirectory dir dst) := by
  refine (balanced_require _).bind fun _ => transaction ?_
  refine (IsQuery.checkTarget dir dst).balanced.bind fun _ => ?_
  refine (IsQuery.getDirectoryId _).balanced.bind fun dirId => (balanced_require _).bind fun _ => ?_
  exact directoryTreeWalk (copyContent _ _) 1000 _ dirId

end Balanced

namespace Operation

theorem balanced (op : Operation) : Balanced op.program := by
  cases op with
  | addDirectory dir => exact (Atomic.addDirectory dir).balanced
  | removeDirectory dir force => exact .removeDirectory dir force
  | renameDirectory dir name => exact (Atomic.renameDirectory dir name).balanced
  | moveDirectory dir dst => exact (Atomic.moveDirectory dir dst).balanced
  | copyDirectory dir dst => exact .copyDirectory dir dst
  | renameInstrument instr name => exact (Atomic.renameInstrument instr name).balanced
  | moveInstrument instr dst => exact (Atomic.moveInstrument instr dst).balanced
  | copyInstrument instr dst => exact (Atomic.copyInstrument instr dst).balanced
  | removeInstrument instr => exact (Atomic.removeInstrument instr).balanced
  | setInstrumentFilePath oldPath newPath =>
      exact (Atomic.setInstrumentFilePath oldPath newPath).balanced

theorem single (op : Operation) (h : op.isSingle = true) : Single op.program := by
  cases op with
  | addDirectory dir => exact (Atomic.addDirectory dir).single
  | removeDirectory dir force =>
      cases force with
      | false => exact (Atomic.removeDirectory dir).single
      | true => nomatch h
  | renameDirectory dir name => exact (Atomic.renameDirectory dir name).single
  | moveDirectory dir dst => exact (Atomic.moveDirectory dir dst).single
  | copyDirectory dir dst => nomatch h
  | renameInstrument instr name => exact (Atomic.renameInstrument instr name).single
  | moveInstrument instr dst => exact (Atomic.moveInstrument instr dst).single
  | copyInstrument instr dst => exact (Atomic.copyInstrument instr dst).single
  | removeInstrument instr => exact (Atomic.removeInstrument instr).single
  | setInstrumentFilePath oldPath newPath =>
      exact (Atomic.setInstrumentFilePath oldPath newPath).single

end Operation

end InstrumentsDb

end LinuxSampler
