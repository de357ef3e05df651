import LinuxSampler.InstrumentsDbTree

/-!
# What a scan adds

`AddInstrumentsFromFilePriv()` without anybody in between: for each
instrument of a file that has no row yet it adds one, with the name that
`GetUniqueName()` picks (`Picks`). Two things are not as they should be. A
name with a number is not compared with those of directories, and with an
index it is the first instrument that is read, whatever the index.
-/

namespace LinuxSampler

namespace InstrumentsDb

open Bytes StoreProgram Prog

/-- The `try` block of `AddInstrumentsFromFilePriv()`, with the instruments of the file. -/
def addInstrumentsFromFilePriv (dirId : Int) (file : ScanFile) (index : Int)
    (infos : List InstrumentInfo) : Program Unit :=
  insertInstruments dirId file index infos (if index = -1 then 0 else index)

/-! ## Names -/

/-- What `GetInstrumentId()` finds. -/
def Db.instrumentId (db : Db) (dirId : Int) (name : Bytes) : Int :=
  if dirId = -1 ∨ name = [] then -1 else db.findInstrument dirId (toDbName name)

/-- The name, if neither an instrument nor a directory has it, or else the first one with a number
that no instrument has. -/
def Picks (db : Db) (dirId : Int) (name picked : Bytes) : Prop :=
  if db.instrumentId dirId name = -1 ∧ db.findDir dirId (toDbName name) = -1 then picked = name
  else
    ∃ n, 2 ≤ n ∧ n ≤ 1000 ∧ (∀ m, 2 ≤ m → m < n → db.instrumentId dirId (numbered name m) ≠ -1) ∧
      db.instrumentId dirId (numbered name n) = -1 ∧ picked = numbered name n

variable {db db' : Db} {dirId : Int}

theorem run_getInstrumentId_bind {α : Type} {name : Bytes} {k : Int → Program α} :
    (getInstrumentId dirId name >>= k).run Stmt.exec db =
      (k (db.instrumentId dirId name)).run Stmt.exec db := by
  unfold getInstrumentId Db.instrumentId
  split
  · rfl
  · show (k (db.findInstrument dirId (bindText (toDbName name)))).run Stmt.exec db = _
    rw [bindText_toDbName]

theorem run_getDirId_bind {α : Type} {name : Bytes} {k : Int → Program α} :
    (getDirId dirId name >>= k).run Stmt.exec db =
      (k (db.findDir dirId (toDbName name))).run Stmt.exec db := by
  show (k (db.findDir dirId (bindText (toDbName name)))).run Stmt.exec db = _
  rw [bindText_toDbName]

theorem run_uniqueFrom {name picked : Bytes} {tries n : Nat} :
    (uniqueFrom dirId name tries n).run Stmt.exec db = (some picked, db') ↔
      db = db' ∧ ∃ m, n ≤ m ∧ m < n + tries ∧
        (∀ l, n ≤ l → l < m → db.instrumentId dirId (numbered name l) ≠ -1) ∧
        db.instrumentId dirId (numbered name m) = -1 ∧ picked = numbered name m := by
  induction tries generalizing n with
  | zero =>
      refine iff_of_false (fun h => nomatch h) ?_
      rintro ⟨-, m, hm, hlt, -⟩
      omega
  | succ tries ih =>
      rw [uniqueFrom, run_getInstrumentId_bind, run_getInstrumentId_bind]
      by_cases hfree : db.instrumentId dirId (numbered name n) = -1
      · rw [if_pos ⟨hfree, hfree⟩]
        have hret : (ret (numbered name n) : Program Bytes).run Stmt.exec db = (some picked, db') ↔
            db = db' ∧ picked = numbered name n := by
          simp [run, eq_comm, and_comm]
        rw [hret]
        refine and_congr_right fun _ => ⟨?_, ?_⟩
        · exact fun h => ⟨n, le_refl n, by omega, fun l hl hlt => absurd hl (by omega), hfree, h⟩
        · rintro ⟨m, hm, -, htaken, -, h⟩
          obtain rfl : m = n := by
            by_contra hne
            exact htaken n (le_refl n) (by omega) hfree
          exact h
      · rw [if_neg fun h => hfree h.1, ih]
        refine and_congr_right fun _ => ⟨?_, ?_⟩
        · rintro ⟨m, hm, hlt, htaken, h⟩
          refine ⟨m, by omega, by omega, fun l hl hlm => ?_, h⟩
          rcases Nat.eq_or_lt_of_le hl with rfl | hl
          · exact hfree
          · exact htaken l hl hlm
        · rintro ⟨m, hm, hlt, htaken, h⟩
          have hne : m ≠ n := fun heq => hfree (heq ▸ h.1)
          exact ⟨m, by omega, by omega, fun l hl hlm => htaken l (by omega) hlm, h⟩

/-- What `GetUniqueName()` returns. -/
theorem run_getUniqueName {name picked : Bytes} :
    (getUniqueName dirId name).run Stmt.exec db = (some picked, db') ↔
      db = db' ∧ Picks db dirId name picked := by
  rw [getUniqueName, run_getInstrumentId_bind, run_getDirId_bind]
  unfold Picks
  split
  · simp [run, eq_comm, and_comm]
  · rw [run_uniqueFrom]
    refine and_congr_right fun _ => exists_congr fun n => and_congr_right fun _ => ?_
    exact and_congr_left fun _ => by omega

/-! ## Rows -/

/-- The name of an instrument, or that of its file. -/
def ScanFile.nameOf (file : ScanFile) (info : InstrumentInfo) : Bytes :=
  if info.instrumentName = [] then file.baseName else info.instrumentName

/-- There is no row for the number of the file. -/
def Missing (db : Db) (file : ScanFile) (nr : Int) : Prop :=
  ∀ i ∈ db.instruments, ¬(i.file = bindText file.path ∧ i.nr = nr)

instance (db : Db) (file : ScanFile) (nr : Int) : Decidable (Missing db file nr) :=
  inferInstanceAs (Decidable (∀ i ∈ _, _))

/-- The row that a scan adds. -/
def newRow (db : Db) (dirId : Int) (file : ScanFile) (info : InstrumentInfo) (nr : Int)
    (name : Bytes) : InstrumentRow :=
  ⟨db.lastInstrument + 1, dirId, bindText name, bindText file.path, nr, (file.columns info).bind⟩

/-- What one round of the loop does, with the name that has been picked. -/
def Stores (db : Db) (dirId : Int) (file : ScanFile) (info : InstrumentInfo) (nr : Int)
    (name : Bytes) (db' : Db) : Prop :=
  if Missing db file nr then
    let row := newRow db dirId file info nr name
    UniqueInstruments (db.instruments ++ [row]) ∧
      db' = { db with instruments := db.instruments ++ [row], lastInstrument := row.id }
  else db' = db

theorem countP_eq_zero_iff_missing (file : ScanFile) (nr : Int) :
    db.instruments.countP (fun i => i.file = bindText file.path ∧ i.nr = nr) = 0 ↔
      Missing db file nr := by
  rw [List.countP_eq_zero]
  simp [Missing]

theorem exec_scanInstrument_eq_some {name : Bytes} {file : ScanFile} {info : InstrumentInfo}
    {nr : Int} :
    Stmt.exec (.scanInstrument dirId name file.path nr (file.columns info)) db = some db' ↔
      UniqueInstruments (db.instruments ++ [newRow db dirId file info nr name]) ∧
        db' = { db with
          instruments := db.instruments ++ [newRow db dirId file info nr name]
          lastInstrument := db.lastInstrument + 1 } := by
  show Db.withInstruments _ _ = _ ↔ _
  unfold Db.withInstruments
  split
  · next h => exact ⟨fun heq => ⟨h, (Option.some.inj heq).symm⟩, fun heq => congrArg some heq.2.symm⟩
  · next h => exact iff_of_false (fun heq => nomatch heq) fun heq => h heq.1

/-- The rest of a round, after the name has been picked. -/
theorem run_insertInstruments_of_stores {file : ScanFile} {index nr : Int} {info : InstrumentInfo}
    (infos : List InstrumentInfo) {name : Bytes} {db₁ : Db}
    (hpicks : Picks db dirId (file.nameOf info) name)
    (hstores : Stores db dirId file info nr name db₁) :
    (insertInstruments dirId file index (info :: infos) nr).run Stmt.exec db =
      (if index = -1 then insertInstruments dirId file index infos (nr + 1) else ret ()).run
        Stmt.exec db₁ := by
  have hname : (getUniqueName dirId (file.nameOf info)).run Stmt.exec db = (some name, db) :=
    run_getUniqueName.mpr ⟨rfl, hpicks⟩
  rw [insertInstruments, ← ScanFile.nameOf, run_bind, hname]
  dsimp only
  rw [run_select_bind]
  by_cases hmissing : Missing db file nr
  · rw [if_pos (countP_eq_zero_iff_missing file nr |>.mpr hmissing)]
    rw [Stores, if_pos hmissing] at hstores
    have hstore := run_statement_eq_some (u := ()) |>.mpr (exec_scanInstrument_eq_some.mpr hstores)
    rw [run_bind, hstore]
  · rw [if_neg (mt (countP_eq_zero_iff_missing file nr).mp hmissing)]
    rw [Stores, if_neg hmissing] at hstores
    rw [hstores]
    rfl

/-- A run that returns has picked a name. -/
theorem exists_stores_of_run {file : ScanFile} {index nr : Int} {info : InstrumentInfo}
    {infos : List InstrumentInfo} {u : Unit}
    (h : (insertInstruments dirId file index (info :: infos) nr).run Stmt.exec db = (some u, db')) :
    ∃ name db₁, Picks db dirId (file.nameOf info) name ∧
      Stores db dirId file info nr name db₁ := by
  rw [insertInstruments] at h
  obtain ⟨name, db₀, hname, hrun⟩ := run_bind_eq_some.mp h
  obtain ⟨rfl, hpicks⟩ := run_getUniqueName.mp hname
  rw [run_select_bind] at hrun
  by_cases hmissing : Missing db file nr
  · rw [if_pos (countP_eq_zero_iff_missing file nr |>.mpr hmissing)] at hrun
    obtain ⟨⟨⟩, db₁, hstore, -⟩ := run_bind_eq_some.mp hrun
    refine ⟨name, db₁, hpicks, ?_⟩
    rw [Stores, if_pos hmissing]
    exact exec_scanInstrument_eq_some.mp (run_statement_eq_some.mp hstore)
  · exact ⟨name, db, hpicks, (if_neg hmissing).mpr rfl⟩

theorem Picks.unique {name picked picked' : Bytes} (h : Picks db dirId name picked)
    (h' : Picks db dirId name picked') : picked = picked' := by
  have hrun : (getUniqueName dirId name).run Stmt.exec db = (some picked, db) :=
    run_getUniqueName.mpr ⟨rfl, h⟩
  rw [run_getUniqueName.mpr ⟨rfl, h'⟩] at hrun
  exact (Option.some.inj (Prod.mk.inj hrun).1).symm

/-! ## Scans -/

/-- The name of an instrument, maybe with a number. -/
def CalledAfter (file : ScanFile) (info : InstrumentInfo) (name : Bytes) : Prop :=
  name = bindText (file.nameOf info) ∨
    ∃ n, 2 ≤ n ∧ n ≤ 1000 ∧ name = bindText (numbered (file.nameOf info) n)

theorem Picks.calledAfter {file : ScanFile} {info : InstrumentInfo} {name : Bytes}
    (h : Picks db dirId (file.nameOf info) name) : CalledAfter file info (bindText name) := by
  unfold Picks at h
  split at h
  · exact .inl (congrArg bindText h)
  · obtain ⟨n, hlow, hhigh, -, -, rfl⟩ := h
    exact .inr ⟨n, hlow, hhigh, rfl⟩

/-- The row has the number and what the file says about the instrument. -/
structure IsRowOf (dirId : Int) (file : ScanFile) (info : InstrumentInfo) (nr : Int)
    (row : InstrumentRow) : Prop where
  dir : row.dir = dirId
  path : row.file = bindText file.path
  nr : row.nr = nr
  columns : row.columns = (file.columns info).bind
  name : CalledAfter file info row.name

/-- Nothing else in the directory has the name of the row. -/
structure UniquelyNamed (db : Db) (row : InstrumentRow) : Prop where
  instruments : ∀ i ∈ db.instruments, i.dir = row.dir → i.name = row.name → i = row
  dirs : ∀ d ∈ db.dirs, ¬(d.parent = row.dir ∧ d.name = row.name)

/-- The instruments of the list that have no row yet. -/
def missing (db : Db) (file : ScanFile) (infos : List (InstrumentInfo × Nat)) :
    List (InstrumentInfo × Nat) :=
  infos.filter fun p => Missing db file p.2

/-- There is one new row for each instrument that had none, and nothing else has changed. -/
structure ScansAll (dirId : Int) (file : ScanFile) (infos : List InstrumentInfo) (db db' : Db) :
    Prop where
  dirs : db'.dirs = db.dirs
  rows : ∃ added, db'.instruments = db.instruments ++ added ∧
    List.Forall₂ (fun p row => IsRowOf dirId file p.1 p.2 row) (missing db file infos.zipIdx) added ∧
    ∀ row ∈ added, UniquelyNamed db' row

/-- There is at most one new row, which is that of the instrument, and nothing else has changed. -/
structure ScansOne (dirId : Int) (file : ScanFile) (info : InstrumentInfo) (nr : Int)
    (db db' : Db) : Prop where
  dirs : db'.dirs = db.dirs
  rows : db'.instruments = db.instruments ∨
    ∃ row, db'.instruments = db.instruments ++ [row] ∧ IsRowOf dirId file info nr row

/-- The database before a round of the loop, if that starts with number `nr`. -/
def before (dirId : Int) (file : ScanFile) (infos : List InstrumentInfo) (nr : Nat) (db : Db)
    (k : Nat) : Db :=
  ((insertInstruments dirId file (-1) (infos.take k) nr).run Stmt.exec db).2

/-- No directory has the name that an instrument without a row gets: its own, or else the first one
with a number that no instrument has. -/
def NamesFree (dirId : Int) (file : ScanFile) (infos : List InstrumentInfo) (nr : Nat) (db : Db) :
    Prop :=
  ∀ k info, infos[k]? = some info → Missing db file (nr + k : Nat) →
    ∀ name, Picks (before dirId file infos nr db k) dirId (file.nameOf info) name →
      ∀ d ∈ db.dirs, ¬(d.parent = dirId ∧ d.name = bindText name)

theorem isRowOf_newRow {file : ScanFile} {info : InstrumentInfo} {nr : Int} {name : Bytes}
    (h : Picks db dirId (file.nameOf info) name) :
    IsRowOf dirId file info nr (newRow db dirId file info nr name) :=
  ⟨rfl, rfl, rfl, rfl, h.calledAfter⟩

theorem Stores.dirs {file : ScanFile} {info : InstrumentInfo} {nr : Int} {name : Bytes}
    (h : Stores db dirId file info nr name db') : db'.dirs = db.dirs := by
  unfold Stores at h
  split at h
  · rw [h.2]
  · rw [h]

/-- A row of another number does not matter. -/
theorem Stores.missing_iff {file : ScanFile} {info : InstrumentInfo} {nr nr' : Int} {name : Bytes}
    (h : Stores db dirId file info nr name db') (hne : nr ≠ nr') :
    Missing db' file nr' ↔ Missing db file nr' := by
  unfold Stores at h
  split at h
  · rw [h.2]
    refine ⟨fun hm i hi => hm i (List.mem_append_left _ hi), fun hm i hi => ?_⟩
    rcases List.mem_append.mp hi with hi | hi
    · exact hm i hi
    · rw [List.mem_singleton.mp hi]
      exact fun h => hne h.2
  · rw [h]

theorem namesFree_cons {file : ScanFile} {info : InstrumentInfo} {infos : List InstrumentInfo}
    {nr : Nat} {name : Bytes} {db₁ : Db} (hpicks : Picks db dirId (file.nameOf info) name)
    (hstores : Stores db dirId file info nr name db₁) :
    NamesFree dirId file (info :: infos) nr db ↔
      (Missing db file nr → ∀ d ∈ db.dirs, ¬(d.parent = dirId ∧ d.name = bindText name)) ∧
        NamesFree dirId file infos (nr + 1) db₁ := by
  have hbefore (k : Nat) : before dirId file (info :: infos) nr db (k + 1) =
      before dirId file infos (nr + 1) db₁ k := by
    rw [before, List.take_succ_cons, run_insertInstruments_of_stores _ hpicks hstores, if_pos rfl]
    rfl
  have hmissing (k : Nat) :
      Missing db₁ file (nr + 1 + k : Nat) ↔ Missing db file (nr + (k + 1) : Nat) := by
    rw [hstores.missing_iff (by omega), Nat.add_assoc, Nat.add_comm 1 k]
  constructor
  · refine fun h => ⟨fun hm => h 0 info rfl hm name hpicks, fun k info' hk hm name' hp => ?_⟩
    rw [hstores.dirs]
    exact h (k + 1) info' hk ((hmissing k).mp hm) name' (hbefore k ▸ hp)
  · rintro ⟨hfirst, hrest⟩ k info' hk hm name' hp
    cases k with
    | zero =>
        cases hk
        rw [hp.unique hpicks]
        exact hfirst hm
    | succ k =>
        rw [← hstores.dirs]
        exact hrest k info' hk ((hmissing k).mpr hm) name' (hbefore k ▸ hp)

/-- All rounds of the loop. -/
theorem adds_of_run {file : ScanFile} {infos : List InstrumentInfo} {n : Nat} {u : Unit}
    (h : (insertInstruments dirId file (-1) infos n).run Stmt.exec db = (some u, db')) :
    db'.dirs = db.dirs ∧ ∃ added, db'.instruments = db.instruments ++ added ∧
      List.Forall₂ (fun p row => IsRowOf dirId file p.1 p.2 row)
        (missing db file (infos.zipIdx n)) added ∧
      (added ≠ [] → UniqueInstruments db'.instruments) ∧
      ((∀ row ∈ added, ∀ d ∈ db.dirs, ¬(d.parent = dirId ∧ d.name = row.name)) ↔
        NamesFree dirId file infos n db) := by
  induction infos generalizing n db with
  | nil =>
      obtain rfl : db = db' := (Prod.mk.inj h).2
      refine ⟨rfl, [], (List.append_nil _).symm, .nil, fun hne => absurd rfl hne, ?_⟩
      exact iff_of_true (fun _ hrow => nomatch hrow) fun _ _ hk => nomatch hk
  | cons info infos ih =>
      obtain ⟨name, db₁, hpicks, hstores⟩ := exists_stores_of_run h
      rw [run_insertInstruments_of_stores infos hpicks hstores, if_pos rfl] at h
      obtain ⟨hdirs, added, hadded, hrows, hunique, hnames⟩ := ih (n := n + 1) h
      have hmissing : missing db₁ file (infos.zipIdx (n + 1)) =
          missing db file (infos.zipIdx (n + 1)) := by
        refine List.filter_congr fun p hp => decide_eq_decide.mpr (hstores.missing_iff ?_)
        have hle := List.le_snd_of_mem_zipIdx hp
        omega
      rw [hmissing] at hrows
      rw [hstores.dirs] at hdirs hnames
      refine ⟨hdirs, ?_⟩
      rw [List.zipIdx_cons, missing, List.filter_cons, namesFree_cons hpicks hstores]
      rw [← missing]
      unfold Stores at hstores
      split at hstores
      · next hm =>
        let row := newRow db dirId file info n name
        obtain ⟨huniqueRow, rfl⟩ := hstores
        rw [if_pos (decide_eq_true hm)]
        refine ⟨row :: added, ?_, .cons (isRowOf_newRow hpicks) hrows, fun _ => ?_, ?_⟩
        · rw [hadded, List.append_assoc, List.singleton_append]
        · cases added with
          | nil =>
              rw [hadded, List.append_nil]
              exact huniqueRow
          | cons row' rest => exact hunique (List.cons_ne_nil _ _)
        · rw [List.forall_mem_cons, ← hnames]
          exact and_congr_left fun _ => ⟨fun h _ => h, fun h => h hm⟩
      · next hm =>
        obtain rfl := hstores
        rw [if_neg (mt of_decide_eq_true hm)]
        refine ⟨added, hadded, hrows, hunique, ?_⟩
        rw [hnames]
        exact (and_iff_right fun h => absurd h hm).symm

theorem dir_of_isRowOf {file : ScanFile} {ps : List (InstrumentInfo × Nat)}
    {rows : List InstrumentRow}
    (h : List.Forall₂ (fun p row => IsRowOf dirId file p.1 p.2 row) ps rows) :
    ∀ row ∈ rows, row.dir = dirId := by
  induction h with
  | nil => exact fun row hrow => nomatch hrow
  | cons hrow _ ih => exact List.forall_mem_cons.mpr ⟨hrow.dir, ih⟩

theorem scansAll_iff {file : ScanFile} {infos : List InstrumentInfo}
    (h : (addInstrumentsFromFilePriv dirId file (-1) infos).run Stmt.exec db = (some (), db')) :
    ScansAll dirId file infos db db' ↔ NamesFree dirId file infos 0 db := by
  obtain ⟨hdirs, added, hadded, hrows, hunique, hnames⟩ := adds_of_run (n := 0) h
  have hdir := dir_of_isRowOf hrows
  rw [← hnames]
  constructor
  · rintro ⟨-, added', hadded', -, hnamed⟩ row hrow d hd
    obtain rfl := List.append_cancel_left (hadded.symm.trans hadded')
    rw [← hdir row hrow]
    exact (hnamed row hrow).dirs d (hdirs ▸ hd)
  · refine fun hfree => ⟨hdirs, added, hadded, hrows, fun row hrow => ⟨fun i hi hid hname => ?_, ?_⟩⟩
    · have hmem : row ∈ db'.instruments := hadded ▸ List.mem_append_right _ hrow
      refine List.inj_on_of_nodup_map (hunique (List.ne_nil_of_mem hrow)) hi hmem ?_
      rw [hid, hname]
    · rw [hdirs, hdir row hrow]
      exact hfree row hrow

/-- What is read with an index is the first instrument. -/
theorem scansOne_iff {file : ScanFile} {infos : List InstrumentInfo} {k : Nat}
    {first info : InstrumentInfo}
    (h : (addInstrumentsFromFilePriv dirId file k (first :: infos)).run Stmt.exec db =
      (some (), db')) :
    ScansOne dirId file info k db db' ↔
      ¬ Missing db file k ∨ (file.columns first).bind = (file.columns info).bind ∧
        ∃ name, Picks db dirId (file.nameOf first) name ∧ CalledAfter file info (bindText name) := by
  have hne : (k : Int) ≠ -1 := by omega
  rw [addInstrumentsFromFilePriv, if_neg hne] at h
  obtain ⟨name, db₁, hpicks, hstores⟩ := exists_stores_of_run h
  rw [run_insertInstruments_of_stores infos hpicks hstores, if_neg hne] at h
  obtain rfl : db₁ = db' := (Prod.mk.inj h).2
  unfold Stores at hstores
  split at hstores
  · next hm =>
    let row := newRow db dirId file first k name
    obtain ⟨-, rfl⟩ := hstores
    rw [or_iff_right (not_not_intro hm)]
    constructor
    · rintro ⟨-, hsame | ⟨row', hrow', hinfo⟩⟩
      · exact absurd hsame (by simp)
      · obtain rfl : row = row' := List.singleton_inj.mp (List.append_cancel_left hrow')
        exact ⟨hinfo.columns, name, hpicks, hinfo.name⟩
    · rintro ⟨hcolumns, name', hpicks', hname⟩
      rw [hpicks'.unique hpicks] at hname
      exact ⟨rfl, .inr ⟨row, rfl, rfl, rfl, rfl, hcolumns, hname⟩⟩
  · next hm =>
    obtain rfl := hstores
    exact iff_of_true ⟨rfl, .inl rfl⟩ (.inl hm)

/-- A scan of all instruments adds what is missing if no directory is in the way of a name. With an
index that holds if the row exists, or if the first instrument is like the one that was meant. -/
theorem addInstrumentsFromFile_adds_iff (dirId : Int) (file : ScanFile)
    (infos : List InstrumentInfo) (db db' : Db) :
    ((addInstrumentsFromFilePriv dirId file (-1) infos).run Stmt.exec db = (some (), db') →
      (ScansAll dirId file infos db db' ↔ NamesFree dirId file infos 0 db)) ∧
    ∀ (k : Nat) (first info : InstrumentInfo), infos[0]? = some first → infos[k]? = some info →
      (addInstrumentsFromFilePriv dirId file k infos).run Stmt.exec db = (some (), db') →
      (ScansOne dirId file info k db db' ↔
        ¬ Missing db file k ∨ (file.columns first).bind = (file.columns info).bind ∧
          ∃ name, Picks db dirId (file.nameOf first) name ∧
            CalledAfter file info (bindText name)) := by
  refine ⟨scansAll_iff, fun k first info hfirst hinfo h => ?_⟩
  cases infos with
  | nil => exact nomatch hfirst
  | cons first' infos =>
      cases hfirst
      exact scansOne_iff h

/-- Two instruments `X` of different products. -/
def twoInfos : List InstrumentInfo :=
  [{ instrumentName := [88], product := [65] }, { instrumentName := [88], product := [66] }]

/-- A file `/y.gig` with two instruments. -/
def twoFile : ScanFile where
  path := [slash, 121, 46, 103, 105, 103]
  baseName := [121, 46, 103, 105, 103]
  instruments := some twoInfos

/-- The rows of both instruments, and the row for the index 1, in a new database. -/
def scannedTwo (index : Int) : Db :=
  ((addInstrumentsFromFilePriv 0 twoFile index twoInfos).run Stmt.exec {}).2

/-- The second row for all instruments is called `X[2]`; that for the index 1 is not of the second
instrument. -/
theorem addInstrumentsFromFile_adds_iff_two :
    ScansAll 0 twoFile twoInfos {} (scannedTwo (-1)) ∧
      ¬ ScansOne 0 twoFile { instrumentName := [88], product := [66] } 1 {} (scannedTwo 1) := by
  obtain ⟨hall, hone⟩ := addInstrumentsFromFile_adds_iff 0 twoFile twoInfos {} (scannedTwo (-1))
  obtain ⟨-, hone⟩ := addInstrumentsFromFile_adds_iff 0 twoFile twoInfos {} (scannedTwo 1)
  constructor
  · refine (hall rfl).mpr fun k info _ _ name _ d hd => ?_
    rw [List.mem_singleton.mp hd]
    exact fun h => nomatch h.1
  · intro h
    rcases (hone 1 _ _ rfl rfl rfl).mp h with hexists | ⟨hcolumns, -⟩
    · exact hexists fun i hi => nomatch hi
    · exact absurd hcolumns (by decide)

/-- With the index 1 the row of the number 1 is that of the first instrument. -/
theorem not_addInstrumentsFromFile_adds :
    ¬ ∀ (dirId : Int) (file : ScanFile) (infos : List InstrumentInfo) (db db' : Db) (k : Nat)
      (info : InstrumentInfo), infos[k]? = some info →
      (addInstrumentsFromFilePriv dirId file k infos).run Stmt.exec db = (some (), db') →
      ScansOne dirId file info k db db' := by
  intro h
  have hone := h 0 twoFile twoInfos {} (scannedTwo 1) 1 _ rfl rfl
  rcases hone.rows with hsame | ⟨row, hrow, hinfo⟩
  · exact absurd hsame (by decide)
  · have hproduct : (scannedTwo 1).instruments.map (·.columns) = [row.columns] := congrArg _ hrow
    rw [hinfo.columns] at hproduct
    exact absurd hproduct (by decide)

end InstrumentsDb

end LinuxSampler
