import LinuxSampler.InstrumentsDbPath

/-!
# Calls on the directory tree

Every call keeps the directories a tree with unique names, statement by
statement, if nobody else comes between its checks and its statements
(`safe_program`). The statement of a scan must find its directory and no
directory with the name that it inserts, which the scan does not check.
-/

namespace LinuxSampler

namespace InstrumentsDb

open Bytes StoreProgram Prog

/-- What the statement of a scan relies on. -/
def Fits (stmt : Stmt) (db : Db) : Prop :=
  match stmt with
  | .scanInstrument dir name _ _ _ =>
      (∃ d ∈ db.dirs, d.id = dir) ∧ ∀ d ∈ db.dirs, ¬(d.parent = dir ∧ d.name = bindText name)
  | _ => True

/-- All statements keep the invariant, and the result meets `Q`. -/
abbrev DbMeets {α : Type} (Q : α → Db → Prop) (p : Program α) (db : Db) : Prop :=
  Meets Stmt.exec Fits Inv Q p db

/-- The program keeps the invariant. -/
def Safe {α : Type} (p : Program α) : Prop := ∀ db, Inv db → DbMeets (fun _ db => Inv db) p db

variable {α : Type} {db : Db}

/-! ## Queries -/

theorem meets_bind_of {β : Type} {p : Program α} {k : α → Program β} {R : β → Db → Prop}
    (h : DbMeets (fun a db => DbMeets R (k a) db) p db) : DbMeets R (p >>= k) db :=
  meets_bind.mpr h

theorem meets_lookUp (h : Inv db) (before : List Bytes) {names : List Bytes} {id : Int}
    (hslash : ∀ name ∈ names, slash ∉ name) (hid : id ≠ -1 → Named db.dirs before id)
    {Q : Int → Db → Prop}
    (hQ : ∀ r, (r ≠ -1 → Named db.dirs (before ++ names) r) → Q r db) :
    DbMeets Q (lookUp id names) db := by
  induction names generalizing before id with
  | nil =>
      rw [List.append_nil] at hQ
      exact hQ id hid
  | cons name names ih =>
      refine meets_bind_of (meets_select.mpr ?_)
      rw [bindText_toDbName]
      refine ih (before ++ [name]) (fun n hn => hslash n (List.mem_cons_of_mem name hn)) ?_
        (by simpa using hQ)
      intro hne
      obtain ⟨d, hd, hdid, hparent, hname⟩ := mem_of_findDir hne
      rw [← hdid]
      refine .child hd ?_ hname (hslash name List.mem_cons_self)
      rw [hparent]
      exact hid fun heq => h.parent_ne hd (hparent.trans heq)

/-- A path leads to the directory that it names. -/
def Leads (db : Db) (path : Bytes) (id : Int) : Prop :=
  path.head? = some slash ∧ Named db.dirs (pathNames path) id

theorem meets_getDirectoryId (h : Inv db) (path : Bytes) {Q : Int → Db → Prop}
    (hQ : ∀ r, (r ≠ -1 → Leads db path r) → Q r db) : DbMeets Q (getDirectoryId path) db := by
  refine meets_bind_of (meets_require h fun _ => ?_)
  by_cases hhead : path.head? = some slash
  · rw [if_neg (not_not.mpr hhead)]
    by_cases hlength : path.length = 1
    · rw [if_pos hlength]
      obtain ⟨c, rfl⟩ := List.length_eq_one_iff.mp hlength
      exact hQ 0 fun _ => ⟨hhead, .root⟩
    · rw [if_neg hlength]
      exact meets_lookUp h [] (fun name hname => not_mem_pathNames hname) (fun _ => .root)
        fun r hr => hQ r fun hne => ⟨hhead, hr hne⟩
  · rw [if_pos hhead]
    exact hQ (-1) fun hne => absurd rfl hne

theorem meets_getDirId (parent : Int) (name : Bytes) {Q : Int → Db → Prop}
    (hQ : Q (db.findDir parent (toDbName name)) db) : DbMeets Q (getDirId parent name) db := by
  rw [← bindText_toDbName] at hQ
  exact hQ

theorem meets_getInstrumentId (dirId : Int) (name : Bytes) {Q : Int → Db → Prop}
    (hQ : ∀ r, (r ≠ -1 → r = db.findInstrument dirId (toDbName name)) →
      (dirId ≠ -1 → name ≠ [] → r = db.findInstrument dirId (toDbName name)) → Q r db) :
    DbMeets Q (getInstrumentId dirId name) db := by
  unfold getInstrumentId
  by_cases hnone : dirId = -1 ∨ name = []
  · rw [if_pos hnone]
    refine hQ (-1) (fun hne => absurd rfl hne) fun hdir hname => ?_
    exact (hnone.elim hdir hname).elim
  · rw [if_neg hnone]
    refine hQ _ (fun _ => ?_) fun _ _ => ?_
    · rw [bindText_toDbName]
    · rw [bindText_toDbName]

/-! ## Statements -/

theorem exec_ne_scan {stmt : Stmt} {Q : Unit → Db → Prop} (h : Inv db)
    (hstmt : ∀ db', stmt.exec db = some db' → Inv db' ∧ Q () db') :
    DbMeets Q (statement stmt) db :=
  meets_statement h fun _ db' hdb => hstmt db' hdb

theorem meets_transaction {p : Program Unit} (hp : Safe p) : Safe (transaction p) := by
  intro db h
  refine meets_bind_of (exec_ne_scan h fun db' hdb => ?_)
  cases hdb
  refine ⟨h.withTransaction true, meets_bind_of ?_⟩
  have hend : ∀ {k : Program Unit}, Safe k → Safe (statement .endTransaction >>= fun _ => k) := by
    intro k hk db h
    refine meets_bind_of (exec_ne_scan h fun db' hdb => ?_)
    cases hdb
    exact ⟨h.withTransaction false, hk _ (h.withTransaction false)⟩
  have hret : Safe (statement .endTransaction >>= fun _ => (ret () : Program Unit)) :=
    hend fun _ h => h
  have hfail : Safe (statement .endTransaction >>= fun _ => (fail : Program Unit)) :=
    hend fun _ h => h
  exact meets_attempt ((hp _ (h.withTransaction true)).mono fun _ db h => hret db h)
    fun db h => hfail db h

/-! ## Directories -/

theorem safe_addDirectory (dir : Bytes) : Safe (addDirectory dir) := by
  intro db h
  refine meets_bind_of (meets_require h fun _ => ?_)
  refine meets_transaction (fun db h => ?_) db h
  refine meets_bind_of (meets_require h fun hnames => ?_)
  refine meets_bind_of (meets_getDirectoryId h _ fun id hid => ?_)
  refine meets_bind_of (meets_require h fun hne => ?_)
  refine meets_bind_of (meets_getDirId _ _ ?_)
  refine meets_bind_of (meets_require h fun _ => ?_)
  refine meets_bind_of (meets_getInstrumentId _ _ fun r _ hr => ?_)
  refine meets_bind_of (meets_require h fun hnone => ?_)
  refine exec_ne_scan h fun db' hdb => ?_
  have hinv : Inv db' := by
    have hfree := h.no_instrument ((hr hne hnames.2).symm.trans hnone)
    refine h.insertDir (h.named_exists (hid hne).2) ?_ hfree (bindText_toDbName _ ▸ hdb)
    exact fun hnil => hnames.2 (toDbName_eq_nil.mp hnil)
  exact ⟨hinv, hinv⟩

/-- There is nothing in a directory. -/
def Empty (db : Db) (dirId : Int) : Prop :=
  (∀ d ∈ db.dirs, d.parent ≠ dirId) ∧ ∀ i ∈ db.instruments, i.dir ≠ dirId

theorem empty_of_count {dirId : Int} (hdirs : db.dirCount dirId = 0)
    (hinstruments : db.instrumentCount dirId = 0) : Empty db dirId := by
  constructor
  · intro d hd
    simpa using List.countP_eq_zero.mp hdirs d hd
  · intro i hi
    simpa using List.countP_eq_zero.mp hinstruments i hi

theorem meets_requireEmpty (h : Inv db) (dirId : Int) {Q : Unit → Db → Prop}
    (hQ : Empty db dirId → Q () db) : DbMeets Q (requireEmpty dirId) db := by
  refine meets_bind_of (meets_select.mpr ?_)
  refine meets_bind_of (meets_select.mpr ?_)
  exact meets_require h fun ⟨hdirs, hinstruments⟩ => hQ (empty_of_count hdirs hinstruments)

theorem meets_forEach_requireEmpty (h : Inv db) (ids : List Int) {Q : Unit → Db → Prop}
    (hQ : (∀ id ∈ ids, Empty db id) → Q () db) : DbMeets Q (forEach ids requireEmpty) db := by
  induction ids with
  | nil => exact hQ fun id hid => nomatch hid
  | cons id ids ih =>
      refine meets_bind_of (meets_requireEmpty h id fun hempty => ih fun hall => hQ ?_)
      intro x hx
      rcases List.mem_cons.mp hx with rfl | hx
      · exact hempty
      · exact hall x hx

theorem safe_removeAllDirectories (dirId : Int) : Safe (removeAllDirectories dirId) := by
  intro db h
  refine meets_bind_of (meets_select.mpr ?_)
  refine meets_bind_of (meets_forEach_requireEmpty h _ fun hempty => ?_)
  refine exec_ne_scan h fun db' hdb => ?_
  have hinv : Inv db' := by
    refine h.filterDirs (fun d hd hk => ?_) hdb
    have hk : d.parent = dirId ∧ d.id ≠ 0 := by simpa using hk
    have hmem : d.id ∈ db.dirIds dirId :=
      List.mem_map_of_mem (List.mem_filter.mpr ⟨hd, decide_eq_true hk⟩)
    exact ⟨hk.2, hempty d.id hmem⟩
  exact ⟨hinv, hinv⟩

theorem safe_removeDirectoryContent (levels : Nat) (dirId : Int) :
    Safe (removeDirectoryContent levels dirId) := by
  induction levels generalizing dirId with
  | zero => exact fun db h => h
  | succ levels ih =>
      intro db h
      refine meets_bind_of (meets_select.mpr ?_)
      refine meets_bind_of ((meets_forEach (fun id _ => ih id) h).mono fun _ db h => ?_)
      refine meets_bind_of ((safe_removeAllDirectories dirId db h).mono fun _ db h => ?_)
      refine exec_ne_scan h fun db' hdb => ?_
      have hinv : Inv db' := h.filterInstruments hdb
      exact ⟨hinv, hinv⟩

theorem safe_removeDirectory (dir : Bytes) (force : Bool) : Safe (removeDirectory dir force) := by
  refine meets_transaction fun db h => ?_
  refine meets_bind_of (meets_getDirectoryId h _ fun dirId _ => ?_)
  refine meets_bind_of (meets_require h fun ⟨_, hroot, _⟩ => ?_)
  have hrest : Safe (do
      let instrumentCount ← select fun db => db.instrumentCount dirId
      let dirCount ← select fun db => db.dirCount dirId
      require (instrumentCount = 0 ∧ dirCount = 0)
      statement (.deleteDirectory dirId) : Program Unit) := by
    intro db h
    refine meets_bind_of (meets_select.mpr ?_)
    refine meets_bind_of (meets_select.mpr ?_)
    refine meets_bind_of (meets_require h fun ⟨hinstruments, hdirs⟩ => ?_)
    refine exec_ne_scan h fun db' hdb => ?_
    have hinv : Inv db' := by
      refine h.filterDirs (fun d _ hk => ?_) hdb
      have hk : d.id = dirId := by simpa using hk
      exact hk ▸ ⟨hroot, empty_of_count hdirs hinstruments⟩
    exact ⟨hinv, hinv⟩
  cases force with
  | true =>
      refine meets_bind_of ((safe_removeDirectoryContent 1001 dirId db h).mono fun _ db h => ?_)
      exact hrest db h
  | false => exact hrest db h

theorem toDbName_toDbName (name : Bytes) : toDbName (toDbName name) = toDbName name := by
  unfold toDbName
  rw [List.map_map]
  refine List.map_congr_left fun c _ => ?_
  show (if (if c = nul then slash else c) = nul then slash else if c = nul then slash else c) = _
  by_cases hnul : c = nul
  · rw [if_pos hnul]
    exact if_neg (by decide)
  · rw [if_neg hnul]
    exact if_neg hnul

theorem Reaches.map {dirs : List DirRow} {f : DirRow → DirRow} (hid : ∀ d, (f d).id = d.id)
    (hparent : ∀ d, (f d).parent = d.parent) {id : Int} (h : Reaches dirs id) :
    Reaches (dirs.map f) id := by
  induction h with
  | root => exact .root
  | @child d hd _ ih =>
      rw [← hid d]
      refine .child (List.mem_map_of_mem hd) ?_
      rw [hparent]
      exact ih

theorem Inv.renameDirectory {db' : Db} (h : Inv db) {id : Int} {name : Bytes} (hname : name ≠ [])
    (hfree : ∀ i ∈ db.instruments, ¬(i.dir = db.findParent id ∧ i.name = toDbName name))
    (hdb : Stmt.exec (.renameDirectory id (toDbName name)) db = some db') : Inv db' := by
  have hbind := bindText_toDbName name
  let renamed (d : DirRow) : DirRow :=
    if d.id = id then { d with name := bindText (toDbName name) } else d
  have hid : ∀ d, (renamed d).id = d.id := by
    intro d
    dsimp only [renamed]
    split_ifs
    · rfl
    · rfl
  have hparent : ∀ d, (renamed d).parent = d.parent := by
    intro d
    dsimp only [renamed]
    split_ifs
    · rfl
    · rfl
  refine h.mapDirs hid ?_ ?_ ?_ ?_ hdb
  · intro d hd
    by_cases hroot : d.id = 0
    · exact .inr hroot
    · rw [hparent]
      exact .inl ((h.reaches_parent hd hroot).map hid hparent)
  · intro d hd i hi heq
    rw [hparent] at heq
    dsimp only [renamed]
    by_cases hd' : d.id = id
    · rw [if_pos hd']
      intro hsame
      refine hfree i hi ⟨?_, hsame.symm.trans hbind⟩
      rw [← hd', h.findParent_eq hd]
      exact heq.symm
    · rw [if_neg hd']
      exact h.cross d hd i hi heq
  · intro d hd hroot
    rw [hparent]
    exact h.parentRoot d hd hroot
  · intro d hd
    dsimp only [renamed]
    by_cases hd' : d.id = id
    · rw [if_pos hd']
      show bindText (toDbName name) ≠ []
      rw [hbind]
      exact fun hnil => hname (toDbName_eq_nil.mp hnil)
    · rw [if_neg hd']
      exact h.named d hd

theorem safe_renameDirectory (dir name : Bytes) : Safe (renameDirectory dir name) := by
  intro db h
  refine meets_bind_of (meets_require h fun hname => ?_)
  refine meets_transaction (fun db h => ?_) db h
  refine meets_bind_of (meets_getDirectoryId h _ fun dirId _ => ?_)
  refine meets_bind_of (meets_require h fun _ => ?_)
  refine meets_bind_of (meets_select.mpr ?_)
  refine meets_bind_of (meets_require h fun hparent => ?_)
  refine meets_bind_of (meets_getDirId _ _ ?_)
  refine meets_bind_of (meets_require h fun _ => ?_)
  refine meets_bind_of (meets_getInstrumentId _ _ fun r _ hr => ?_)
  refine meets_bind_of (meets_require h fun hnone => ?_)
  refine exec_ne_scan h fun db' hdb => ?_
  have hinv : Inv db' := by
    have hne : toDbName name ≠ [] := fun hnil => hname (toDbName_eq_nil.mp hnil)
    have hfree := h.no_instrument ((hr hparent hne).symm.trans hnone)
    rw [toDbName_toDbName] at hfree
    exact h.renameDirectory hname hfree hdb
  exact ⟨hinv, hinv⟩

/-! ## Moving and copying directories -/

theorem meets_checkTarget (h : Inv db) (dir dst : Bytes) {Q : Int × Int → Db → Prop}
    (hQ : ∀ dirId dstId, Leads db dir dirId → Leads db dst dstId → dstId ≠ -1 → dirId ≠ dstId →
      ¬((withSlash dir).length < dst.length ∧ withSlash dir = dst.take (withSlash dir).length) →
      (getFileName (withSlash dir).dropLast ≠ [] → ∀ i ∈ db.instruments,
        ¬(i.dir = dstId ∧ i.name = toDbName (getFileName (withSlash dir).dropLast))) →
      Q (dirId, dstId) db) : DbMeets Q (checkTarget dir dst) db := by
  refine meets_bind_of (meets_getDirectoryId h _ fun dirId hdir => ?_)
  refine meets_bind_of (meets_require h fun hdirId => ?_)
  refine meets_bind_of (meets_getDirectoryId h _ fun dstId hdst => ?_)
  refine meets_bind_of (meets_require h fun hdstId => ?_)
  refine meets_bind_of (meets_require h fun hne => ?_)
  refine meets_bind_of (meets_require h fun hnot => ?_)
  refine meets_bind_of (meets_getDirId _ _ ?_)
  refine meets_bind_of (meets_require h fun _ => ?_)
  refine meets_bind_of (meets_getInstrumentId _ _ fun r _ hr => ?_)
  refine meets_bind_of (meets_require h fun hnone => ?_)
  refine hQ dirId dstId (hdir hdirId) (hdst hdstId) hdstId hne hnot fun hname => ?_
  exact h.no_instrument ((hr hdstId hname).symm.trans hnone)

theorem pathNames_ne_nil {dir : Bytes} (hhead : dir.head? = some slash) (hroot : dir ≠ [slash]) :
    pathNames dir ≠ [] := by
  intro hnil
  rcases eq_join hhead with ⟨heq, -⟩ | heq
  · rw [hnil] at heq
    rw [heq] at hhead
    exact nomatch hhead
  · rw [hnil] at heq
    exact hroot heq

/-- A directory that passes the checks is not moved below itself. -/
theorem Inv.not_below (h : Inv db) {dir dst : Bytes} {dirId dstId : Int}
    (hdir : Leads db dir dirId) (hdst : Leads db dst dstId) (hne : dirId ≠ dstId)
    (hnot : ¬((withSlash dir).length < dst.length ∧
      withSlash dir = dst.take (withSlash dir).length)) : ¬pathNames dir <+: pathNames dst := by
  rintro ⟨rest, hrest⟩
  cases rest with
  | nil =>
      rw [List.append_nil] at hrest
      exact hne (h.named_functional (hrest ▸ hdir.2) hdst.2)
  | cons name rest =>
      have hname : name ≠ [] := by
        refine h.named_ne_nil hdst.2 name ?_
        rw [← hrest]
        exact List.mem_append_right _ List.mem_cons_self
      exact hnot (startsWith_of_below hdir.1 hdst.1 hname hrest.symm)

theorem safe_moveDirectory (dir dst : Bytes) : Safe (moveDirectory dir dst) := by
  intro db h
  refine meets_bind_of (meets_require h fun ⟨hroot, _⟩ => ?_)
  refine meets_transaction (fun db h => ?_) db h
  refine meets_bind_of
    (meets_checkTarget h dir dst fun dirId dstId hdir hdst _ hne hnot hfree => ?_)
  refine exec_ne_scan h fun db' hdb => ?_
  have hinv : Inv db' := by
    have hnames := pathNames_ne_nil hdir.1 hroot
    obtain ⟨init, name, hinit, hname, hslash, hrow⟩ := h.named_last hdir.2 hnames
    have hfile : getFileName (withSlash dir).dropLast = name := by
      rw [withSlash_eq hdir.1, List.dropLast_concat, hinit]
      exact getFileName_join hname hslash
    rw [hfile] at hfree
    refine h.moveDir hdir.2 hdst.2 hnames (h.not_below hdir hdst hne hnot) ?_ hdb
    intro d hd hid
    rw [hrow d hd hid]
    exact hfree hname
  exact ⟨hinv, hinv⟩

/-- A copy of an instrument goes to a directory that exists. -/
theorem meets_copyInstrumentRow (h : Inv db) {dstId : Int} (hdst : ∃ d ∈ db.dirs, d.id = dstId)
    (instrId : Int) (name : Bytes) :
    DbMeets (fun _ db => Inv db ∧ ∃ d ∈ db.dirs, d.id = dstId)
      (copyInstrumentRow instrId name dstId) db := by
  refine meets_bind_of (meets_getInstrumentId _ _ fun _ _ _ => ?_)
  refine meets_bind_of (meets_require h fun _ => ?_)
  refine meets_bind_of (meets_getDirId _ _ ?_)
  refine meets_bind_of (meets_require h fun hnone => ?_)
  refine meets_bind_of (meets_select.mpr ?_)
  split
  · exact h
  · refine exec_ne_scan h fun db' hdb => ?_
    have hinv : Inv db' := by
      refine h.insertInstrument hdst ?_ hdb
      rw [bindText_toDbName]
      exact h.no_dir hnone
    obtain ⟨-, rfl⟩ := withInstruments_eq hdb
    exact ⟨hinv, hinv, hdst⟩

theorem safe_copyContent (srcParentDir destDir path : Bytes) (dirId : Int) :
    Safe (copyContent srcParentDir destDir path dirId) := by
  have hrest : ∀ dir : Bytes, Safe (do
      let dstDirId ← getDirectoryId dir
      require (dstDirId ≠ -1)
      let ids ← select fun db => db.instrumentIds dirId
      forEach ids fun id => do
        let info ← select fun db => db.instruments.find? fun i => i.id = id
        let name := (info.map fun i => toAbstractName i.name).getD []
        copyInstrumentRow id name dstDirId : Program Unit) := by
    intro dir db h
    refine meets_bind_of (meets_getDirectoryId h _ fun dstId hdst => ?_)
    refine meets_bind_of (meets_require h fun hne => ?_)
    refine meets_bind_of (meets_select.mpr ?_)
    have hexists := h.named_exists (hdst hne).2
    refine (meets_forEach (fun id _ db hJ => ?_) (J := fun db =>
      Inv db ∧ ∃ d ∈ db.dirs, d.id = dstId) ⟨h, hexists⟩).mono fun _ db hJ => hJ.1
    refine meets_bind_of (meets_select.mpr ?_)
    exact meets_copyInstrumentRow hJ.1 hJ.2 id _
  intro db h
  unfold copyContent
  dsimp only
  by_cases hbelow : srcParentDir.length < path.length
  · rw [if_pos hbelow]
    refine meets_bind_of ((safe_addDirectory _ db h).mono fun _ db h => ?_)
    exact hrest _ db h
  · rw [if_neg hbelow]
    exact hrest _ db h

theorem safe_directoryTreeWalk {process : Bytes → Int → Program Unit}
    (hprocess : ∀ path dirId, Safe (process path dirId)) (levels : Nat) (path : Bytes)
    (dirId : Int) : Safe (directoryTreeWalk process levels path dirId) := by
  induction levels generalizing path dirId with
  | zero => exact fun db h => h
  | succ levels ih =>
      intro db h
      refine meets_bind_of ((hprocess path dirId db h).mono fun _ db h => ?_)
      refine meets_bind_of (meets_select.mpr ?_)
      refine meets_forEach (fun name _ db h => ?_) h
      exact meets_bind_of (meets_getDirId _ _ (ih _ _ db h))

theorem safe_copyDirectory (dir dst : Bytes) : Safe (copyDirectory dir dst) := by
  intro db h
  refine meets_bind_of (meets_require h fun _ => ?_)
  refine meets_transaction (fun db h => ?_) db h
  refine meets_bind_of (meets_checkTarget h dir dst fun _ _ _ _ _ _ _ _ => ?_)
  refine meets_bind_of (meets_getDirectoryId h _ fun dirId _ => ?_)
  refine meets_bind_of (meets_require h fun _ => ?_)
  exact safe_directoryTreeWalk (fun path dirId => safe_copyContent _ _ path dirId) _ _ _ db h

/-! ## Instruments -/

theorem meets_getInstrumentIdOf (h : Inv db) (instr : Bytes) {Q : Int → Db → Prop}
    (hQ : ∀ r, Q r db) : DbMeets Q (getInstrumentIdOf instr) db := by
  unfold getInstrumentIdOf
  by_cases hpath : getDirectoryPath instr = []
  · rw [if_pos hpath]
    exact hQ (-1)
  · rw [if_neg hpath]
    refine meets_bind_of (meets_getDirectoryId h _ fun dirId _ => ?_)
    exact meets_getInstrumentId _ _ fun r _ _ => hQ r

theorem safe_removeInstrument (instr : Bytes) : Safe (removeInstrument instr) := by
  intro db h
  refine meets_bind_of (meets_require h fun _ => ?_)
  refine meets_transaction (fun db h => ?_) db h
  refine meets_bind_of (meets_getInstrumentIdOf h _ fun r => ?_)
  refine meets_bind_of (meets_require h fun _ => ?_)
  refine exec_ne_scan h fun db' hdb => ?_
  have hinv : Inv db' := h.filterInstruments hdb
  exact ⟨hinv, hinv⟩

theorem Inv.eq_of_instrumentId (h : Inv db) {i j : InstrumentRow} (hi : i ∈ db.instruments)
    (hj : j ∈ db.instruments) (heq : i.id = j.id) : i = j :=
  List.inj_on_of_nodup_map h.instrumentIds hi hj heq

theorem safe_renameInstrument (instr name : Bytes) : Safe (renameInstrument instr name) := by
  intro db h
  refine meets_bind_of (meets_require h fun _ => ?_)
  refine meets_transaction (fun db h => ?_) db h
  refine meets_bind_of (meets_getDirectoryId h _ fun dirId _ => ?_)
  refine meets_bind_of (meets_require h fun _ => ?_)
  refine meets_bind_of (meets_getInstrumentId _ _ fun instrId hinstr _ => ?_)
  refine meets_bind_of (meets_require h fun hne => ?_)
  refine meets_bind_of (meets_getInstrumentId _ _ fun _ _ _ => ?_)
  refine meets_bind_of (meets_require h fun _ => ?_)
  refine meets_bind_of (meets_getDirId _ _ ?_)
  refine meets_bind_of (meets_require h fun hnone => ?_)
  refine exec_ne_scan h fun db' hdb => ?_
  have hinv : Inv db' := by
    have hfound : db.findInstrument dirId (toDbName (getFileName instr)) ≠ -1 := hinstr hne ▸ hne
    obtain ⟨j, hj, hjid, hjdir, -⟩ := mem_of_findInstrument hfound
    rw [← hinstr hne] at hjid
    refine h.mapInstruments (fun i => ?_) (fun i hi => ?_) (fun d hd i hi => ?_) hdb
    · split_ifs
      · rfl
      · rfl
    · split_ifs
      · exact h.placed i hi
      · exact h.placed i hi
    · by_cases heq : i.id = instrId
      · rw [if_pos heq, h.eq_of_instrumentId hi hj (heq.trans hjid.symm)]
        intro hparent hname
        refine h.no_dir hnone d hd ⟨hparent.trans hjdir, ?_⟩
        rw [hname]
        exact bindText_toDbName name
      · rw [if_neg heq]
        exact h.cross d hd i hi
  exact ⟨hinv, hinv⟩

theorem meets_lookUpInstrument (h : Inv db) (instr dst : Bytes) {Q : Int × Int × Int → Db → Prop}
    (hQ : ∀ instrId dirId dstId,
      (∃ i ∈ db.instruments, i.id = instrId ∧ i.name = toDbName (getFileName instr)) →
      (∃ d ∈ db.dirs, d.id = dstId) → Q (instrId, dirId, dstId) db) :
    DbMeets Q (lookUpInstrument instr dst) db := by
  refine meets_bind_of (meets_getDirectoryId h _ fun dirId _ => ?_)
  refine meets_bind_of (meets_require h fun _ => ?_)
  refine meets_bind_of (meets_getInstrumentId _ _ fun instrId hinstr _ => ?_)
  refine meets_bind_of (meets_require h fun hne => ?_)
  refine meets_bind_of (meets_getDirectoryId h _ fun dstId hdst => ?_)
  refine meets_bind_of (meets_require h fun hdstId => ?_)
  refine hQ instrId dirId dstId ?_ (h.named_exists (hdst hdstId).2)
  have hfound : db.findInstrument dirId (toDbName (getFileName instr)) ≠ -1 := hinstr hne ▸ hne
  obtain ⟨i, hi, hid, -, hname⟩ := mem_of_findInstrument hfound
  exact ⟨i, hi, hid.trans (hinstr hne).symm, hname⟩

theorem safe_moveInstrument (instr dst : Bytes) : Safe (moveInstrument instr dst) := by
  intro db h
  refine meets_bind_of (meets_require h fun _ => ?_)
  refine meets_transaction (fun db h => ?_) db h
  refine meets_bind_of (meets_lookUpInstrument h _ _ fun instrId dirId dstId hinstr hdst => ?_)
  dsimp only
  by_cases hsame : dirId = dstId
  · rw [if_pos hsame]
    exact h
  · rw [if_neg hsame]
    refine meets_bind_of (meets_getInstrumentId _ _ fun _ _ _ => ?_)
    refine meets_bind_of (meets_require h fun _ => ?_)
    refine meets_bind_of (meets_getDirId _ _ ?_)
    refine meets_bind_of (meets_require h fun hnone => ?_)
    refine exec_ne_scan h fun db' hdb => ?_
    have hinv : Inv db' := by
      obtain ⟨j, hj, hjid, hjname⟩ := hinstr
      refine h.mapInstruments (fun i => ?_) (fun i hi => ?_) (fun d hd i hi => ?_) hdb
      · split_ifs
        · rfl
        · rfl
      · split_ifs
        · exact hdst
        · exact h.placed i hi
      · by_cases heq : i.id = instrId
        · rw [if_pos heq, h.eq_of_instrumentId hi hj (heq.trans hjid.symm)]
          intro hparent hname
          exact h.no_dir hnone d hd ⟨hparent, hname.trans hjname⟩
        · rw [if_neg heq]
          exact h.cross d hd i hi
    exact ⟨hinv, hinv⟩

theorem safe_copyInstrument (instr dst : Bytes) : Safe (copyInstrument instr dst) := by
  intro db h
  refine meets_bind_of (meets_require h fun _ => ?_)
  refine meets_transaction (fun db h => ?_) db h
  refine meets_bind_of (meets_lookUpInstrument h _ _ fun instrId dirId dstId _ hdst => ?_)
  dsimp only
  by_cases hsame : dirId = dstId
  · rw [if_pos hsame]
    exact h
  · rw [if_neg hsame]
    exact (meets_copyInstrumentRow h hdst instrId _).mono fun _ db hJ => hJ.1

/-! ## Scans -/

theorem safe_uniqueFrom (dirId : Int) (name : Bytes) (tries n : Nat) :
    Safe (uniqueFrom dirId name tries n) := by
  induction tries generalizing n with
  | zero => exact fun db h => h
  | succ tries ih =>
      intro db h
      refine meets_bind_of (meets_getInstrumentId _ _ fun _ _ _ => ?_)
      refine meets_bind_of (meets_getInstrumentId _ _ fun _ _ _ => ?_)
      split_ifs
      · exact h
      · exact ih (n + 1) db h

theorem safe_getUniqueName (dirId : Int) (name : Bytes) : Safe (getUniqueName dirId name) := by
  intro db h
  refine meets_bind_of (meets_getInstrumentId _ _ fun _ _ _ => ?_)
  refine meets_bind_of (meets_getDirId _ _ ?_)
  split_ifs
  · exact h
  · exact safe_uniqueFrom dirId name 999 2 db h

theorem safe_prepareSubdirectory (dbDir baseName : Bytes) :
    Safe (prepareSubdirectory dbDir baseName) := by
  intro db h
  refine meets_bind_of (meets_getDirectoryId h _ fun id _ => ?_)
  refine meets_bind_of ((safe_getUniqueName id _ db h).mono fun name db h => ?_)
  exact meets_bind_of ((safe_addDirectory _ db h).mono fun _ db h => h)

/-- The statement of a scan relies on its directory and its name. -/
theorem safe_insertInstruments (dirId : Int) (file : ScanFile) (index : Int)
    (infos : List InstrumentInfo) (nr : Int) :
    Safe (insertInstruments dirId file index infos nr) := by
  induction infos generalizing nr with
  | nil => exact fun db h => h
  | cons info infos ih =>
      have hrest : Safe (if index = -1 then insertInstruments dirId file index infos (nr + 1)
          else ret ()) := by
        intro db h
        split_ifs
        · exact ih (nr + 1) db h
        · exact h
      intro db h
      refine meets_bind_of ((safe_getUniqueName dirId _ db h).mono fun name db h => ?_)
      refine meets_bind_of (meets_select.mpr ?_)
      dsimp only
      by_cases hcount : (db.instruments.countP fun i =>
          i.file = bindText file.path ∧ i.nr = nr) = 0
      · rw [if_pos hcount]
        refine meets_bind_of (meets_statement h fun ⟨hdir, hfree⟩ db' hdb => ?_)
        have hinv : Inv db' := h.insertInstrument hdir hfree hdb
        exact ⟨hinv, hrest db' hinv⟩
      · rw [if_neg hcount]
        exact hrest db h

theorem Reading.safe_insert (r : Reading) : Safe r.insert :=
  fun db h => meets_attempt (safe_insertInstruments _ _ _ _ _ db h) fun _ h => h

/-- A file is scanned in its directory, then the others are. -/
theorem safe_scanFile {scan : Scan} {files : List ScanFile} (hrest : Safe (scanFiles scan files))
    (file : ScanFile) (dir : Bytes) :
    Safe (match file.instruments with
      | none => scanFiles scan files
      | some infos => do
          let dirId ← attempt do
            let dirId ← getDirectoryId dir
            require (dirId ≠ -1)
            ret dirId
          match dirId with
          | none => scanFiles scan files
          | some dirId => do
              let r : Reading := ⟨scan, dirId, file, infos, files⟩
              let inTransaction ← select fun db => db.inTransaction
              if inTransaction then do
                let _ ← r.insert
                scanFiles scan files
              else ret (some r)) := by
  intro db h
  cases file.instruments with
  | none => exact hrest db h
  | some infos =>
      refine meets_bind_of (meets_attempt ?_ hrest)
      refine meets_bind_of (meets_getDirectoryId h _ fun dirId _ => ?_)
      refine meets_bind_of (meets_require h fun _ => ?_)
      refine meets_bind_of (meets_select.mpr ?_)
      split_ifs
      · exact meets_bind_of ((Reading.safe_insert _ db h).mono fun _ db h => hrest db h)
      · exact h

theorem safe_scanFiles (scan : Scan) (files : List ScanFile) : Safe (scanFiles scan files) := by
  induction files with
  | nil => exact fun db h => h
  | cons file files ih =>
      have hrest (dir : Bytes) := safe_scanFile ih file dir
      intro db h
      unfold scanFiles
      split_ifs
      · exact meets_bind_of ((safe_prepareSubdirectory _ _ db h).mono fun dir db h => hrest dir db h)
      · exact hrest _ db h

theorem safe_addInstruments (scan : Scan) (files : List ScanFile) :
    Safe (addInstruments scan files) := by
  intro db h
  refine meets_bind_of (meets_getDirectoryId h _ fun dirId _ => ?_)
  refine meets_bind_of (meets_require h fun _ => ?_)
  exact safe_scanFiles scan files db h

/-- Every call keeps the invariant. -/
theorem safe_program (c : Call) : Safe c.program := by
  have hret : ∀ {p : Program Unit}, Safe p →
      Safe (p.bind fun _ => (ret none : Program (Option Reading))) :=
    fun hp db h => meets_bind.mpr ((hp db h).mono fun _ _ h => h)
  cases c with
  | addDirectory dir => exact hret (safe_addDirectory dir)
  | removeDirectory dir force => exact hret (safe_removeDirectory dir force)
  | renameDirectory dir name => exact hret (safe_renameDirectory dir name)
  | moveDirectory dir dst => exact hret (safe_moveDirectory dir dst)
  | copyDirectory dir dst => exact hret (safe_copyDirectory dir dst)
  | addInstruments scan files => exact safe_addInstruments scan files
  | removeInstrument instr => exact hret (safe_removeInstrument instr)
  | renameInstrument instr name => exact hret (safe_renameInstrument instr name)
  | moveInstrument instr dst => exact hret (safe_moveInstrument instr dst)
  | copyInstrument instr dst => exact hret (safe_copyInstrument instr dst)

end InstrumentsDb

end LinuxSampler
