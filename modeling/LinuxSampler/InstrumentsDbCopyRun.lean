import LinuxSampler.InstrumentsDbCopy

/-!
# What CopyDirectory() does

The copy goes along with a walk of the tree that it adds to. Each directory
is added under a path that is cut from that of its source, and looked up
again by it; then its instruments are copied, then its directories.
-/

namespace LinuxSampler

namespace InstrumentsDb

open Bytes StoreProgram Prog LabelledTree SplitNodes

variable {C : Prop} {db : Db}

/-- The program returns what meets `Q`, or it throws because of `C`. -/
abbrev DbYields {α : Type} (C : Prop) (Q : α → Db → Prop) (p : Program α) (db : Db) : Prop :=
  Yields Stmt.exec C Q p db

/-! ## Queries -/

theorem yields_transaction {p : Program Unit} {Q : Unit → Db → Prop}
    (h : DbYields C (fun _ db => Q () { db with inTransaction := false }) p
      { db with inTransaction := true }) : DbYields C Q (transaction p) db := by
  refine yields_bind.mpr (yields_statement rfl (yields_bind.mpr ?_))
  refine yields_attempt (h.mono fun _ db hQ => ?_) fun hC db => ?_
  · exact yields_bind.mpr (yields_statement rfl hQ)
  · exact yields_bind.mpr (yields_statement rfl hC)

theorem yields_getDirId (parent : Int) (name : Bytes) {Q : Int → Db → Prop}
    (hQ : Q (db.findDir parent (toDbName name)) db) : DbYields C Q (getDirId parent name) db := by
  rw [← bindText_toDbName] at hQ
  exact hQ

theorem yields_getInstrumentId (dirId : Int) (name : Bytes) {Q : Int → Db → Prop}
    (hQ : ∀ r, (r ≠ -1 → ∃ c, db.forest.holds dirId c ∧ c.name = toDbName name) → Q r db) :
    DbYields C Q (getInstrumentId dirId name) db := by
  unfold getInstrumentId
  split
  · exact hQ (-1) fun hne => absurd rfl hne
  · refine hQ (db.findInstrument dirId (bindText (toDbName name))) fun hne => ?_
    obtain ⟨i, hi, -, hdir, hname⟩ := mem_of_findInstrument hne
    exact ⟨i.content, ⟨i, hi, hdir, rfl⟩, hname.trans (bindText_toDbName name)⟩

theorem yields_lookUp (h : Stored db) {names : List Bytes} {x z : Int}
    (hwalk : Walk db.forest x (names.map toDbName) z) {Q : Int → Db → Prop} (hQ : Q z db) :
    DbYields C Q (lookUp x names) db := by
  induction names generalizing x with
  | nil => exact hwalk.eq_of_nil ▸ hQ
  | cons name names ih =>
      obtain ⟨y, hy, hwalk⟩ := hwalk.cons_inv
      refine yields_bind.mpr (yields_getDirId x name ?_)
      rw [h.findDir_eq hy]
      exact ih hwalk

theorem Stored.isName (h : Stored db) {path : Bytes} {id : Int}
    (hid : Named db.dirs (pathNames path) id) :
    ∀ name ∈ pathNames path, IsName name :=
  fun name hname => ⟨h.dirs.named_ne_nil hid name hname, not_mem_pathNames hname⟩

theorem yields_getDirectoryId (h : Stored db) {path : Bytes} {id : Int} (hpath : Leads db path id)
    {Q : Int → Db → Prop} (hQ : Q id db) : DbYields C Q (getDirectoryId path) db := by
  obtain ⟨hhead, hid⟩ := hpath
  have hcheck := checkPathName_path hhead (h.isName hid)
  refine yields_bind.mpr (yields_require (fun hnot => absurd hcheck hnot) fun _ => ?_)
  have hid' : Named db.dirs ([] ++ pathNames path) id := hid
  obtain ⟨x, hroot, hwalk⟩ := hid'.walk_of_append
  obtain rfl : (0 : Int) = x := h.dirs.named_functional .root hroot
  rw [if_neg (not_not.mpr hhead)]
  split
  · next hlength =>
    obtain ⟨c, rfl⟩ := List.length_eq_one_iff.mp hlength
    exact hwalk.eq_of_nil ▸ hQ
  · exact yields_lookUp h hwalk hQ

/-! ## Statements -/

/-- With a new directory. -/
def Db.withDir (db : Db) (parent : Int) (name : Bytes) : Db :=
  { db with
    dirs := db.dirs ++ [⟨db.lastDir + 1, parent, name⟩]
    lastDir := db.lastDir + 1
    inTransaction := false }

/-- With a copy of an instrument. -/
def Db.withCopy (db : Db) (dirId : Int) (i : InstrumentRow) : Db :=
  { db with
    instruments := db.instruments ++ [{ i with id := db.lastInstrument + 1, dir := dirId }]
    lastInstrument := db.lastInstrument + 1 }

theorem Stored.insertDir (h : Stored db) {parent : Int} {name : Bytes}
    (hparent : ∃ d ∈ db.dirs, d.id = parent) (hne : name ≠ []) (hbind : bindText name = name)
    (hfree : ∀ y, ¬ db.forest.child parent name y) :
    (∃ b, db.insertDir parent name = some { db.withDir parent name with inTransaction := b }) ∧
      Stored (db.withDir parent name) := by
  let row : DirRow := ⟨db.lastDir + 1, parent, name⟩
  have hunique : UniqueDirs (db.dirs ++ [row]) := by
    unfold UniqueDirs
    rw [List.map_append]
    refine List.nodup_append.mpr ⟨h.dirs.uniqueDirs, List.nodup_singleton _, fun a ha b hb => ?_⟩
    obtain ⟨⟨id, parent', name'⟩, hd, rfl⟩ := List.mem_map.mp ha
    rw [List.mem_singleton.mp hb]
    intro heq
    cases heq
    exact hfree id hd
  have hinsert : ∀ db' : Db, db'.dirs = db.dirs → db'.lastDir = db.lastDir →
      db'.insertDir parent name =
        some { db' with dirs := db.dirs ++ [row], lastDir := row.id } := by
    intro db' hdirs hlast
    unfold Db.insertDir Db.withDirs
    dsimp only
    rw [hdirs, hlast, if_pos hunique]
  refine ⟨⟨db.inTransaction, hinsert db rfl rfl⟩, ?_⟩
  have hdirs := h.dirs.insertDir hparent hne (fun _ hi => nomatch hi) (hinsert _ rfl rfl)
  refine ⟨hdirs.withTransaction false, h.uniqueInstruments, h.instrumentIds, h.instrumentRange,
    h.lastInstrument, fun i hi => ?_, fun d hd => ?_, h.texts.instruments⟩
  · have hle := h.placed i hi
    show i.dir ≤ db.lastDir + 1
    omega
  · rcases List.mem_append.mp hd with hd | hd
    · exact h.texts.dirs d hd
    · rw [List.mem_singleton.mp hd]
      exact hbind

theorem Stored.insertInstrument (h : Stored db) {dirId : Int} {i : InstrumentRow}
    (hi : i ∈ db.instruments) (hdir : dirId ≤ db.lastDir)
    (hfree : ∀ c, db.forest.holds dirId c → c.name ≠ i.name) :
    db.insertInstrument dirId i.name i.file i.nr i.columns = some (db.withCopy dirId i) ∧
      Stored (db.withCopy dirId i) := by
  let row : InstrumentRow := { i with id := db.lastInstrument + 1, dir := dirId }
  have hlast := h.lastInstrument
  have hunique : UniqueInstruments (db.instruments ++ [row]) := by
    unfold UniqueInstruments
    rw [List.map_append]
    refine List.nodup_append.mpr ⟨h.uniqueInstruments, List.nodup_singleton _, fun a ha b hb => ?_⟩
    obtain ⟨j, hj, rfl⟩ := List.mem_map.mp ha
    rw [List.mem_singleton.mp hb]
    intro heq
    obtain ⟨hjdir, hname⟩ := Prod.mk.inj heq
    exact hfree j.content ⟨j, hj, hjdir, rfl⟩ hname
  have hcases : ∀ {P : InstrumentRow → Prop}, (∀ j ∈ db.instruments, P j) → P row →
      ∀ j ∈ db.instruments ++ [row], P j := by
    intro P hall hrow j hj
    rcases List.mem_append.mp hj with hj | hj
    · exact hall j hj
    · exact List.mem_singleton.mp hj ▸ hrow
  refine ⟨if_pos hunique, h.dirs, hunique, ?_, ?_, ?_, hcases h.placed hdir, h.texts.dirs,
    hcases h.texts.instruments (h.texts.instruments i hi)⟩
  · show ((db.instruments ++ [row]).map InstrumentRow.id).Nodup
    rw [List.map_append]
    refine List.nodup_append.mpr ⟨h.instrumentIds, List.nodup_singleton _, fun a ha b hb => ?_⟩
    obtain ⟨j, hj, rfl⟩ := List.mem_map.mp ha
    have hrange := h.instrumentRange j hj
    have hb : b = db.lastInstrument + 1 := List.mem_singleton.mp hb
    omega
  · show ∀ j ∈ db.instruments ++ [row], 0 ≤ j.id ∧ j.id ≤ db.lastInstrument + 1
    refine hcases (fun j hj => ?_) ?_
    · have hrange := h.instrumentRange j hj
      omega
    · show 0 ≤ db.lastInstrument + 1 ∧ db.lastInstrument + 1 ≤ db.lastInstrument + 1
      omega
  · show 0 ≤ db.lastInstrument + 1
    omega

theorem yields_addDirectory (h : Stored db) {names : List Bytes} {name : Bytes} {parent : Int}
    (hparent : Named db.dirs names parent) (hnames : ∀ n ∈ names, IsName n) (hname : IsName name)
    (hfree : ∀ y, ¬ db.forest.child parent (toDbName name) y)
    (hC : ∀ c, db.forest.holds parent c → c.name = toDbName name → C) {Q : Unit → Db → Prop}
    (hQ : Q () (db.withDir parent (toDbName name))) :
    DbYields C Q (addDirectory (join slash (names ++ [name]))) db := by
  have hall : ∀ n ∈ names ++ [name], IsName n := by
    intro n hn
    rcases List.mem_append.mp hn with hn | hn
    · exact hnames n hn
    · exact List.mem_singleton.mp hn ▸ hname
  have hcheck : checkPathName (join slash (names ++ [name])) = true := by
    rw [← List.append_nil (join slash _)]
    exact checkPathName_join hall rfl
  have hleads : Leads { db with inTransaction := true } (parentPath names) parent :=
    ⟨head?_parentPath names, (pathNames_parentPath hnames).symm ▸ hparent⟩
  have hdir : parentPath names ≠ [] := by
    intro hnil
    have hhead := head?_parentPath names
    rw [hnil] at hhead
    exact nomatch hhead
  have hstored := h.withTransaction true
  have hne : toDbName name ≠ [] := fun hnil => hname.1 (toDbName_eq_nil.mp hnil)
  refine yields_bind.mpr (yields_require (fun hnot => absurd hcheck hnot) fun _ => ?_)
  refine yields_transaction ?_
  rw [withoutSlash_join hname, getFileName_join hname.1 hname.2, getParentDirectory_join hname]
  refine yields_bind.mpr (yields_require (fun hnot => absurd ⟨hdir, hname.1⟩ hnot) fun _ => ?_)
  refine yields_bind.mpr (yields_getDirectoryId hstored hleads ?_)
  refine yields_bind.mpr (yields_require (fun hnot => ?_) fun _ => ?_)
  · obtain ⟨d, hd, hid⟩ := h.dirs.named_exists hparent
    have hrange := h.dirs.range d hd
    omega
  refine yields_bind.mpr (yields_getDirId _ _ ?_)
  refine yields_bind.mpr (yields_require (fun hnot => ?_) fun _ => ?_)
  · exact absurd (Stored.findDir_eq_none hfree) hnot
  refine yields_bind.mpr (yields_getInstrumentId _ _ fun r hr => ?_)
  refine yields_bind.mpr (yields_require (fun hnot => ?_) fun _ => ?_)
  · obtain ⟨c, hc, hcname⟩ := hr hnot
    exact hC c hc hcname
  obtain ⟨⟨b, hinsert⟩, -⟩ :=
    hstored.insertDir (h.dirs.named_exists hparent) hne (bindText_toDbName name) hfree
  have hexec : Stmt.exec (.insertDirectory parent (toDbName name))
      { db with inTransaction := true } =
      some { db.withDir parent (toDbName name) with inTransaction := b } := by
    rw [Stmt.exec, bindText_toDbName]
    exact hinsert
  exact yields_statement hexec hQ

theorem Stored.instrument_eq (h : Stored db) {i j : InstrumentRow} (hi : i ∈ db.instruments)
    (hj : j ∈ db.instruments) (hid : i.id = j.id) : i = j :=
  List.inj_on_of_nodup_map h.instrumentIds hi hj hid

theorem Stored.find_instrument (h : Stored db) {i : InstrumentRow} (hi : i ∈ db.instruments) :
    (db.instruments.find? fun j => j.id = i.id) = some i := by
  cases hfind : db.instruments.find? fun j => j.id = i.id with
  | none => exact absurd (List.find?_eq_none.mp hfind i hi) (by simp)
  | some j =>
      have hid := List.find?_some hfind
      rw [h.instrument_eq (List.mem_of_find?_eq_some hfind) hi (of_decide_eq_true hid)]

theorem yields_copyInstrumentRow (h : Stored db) {i : InstrumentRow} (hi : i ∈ db.instruments)
    {dirId : Int} (hdir : dirId ≤ db.lastDir)
    (hfree : ∀ c, db.forest.holds dirId c → c.name ≠ i.name)
    (hfreeDir : ∀ y, ¬ db.forest.child dirId i.name y) {Q : Unit → Db → Prop}
    (hQ : Stored (db.withCopy dirId i) → Q () (db.withCopy dirId i)) :
    DbYields C Q (copyInstrumentRow i.id (toAbstractName i.name) dirId) db := by
  obtain ⟨hbind, hfile, hcolumns⟩ := h.texts.instruments i hi
  have hname := toDbName_toAbstractName hbind
  obtain ⟨hinsert, hstored⟩ := h.insertInstrument hi hdir hfree
  refine yields_bind.mpr (yields_getInstrumentId _ _ fun r hr => ?_)
  refine yields_bind.mpr (yields_require (fun hnot => ?_) fun _ => ?_)
  · obtain ⟨c, hc, hcname⟩ := hr hnot
    exact absurd (hcname.trans hname) (hfree c hc)
  refine yields_bind.mpr (yields_getDirId _ _ ?_)
  rw [hname]
  refine yields_bind.mpr (yields_require (fun hnot => ?_) fun _ => ?_)
  · exact absurd (Stored.findDir_eq_none hfreeDir) hnot
  refine yields_bind.mpr (yields_select.mpr ?_)
  rw [h.find_instrument hi]
  refine yields_statement ?_ (hQ hstored)
  rw [Stmt.exec, hbind, hfile, hcolumns]
  exact hinsert

/-! ## Instruments -/

/-- `target` has got copies of those instruments of `source` that are `done`. -/
structure Filling (source target : Int) (db : Db) (done : List Int) (db' : Db) : Prop where
  stored : Stored db'
  dirs : db'.dirs = db.dirs
  lastDir : db'.lastDir = db.lastDir
  instruments : ∃ new, db'.instruments = db.instruments ++ new ∧ ∀ j ∈ new, j.dir = target
  forth : ∀ i ∈ db.instruments, i.id ∈ done → db'.forest.holds target i.content
  back : ∀ c, db'.forest.holds target c →
    ∃ i ∈ db.instruments, i.id ∈ done ∧ i.dir = source ∧ i.content = c

theorem Filling.start (h : Stored db) (source : Int) {target : Int}
    (hempty : ∀ c, ¬ db.forest.holds target c) : Filling source target db [] db where
  stored := h
  dirs := rfl
  lastDir := rfl
  instruments := ⟨[], (List.append_nil _).symm, fun _ hj => nomatch hj⟩
  forth := fun _ _ hid => nomatch hid
  back := fun c hc => absurd hc (hempty c)

theorem Filling.copy {source target : Int} {done : List Int} {db' : Db} {i : InstrumentRow}
    (h : Filling source target db done db') (hi : i ∈ db.instruments) (hdir : i.dir = source)
    (hstored : Stored (db'.withCopy target i)) :
    Filling source target db (done ++ [i.id]) (db'.withCopy target i) := by
  let row : InstrumentRow := { i with id := db'.lastInstrument + 1, dir := target }
  obtain ⟨new, hnew, hnewdir⟩ := h.instruments
  refine ⟨hstored, h.dirs, h.lastDir, ⟨new ++ [row], ?_, fun j hj => ?_⟩, fun j hj hid => ?_, ?_⟩
  · show db'.instruments ++ [row] = _
    rw [hnew, List.append_assoc]
  · rcases List.mem_append.mp hj with hj | hj
    · exact hnewdir j hj
    · exact List.mem_singleton.mp hj ▸ rfl
  · rcases List.mem_append.mp hid with hid | hid
    · obtain ⟨k, hk, hkdir, hc⟩ := h.forth j hj hid
      exact ⟨k, List.mem_append_left [row] hk, hkdir, hc⟩
    · obtain ⟨id, dir, name, file, nr, columns⟩ := j
      refine ⟨row, List.mem_append_right _ List.mem_cons_self, rfl, ?_⟩
      rw [h.stored.instrument_eq (hnew ▸ List.mem_append_left new hj)
        (hnew ▸ List.mem_append_left new hi) (List.mem_singleton.mp hid)]
      rfl
  · rintro c ⟨j, hj, hjdir, hc⟩
    rcases List.mem_append.mp hj with hj | hj
    · obtain ⟨k, hk, hid, hkdir, hkc⟩ := h.back c ⟨j, hj, hjdir, hc⟩
      exact ⟨k, hk, List.mem_append_left [i.id] hid, hkdir, hkc⟩
    · refine ⟨i, hi, List.mem_append_right done List.mem_cons_self, hdir, ?_⟩
      rw [← hc, List.mem_singleton.mp hj]
      rfl

theorem yields_copyInstruments (h : Stored db) {source target : Int} (htarget : target ≤ db.lastDir)
    (hempty : ∀ c, ¬ db.forest.holds target c) (hchildren : ∀ k y, ¬ db.forest.child target k y) :
    DbYields C (fun _ db' => Filling source target db (db.instrumentIds source) db')
      (forEach (db.instrumentIds source) fun id => do
        let info ← select fun db => db.instruments.find? fun i => i.id = id
        let name := (info.map fun i => toAbstractName i.name).getD []
        copyInstrumentRow id name target) db := by
  refine yields_forEach (J := fun done db' => Filling source target db done db')
    (fun done id rest db' hids hJ => ?_) (.start h source hempty)
  have hmem : id ∈ db.instrumentIds source := by
    rw [hids]
    exact List.mem_append_right done List.mem_cons_self
  obtain ⟨i, hi, rfl⟩ := List.mem_map.mp hmem
  obtain ⟨hi, hdir⟩ := List.mem_filter.mp hi
  have hdir : i.dir = source := of_decide_eq_true hdir
  obtain ⟨new, hnew, -⟩ := hJ.instruments
  have hi' : i ∈ db'.instruments := hnew ▸ List.mem_append_left new hi
  refine yields_bind.mpr (yields_select.mpr ?_)
  dsimp only
  rw [hJ.stored.find_instrument hi']
  refine yields_copyInstrumentRow hJ.stored hi' (hJ.lastDir ▸ htarget) (fun c hc hname => ?_) ?_
    fun hstored => hJ.copy hi hdir hstored
  · -- the names of a directory are unique, and those that are done are others
    obtain ⟨j, hj, hjdone, hjdir, rfl⟩ := hJ.back c hc
    have hsame : j = i := by
      refine List.inj_on_of_nodup_map h.uniqueInstruments hj hi ?_
      rw [hjdir, hdir]
      exact congrArg (Prod.mk source) hname
    have hnodup : (db.instrumentIds source).Nodup :=
      h.instrumentIds.sublist (List.filter_sublist.map _)
    rw [hids] at hnodup
    exact (List.nodup_append.mp hnodup).2.2 j.id hjdone i.id List.mem_cons_self (by rw [hsame])
  · intro y hy
    have hy : _ ∈ db'.dirs := hy
    rw [hJ.dirs] at hy
    exact hchildren _ y hy

/-! ## Directories -/

/-- The only directory that is new in `parent` has the instruments of `source`, and those of its
directories that are `done`. -/
structure Copying (parent source : Int) (name : Bytes) (db : Db) (done : List Bytes) (db' : Db) :
    Prop where
  stored : Stored db'
  grows : Grows parent db db'
  row : db'.forest.child parent name (db.lastDir + 1)
  only : ∀ k y, db'.forest.child parent k y →
    db.forest.child parent k y ∨ k = name ∧ y = db.lastDir + 1
  holds : ∀ c, db.forest.holds source c ↔ db'.forest.holds (db.lastDir + 1) c
  forth : ∀ n ∈ done, ∃ y, db'.forest.child (db.lastDir + 1) (toDbName n) y
  back : ∀ k y, db'.forest.child (db.lastDir + 1) k y → (∃ n ∈ done, toDbName n = k) ∧
    ∃ x, db.forest.child source k x ∧ Alike db.forest x db'.forest y

theorem Stored.withDir_fresh (h : Stored db) {parent : Int} (hparent : parent ≤ db.lastDir)
    (name : Bytes) :
    (∀ c, ¬ (db.withDir parent name).forest.holds (db.lastDir + 1) c) ∧
      ∀ k y, ¬ (db.withDir parent name).forest.child (db.lastDir + 1) k y := by
  constructor
  · rintro c ⟨i, hi, hdir, -⟩
    have hle := h.placed i hi
    omega
  · intro k y hy
    rcases List.mem_append.mp hy with hy | hy
    · have hle := h.parent_le hy
      omega
    · have heq : db.lastDir + 1 = parent := congrArg DirRow.parent (List.mem_singleton.mp hy)
      omega

theorem Filling.copying (h : Stored db) {parent source : Int} {name : Bytes}
    (hparent : parent ≤ db.lastDir) {db' : Db}
    (hfilled :
      Filling source (db.lastDir + 1) (db.withDir parent name) (db.instrumentIds source) db') :
    Copying parent source name db [] db' where
  stored := hfilled.stored
  grows := by
    obtain ⟨new, hnew, hdirs⟩ := hfilled.instruments
    refine ⟨⟨_, hfilled.dirs, fun d hd => ?_⟩, ⟨new, hnew, fun j hj => ?_⟩, ?_⟩
    · rw [List.mem_singleton.mp hd]
      exact .inl rfl
    · rw [hdirs j hj]
      omega
    · have hlast : db'.lastDir = db.lastDir + 1 := hfilled.lastDir
      omega
  row := by
    show _ ∈ db'.dirs
    rw [hfilled.dirs]
    exact List.mem_append_right _ List.mem_cons_self
  only := by
    intro k y hy
    have hy : _ ∈ db'.dirs := hy
    rw [hfilled.dirs] at hy
    rcases List.mem_append.mp hy with hy | hy
    · exact .inl hy
    · have hrow := List.mem_singleton.mp hy
      exact .inr ⟨congrArg DirRow.name hrow, congrArg DirRow.id hrow⟩
  holds := by
    intro c
    constructor
    · rintro ⟨i, hi, hdir, rfl⟩
      refine hfilled.forth i hi (List.mem_map_of_mem (List.mem_filter.mpr ⟨hi, ?_⟩))
      exact decide_eq_true hdir
    · intro hc
      obtain ⟨i, hi, -, hdir, hic⟩ := hfilled.back c hc
      exact ⟨i, hi, hdir, hic⟩
  forth := fun _ hn => nomatch hn
  back := by
    intro k y hy
    have hy : _ ∈ db'.dirs := hy
    rw [hfilled.dirs] at hy
    exact absurd hy ((h.withDir_fresh hparent name).2 k y)

theorem Copying.copy (h : Stored db) {parent source x : Int} {name n : Bytes} {done : List Bytes}
    {db' db'' : Db} (hcopying : Copying parent source name db done db')
    (hparent : parent ≤ db.lastDir) (hx : db.forest.child source (toDbName n) x)
    (hnot : ∀ ks, ¬ Walk db.forest x ks parent) {names : List Bytes}
    (hnamed : Named db'.dirs names (db.lastDir + 1))
    (hcopied : Copied (db.lastDir + 1) x (toDbName n) db' db'') :
    Copying parent source name db (done ++ [n]) db'' := by
  have htarget := hcopying.stored.child_range hcopying.row
  have hle := hcopying.grows.lastDir
  refine ⟨hcopied.stored, hcopying.grows.trans hcopied.grows (by omega),
    hcopied.grows.child hcopying.row, fun k y hy => ?_, fun c => ?_, fun m hm => ?_,
    fun k y hy => ?_⟩
  · exact hcopying.only k y ((hcopied.grows.child_iff (by omega) (by omega)).mpr hy)
  · exact (hcopying.holds c).trans (hcopied.grows.holds_iff htarget.2)
  · rcases List.mem_append.mp hm with hm | hm
    · obtain ⟨y, hy⟩ := hcopying.forth m hm
      exact ⟨y, hcopied.grows.child hy⟩
    · exact ⟨_, List.mem_singleton.mp hm ▸ hcopied.row⟩
  · rcases hcopied.only k y hy with hy | ⟨rfl, rfl⟩
    · obtain ⟨⟨m, hm, hmk⟩, z, hz, halike⟩ := hcopying.back k y hy
      refine ⟨⟨m, List.mem_append_left [n] hm, hmk⟩, z, hz, halike.trans ?_⟩
      refine hcopied.grows.alike hcopying.stored (hcopying.stored.child_range hy).2 fun ks => ?_
      exact hcopying.stored.not_below_child hnamed hy ks
    · refine ⟨⟨n, List.mem_append_right done List.mem_cons_self, rfl⟩, x, hx, ?_⟩
      exact (hcopying.grows.alike h (h.child_range hx).2 hnot).trans hcopied.alike

theorem mem_dirNames (h : Stored db) {source : Int} (hsource : 0 ≤ source) {n : Bytes} :
    n ∈ db.dirNames source ↔ ∃ k x, db.forest.child source k x ∧ n = toAbstractName k := by
  constructor
  · intro hn
    obtain ⟨⟨id, parent, name⟩, hmem, rfl⟩ := List.mem_map.mp hn
    obtain ⟨hd, hp⟩ := List.mem_filter.mp hmem
    have hparent : parent = source := (of_decide_eq_true hp).1
    exact ⟨name, id, hparent ▸ hd, rfl⟩
  · rintro ⟨k, x, hx, rfl⟩
    refine List.mem_map.mpr ⟨_, List.mem_filter.mpr ⟨hx, decide_eq_true ⟨rfl, ?_⟩⟩, rfl⟩
    intro hroot
    have hparent : source = -2 := h.dirs.parentRoot _ hx hroot
    omega

theorem nodup_dirNames (h : Stored db) (source : Int) : (db.dirNames source).Nodup := by
  refine List.Nodup.map_on (fun d hd e he heq => ?_)
    ((List.Nodup.of_map _ h.dirs.uniqueDirs).filter _)
  obtain ⟨hd, hdp⟩ := List.mem_filter.mp hd
  obtain ⟨he, hep⟩ := List.mem_filter.mp he
  have hdp := of_decide_eq_true hdp
  have hep := of_decide_eq_true hep
  refine List.inj_on_of_nodup_map h.dirs.uniqueDirs hd he ?_
  have hname : d.name = e.name := by
    rw [← toDbName_toAbstractName (h.texts.dirs d hd), heq,
      toDbName_toAbstractName (h.texts.dirs e he)]
  rw [hname, hdp.1, hep.1]

/-- When all directories are done, this is a copy. -/
theorem Copying.copied (h : Stored db) {parent source : Int} {name : Bytes} {db' : Db}
    (hsource : 0 ≤ source) (hcopying : Copying parent source name db (db.dirNames source) db') :
    Copied parent source name db db' := by
  refine ⟨hcopying.stored, hcopying.grows, hcopying.row, hcopying.only, .intro hcopying.holds ?_ ?_⟩
  · intro k x hx
    obtain ⟨y, hy⟩ := hcopying.forth _ ((mem_dirNames h hsource).mpr ⟨k, x, hx, rfl⟩)
    rw [h.child_name hx] at hy
    obtain ⟨-, x', hx', halike⟩ := hcopying.back k y hy
    exact ⟨y, hy, h.child_unique hx' hx ▸ halike⟩
  · intro k y hy
    obtain ⟨-, x, hx, halike⟩ := hcopying.back k y hy
    exact ⟨x, hx, halike⟩

/-! ## The walk -/

/-- What a walk copies: a directory with a path, which goes to `parent` under its name. -/
structure Ready (C : Prop) (target : List Bytes) (parent source : Int) (init : List Bytes)
    (name : Bytes) (levels : Nat) (db : Db) : Prop where
  stored : Stored db
  named : Named db.dirs (target ++ init) parent
  names : ∀ n ∈ target ++ init, IsName n
  isName : IsName name
  range : 0 ≤ source ∧ source ≤ db.lastDir
  outside : ∀ ks, ¬ Walk db.forest source ks parent
  free : ∀ y, ¬ db.forest.child parent (toDbName name) y
  clash : ∀ c, db.forest.holds parent c → c.name = toDbName name → C
  deep : ∀ ks x, Walk db.forest source ks x → levels ≤ ks.length → C
  clashes : ∀ ks x, Walk db.forest source ks x → ∀ k y c, db.forest.child x k y →
    db.forest.holds x c → c.name = k → C

namespace Ready

variable {target init : List Bytes} {parent source : Int} {name : Bytes} {levels : Nat}

theorem parent_le (h : Ready C target parent source init name levels db) :
    parent ≤ db.lastDir := by
  obtain ⟨d, hd, hid⟩ := h.stored.dirs.named_exists h.named
  exact hid ▸ (h.stored.dirs.range d hd).2

theorem named_target (h : Ready C target parent source init name levels db) {done : List Bytes}
    {db' : Db} (hcopying : Copying parent source (toDbName name) db done db') :
    Named db'.dirs (target ++ (init ++ [name])) (db.lastDir + 1) := by
  rw [← List.append_assoc]
  exact .child (d := ⟨db.lastDir + 1, parent, toDbName name⟩) hcopying.row
    (hcopying.grows.named h.named) rfl h.isName.2

/-- The next directory of the source. -/
theorem child (h : Ready C target parent source init name (levels + 1) db) {done : List Bytes}
    {db' : Db} (hcopying : Copying parent source (toDbName name) db done db') {k : Bytes} {x : Int}
    (hx : db.forest.child source k x) (hfree : ∀ n ∈ done, toDbName n ≠ k) :
    Ready C target (db.lastDir + 1) x (init ++ [name]) (toAbstractName k) levels db' := by
  have hrange := h.stored.child_range hx
  have hlast := hcopying.grows.lastDir
  have hnot : ∀ ks, ¬ Walk db.forest x ks parent :=
    fun ks hwalk => h.outside (k :: ks) (.child hx hwalk)
  have hwalk : ∀ {ks z}, Walk db'.forest x ks z → Walk db.forest source (k :: ks) z :=
    fun hwalk => .child hx (hcopying.grows.walk_of_grown h.stored hrange.2 hnot hwalk)
  have hk := h.stored.child_name hx
  refine ⟨hcopying.stored, h.named_target hcopying, fun n hn => ?_, ⟨fun hnil => ?_, ?_⟩,
    ⟨hrange.1, Int.le_trans hrange.2 hlast⟩, fun ks hks => ?_, fun y hy => ?_, fun c hc hname => ?_,
    fun ks z hz hlevels => ?_, fun ks z hz m y c hy hc hname => ?_⟩
  · rw [← List.append_assoc] at hn
    rcases List.mem_append.mp hn with hn | hn
    · exact h.names n hn
    · exact List.mem_singleton.mp hn ▸ h.isName
  · rw [hnil] at hk
    exact h.stored.dirs.named _ hx hk.symm
  · exact not_mem_toAbstractName k
  · have hle := h.stored.walk_le h.range.2 (hwalk hks)
    omega
  · rw [hk] at hy
    obtain ⟨⟨n, hn, hnk⟩, -⟩ := hcopying.back k y hy
    exact hfree n hn hnk
  · rw [hk] at hname
    exact h.clashes [] source (.here source) k x c hx ((hcopying.holds c).mpr hc) hname
  · exact h.deep (k :: ks) z (hwalk hz) (Nat.succ_le_succ hlevels)
  · have hz := hwalk hz
    have hle := h.stored.walk_le h.range.2 hz
    have hne : z ≠ parent := fun heq => h.outside (k :: ks) (heq ▸ hz)
    exact h.clashes (k :: ks) z hz m y c ((hcopying.grows.child_iff hle hne).mpr hy)
      ((hcopying.grows.holds_iff hle).mpr hc) hname

end Ready

theorem yields_copyContent {before target init : List Bytes} {parent source : Int} {name : Bytes}
    {levels : Nat} (h : Ready C target parent source init name levels db) :
    DbYields C (fun _ db' => Copying parent source (toDbName name) db [] db')
      (copyContent (join slash before ++ [slash]) (join slash target ++ [slash])
        (join slash (before ++ (init ++ [name]))) source) db := by
  obtain ⟨rest, hrest⟩ : ∃ rest, join slash (init ++ [name]) = slash :: rest := by
    cases init with
    | nil => exact ⟨_, rfl⟩
    | cons first init => exact ⟨_, rfl⟩
  have hpath : join slash (before ++ (init ++ [name])) = join slash before ++ [slash] ++ rest := by
    rw [join_append, hrest]
    simp
  have hbelow : (join slash before ++ [slash]).length <
      (join slash (before ++ (init ++ [name]))).length := by
    have hlast : (join slash (init ++ [name])).getLast? ≠ some slash :=
      getLast?_join h.isName.1 h.isName.2
    have hne : rest ≠ [] := by
      rintro rfl
      rw [hrest] at hlast
      exact hlast rfl
    have hpos := List.length_pos_iff.mpr hne
    rw [hpath]
    simp only [List.length_append]
    omega
  have hdir : join slash target ++ [slash] ++ (join slash (before ++ (init ++ [name]))).drop
      (join slash before ++ [slash]).length = join slash (target ++ init ++ [name]) := by
    rw [hpath, List.drop_left, List.append_assoc target, join_append target, hrest]
    simp
  obtain ⟨d, hd, hid⟩ := h.stored.dirs.named_exists h.named
  have hne : toDbName name ≠ [] := fun hnil => h.isName.1 (toDbName_eq_nil.mp hnil)
  obtain ⟨-, hstored⟩ := h.stored.insertDir ⟨d, hd, hid⟩ hne (bindText_toDbName name) h.free
  obtain ⟨hempty, hchildren⟩ := h.stored.withDir_fresh h.parent_le (toDbName name)
  unfold copyContent
  dsimp only
  rw [if_pos hbelow, if_pos hbelow, hdir]
  refine yields_bind.mpr (yields_addDirectory h.stored h.named h.names h.isName h.free h.clash ?_)
  have hleads : Leads (db.withDir parent (toDbName name)) (join slash (target ++ init ++ [name]))
      (db.lastDir + 1) := by
    have hnames : ∀ n ∈ target ++ init ++ [name], IsName n := by
      intro n hn
      rcases List.mem_append.mp hn with hn | hn
      · exact h.names n hn
      · exact List.mem_singleton.mp hn ▸ h.isName
    refine ⟨head?_join (by simp), ?_⟩
    rw [pathNames_join hnames]
    have hgrows : Grows parent db (db.withDir parent (toDbName name)) :=
      ⟨⟨_, rfl, fun e he => .inl (List.mem_singleton.mp he ▸ rfl)⟩,
        ⟨[], (List.append_nil _).symm, fun _ hi => nomatch hi⟩, Int.le_add_one (Int.le_refl _)⟩
    exact .child (d := ⟨db.lastDir + 1, parent, toDbName name⟩)
      (List.mem_append_right _ List.mem_cons_self) (hgrows.named h.named) rfl h.isName.2
  refine yields_bind.mpr (yields_getDirectoryId hstored hleads ?_)
  refine yields_bind.mpr (yields_require (fun hnot => ?_) fun _ => ?_)
  · have hlast := h.stored.lastDir
    omega
  refine yields_bind.mpr (yields_select.mpr ?_)
  refine (yields_copyInstruments hstored (Int.le_refl _) hempty hchildren).mono
    fun _ db' hfilled => ?_
  exact hfilled.copying h.stored h.parent_le

/-- The induction is on the levels: a directory is copied before those that are in it. -/
theorem yields_directoryTreeWalk {before target : List Bytes} {levels : Nat} {init : List Bytes}
    {parent source : Int} {name : Bytes} (h : Ready C target parent source init name levels db) :
    DbYields C (fun _ db' => Copied parent source (toDbName name) db db')
      (directoryTreeWalk (copyContent (join slash before ++ [slash]) (join slash target ++ [slash]))
        levels (join slash (before ++ (init ++ [name]))) source) db := by
  induction levels generalizing db init parent source name with
  | zero => exact h.deep [] source (.here source) (Nat.le_refl 0)
  | succ levels ih =>
      refine yields_bind.mpr ((yields_copyContent h).mono fun _ db₁ hstart => ?_)
      have hne : source ≠ parent := fun heq => h.outside [] (heq ▸ .here source)
      have hsame : db₁.dirNames source = db.dirNames source := by
        obtain ⟨new, hnew, hparents⟩ := hstart.grows.dirs
        have hnone : (new.filter fun d => d.parent = source ∧ d.id ≠ 0) = [] := by
          refine List.filter_eq_nil_iff.mpr fun d hd hp => ?_
          have hparent := hparents d hd
          have hp := (of_decide_eq_true hp).1
          have hle := h.range.2
          omega
        unfold Db.dirNames
        rw [hnew, List.filter_append, hnone, List.append_nil]
      refine yields_bind.mpr (yields_select.mpr ?_)
      rw [hsame]
      refine Yields.mono (yields_forEach
        (J := fun done db' => Copying parent source (toDbName name) db done db')
        (fun done n rest db' hnames hcopying => ?_) hstart)
        fun _ db' hcopying => hcopying.copied h.stored h.range.1
      have hn : n ∈ db.dirNames source := by
        rw [hnames]
        exact List.mem_append_right done List.mem_cons_self
      obtain ⟨k, x, hx, rfl⟩ := (mem_dirNames h.stored h.range.1).mp hn
      have hk := h.stored.child_name hx
      have hpath : (if join slash (before ++ (init ++ [name])) = [slash] then
            slash :: toAbstractName k
          else join slash (before ++ (init ++ [name])) ++ slash :: toAbstractName k) =
          join slash (before ++ (init ++ [name] ++ [toAbstractName k])) := by
        have hlast : (join slash (before ++ init ++ [name])).getLast? ≠ some slash :=
          getLast?_join h.isName.1 h.isName.2
        rw [List.append_assoc] at hlast
        rw [if_neg fun heq => hlast (congrArg List.getLast? heq),
          ← List.append_assoc before (init ++ [name]), join_concat (before ++ (init ++ [name]))]
      have hothers : ∀ m ∈ done, toDbName m ≠ k := by
        intro m hm heq
        have hnodup := nodup_dirNames h.stored source
        rw [hnames] at hnodup
        refine (List.nodup_append.mp hnodup).2.2 m hm _ List.mem_cons_self ?_
        have hmem : m ∈ db.dirNames source := hnames ▸ List.mem_append_left _ hm
        obtain ⟨l, -, -, rfl⟩ := (mem_dirNames h.stored h.range.1).mp hmem
        exact toDbName_inj (not_mem_toAbstractName l) (not_mem_toAbstractName k) (heq.trans hk.symm)
      refine yields_bind.mpr (yields_getDirId source _ ?_)
      rw [hpath, hk, hcopying.stored.findDir_eq (hcopying.grows.child hx)]
      refine (ih (h.child hcopying hx hothers)).mono fun _ db'' hcopied => ?_
      have hx' : db.forest.child source (toDbName (toAbstractName k)) x := hk.symm ▸ hx
      exact hcopying.copy h.stored h.parent_le hx'
        (fun ks hwalk => h.outside (k :: ks) (.child hx hwalk)) (h.named_target hcopying) hcopied

/-! ## The call -/

theorem yields_checkTarget (h : Stored db) {dir dst : Bytes} {dirId dstId : Int}
    (hdir : Leads db dir dirId) (hdst : Leads db dst dstId)
    (hsame : dirId = dstId → C) (hbelow : pathNames dir <+: pathNames dst → C)
    (hchild : ∀ y, db.forest.child dstId (toDbName (getFileName (withSlash dir).dropLast)) y → C)
    (hholds : ∀ c, db.forest.holds dstId c →
      c.name = toDbName (getFileName (withSlash dir).dropLast) → C)
    {Q : Int × Int → Db → Prop}
    (hQ : (∀ ks, ¬ Walk db.forest dirId ks dstId) →
      (∀ y, ¬ db.forest.child dstId (toDbName (getFileName (withSlash dir).dropLast)) y) →
      Q (dirId, dstId) db) : DbYields C Q (checkTarget dir dst) db := by
  have hdirId : dirId ≠ -1 := by
    obtain ⟨d, hd, hid⟩ := h.dirs.named_exists hdir.2
    have hrange := h.dirs.range d hd
    omega
  have hdstId : dstId ≠ -1 := by
    obtain ⟨d, hd, hid⟩ := h.dirs.named_exists hdst.2
    have hrange := h.dirs.range d hd
    omega
  refine yields_bind.mpr (yields_getDirectoryId h hdir ?_)
  refine yields_bind.mpr (yields_require (fun hnot => absurd hdirId hnot) fun _ => ?_)
  refine yields_bind.mpr (yields_getDirectoryId h hdst ?_)
  refine yields_bind.mpr (yields_require (fun hnot => absurd hdstId hnot) fun _ => ?_)
  refine yields_bind.mpr (yields_require (fun hnot => hsame (not_not.mp hnot)) fun hne => ?_)
  refine yields_bind.mpr (yields_require (fun hnot => ?_) fun hnot => ?_)
  · exact hbelow (below_of_startsWith hdir.1 (not_not.mp hnot).2)
  refine yields_bind.mpr (yields_getDirId _ _ ?_)
  refine yields_bind.mpr (yields_require (fun hsome => ?_) fun hnone => ?_)
  · obtain ⟨⟨id, parent, name⟩, hd, -, rfl, rfl⟩ := mem_of_findDir hsome
    exact hchild id hd
  refine yields_bind.mpr (yields_getInstrumentId _ _ fun r hr => ?_)
  refine yields_bind.mpr (yields_require (fun hsome => ?_) fun _ => ?_)
  · obtain ⟨c, hc, hname⟩ := hr hsome
    exact hholds c hc hname
  refine hQ (fun ks hwalk => ?_) fun y hy => h.dirs.no_dir hnone _ hy ⟨rfl, rfl⟩
  have hnames := h.dirs.named_unique hdst.2 (hdir.2.walk h.texts hwalk)
  cases ks with
  | nil => exact hne hwalk.eq_of_nil
  | cons k ks =>
      have hne := h.dirs.named_ne_nil hdst.2 (toAbstractName k) (by simp [hnames])
      exact hnot (startsWith_of_below hdir.1 hdst.1 hne hnames)

/-- Whether it returns or throws, in which case it could not make a copy. -/
theorem yields_copyDirectory (h : Stored db) {dir dst : Bytes} {dirId dstId parent : Int}
    {name : Bytes} (hdir : Leads db dir dirId) (hdst : Leads db dst dstId)
    (hrow : db.forest.child parent name dirId) :
    DbYields (¬ Copyable dstId dirId name 1000 db) (fun _ db' => Copied dstId dirId name db db')
      (copyDirectory dir dst) db := by
  by_cases hroot : dir = [slash]
  · refine yields_bind.mpr (yields_require (fun _ hcopy => ?_) fun hnot => absurd hroot hnot.1)
    have hzero : Named db.dirs (pathNames [slash]) dirId := hroot ▸ hdir.2
    have hid : 0 = dirId := h.dirs.named_functional .root hzero
    have hdst' : Named db.dirs ([] ++ pathNames dst) dstId := hdst.2
    obtain ⟨x, hx, hwalk⟩ := hdst'.walk_of_append
    obtain rfl : (0 : Int) = x := h.dirs.named_functional .root hx
    exact hcopy.outside _ (hid ▸ hwalk)
  obtain ⟨init, n, hnames, hne, hslash, hn⟩ :=
    h.dirs.named_last hdir.2 (pathNames_ne_nil hdir.1 hroot)
  have hname : name = toDbName n := hn _ hrow rfl
  have hinit : ∀ m ∈ init, IsName m :=
    fun m hm => h.isName hdir.2 m (by rw [hnames]; exact List.mem_append_left _ hm)
  have hn : IsName n := ⟨hne, hslash⟩
  have hparent : getParentDirectory dir = parentPath init := by
    rcases eq_join hdir.1 with ⟨heq, -⟩ | heq
    · rw [heq, hnames, getParentDirectory_join hn]
    · rw [heq, hnames, getParentDirectory_join_slash hn]
  have hpath : (withSlash dir).dropLast = join slash (init ++ [n]) := by
    rw [withSlash_eq hdir.1, List.dropLast_concat, hnames]
  have hfile : toDbName (getFileName (withSlash dir).dropLast) = name := by
    rw [hpath, getFileName_join hne hslash, hname]
  have hleads : Leads db (withSlash dir).dropLast dirId := by
    refine ⟨hpath ▸ head?_join (by simp), ?_⟩
    rw [hpath, ← hnames, pathNames_join (h.isName hdir.2)]
    exact hdir.2
  have hparentNe : parentPath init ≠ [] := by
    intro hnil
    have hhead := head?_parentPath init
    rw [hnil] at hhead
    exact nomatch hhead
  refine yields_bind.mpr (yields_require (fun hnot => absurd ⟨hroot, hparent ▸ hparentNe⟩ hnot)
    fun _ => ?_)
  refine yields_transaction (yields_bind.mpr ?_)
  have hstored := h.withTransaction true
  refine yields_checkTarget hstored hdir hdst (fun hsame hcopy => ?_) (fun hbelow hcopy => ?_)
    (fun y hy hcopy => ?_) (fun c hc hcname hcopy => ?_) fun houtside hfree => ?_
  · exact hcopy.outside [] (hsame ▸ .here dirId)
  · obtain ⟨rest, hrest⟩ := hbelow
    have hdst' := hdst.2
    rw [← hrest] at hdst'
    obtain ⟨x, hx, hwalk⟩ := hdst'.walk_of_append
    obtain rfl := h.dirs.named_functional hdir.2 hx
    exact hcopy.outside _ hwalk
  · exact hcopy.freeDir y (hfile ▸ hy)
  · exact hcopy.freeInstrument c hc (hcname.trans hfile)
  refine yields_bind.mpr (yields_getDirectoryId hstored hleads ?_)
  refine yields_bind.mpr (yields_require (fun hnot => ?_) fun _ => ?_)
  · have hrange := h.child_range hrow
    omega
  rw [hparent, withSlash_parentPath hinit, withSlash_eq hdst.1, hpath]
  have hready : Ready (¬ Copyable dstId dirId name 1000 db) (pathNames dst) dstId dirId [] n 1000
      { db with inTransaction := true } := by
    refine ⟨hstored, (List.append_nil _).symm ▸ hdst.2,
      (List.append_nil _).symm ▸ h.isName hdst.2, hn, h.child_range hrow, houtside,
        (hfile.trans hname) ▸ hfree, fun c hc hcname hcopy => ?_,
      fun ks x hwalk hle hcopy => ?_, fun ks x hwalk k y c hy hc hcname hcopy => ?_⟩
    · exact hcopy.freeInstrument c hc (hcname.trans hname.symm)
    · exact absurd (hcopy.levels ks x hwalk) (Nat.not_lt.mpr hle)
    · exact hcopy.names ks x hwalk k y c hy hc hcname
  refine (yields_directoryTreeWalk hready).mono fun _ db' hcopied => ?_
  rw [← hname] at hcopied
  exact ⟨hcopied.stored.withTransaction false,
    ⟨hcopied.grows.dirs, hcopied.grows.instruments, hcopied.grows.lastDir⟩, hcopied.row,
    hcopied.only, hcopied.alike⟩

/-- If `CopyDirectory()` returns, it has made a copy; and it returns if a copy can be made. -/
theorem copyDirectory_copies (h : Stored db) {dir dst : Bytes} {dirId dstId parent : Int}
    {name : Bytes} (hdir : Leads db dir dirId) (hdst : Leads db dst dstId)
    (hrow : db.forest.child parent name dirId) :
    (∀ db', (copyDirectory dir dst).run Stmt.exec db = (some (), db') →
      Copied dstId dirId name db db') ∧
      (Copyable dstId dirId name 1000 db →
        ∃ db', (copyDirectory dir dst).run Stmt.exec db = (some (), db')) := by
  have hyields := yields_copyDirectory h hdir hdst hrow
  refine ⟨fun db' hrun => hyields.of_run hrun, fun hcopy => ?_⟩
  obtain ⟨⟨⟩, db', hrun⟩ := hyields.returns (not_not.mpr hcopy)
  exact ⟨db', hrun⟩

/-- `/a`, which has a directory `b/` with an instrument `x`, and `/c`. -/
def library : Db where
  dirs := [⟨0, -2, [slash]⟩, ⟨1, 0, [97]⟩, ⟨2, 1, [98, slash]⟩, ⟨3, 0, [99]⟩]
  instruments := [⟨1, 2, [120], [slash, 121], 0, ⟨[71], [51], 9, [], true, [], [], []⟩⟩]
  lastDir := 3
  lastInstrument := 1

theorem library_stored : Stored library := by
  have h₁ : Inv { dirs := library.dirs.take 2, lastDir := 1 } :=
    Inv.initial.insertDir ⟨_, List.mem_cons_self, rfl⟩ (List.cons_ne_nil _ _)
      (fun _ hi => nomatch hi) rfl
  have h₂ : Inv { dirs := library.dirs.take 3, lastDir := 2 } :=
    h₁.insertDir ⟨_, List.mem_cons_of_mem _ List.mem_cons_self, rfl⟩ (List.cons_ne_nil _ _)
      (fun _ hi => nomatch hi) rfl
  have h₃ : Inv { dirs := library.dirs, lastDir := 3 } :=
    h₂.insertDir ⟨_, List.mem_cons_self, rfl⟩ (List.cons_ne_nil 99 []) (fun _ hi => nomatch hi) rfl
  have h₄ : Inv library :=
    h₃.insertInstrument ⟨⟨2, 1, [98, slash]⟩, by decide, rfl⟩ (by decide) rfl
  exact h₄.stored ⟨by decide, by decide⟩

/-- A copy of `/a/` to `/c`. -/
theorem copyDirectory_copies_library :
    Copied 3 1 [97] library
      ((copyDirectory [slash, 97, slash] [slash, 99]).run Stmt.exec library).2 := by
  have hdir : Named library.dirs ([] ++ [[97]]) 1 :=
    .child (d := ⟨1, 0, [97]⟩) (by decide) .root rfl (by decide)
  have hdst : Named library.dirs ([] ++ [[99]]) 3 :=
    .child (d := ⟨3, 0, [99]⟩) (by decide) .root rfl (by decide)
  have hleads : Leads library [slash, 97, slash] 1 := ⟨rfl, hdir⟩
  have hleads' : Leads library [slash, 99] 3 := ⟨rfl, hdst⟩
  have hrow : library.forest.child 0 [97] 1 := List.mem_cons_of_mem _ List.mem_cons_self
  exact (copyDirectory_copies library_stored hleads hleads' hrow).1 _ rfl

end InstrumentsDb

end LinuxSampler
