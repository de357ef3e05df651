import LinuxSampler.InstrumentsDbCalls
import LinuxSampler.LabelledTree

/-!
# Copies in the tables

The tables as a tree whose directories hold instruments, and what a copy of
a directory is (`Copied`). Rows are only added: what was there before has
the children and the instruments that it had (`Grows.alike`), but for the
directory that gets the copy.
-/

namespace LinuxSampler

namespace InstrumentsDb

open Bytes LabelledTree

/-- What a copy of an instrument takes over. -/
structure Content where
  name : Bytes
  file : Bytes
  nr : Int
  columns : Columns
  deriving DecidableEq

def InstrumentRow.content (i : InstrumentRow) : Content := ⟨i.name, i.file, i.nr, i.columns⟩

/-- Children have the names that are in the table. -/
def Db.forest (db : Db) : Forest Int Bytes Content where
  child dirId name id := ⟨id, dirId, name⟩ ∈ db.dirs
  holds dirId c := ∃ i ∈ db.instruments, i.dir = dirId ∧ i.content = c

/-! ## What the tables hold -/

/-- Texts are stored up to their first NUL byte. -/
structure Texts (db : Db) : Prop where
  dirs : ∀ d ∈ db.dirs, bindText d.name = d.name
  instruments : ∀ i ∈ db.instruments,
    bindText i.name = i.name ∧ bindText i.file = i.file ∧ i.columns.bind = i.columns

theorem toDbName_toAbstractName {name : Bytes} (h : bindText name = name) :
    toDbName (toAbstractName name) = name := by
  unfold toDbName toAbstractName
  rw [List.map_map]
  refine (List.map_congr_left fun c hc => ?_).trans (List.map_id name)
  have hnul : c ≠ nul := of_decide_eq_true (List.takeWhile_eq_self_iff.mp h c hc)
  show (if (if c = slash then nul else c) = nul then slash else if c = slash then nul else c) = c
  by_cases hc : c = slash
  · rw [if_pos hc, if_pos rfl, hc]
  · rw [if_neg hc, if_neg hnul]

theorem not_mem_toAbstractName (name : Bytes) : slash ∉ toAbstractName name := by
  intro hmem
  obtain ⟨c, -, hc⟩ := List.mem_map.mp hmem
  by_cases hslash : c = slash
  · rw [if_pos hslash] at hc
    exact absurd hc (by decide)
  · rw [if_neg hslash] at hc
    exact hslash hc

theorem Named.walk {db : Db} (htexts : Texts db) {names ks : List Bytes} {x z : Int}
    (hx : Named db.dirs names x) (hwalk : Walk db.forest x ks z) :
    Named db.dirs (names ++ ks.map toAbstractName) z := by
  induction hwalk generalizing names with
  | here x =>
      rw [List.map_nil, List.append_nil]
      exact hx
  | @child x y z k ks hchild _ ih =>
      have hy : Named db.dirs (names ++ [toAbstractName k]) y :=
        .child (d := ⟨y, x, k⟩) hchild hx (toDbName_toAbstractName (htexts.dirs _ hchild)).symm
          (not_mem_toAbstractName k)
      have hall := ih hy
      rw [List.append_assoc, List.singleton_append] at hall
      exact hall

/-- The way to a directory, by the names in the table. -/
theorem Named.walk_of_append {db : Db} {names names' : List Bytes} {z : Int}
    (hz : Named db.dirs (names ++ names') z) :
    ∃ x, Named db.dirs names x ∧ Walk db.forest x (names'.map toDbName) z := by
  generalize hall : names ++ names' = all at hz
  induction hz generalizing names' with
  | root =>
      obtain ⟨rfl, rfl⟩ := List.append_eq_nil_iff.mp hall
      exact ⟨0, .root, .here 0⟩
  | @child d before name hd hparent hname hslash ih =>
      rcases List.eq_nil_or_concat names' with rfl | ⟨init, last, rfl⟩
      · rw [List.append_nil] at hall
        exact ⟨d.id, hall ▸ .child hd hparent hname hslash, .here d.id⟩
      · rw [List.concat_eq_append, ← List.append_assoc] at hall
        obtain ⟨rfl, hlast⟩ := List.append_inj' hall rfl
        obtain rfl := (List.cons.inj hlast).1
        obtain ⟨x, hx, hwalk⟩ := ih rfl
        refine ⟨x, hx, ?_⟩
        rw [List.concat_eq_append, List.map_append]
        exact hwalk.append (.single (hname ▸ hd))

/-- The directories are a tree, whatever a scan has stored in them: an instrument may have the name
of a directory. -/
structure Stored (db : Db) : Prop where
  dirs : Inv { db with instruments := [], lastInstrument := 0 }
  uniqueInstruments : UniqueInstruments db.instruments
  instrumentIds : (db.instruments.map InstrumentRow.id).Nodup
  instrumentRange : ∀ i ∈ db.instruments, 0 ≤ i.id ∧ i.id ≤ db.lastInstrument
  lastInstrument : 0 ≤ db.lastInstrument
  placed : ∀ i ∈ db.instruments, i.dir ≤ db.lastDir
  texts : Texts db

theorem Inv.stored {db : Db} (h : Inv db) (htexts : Texts db) : Stored db where
  dirs :=
    ⟨h.ids, h.reaches, (fun _ hi => nomatch hi), h.uniqueDirs, List.nodup_nil,
      (fun _ _ _ hi => nomatch hi), h.root, h.parentRoot, h.range, h.named, List.nodup_nil,
      (fun _ hi => nomatch hi), Int.le_refl _⟩
  uniqueInstruments := h.uniqueInstruments
  instrumentIds := h.instrumentIds
  instrumentRange := h.instrumentRange
  lastInstrument := h.lastInstrument
  placed := by
    intro i hi
    obtain ⟨d, hd, hid⟩ := h.placed i hi
    rw [← hid]
    exact (h.range d hd).2
  texts := htexts

namespace Stored

variable {db : Db}

theorem withTransaction (h : Stored db) (b : Bool) : Stored { db with inTransaction := b } :=
  ⟨h.dirs.withTransaction b, h.uniqueInstruments, h.instrumentIds, h.instrumentRange,
    h.lastInstrument, h.placed, h.texts.dirs, h.texts.instruments⟩

theorem child_range (h : Stored db) {x y : Int} {k : Bytes} (hy : db.forest.child x k y) :
    0 ≤ y ∧ y ≤ db.lastDir := h.dirs.range _ hy

theorem lastDir (h : Stored db) : 0 ≤ db.lastDir := by
  obtain ⟨d, hd, hid⟩ := h.dirs.root
  have hrange := h.dirs.range d hd
  have hrange : 0 ≤ d.id ∧ d.id ≤ db.lastDir := hrange
  omega

theorem parent_le (h : Stored db) {x y : Int} {k : Bytes} (hy : db.forest.child x k y) :
    x ≤ db.lastDir := by
  have hlast := h.lastDir
  by_cases hroot : y = 0
  · have hparent : x = -2 := h.dirs.parentRoot _ hy hroot
    omega
  · have hreaches : Reaches db.dirs x := h.dirs.reaches_parent hy hroot
    cases hreaches with
    | root => exact hlast
    | child hd _ => exact (h.dirs.range _ hd).2

theorem walk_le (h : Stored db) {x z : Int} {ks : List Bytes} (hx : x ≤ db.lastDir)
    (hwalk : Walk db.forest x ks z) : z ≤ db.lastDir := by
  induction hwalk with
  | here x => exact hx
  | child hchild _ ih => exact ih (h.child_range hchild).2

theorem child_unique (h : Stored db) {x y y' : Int} {k : Bytes} (hy : db.forest.child x k y)
    (hy' : db.forest.child x k y') : y = y' := by
  have hrow := List.inj_on_of_nodup_map h.dirs.uniqueDirs hy hy' rfl
  exact congrArg DirRow.id hrow

theorem findDir_eq (h : Stored db) {x y : Int} {k : Bytes} (hy : db.forest.child x k y) :
    db.findDir x k = y := by
  have hne : db.findDir x k ≠ -1 := fun hnone => h.dirs.no_dir hnone _ hy ⟨rfl, rfl⟩
  obtain ⟨⟨id, parent, name⟩, hd, hid, rfl, rfl⟩ := mem_of_findDir hne
  rw [← hid]
  exact h.child_unique hd hy

theorem findDir_eq_none {x : Int} {k : Bytes} (hfree : ∀ y, ¬ db.forest.child x k y) :
    db.findDir x k = -1 := by
  by_contra hne
  obtain ⟨⟨id, parent, name⟩, hd, -, rfl, rfl⟩ := mem_of_findDir hne
  exact hfree id hd

theorem child_name (h : Stored db) {x y : Int} {k : Bytes} (hy : db.forest.child x k y) :
    toDbName (toAbstractName k) = k := toDbName_toAbstractName (h.texts.dirs _ hy)

/-- Nobody gets back to a directory from its children. -/
theorem not_below_child (h : Stored db) {names : List Bytes} {x y : Int} {k : Bytes}
    (hx : Named db.dirs names x) (hy : db.forest.child x k y) (ks : List Bytes) :
    ¬ Walk db.forest y ks x := by
  intro hwalk
  have hall := hx.walk h.texts (.child hy hwalk)
  have heq : names = names ++ (k :: ks).map toAbstractName := h.dirs.named_unique hx hall
  exact List.cons_ne_nil _ _ (List.map_eq_nil_iff.mp (List.self_eq_append_right.mp heq))

end Stored

/-! ## Rows that are added -/

/-- The new rows are in `parent` or in new directories. -/
structure Grows (parent : Int) (db db' : Db) : Prop where
  dirs : ∃ new, db'.dirs = db.dirs ++ new ∧ ∀ d ∈ new, d.parent = parent ∨ db.lastDir < d.parent
  instruments : ∃ new, db'.instruments = db.instruments ++ new ∧ ∀ i ∈ new, db.lastDir < i.dir
  lastDir : db.lastDir ≤ db'.lastDir

namespace Grows

variable {db db' db'' : Db} {p q x : Int}

/-- What is put into a directory that is new is new. -/
theorem trans (h : Grows p db db') (h' : Grows q db' db'') (hq : db.lastDir < q) :
    Grows p db db'' := by
  have hle := h.lastDir
  constructor
  · obtain ⟨new, hnew, hparents⟩ := h.dirs
    obtain ⟨new', hnew', hparents'⟩ := h'.dirs
    refine ⟨new ++ new', by rw [hnew', hnew, List.append_assoc], fun d hd => ?_⟩
    rcases List.mem_append.mp hd with hd | hd
    · exact hparents d hd
    · rcases hparents' d hd with heq | hlt
      · exact .inr (heq ▸ hq)
      · exact .inr (by omega)
  · obtain ⟨new, hnew, hdirs⟩ := h.instruments
    obtain ⟨new', hnew', hdirs'⟩ := h'.instruments
    refine ⟨new ++ new', by rw [hnew', hnew, List.append_assoc], fun i hi => ?_⟩
    rcases List.mem_append.mp hi with hi | hi
    · exact hdirs i hi
    · have hlt := hdirs' i hi
      omega
  · exact Int.le_trans hle h'.lastDir

theorem child (h : Grows p db db') {k : Bytes} {y : Int} (hy : db.forest.child x k y) :
    db'.forest.child x k y := by
  obtain ⟨new, hnew, -⟩ := h.dirs
  show _ ∈ db'.dirs
  rw [hnew]
  exact List.mem_append_left new hy

theorem child_iff (h : Grows p db db') (hx : x ≤ db.lastDir) (hne : x ≠ p) {k : Bytes} {y : Int} :
    db.forest.child x k y ↔ db'.forest.child x k y := by
  refine ⟨h.child, fun hy => ?_⟩
  obtain ⟨new, hnew, hparents⟩ := h.dirs
  have hy : _ ∈ db'.dirs := hy
  rw [hnew] at hy
  rcases List.mem_append.mp hy with hy | hy
  · exact hy
  · rcases hparents _ hy with heq | hlt
    · exact absurd heq hne
    · exact absurd hx (by simpa using hlt)

theorem holds_iff (h : Grows p db db') (hx : x ≤ db.lastDir) {c : Content} :
    db.forest.holds x c ↔ db'.forest.holds x c := by
  obtain ⟨new, hnew, hdirs⟩ := h.instruments
  constructor
  · rintro ⟨i, hi, hc⟩
    exact ⟨i, hnew ▸ List.mem_append_left new hi, hc⟩
  · rintro ⟨i, hi, hdir, hc⟩
    rw [hnew] at hi
    rcases List.mem_append.mp hi with hi | hi
    · exact ⟨i, hi, hdir, hc⟩
    · have hlt := hdirs i hi
      omega

/-- Directories that are not above `p` stay as they are. -/
theorem alike (h : Grows p db db') (hdb : Stored db) (hx : x ≤ db.lastDir)
    (hnot : ∀ ks, ¬ Walk db.forest x ks p) : Alike db.forest x db'.forest x := by
  refine alike_of_frame (S := fun z => ∃ ks, Walk db.forest x ks z) ?_ ?_ ?_ ⟨[], .here x⟩
  · rintro y k z ⟨ks, hwalk⟩ hz
    exact ⟨ks ++ [k], hwalk.append (.single hz)⟩
  · rintro y k z ⟨ks, hwalk⟩
    exact h.child_iff (hdb.walk_le hx hwalk) fun heq => hnot ks (heq ▸ hwalk)
  · rintro y c ⟨ks, hwalk⟩
    exact h.holds_iff (hdb.walk_le hx hwalk)

theorem walk_of_grown (h : Grows p db db') (hdb : Stored db) (hx : x ≤ db.lastDir)
    (hnot : ∀ ks, ¬ Walk db.forest x ks p) {ks : List Bytes} {z : Int}
    (hwalk : Walk db'.forest x ks z) : Walk db.forest x ks z := by
  refine (Walk.mono (S := fun z => ∃ ks, Walk db.forest x ks z) ?_ ⟨[], .here x⟩ hwalk).1
  rintro y k z ⟨ks, hwalk⟩ hz
  have hz := (h.child_iff (hdb.walk_le hx hwalk) fun heq => hnot ks (heq ▸ hwalk)).mpr hz
  exact ⟨hz, ks ++ [k], hwalk.append (.single hz)⟩

theorem named (h : Grows p db db') {names : List Bytes} (hx : Named db.dirs names x) :
    Named db'.dirs names x := by
  obtain ⟨new, hnew, -⟩ := h.dirs
  rw [hnew]
  induction hx with
  | root => exact .root
  | child hd _ hname hslash ih => exact .child (List.mem_append_left new hd) ih hname hslash

end Grows

/-! ## Copies -/

/-- The only directory that is new in `parent` is a copy of `source`. -/
structure Copied (parent source : Int) (name : Bytes) (db db' : Db) : Prop where
  stored : Stored db'
  grows : Grows parent db db'
  row : db'.forest.child parent name (db.lastDir + 1)
  only : ∀ k y, db'.forest.child parent k y →
    db.forest.child parent k y ∨ k = name ∧ y = db.lastDir + 1
  alike : Alike db.forest source db'.forest (db.lastDir + 1)

/-- What a copy needs: not to be made within its source, a name that is free, not too many levels,
and no instrument in the source with the name of a directory. -/
structure Copyable (parent source : Int) (name : Bytes) (levels : Nat) (db : Db) : Prop where
  outside : ∀ ks, ¬ Walk db.forest source ks parent
  freeDir : ∀ y, ¬ db.forest.child parent name y
  freeInstrument : ∀ c, db.forest.holds parent c → c.name ≠ name
  levels : ∀ ks x, Walk db.forest source ks x → ks.length < levels
  names : ∀ ks x, Walk db.forest source ks x → ∀ k y c, db.forest.child x k y →
    db.forest.holds x c → c.name ≠ k

end InstrumentsDb

end LinuxSampler
