import LinuxSampler.InstrumentsDb
import Mathlib.Data.List.TakeWhile

/-!
# Statements on the directory tree

What the statements of the instruments database need to keep the
directories a tree with unique names: `Inv` is an invariant that implies
`Tree`, and there is a lemma for each kind of statement with the conditions
that the calls have to check. The `UNIQUE` constraints see to unique names
within one table.
-/

namespace LinuxSampler

namespace InstrumentsDb

open Bytes

/-- The invariant of the database. -/
structure Inv (db : Db) : Prop where
  ids : (db.dirs.map DirRow.id).Nodup
  reaches : ∀ d ∈ db.dirs, Reaches db.dirs d.id
  placed : ∀ i ∈ db.instruments, ∃ d ∈ db.dirs, d.id = i.dir
  uniqueDirs : UniqueDirs db.dirs
  uniqueInstruments : UniqueInstruments db.instruments
  cross : ∀ d ∈ db.dirs, ∀ i ∈ db.instruments, d.parent = i.dir → d.name ≠ i.name
  root : ∃ d ∈ db.dirs, d.id = 0
  parentRoot : ∀ d ∈ db.dirs, d.id = 0 → d.parent = -2
  range : ∀ d ∈ db.dirs, 0 ≤ d.id ∧ d.id ≤ db.lastDir
  named : ∀ d ∈ db.dirs, d.name ≠ []
  instrumentIds : (db.instruments.map InstrumentRow.id).Nodup
  instrumentRange : ∀ i ∈ db.instruments, 0 ≤ i.id ∧ i.id ≤ db.lastInstrument
  lastInstrument : 0 ≤ db.lastInstrument

theorem Inv.initial : Inv {} where
  ids := List.nodup_singleton _
  reaches := by
    intro d hd
    rw [List.mem_singleton.mp hd]
    exact .root
  placed := fun i hi => nomatch hi
  uniqueDirs := List.nodup_singleton _
  uniqueInstruments := List.nodup_nil
  cross := fun _ _ i hi => nomatch hi
  root := ⟨_, List.mem_cons_self, rfl⟩
  parentRoot := by
    intro d hd _
    rw [List.mem_singleton.mp hd]
  range := by
    intro d hd
    rw [List.mem_singleton.mp hd]
    exact ⟨Int.le_refl _, Int.le_refl _⟩
  named := by
    intro d hd
    rw [List.mem_singleton.mp hd]
    exact List.cons_ne_nil _ _
  instrumentIds := List.nodup_nil
  instrumentRange := fun i hi => nomatch hi
  lastInstrument := Int.le_refl _

theorem Inv.withTransaction {db : Db} (h : Inv db) (b : Bool) : Inv { db with inTransaction := b } :=
  ⟨h.ids, h.reaches, h.placed, h.uniqueDirs, h.uniqueInstruments, h.cross, h.root, h.parentRoot,
    h.range, h.named, h.instrumentIds, h.instrumentRange, h.lastInstrument⟩

/-- Names are unique if they are so in each table and across the tables. -/
theorem Inv.tree {db : Db} (h : Inv db) : Tree db where
  ids := h.ids
  reaches := h.reaches
  placed := h.placed
  names := by
    intro dirId
    have hdirs := h.uniqueDirs
    have hinstruments := h.uniqueInstruments
    refine List.nodup_append.mpr ⟨?_, ?_, ?_⟩
    · refine List.Nodup.map_on (fun d hd e he heq => ?_) ((List.Nodup.of_map _ hdirs).filter _)
      obtain ⟨hd, hdp⟩ := List.mem_filter.mp hd
      obtain ⟨he, hep⟩ := List.mem_filter.mp he
      refine List.inj_on_of_nodup_map hdirs hd he ?_
      rw [of_decide_eq_true hdp, of_decide_eq_true hep, heq]
    · refine List.Nodup.map_on (fun i hi j hj heq => ?_)
        ((List.Nodup.of_map _ hinstruments).filter _)
      obtain ⟨hi, hid⟩ := List.mem_filter.mp hi
      obtain ⟨hj, hjd⟩ := List.mem_filter.mp hj
      refine List.inj_on_of_nodup_map hinstruments hi hj ?_
      rw [of_decide_eq_true hid, of_decide_eq_true hjd, heq]
    · intro x hx y hy
      obtain ⟨d, hd, rfl⟩ := List.mem_map.mp hx
      obtain ⟨i, hi, rfl⟩ := List.mem_map.mp hy
      obtain ⟨hd, hdp⟩ := List.mem_filter.mp hd
      obtain ⟨hi, hid⟩ := List.mem_filter.mp hi
      exact h.cross d hd i hi ((of_decide_eq_true hdp).trans (of_decide_eq_true hid).symm)

theorem Inv.eq_of_id {db : Db} (h : Inv db) {d e : DirRow} (hd : d ∈ db.dirs) (he : e ∈ db.dirs)
    (heq : d.id = e.id) : d = e :=
  List.inj_on_of_nodup_map h.ids hd he heq

/-- What reaches the root is a directory. -/
theorem Inv.nonneg {db : Db} (h : Inv db) {id : Int} (hid : Reaches db.dirs id) : 0 ≤ id := by
  cases hid with
  | root => exact Int.le_refl _
  | child hd _ => exact (h.range _ hd).1

theorem Inv.reaches_parent {db : Db} (h : Inv db) {d : DirRow} (hd : d ∈ db.dirs) (hne : d.id ≠ 0) :
    Reaches db.dirs d.parent := by
  have hreach := h.reaches d hd
  generalize hid : d.id = id at hreach
  cases hreach with
  | root => exact absurd hid hne
  | child he hparent =>
      rw [h.eq_of_id hd he hid]
      exact hparent

theorem Inv.parent_ne {db : Db} (h : Inv db) {d : DirRow} (hd : d ∈ db.dirs) : d.parent ≠ -1 := by
  by_cases hroot : d.id = 0
  · rw [h.parentRoot d hd hroot]
    decide
  · have hpos := h.nonneg (h.reaches_parent hd hroot)
    omega

theorem Reaches.mono {dirs dirs' : List DirRow} (h : ∀ d ∈ dirs, d ∈ dirs') {id : Int}
    (hid : Reaches dirs id) : Reaches dirs' id := by
  induction hid with
  | root => exact .root
  | child hd _ ih => exact .child (h _ hd) ih

theorem withDirs_eq {db db' : Db} {dirs : List DirRow} (h : db.withDirs dirs = some db') :
    UniqueDirs dirs ∧ db' = { db with dirs := dirs } := by
  unfold Db.withDirs at h
  by_cases hunique : UniqueDirs dirs
  · rw [if_pos hunique] at h
    exact ⟨hunique, (Option.some.inj h).symm⟩
  · rw [if_neg hunique] at h
    exact (Option.some_ne_none _ h.symm).elim

theorem withInstruments_eq {db db' : Db} {instruments : List InstrumentRow}
    (h : db.withInstruments instruments = some db') :
    UniqueInstruments instruments ∧ db' = { db with instruments := instruments } := by
  unfold Db.withInstruments at h
  by_cases hunique : UniqueInstruments instruments
  · rw [if_pos hunique] at h
    exact ⟨hunique, (Option.some.inj h).symm⟩
  · rw [if_neg hunique] at h
    exact (Option.some_ne_none _ h.symm).elim

/-! ## Directories -/

theorem Inv.insertDir {db db' : Db} (h : Inv db) {parent : Int} {name : Bytes}
    (hparent : ∃ p ∈ db.dirs, p.id = parent) (hname : name ≠ [])
    (hfree : ∀ i ∈ db.instruments, ¬(i.dir = parent ∧ i.name = name))
    (hdb : db.insertDir parent name = some db') : Inv db' := by
  obtain ⟨hunique, rfl⟩ := withDirs_eq hdb
  obtain ⟨p, hp, rfl⟩ := hparent
  let row : DirRow := ⟨db.lastDir + 1, p.id, name⟩
  have hmem : ∀ d ∈ db.dirs, d ∈ db.dirs ++ [row] := fun d hd => List.mem_append_left _ hd
  have hcases : ∀ d ∈ db.dirs ++ [row], d ∈ db.dirs ∨ d = row := by
    intro d hd
    rcases List.mem_append.mp hd with hd | hd
    · exact .inl hd
    · exact .inr (List.mem_singleton.mp hd)
  have hlast : 0 ≤ db.lastDir := by
    obtain ⟨d, hd, hid⟩ := h.root
    have hrange := h.range d hd
    omega
  exact {
    ids := by
      rw [List.map_append]
      refine List.nodup_append.mpr ⟨h.ids, List.nodup_singleton _, fun x hx y hy => ?_⟩
      obtain ⟨d, hd, rfl⟩ := List.mem_map.mp hx
      have hy : y = db.lastDir + 1 := List.mem_singleton.mp hy
      have hrange := h.range d hd
      omega
    reaches := by
      intro d hd
      rcases hcases d hd with hd | rfl
      · exact (h.reaches d hd).mono hmem
      · refine .child (List.mem_append_right _ List.mem_cons_self) ?_
        exact (h.reaches p hp).mono hmem
    placed := by
      intro i hi
      obtain ⟨d, hd, hid⟩ := h.placed i hi
      exact ⟨d, hmem d hd, hid⟩
    uniqueDirs := hunique
    uniqueInstruments := h.uniqueInstruments
    cross := by
      intro d hd i hi heq
      rcases hcases d hd with hd | rfl
      · exact h.cross d hd i hi heq
      · exact fun hn => hfree i hi ⟨heq.symm, hn.symm⟩
    root := by
      obtain ⟨d, hd, hid⟩ := h.root
      exact ⟨d, hmem d hd, hid⟩
    parentRoot := by
      intro d hd hid
      rcases hcases d hd with hd | rfl
      · exact h.parentRoot d hd hid
      · have hid : db.lastDir + 1 = 0 := hid
        omega
    range := by
      intro d hd
      show 0 ≤ d.id ∧ d.id ≤ db.lastDir + 1
      rcases hcases d hd with hd | rfl
      · have hrange := h.range d hd
        omega
      · show 0 ≤ db.lastDir + 1 ∧ db.lastDir + 1 ≤ db.lastDir + 1
        omega
    named := by
      intro d hd
      rcases hcases d hd with hd | rfl
      · exact h.named d hd
      · exact hname
    instrumentIds := h.instrumentIds
    instrumentRange := h.instrumentRange
    lastInstrument := h.lastInstrument }

/-- Empty directories can be removed. -/
theorem Inv.filterDirs {db db' : Db} (h : Inv db) {keep : DirRow → Bool}
    (hempty : ∀ d ∈ db.dirs, keep d = false → d.id ≠ 0 ∧ (∀ e ∈ db.dirs, e.parent ≠ d.id) ∧
      ∀ i ∈ db.instruments, i.dir ≠ d.id)
    (hdb : db.withDirs (db.dirs.filter keep) = some db') : Inv db' := by
  obtain ⟨hunique, rfl⟩ := withDirs_eq hdb
  have hmem : ∀ d, d ∈ db.dirs.filter keep ↔ d ∈ db.dirs ∧ keep d = true :=
    fun d => List.mem_filter
  have hkept : ∀ d ∈ db.dirs, keep d ≠ false → d ∈ db.dirs.filter keep :=
    fun d hd hk => (hmem d).mpr ⟨hd, by simpa using hk⟩
  have hreaches : ∀ {id : Int}, Reaches db.dirs id → (∀ d ∈ db.dirs, d.id = id → keep d ≠ false) →
      Reaches (db.dirs.filter keep) id := by
    intro id hid
    induction hid with
    | root => exact fun _ => .root
    | child hd _ ih =>
        intro hk
        refine .child (hkept _ hd (hk _ hd rfl)) (ih fun p hp hpid hnot => ?_)
        exact (hempty p hp hnot).2.1 _ hd hpid.symm
  exact {
    ids := h.ids.sublist (List.filter_sublist.map _)
    reaches := by
      intro d hd
      obtain ⟨hd, hk⟩ := (hmem d).mp hd
      refine hreaches (h.reaches d hd) fun e he heq => ?_
      rw [h.eq_of_id he hd heq, hk]
      exact Bool.noConfusion
    placed := by
      intro i hi
      obtain ⟨d, hd, hid⟩ := h.placed i hi
      exact ⟨d, hkept d hd fun hnot => (hempty d hd hnot).2.2 i hi hid.symm, hid⟩
    uniqueDirs := hunique
    uniqueInstruments := h.uniqueInstruments
    cross := fun d hd => h.cross d ((hmem d).mp hd).1
    root := by
      obtain ⟨d, hd, hid⟩ := h.root
      exact ⟨d, hkept d hd fun hnot => (hempty d hd hnot).1 hid, hid⟩
    parentRoot := fun d hd => h.parentRoot d ((hmem d).mp hd).1
    range := fun d hd => h.range d ((hmem d).mp hd).1
    named := fun d hd => h.named d ((hmem d).mp hd).1
    instrumentIds := h.instrumentIds
    instrumentRange := h.instrumentRange
    lastInstrument := h.lastInstrument }

/-- A change of rows that keeps their numbers. -/
theorem Inv.mapDirs {db db' : Db} (h : Inv db) {f : DirRow → DirRow} (hid : ∀ d, (f d).id = d.id)
    (hreaches : ∀ d ∈ db.dirs, Reaches (db.dirs.map f) (f d).parent ∨ d.id = 0)
    (hcross : ∀ d ∈ db.dirs, ∀ i ∈ db.instruments, (f d).parent = i.dir → (f d).name ≠ i.name)
    (hroot : ∀ d ∈ db.dirs, d.id = 0 → (f d).parent = -2)
    (hnamed : ∀ d ∈ db.dirs, (f d).name ≠ []) (hdb : db.withDirs (db.dirs.map f) = some db') :
    Inv db' := by
  obtain ⟨hunique, rfl⟩ := withDirs_eq hdb
  exact {
    ids := by
      show ((db.dirs.map f).map DirRow.id).Nodup
      rw [List.map_map]
      have hcomp : DirRow.id ∘ f = DirRow.id := funext hid
      rw [hcomp]
      exact h.ids
    reaches := by
      intro d hd
      obtain ⟨e, he, rfl⟩ := List.mem_map.mp hd
      rcases hreaches e he with hr | hzero
      · exact .child (List.mem_map_of_mem he) hr
      · rw [hid, hzero]
        exact .root
    placed := by
      intro i hi
      obtain ⟨d, hd, hdir⟩ := h.placed i hi
      exact ⟨f d, List.mem_map_of_mem hd, (hid d).trans hdir⟩
    uniqueDirs := hunique
    uniqueInstruments := h.uniqueInstruments
    cross := by
      intro d hd
      obtain ⟨e, he, rfl⟩ := List.mem_map.mp hd
      exact hcross e he
    root := by
      obtain ⟨d, hd, hzero⟩ := h.root
      exact ⟨f d, List.mem_map_of_mem hd, (hid d).trans hzero⟩
    parentRoot := by
      intro d hd hzero
      obtain ⟨e, he, rfl⟩ := List.mem_map.mp hd
      exact hroot e he ((hid e).symm.trans hzero)
    range := by
      intro d hd
      obtain ⟨e, he, rfl⟩ := List.mem_map.mp hd
      rw [hid]
      exact h.range e he
    named := by
      intro d hd
      obtain ⟨e, he, rfl⟩ := List.mem_map.mp hd
      exact hnamed e he
    instrumentIds := h.instrumentIds
    instrumentRange := h.instrumentRange
    lastInstrument := h.lastInstrument }

/-! ## Instruments -/

/-- Any instruments whose directories exist and that are called unlike them. -/
theorem Inv.withInstruments {db : Db} (h : Inv db) {instruments : List InstrumentRow} {last : Int}
    (hunique : UniqueInstruments instruments)
    (hplaced : ∀ i ∈ instruments, ∃ d ∈ db.dirs, d.id = i.dir)
    (hcross : ∀ d ∈ db.dirs, ∀ i ∈ instruments, d.parent = i.dir → d.name ≠ i.name)
    (hids : (instruments.map InstrumentRow.id).Nodup)
    (hrange : ∀ i ∈ instruments, 0 ≤ i.id ∧ i.id ≤ last) (hlast : 0 ≤ last) :
    Inv { db with instruments := instruments, lastInstrument := last } :=
  ⟨h.ids, h.reaches, hplaced, h.uniqueDirs, hunique, hcross, h.root, h.parentRoot, h.range,
    h.named, hids, hrange, hlast⟩

theorem Inv.insertInstrument {db db' : Db} (h : Inv db) {dir nr : Int} {name file : Bytes}
    {columns : Columns} (hdir : ∃ d ∈ db.dirs, d.id = dir)
    (hfree : ∀ d ∈ db.dirs, ¬(d.parent = dir ∧ d.name = name))
    (hdb : db.insertInstrument dir name file nr columns = some db') : Inv db' := by
  obtain ⟨hunique, rfl⟩ := withInstruments_eq hdb
  let row : InstrumentRow := ⟨db.lastInstrument + 1, dir, name, file, nr, columns⟩
  have hlast := h.lastInstrument
  have hcases : ∀ i ∈ db.instruments ++ [row], i ∈ db.instruments ∨ i = row := by
    intro i hi
    rcases List.mem_append.mp hi with hi | hi
    · exact .inl hi
    · exact .inr (List.mem_singleton.mp hi)
  refine h.withInstruments hunique ?_ ?_ ?_ ?_ ?_
  · intro i hi
    rcases hcases i hi with hi | rfl
    · exact h.placed i hi
    · exact hdir
  · intro d hd i hi heq
    rcases hcases i hi with hi | rfl
    · exact h.cross d hd i hi heq
    · exact fun hn => hfree d hd ⟨heq, hn⟩
  · rw [List.map_append]
    refine List.nodup_append.mpr ⟨h.instrumentIds, List.nodup_singleton _, fun x hx y hy => ?_⟩
    obtain ⟨i, hi, rfl⟩ := List.mem_map.mp hx
    have hy : y = db.lastInstrument + 1 := List.mem_singleton.mp hy
    have hrange := h.instrumentRange i hi
    omega
  · intro i hi
    show 0 ≤ i.id ∧ i.id ≤ db.lastInstrument + 1
    rcases hcases i hi with hi | rfl
    · have hrange := h.instrumentRange i hi
      omega
    · show 0 ≤ db.lastInstrument + 1 ∧ db.lastInstrument + 1 ≤ db.lastInstrument + 1
      omega
  · show 0 ≤ db.lastInstrument + 1
    omega

theorem Inv.filterInstruments {db db' : Db} (h : Inv db) {keep : InstrumentRow → Bool}
    (hdb : db.withInstruments (db.instruments.filter keep) = some db') : Inv db' := by
  obtain ⟨hunique, rfl⟩ := withInstruments_eq hdb
  have hmem : ∀ i ∈ db.instruments.filter keep, i ∈ db.instruments :=
    fun i hi => (List.mem_filter.mp hi).1
  exact h.withInstruments hunique (fun i hi => h.placed i (hmem i hi))
    (fun d hd i hi => h.cross d hd i (hmem i hi))
    (h.instrumentIds.sublist (List.filter_sublist.map _))
    (fun i hi => h.instrumentRange i (hmem i hi)) h.lastInstrument

/-- A change of rows that keeps their numbers. -/
theorem Inv.mapInstruments {db db' : Db} (h : Inv db) {f : InstrumentRow → InstrumentRow}
    (hid : ∀ i, (f i).id = i.id) (hplaced : ∀ i ∈ db.instruments, ∃ d ∈ db.dirs, d.id = (f i).dir)
    (hcross : ∀ d ∈ db.dirs, ∀ i ∈ db.instruments, d.parent = (f i).dir → d.name ≠ (f i).name)
    (hdb : db.withInstruments (db.instruments.map f) = some db') : Inv db' := by
  obtain ⟨hunique, rfl⟩ := withInstruments_eq hdb
  refine h.withInstruments hunique ?_ ?_ ?_ ?_ h.lastInstrument
  · intro i hi
    obtain ⟨j, hj, rfl⟩ := List.mem_map.mp hi
    exact hplaced j hj
  · intro d hd i hi
    obtain ⟨j, hj, rfl⟩ := List.mem_map.mp hi
    exact hcross d hd j hj
  · rw [List.map_map]
    have hcomp : InstrumentRow.id ∘ f = InstrumentRow.id := funext hid
    rw [hcomp]
    exact h.instrumentIds
  · intro i hi
    obtain ⟨j, hj, rfl⟩ := List.mem_map.mp hi
    rw [hid]
    exact h.instrumentRange j hj

/-! ## Queries -/

theorem mem_of_findDir {db : Db} {parent : Int} {name : Bytes} (h : db.findDir parent name ≠ -1) :
    ∃ d ∈ db.dirs, d.id = db.findDir parent name ∧ d.parent = parent ∧ d.name = name := by
  unfold Db.findDir at h ⊢
  cases hfind : db.dirs.find? fun d => d.parent = parent ∧ d.name = name with
  | none =>
      rw [hfind] at h
      exact absurd rfl h
  | some d =>
      have hd := List.find?_some hfind
      exact ⟨d, List.mem_of_find?_eq_some hfind, rfl, of_decide_eq_true hd⟩

/-- `-1` means that there is no such directory. -/
theorem Inv.no_dir {db : Db} (h : Inv db) {parent : Int} {name : Bytes}
    (hnone : db.findDir parent name = -1) :
    ∀ d ∈ db.dirs, ¬(d.parent = parent ∧ d.name = name) := by
  unfold Db.findDir at hnone
  cases hfind : db.dirs.find? fun d => d.parent = parent ∧ d.name = name with
  | none =>
      intro d hd
      simpa using List.find?_eq_none.mp hfind d hd
  | some d =>
      rw [hfind] at hnone
      have hrange := h.range d (List.mem_of_find?_eq_some hfind)
      have hnone : d.id = -1 := hnone
      omega

theorem mem_of_findInstrument {db : Db} {dir : Int} {name : Bytes}
    (h : db.findInstrument dir name ≠ -1) :
    ∃ i ∈ db.instruments, i.id = db.findInstrument dir name ∧ i.dir = dir ∧ i.name = name := by
  unfold Db.findInstrument at h ⊢
  cases hfind : db.instruments.find? fun i => i.dir = dir ∧ i.name = name with
  | none =>
      rw [hfind] at h
      exact absurd rfl h
  | some i =>
      have hi := List.find?_some hfind
      exact ⟨i, List.mem_of_find?_eq_some hfind, rfl, of_decide_eq_true hi⟩

theorem Inv.no_instrument {db : Db} (h : Inv db) {dir : Int} {name : Bytes}
    (hnone : db.findInstrument dir name = -1) :
    ∀ i ∈ db.instruments, ¬(i.dir = dir ∧ i.name = name) := by
  unfold Db.findInstrument at hnone
  cases hfind : db.instruments.find? fun i => i.dir = dir ∧ i.name = name with
  | none =>
      intro i hi
      simpa using List.find?_eq_none.mp hfind i hi
  | some i =>
      rw [hfind] at hnone
      have hrange := h.instrumentRange i (List.mem_of_find?_eq_some hfind)
      have hnone : i.id = -1 := hnone
      omega

theorem Inv.findParent_eq {db : Db} (h : Inv db) {d : DirRow} (hd : d ∈ db.dirs) :
    db.findParent d.id = d.parent := by
  unfold Db.findParent
  cases hfind : db.dirs.find? fun e => e.id = d.id with
  | none =>
      have hnone := List.find?_eq_none.mp hfind d hd
      simp at hnone
  | some e =>
      have he := List.find?_some hfind
      show e.parent = d.parent
      rw [h.eq_of_id (List.mem_of_find?_eq_some hfind) hd (of_decide_eq_true he)]

/-! ## Names -/

theorem bindText_toDbName (name : Bytes) : bindText (toDbName name) = toDbName name := by
  refine List.takeWhile_eq_self_iff.mpr fun c hc => ?_
  obtain ⟨b, -, rfl⟩ := List.mem_map.mp hc
  by_cases hnul : b = nul
  · rw [if_pos hnul]
    decide
  · rw [if_neg hnul]
    exact decide_eq_true hnul

/-- In names without slashes NUL bytes stand for slashes. -/
theorem toAbstractName_toDbName {name : Bytes} (h : slash ∉ name) :
    toAbstractName (toDbName name) = name := by
  unfold toAbstractName toDbName
  rw [List.map_map]
  refine (List.map_congr_left fun c hc => ?_).trans (List.map_id name)
  show (if (if c = nul then slash else c) = slash then nul else if c = nul then slash else c) = c
  by_cases hnul : c = nul
  · rw [if_pos hnul, if_pos rfl, hnul]
  · have hne : c ≠ slash := fun heq => h (heq ▸ hc)
    rw [if_neg hnul]
    exact if_neg hne

theorem toDbName_inj {name name' : Bytes} (h : slash ∉ name) (h' : slash ∉ name')
    (heq : toDbName name = toDbName name') : name = name' := by
  rw [← toAbstractName_toDbName h, heq, toAbstractName_toDbName h']

theorem toDbName_eq_nil {name : Bytes} : toDbName name = [] ↔ name = [] := List.map_eq_nil_iff

/-- From the root, one comes to the directory by its names in a path. -/
inductive Named (dirs : List DirRow) : List Bytes → Int → Prop
  | root : Named dirs [] 0
  | child {d : DirRow} {names : List Bytes} {name : Bytes} (hd : d ∈ dirs)
      (h : Named dirs names d.parent) (hname : d.name = toDbName name) (hslash : slash ∉ name) :
      Named dirs (names ++ [name]) d.id

theorem Named.reaches {dirs : List DirRow} {names : List Bytes} {id : Int}
    (h : Named dirs names id) : Reaches dirs id := by
  induction h with
  | root => exact .root
  | child hd _ _ _ ih => exact .child hd ih

theorem Inv.named_exists {db : Db} (h : Inv db) {names : List Bytes} {id : Int}
    (hid : Named db.dirs names id) : ∃ d ∈ db.dirs, d.id = id := by
  cases hid with
  | root => exact h.root
  | child hd _ _ _ => exact ⟨_, hd, rfl⟩

/-- The root has no names. -/
theorem Inv.named_ne_zero {db : Db} (h : Inv db) {names : List Bytes} {id : Int}
    (hid : Named db.dirs names id) (hne : names ≠ []) : id ≠ 0 := by
  cases hid with
  | root => exact absurd rfl hne
  | child hd hparent _ _ =>
      intro hzero
      have hpos := h.nonneg hparent.reaches
      rw [h.parentRoot _ hd hzero] at hpos
      omega

/-- A directory has one path. -/
theorem Inv.named_unique {db : Db} (h : Inv db) {names names' : List Bytes} {id : Int}
    (hid : Named db.dirs names id) (hid' : Named db.dirs names' id) : names = names' := by
  induction hid generalizing names' with
  | root =>
      by_contra hne
      exact h.named_ne_zero hid' (fun hnil => hne hnil.symm) rfl
  | @child d names name hd hparent hname hslash ih =>
      have hzero : d.id ≠ 0 :=
        h.named_ne_zero (.child hd hparent hname hslash) (by simp)
      generalize heq : d.id = id at hid' hzero
      cases hid' with
      | root => exact absurd rfl hzero
      | @child e names' name' he hparent' hname' hslash' =>
          obtain rfl := h.eq_of_id hd he heq
          rw [ih hparent', toDbName_inj hslash hslash' (hname.symm.trans hname')]

end InstrumentsDb

end LinuxSampler
