import LinuxSampler.InstrumentsDbTree

/-!
# Paths of directories

A path is the names of a directory with a slash before each of them, and
maybe one behind (`eq_join`), so that a directory below another one has
its path as a prefix, followed by a slash (`startsWith_of_below`). This is
what the check of `MoveDirectory()` looks for, and why a directory that
passes it can be moved (`Inv.reaches_moved`).
-/

namespace LinuxSampler

namespace InstrumentsDb

open Bytes SplitNodes

theorem join_cons (name : Bytes) (names : List Bytes) :
    join slash (name :: names) = slash :: name ++ join slash names := rfl

theorem join_append (names names' : List Bytes) :
    join slash (names ++ names') = join slash names ++ join slash names' := List.flatMap_append

theorem parts_ne_nil (s : Bytes) : parts s ≠ [] := by
  cases s with
  | nil => exact List.cons_ne_nil _ _
  | cons c s =>
      unfold parts
      by_cases hc : c = slash
      · rw [if_pos hc]
        exact List.cons_ne_nil _ _
      · rw [if_neg hc]
        split
        · exact List.cons_ne_nil _ _
        · exact List.cons_ne_nil _ _

theorem join_parts (s : Bytes) : join slash (parts s) = slash :: s := by
  induction s with
  | nil => rfl
  | cons c s ih =>
      unfold parts
      by_cases hc : c = slash
      · rw [if_pos hc, join_cons, ih, hc]
        rfl
      · rw [if_neg hc]
        cases hparts : parts s with
        | nil => exact absurd hparts (parts_ne_nil s)
        | cons part rest =>
            rw [hparts, join_cons] at ih
            show slash :: c :: part ++ join slash rest = _
            have htail : part ++ join slash rest = s := (List.cons.inj ih).2
            rw [List.cons_append, List.cons_append, htail]

theorem not_mem_parts {s part : Bytes} (h : part ∈ parts s) : slash ∉ part := by
  induction s generalizing part with
  | nil =>
      rw [List.mem_singleton.mp h]
      exact List.not_mem_nil
  | cons c s ih =>
      unfold parts at h
      by_cases hc : c = slash
      · rw [if_pos hc] at h
        rcases List.mem_cons.mp h with rfl | h
        · exact List.not_mem_nil
        · exact ih h
      · rw [if_neg hc] at h
        cases hparts : parts s with
        | nil => exact absurd hparts (parts_ne_nil s)
        | cons first rest =>
            rw [hparts] at h ih
            rcases List.mem_cons.mp h with rfl | h
            · intro hmem
              rcases List.mem_cons.mp hmem with heq | hmem
              · exact hc heq.symm
              · exact ih List.mem_cons_self hmem
            · exact ih (List.mem_cons_of_mem first h)

theorem not_mem_pathNames {path name : Bytes} (h : name ∈ pathNames path) : slash ∉ name := by
  unfold pathNames at h
  dsimp only at h
  by_cases hlast : (parts path.tail).getLast? = some []
  · rw [if_pos hlast] at h
    exact not_mem_parts (List.dropLast_subset _ h)
  · rw [if_neg hlast] at h
    exact not_mem_parts h

/-- A path is its names, with or without a slash at its end. -/
theorem eq_join {path : Bytes} (h : path.head? = some slash) :
    path = join slash (pathNames path) ∧ (pathNames path).getLast? ≠ some [] ∨
      path = join slash (pathNames path) ++ [slash] := by
  obtain ⟨s, rfl⟩ : ∃ s, path = slash :: s := by
    cases path with
    | nil => exact nomatch h
    | cons c s => exact ⟨s, by rw [Option.some.inj h]⟩
  have hjoin := join_parts s
  unfold pathNames
  dsimp only [List.tail_cons]
  by_cases hlast : (parts s).getLast? = some []
  · rw [if_pos hlast]
    refine .inr ?_
    have hsplit := List.dropLast_append_getLast? [] hlast
    rw [← hsplit, join_append] at hjoin
    exact hjoin.symm
  · rw [if_neg hlast]
    exact .inl ⟨hjoin.symm, hlast⟩

theorem getLast?_join {names : List Bytes} {name : Bytes} (hne : name ≠ []) (hslash : slash ∉ name) :
    (join slash (names ++ [name])).getLast? ≠ some slash := by
  rw [join_append]
  have hjoin : join slash [name] = slash :: name := by
    rw [join_cons]
    exact List.append_nil _
  rw [hjoin, List.getLast?_append_of_ne_nil _ (List.cons_ne_nil _ _),
    List.getLast?_cons_of_ne_nil hne]
  exact fun h => hslash (List.mem_of_getLast? h)

theorem withSlash_eq {path : Bytes} (h : path.head? = some slash) :
    withSlash path = join slash (pathNames path) ++ [slash] := by
  unfold withSlash
  rcases eq_join h with ⟨heq, hlast⟩ | heq
  · have hne : path.getLast? ≠ some slash := by
      rcases List.eq_nil_or_concat (pathNames path) with hnil | ⟨names, name, hnames⟩
      · rw [hnil] at heq
        rw [heq] at h
        exact nomatch h
      · rw [hnames, List.concat_eq_append] at hlast
        rw [List.getLast?_append_of_ne_nil _ (List.cons_ne_nil _ _)] at hlast
        have hname : name ≠ [] := fun hnil => hlast (congrArg some hnil)
        have hmem : name ∈ pathNames path := by simp [hnames]
        have hslash := not_mem_pathNames hmem
        rw [heq, hnames, List.concat_eq_append]
        exact getLast?_join hname hslash
    rw [if_neg hne]
    exact congrArg (· ++ [slash]) heq
  · have hend : path.getLast? = some slash := by
      rw [heq]
      exact List.getLast?_concat
    rw [if_pos hend]
    exact heq

theorem getFileName_join {names : List Bytes} {name : Bytes} (hne : name ≠ [])
    (hslash : slash ∉ name) : getFileName (join slash (names ++ [name])) = name := by
  have hjoin : join slash (names ++ [name]) = join slash names ++ slash :: name := by
    rw [join_append, join_cons]
    exact congrArg _ (List.append_nil _)
  have hhead : (join slash (names ++ [name])).head? = some slash := by
    cases names with
    | nil => rfl
    | cons first names => rfl
  have hlength : ¬(join slash (names ++ [name])).length < 2 := by
    have hpos := List.length_pos_iff.mpr hne
    rw [hjoin, List.length_append, List.length_cons]
    omega
  unfold getFileName
  rw [if_neg]
  · rw [hjoin, List.reverse_append, List.reverse_cons, List.append_assoc,
      List.takeWhile_append_of_pos]
    · simp
    · intro c hc
      exact decide_eq_true fun heq => hslash (heq ▸ List.mem_reverse.mp hc)
  · rintro (hlt | hnot | hlast)
    · exact hlength hlt
    · exact hnot hhead
    · exact getLast?_join hne hslash hlast

/-- The path of what is below a directory is longer, and begins with that of the directory. -/
theorem startsWith_of_below {dir dst : Bytes} (hdir : dir.head? = some slash)
    (hdst : dst.head? = some slash) {name : Bytes} {rest : List Bytes} (hne : name ≠ [])
    (h : pathNames dst = pathNames dir ++ name :: rest) :
    (withSlash dir).length < dst.length ∧ withSlash dir = dst.take (withSlash dir).length := by
  obtain ⟨tail, hdst⟩ : ∃ tail, dst = withSlash dir ++ (name ++ tail) := by
    have hjoin : join slash (pathNames dst) = withSlash dir ++ (name ++ join slash rest) := by
      rw [h, join_append, join_cons, withSlash_eq hdir]
      simp
    rcases eq_join hdst with ⟨heq, -⟩ | heq
    · exact ⟨join slash rest, heq.trans hjoin⟩
    · refine ⟨join slash rest ++ [slash], ?_⟩
      rw [heq, hjoin]
      simp
  constructor
  · have hpos := List.length_pos_iff.mpr hne
    rw [hdst, List.length_append, List.length_append]
    omega
  · rw [hdst, List.take_left]

/-! ## Paths of names -/

theorem parts_of_not_mem {s : Bytes} (h : slash ∉ s) : parts s = [s] := by
  induction s with
  | nil => rfl
  | cons c s ih =>
      have hne : c ≠ slash := fun hc => h (hc ▸ List.mem_cons_self)
      rw [parts, if_neg hne, ih fun hmem => h (List.mem_cons_of_mem c hmem)]

theorem parts_append_slash (s t : Bytes) : parts (s ++ slash :: t) = parts s ++ parts t := by
  induction s with
  | nil =>
      show parts (slash :: t) = [[]] ++ parts t
      rw [parts, if_pos rfl]
      rfl
  | cons c s ih =>
      rw [List.cons_append, parts, parts, ih]
      by_cases hc : c = slash
      · rw [if_pos hc, if_pos hc]
        rfl
      · rw [if_neg hc, if_neg hc]
        cases hparts : parts s with
        | nil => exact absurd hparts (parts_ne_nil s)
        | cons part rest => rfl

theorem parts_join {name : Bytes} {names : List Bytes} (h : ∀ n ∈ name :: names, slash ∉ n) :
    parts (name ++ join slash names) = name :: names := by
  induction names generalizing name with
  | nil =>
      have hjoin : join slash [] = [] := rfl
      rw [hjoin, List.append_nil]
      exact parts_of_not_mem (h name List.mem_cons_self)
  | cons name' names ih =>
      rw [join_cons, List.cons_append, parts_append_slash,
        parts_of_not_mem (h name List.mem_cons_self),
        ih fun n hn => h n (List.mem_cons_of_mem _ hn)]
      rfl

/-- Names that a path can have. -/
def IsName (name : Bytes) : Prop := name ≠ [] ∧ slash ∉ name

theorem pathNames_join {names : List Bytes} (h : ∀ n ∈ names, IsName n) :
    pathNames (join slash names) = names := by
  cases names with
  | nil => rfl
  | cons name names =>
      have hparts := parts_join fun n hn => (h n hn).2
      unfold pathNames
      dsimp only
      rw [join_cons, List.cons_append, List.tail_cons, hparts, if_neg]
      intro hlast
      exact (h [] (List.mem_of_getLast? hlast)).1 rfl

theorem checkPathName_name {name t : Bytes} (h : slash ∉ name) :
    checkPathName (name ++ t) = checkPathName t := by
  induction name with
  | nil => rfl
  | cons c name ih =>
      have hc : (c == slash) = false := beq_false_of_ne fun hc => h (hc ▸ List.mem_cons_self)
      rw [List.cons_append, checkPathName, hc, Bool.false_and, Bool.not_false, Bool.true_and]
      exact ih fun hmem => h (List.mem_cons_of_mem c hmem)

theorem checkPathName_join {names : List Bytes} {t : Bytes} (h : ∀ n ∈ names, IsName n)
    (ht : checkPathName t = true) : checkPathName (join slash names ++ t) = true := by
  induction names with
  | nil => exact ht
  | cons name names ih =>
      obtain ⟨hne, hslash⟩ := h name List.mem_cons_self
      have hrest := ih fun n hn => h n (List.mem_cons_of_mem name hn)
      cases name with
      | nil => exact absurd rfl hne
      | cons c name =>
          have hc : c ≠ slash := fun hc => hslash (hc ▸ List.mem_cons_self)
          rw [join_cons, List.append_assoc, List.cons_append, checkPathName,
            checkPathName_name hslash, hrest, Bool.and_true]
          simp [hc]

theorem checkPathName_path {path : Bytes} (hhead : path.head? = some slash)
    (h : ∀ n ∈ pathNames path, IsName n) : checkPathName path = true := by
  have hnil : checkPathName [] = true := rfl
  rcases eq_join hhead with ⟨heq, -⟩ | heq
  · rw [heq, ← List.append_nil (join slash _)]
    exact checkPathName_join h hnil
  · rw [heq]
    exact checkPathName_join h rfl

/-- The path of a directory with these names, which may be the root. -/
def parentPath (names : List Bytes) : Bytes := if names = [] then [slash] else join slash names

theorem upToSlash_append {s t : Bytes} (h : slash ∉ t) :
    upToSlash (s ++ slash :: t) = s ++ [slash] := by
  have hall : ∀ c ∈ t.reverse, decide (c ≠ slash) = true :=
    fun c hc => decide_eq_true fun heq => h (heq ▸ List.mem_reverse.mp hc)
  unfold upToSlash
  rw [List.reverse_append, List.reverse_cons, List.append_assoc, List.dropWhile_append_of_pos hall]
  simp

theorem join_concat (names : List Bytes) (name : Bytes) :
    join slash (names ++ [name]) = join slash names ++ slash :: name := by
  rw [join_append, join_cons]
  exact congrArg _ (List.append_nil _)

theorem head?_join {names : List Bytes} (h : names ≠ []) :
    (join slash names).head? = some slash := by
  cases names with
  | nil => exact absurd rfl h
  | cons name names => rfl

theorem join_eq_nil {names : List Bytes} : join slash names = [] ↔ names = [] := by
  cases names with
  | nil => exact iff_of_true rfl rfl
  | cons name names => exact iff_of_false (List.cons_ne_nil _ _) (List.cons_ne_nil _ _)

theorem getParentDirectory_of_append {s t : Bytes} (hne : t ≠ [])
    (hhead : (s ++ slash :: t).head? = some slash) (h : slash ∉ t.dropLast) :
    getParentDirectory (s ++ slash :: t) = if s = [] then [slash] else s := by
  have hlength : ¬((s ++ slash :: t).length < 2 ∨ (s ++ slash :: t).head? ≠ some slash) := by
    have hpos := List.length_pos_iff.mpr hne
    rintro (hlt | hnot)
    · rw [List.length_append, List.length_cons] at hlt
      omega
    · exact hnot hhead
  have htake :
      (s ++ slash :: t).take ((s ++ slash :: t).length - 1) = s ++ slash :: t.dropLast := by
    rw [← List.dropLast_eq_take, List.dropLast_append_of_ne_nil (List.cons_ne_nil _ _),
      List.dropLast_cons_of_ne_nil hne]
  unfold getParentDirectory
  dsimp only
  rw [if_neg hlength, htake, upToSlash_append h, List.dropLast_concat]
  by_cases hs : s = []
  · rw [if_pos hs, if_pos (by rw [hs]; rfl)]
  · have hpos := List.length_pos_iff.mpr hs
    rw [if_neg hs, if_neg]
    rw [List.length_append, List.length_singleton]
    omega

theorem getParentDirectory_join {names : List Bytes} {name : Bytes} (h : IsName name) :
    getParentDirectory (join slash (names ++ [name])) = parentPath names := by
  have hslash : slash ∉ name.dropLast := fun hmem => h.2 (List.dropLast_subset _ hmem)
  rw [join_concat, getParentDirectory_of_append h.1 ?_ hslash]
  · unfold parentPath
    simp only [join_eq_nil]
  · rw [← join_concat]
    exact head?_join (by simp)

theorem getParentDirectory_join_slash {names : List Bytes} {name : Bytes} (h : IsName name) :
    getParentDirectory (join slash (names ++ [name]) ++ [slash]) = parentPath names := by
  rw [join_concat, List.append_assoc, List.cons_append, getParentDirectory_of_append]
  · unfold parentPath
    simp only [join_eq_nil]
  · simp
  · rw [← List.cons_append, ← List.append_assoc, ← join_concat,
      List.head?_append_of_ne_nil _ (by simp [join_eq_nil])]
    exact head?_join (by simp)
  · rw [List.dropLast_concat]
    exact h.2

theorem withSlash_parentPath {names : List Bytes} (h : ∀ n ∈ names, IsName n) :
    withSlash (parentPath names) = join slash names ++ [slash] := by
  unfold parentPath
  split
  · next hnil =>
    rw [hnil]
    rfl
  · next hne => rw [withSlash_eq (head?_join hne), pathNames_join h]

theorem withoutSlash_join {names : List Bytes} {name : Bytes} (h : IsName name) :
    withoutSlash (join slash (names ++ [name])) = join slash (names ++ [name]) :=
  if_neg fun hlast => getLast?_join h.1 h.2 hlast.2

theorem head?_parentPath (names : List Bytes) : (parentPath names).head? = some slash := by
  unfold parentPath
  split
  · rfl
  · next hne => exact head?_join hne

theorem pathNames_parentPath {names : List Bytes} (h : ∀ n ∈ names, IsName n) :
    pathNames (parentPath names) = names := by
  unfold parentPath
  split
  · next hnil =>
    rw [hnil]
    rfl
  · exact pathNames_join h

/-- The other way round. -/
theorem below_of_startsWith {dir dst : Bytes} (hdir : dir.head? = some slash)
    (hstarts : withSlash dir = dst.take (withSlash dir).length) :
    pathNames dir <+: pathNames dst := by
  have hslash : ∀ n ∈ pathNames dir, slash ∉ n := fun n hn => not_mem_pathNames hn
  rw [withSlash_eq hdir] at hstarts
  generalize pathNames dir = names at hstarts hslash
  cases names with
  | nil => exact List.nil_prefix
  | cons name names =>
      obtain ⟨t, rfl⟩ : ∃ t, dst = join slash (name :: names) ++ [slash] ++ t :=
        ⟨_, (hstarts ▸ List.take_append_drop _ dst).symm⟩
      have hparts : parts (join slash (name :: names) ++ [slash] ++ t).tail =
          name :: names ++ parts t := by
        have htail : (join slash (name :: names) ++ [slash] ++ t).tail =
            name ++ join slash names ++ slash :: t := by simp [join_cons]
        rw [htail, parts_append_slash, parts_join hslash]
      unfold pathNames
      dsimp only
      rw [hparts]
      split
      · rw [List.dropLast_append_of_ne_nil (parts_ne_nil t)]
        exact List.prefix_append _ _
      · exact List.prefix_append _ _

/-! ## Moving a directory -/

theorem Inv.named_functional {db : Db} (h : Inv db) {names : List Bytes} {id id' : Int}
    (hid : Named db.dirs names id) (hid' : Named db.dirs names id') : id = id' := by
  induction hid generalizing id' with
  | root =>
      generalize hnil : ([] : List Bytes) = names at hid'
      cases hid' with
      | root => rfl
      | child _ _ _ _ => exact absurd hnil (by simp)
  | @child d names name hd hparent hname hslash ih =>
      generalize hnames : names ++ [name] = all at hid'
      cases hid' with
      | root => exact absurd hnames (by simp)
      | @child e names' name' he hparent' hname' hslash' =>
          obtain ⟨rfl, hlast⟩ := List.append_inj' hnames rfl
          obtain rfl := (List.cons.inj hlast).1
          have hde : d = e := by
            refine List.inj_on_of_nodup_map h.uniqueDirs hd he ?_
            rw [ih hparent', hname, hname']
          rw [hde]

/-- The name of a directory is the last one of its path. -/
theorem Inv.named_last {db : Db} (h : Inv db) {names : List Bytes} {id : Int}
    (hid : Named db.dirs names id) (hne : names ≠ []) :
    ∃ init name, names = init ++ [name] ∧ name ≠ [] ∧ slash ∉ name ∧
      ∀ d ∈ db.dirs, d.id = id → d.name = toDbName name := by
  cases hid with
  | root => exact absurd rfl hne
  | @child d init name hd _ hname hslash =>
      refine ⟨init, name, rfl, ?_, hslash, fun e he heq => ?_⟩
      · intro hnil
        refine h.named d hd ?_
        rw [hname, hnil]
        rfl
      · rw [h.eq_of_id he hd heq, hname]

/-- All names on the way to a directory are names. -/
theorem Inv.named_ne_nil {db : Db} (h : Inv db) {names : List Bytes} {id : Int}
    (hid : Named db.dirs names id) : ∀ name ∈ names, name ≠ [] := by
  induction hid with
  | root => exact fun name hname => nomatch hname
  | child hd _ hname _ ih =>
      intro name hmem
      rcases List.mem_append.mp hmem with hmem | hmem
      · exact ih name hmem
      · rintro rfl
        refine h.named _ hd ?_
        rw [hname, ← List.mem_singleton.mp hmem]
        rfl

def moved (id parent : Int) (d : DirRow) : DirRow :=
  if d.id = id then { d with parent := parent } else d

theorem moved_id (id parent : Int) (d : DirRow) : (moved id parent d).id = d.id := by
  unfold moved
  split_ifs
  · rfl
  · rfl

theorem moved_name (id parent : Int) (d : DirRow) : (moved id parent d).name = d.name := by
  unfold moved
  split_ifs
  · rfl
  · rfl

theorem moved_of_ne {id parent : Int} {d : DirRow} (h : d.id ≠ id) : moved id parent d = d :=
  if_neg h

theorem moved_parent {id parent : Int} {d : DirRow} (h : d.id = id) :
    (moved id parent d).parent = parent := by
  unfold moved
  rw [if_pos h]

/-- A directory whose path does not begin with that of the moved one is where it was. -/
theorem Inv.reaches_target {db : Db} (h : Inv db) {names names' : List Bytes} {id parent : Int}
    (hid : Named db.dirs names id) (hdst : Named db.dirs names' parent)
    (hnot : ¬names <+: names') : Reaches (db.dirs.map (moved id parent)) parent := by
  have hall : ∀ {before : List Bytes} {x : Int}, Named db.dirs before x → before <+: names' →
      Reaches (db.dirs.map (moved id parent)) x := by
    intro before x hx
    induction hx with
    | root => exact fun _ => .root
    | @child d before name hd hparent hname hslash ih =>
        intro hbefore
        have hne : d.id ≠ id := by
          intro heq
          have hself : Named db.dirs (before ++ [name]) d.id := .child hd hparent hname hslash
          rw [heq] at hself
          have hsame := h.named_unique hid hself
          exact hnot (hsame ▸ hbefore)
        have hmem : d ∈ db.dirs.map (moved id parent) :=
          List.mem_map.mpr ⟨d, hd, moved_of_ne hne⟩
        exact .child hmem (ih ((List.prefix_append _ _).trans hbefore))
  exact hall hdst (List.prefix_refl _)

theorem Inv.reaches_moved {db : Db} {id parent : Int}
    (hdst : Reaches (db.dirs.map (moved id parent)) parent) {x : Int} (hx : Reaches db.dirs x) :
    Reaches (db.dirs.map (moved id parent)) x := by
  induction hx with
  | root => exact .root
  | @child d hd _ ih =>
      rw [← moved_id id parent d]
      refine .child (List.mem_map_of_mem hd) ?_
      by_cases hid : d.id = id
      · rw [moved_parent hid]
        exact hdst
      · rw [moved_of_ne hid]
        exact ih

/-- A directory that is not moved below itself can be moved. -/
theorem Inv.moveDir {db db' : Db} (h : Inv db) {names names' : List Bytes} {id parent : Int}
    (hid : Named db.dirs names id) (hdst : Named db.dirs names' parent) (hne : names ≠ [])
    (hnot : ¬names <+: names')
    (hfree : ∀ d ∈ db.dirs, d.id = id →
      ∀ i ∈ db.instruments, ¬(i.dir = parent ∧ i.name = d.name))
    (hdb : Stmt.exec (.moveDirectory id parent) db = some db') : Inv db' := by
  have htarget := h.reaches_target hid hdst hnot
  have hzero := h.named_ne_zero hid hne
  refine h.mapDirs (moved_id id parent) ?_ ?_ ?_ ?_ hdb
  · intro d hd
    by_cases hroot : d.id = 0
    · exact .inr hroot
    · refine .inl ?_
      by_cases heq : d.id = id
      · rw [moved_parent heq]
        exact htarget
      · rw [moved_of_ne heq]
        exact Inv.reaches_moved htarget (h.reaches_parent hd hroot)
  · intro d hd i hi
    rw [moved_name]
    by_cases heq : d.id = id
    · rw [moved_parent heq]
      exact fun hparent hname => hfree d hd heq i hi ⟨hparent.symm, hname.symm⟩
    · rw [moved_of_ne heq]
      exact h.cross d hd i hi
  · intro d hd hroot
    rw [moved_of_ne fun heq => hzero (heq.symm.trans hroot)]
    exact h.parentRoot d hd hroot
  · intro d hd
    rw [moved_name]
    exact h.named d hd

end InstrumentsDb

end LinuxSampler
