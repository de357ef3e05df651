import LinuxSampler.SfzScan

/-!
# Bounds of the lookup tables

The constructor of `LookupTable` with the bounds of its arrays: the loop
over the cuts writes to a mapping array, the regions read their limits from
it, and go to the cells of the region array. Where all of that is within
bounds it is the table of `construct` (`constructIn_eq`).

The limits are trusted, so that it is within bounds if and only if no limit
is above the range of a dimension, and each region has its limits within
the ranges up to the first dimension in which it is empty
(`constructIn_isSome_iff`).
-/

namespace LinuxSampler

namespace Sfz

open ZoneGrid

/-! ## Loops that may fail -/

/-- Whether a step fails does not depend on what the loop has done so far. -/
theorem isSome_foldlM_iff {α β : Type} {f : β → α → Option β} {P : α → Prop} {xs : List α}
    (h : ∀ x ∈ xs, ∀ b, (f b x).isSome ↔ P x) (b : β) :
    (xs.foldlM f b).isSome ↔ ∀ x ∈ xs, P x := by
  induction xs generalizing b with
  | nil => exact iff_of_true rfl fun x hx => nomatch hx
  | cons x xs ih =>
      have hhead := h x List.mem_cons_self b
      have hrest := fun b => ih (fun y hy => h y (List.mem_cons_of_mem x hy)) b
      rw [List.foldlM_cons, List.forall_mem_cons]
      cases hx : f b x with
      | none =>
          rw [hx] at hhead
          exact iff_of_false Bool.noConfusion fun hall => Bool.noConfusion (hhead.mpr hall.1)
      | some b' =>
          rw [hx] at hhead
          exact (hrest b').trans (iff_and_self.mpr fun _ => hhead.mp rfl)

theorem foldlM_eq_foldl {α β : Type} {f : β → α → Option β} {g : β → α → β} {xs : List α}
    (h : ∀ x ∈ xs, ∀ b b', f b x = some b' → b' = g b x) {b b' : β}
    (hfold : xs.foldlM f b = some b') : b' = xs.foldl g b := by
  induction xs generalizing b with
  | nil => exact (Option.some.inj hfold).symm
  | cons x xs ih =>
      rw [List.foldlM_cons] at hfold
      obtain ⟨next, hnext, hfold⟩ := Option.bind_eq_some_iff.mp hfold
      rw [List.foldl_cons, ← h x List.mem_cons_self b next hnext]
      exact ih (fun y hy => h y (List.mem_cons_of_mem x hy)) hfold

theorem mapM_eq_ite {α β : Type} {f : α → Option β} {g : α → β} {P : α → Prop} [DecidablePred P]
    {xs : List α} (h : ∀ x ∈ xs, f x = if P x then some (g x) else none) :
    xs.mapM f = if ∀ x ∈ xs, P x then some (xs.map g) else none := by
  induction xs with
  | nil => exact (if_pos fun x hx => nomatch hx).symm
  | cons x xs ih =>
      rw [List.mapM_cons, h x List.mem_cons_self, ih fun y hy => h y (List.mem_cons_of_mem x hy)]
      by_cases hx : P x
      · rw [if_pos hx]
        by_cases hxs : ∀ y ∈ xs, P y
        · rw [if_pos hxs, if_pos (List.forall_mem_cons.mpr ⟨hx, hxs⟩)]
          rfl
        · rw [if_neg hxs, if_neg fun hall => hxs (List.forall_mem_cons.mp hall).2]
          rfl
      · rw [if_neg hx, if_neg fun hall => hx (List.forall_mem_cons.mp hall).1]
        rfl

theorem isSome_bind_pure {α β : Type} (x : Option α) (f : α → β) :
    (x >>= fun a => pure (f a)).isSome ↔ x.isSome := by
  cases x with
  | none => exact Iff.rfl
  | some a => exact Iff.rfl

/-! ## Constructor -/

/-- An array of an axis has a place for the value. -/
def Axis.Has (axis : Axis) (x : Int) : Prop := axis.min ≤ x ∧ x ≤ axis.max

instance (axis : Axis) : DecidablePred axis.Has := fun _ => inferInstanceAs (Decidable (_ ∧ _))

/-- The values from `j` up to the cut are written, if there are any. -/
def Fill.stepIn (axis : Axis) (f : Fill) (cut : Int) : Option Fill :=
  if f.j < cut ∧ ¬(axis.Has f.j ∧ axis.Has (cut - 1)) then none else some (f.step cut)

def fillMapArrIn (axis : Axis) (cuts : Finset Int) : Option MapArr := do
  let f ← cuts.sort.foldlM (Fill.stepIn axis) { j := axis.min, l := -1, a := fun _ => 0 }
  return { axis := axis, len := f.l, a := f.a }

/-- The limits are read for each dimension that is reached. -/
def fillRegionArrIn (triggercc : Option (Fin 128)) (size : Int) (region : Region) :
    List MapArr → Int → (Int → List Region) → Option (Int → List Region)
  | [], j, arr =>
      if 0 ≤ j ∧ j < size then some (Function.update arr j (arr j ++ [region])) else none
  | m :: maps, j, arr =>
      if m.axis.Has (m.axis.lo triggercc region) ∧ m.axis.Has (m.axis.last triggercc region) then
        (countUp (m.a (m.axis.lo triggercc region)) (m.a (m.axis.last triggercc region))).foldlM
          (fun arr l => fillRegionArrIn triggercc size region maps (j * m.len + l) arr) arr
      else none

def mapArrsIn (triggercc : Option (Fin 128)) (regions : List Region) : Option (List MapArr) :=
  (axes triggercc regions).mapM fun axis =>
    fillMapArrIn axis (cuts regions (axis.lo triggercc) (axis.hi triggercc) axis.min axis.max)

/-- The constructor, unless it leaves the bounds or cannot count the cells. -/
def LookupTable.constructIn (instrument : List Region) (triggercc : Option (Fin 128)) :
    Option LookupTable := do
  let regions := instrument.filter fun r => Selected triggercc r
  let maps ← mapArrsIn triggercc regions
  let size := (maps.map MapArr.len).prod
  if intMax < size then none
  else do
    let regionArr ← regions.foldlM (fun arr r => fillRegionArrIn triggercc size r maps 0 arr)
      fun _ => []
    return { mapArr := (multiplied maps).1, regionArr := regionArr }

/-! ## Mapping arrays -/

theorem Axis.min_le_max (axis : Axis) : axis.min ≤ axis.max := by
  cases axis with
  | cc n => exact Int.natCast_nonneg 127
  | dim d =>
      cases d with
      | chan => decide
      | key => decide
      | vel => decide
      | chanaft => decide
      | polyaft => decide
      | prog => decide
      | swPrevious => decide

theorem foldlM_stepIn (axis : Axis) (cuts : List Int) {f : Fill} (hmin : axis.min ≤ f.j)
    (hmax : f.j ≤ axis.max + 1) :
    cuts.foldlM (Fill.stepIn axis) f =
      if ∀ c ∈ cuts, c ≤ axis.max + 1 then some (cuts.foldl Fill.step f) else none := by
  induction cuts generalizing f with
  | nil => exact (if_pos fun c hc => nomatch hc).symm
  | cons c cuts ih =>
      rw [List.foldlM_cons, List.foldl_cons]
      unfold Fill.stepIn
      by_cases hc : c ≤ axis.max + 1
      · have hin : ¬(f.j < c ∧ ¬(axis.Has f.j ∧ axis.Has (c - 1))) := by
          unfold Axis.Has
          omega
        rw [if_neg hin]
        have hnext : axis.min ≤ (f.step c).j ∧ (f.step c).j ≤ axis.max + 1 :=
          ⟨hmin.trans (le_max_left _ _), max_le hmax hc⟩
        refine (ih hnext.1 hnext.2).trans ?_
        have hall : (∀ d ∈ c :: cuts, d ≤ axis.max + 1) ↔ ∀ d ∈ cuts, d ≤ axis.max + 1 := by
          rw [List.forall_mem_cons]
          exact and_iff_right hc
        simp only [hall]
      · have hout : f.j < c ∧ ¬(axis.Has f.j ∧ axis.Has (c - 1)) := by
          unfold Axis.Has
          omega
        rw [if_pos hout, if_neg fun hall => hc (hall c List.mem_cons_self)]
        rfl

theorem fillMapArrIn_eq (axis : Axis) (cuts : Finset Int) :
    fillMapArrIn axis cuts =
      if ∀ c ∈ cuts, c ≤ axis.max + 1 then some (fillMapArr axis cuts axis.min) else none := by
  have hmin := axis.min_le_max
  have hall : (∀ c ∈ cuts.sort, c ≤ axis.max + 1) ↔ ∀ c ∈ cuts, c ≤ axis.max + 1 :=
    forall_congr' fun c => by rw [Finset.mem_sort]
  let start : Fill := { j := axis.min, l := -1, a := fun _ => 0 }
  have hnext : axis.min ≤ axis.max + 1 := by omega
  have hstart : axis.min ≤ start.j ∧ start.j ≤ axis.max + 1 := ⟨le_refl _, hnext⟩
  have hfold := foldlM_stepIn axis cuts.sort hstart.1 hstart.2
  simp only [hall] at hfold
  show (cuts.sort.foldlM (Fill.stepIn axis) start >>= fun f => _) = _
  rw [hfold]
  split_ifs
  · rfl
  · rfl

/-- No limit is above the range of a dimension. -/
def Axis.Covers (triggercc : Option (Fin 128)) (axis : Axis) (regions : List Region) : Prop :=
  ∀ r ∈ regions, axis.lo triggercc r ≤ axis.max + 1 ∧ axis.hi triggercc r ≤ axis.max

instance (triggercc : Option (Fin 128)) (axis : Axis) (regions : List Region) :
    Decidable (axis.Covers triggercc regions) :=
  inferInstanceAs (Decidable (∀ r ∈ regions, _ ∧ _))

theorem forall_cuts_le (triggercc : Option (Fin 128)) (axis : Axis) (regions : List Region) :
    (∀ c ∈ cuts regions (axis.lo triggercc) (axis.hi triggercc) axis.min axis.max,
      c ≤ axis.max + 1) ↔ axis.Covers triggercc regions := by
  constructor
  · intro hall r hr
    have hlo := hall _ (mem_cuts_of_region hr).1
    have hhi := hall _ (mem_cuts_of_region hr).2
    omega
  · intro hcovers c hc
    have hmin := axis.min_le_max
    rcases Finset.mem_insert.mp hc with rfl | hc
    · omega
    · rcases Finset.mem_insert.mp hc with rfl | hc
      · exact le_refl _
      · obtain ⟨r, hr, hc⟩ := List.mem_flatMap.mp (List.mem_toFinset.mp hc)
        have hlimits := hcovers r hr
        rcases List.mem_cons.mp hc with rfl | hc
        · exact hlimits.1
        · rw [List.mem_singleton.mp hc]
          omega

theorem mapArrsIn_eq (triggercc : Option (Fin 128)) (regions : List Region) :
    mapArrsIn triggercc regions =
      if ∀ axis ∈ axes triggercc regions, axis.Covers triggercc regions then
        some (mapArrs triggercc regions)
      else none := by
  refine mapM_eq_ite (g := axisArr triggercc regions) fun axis _ => ?_
  refine (fillMapArrIn_eq axis _).trans ?_
  simp only [forall_cuts_le]
  rfl

/-! ## Cells -/

/-- Up to the first dimension in which the region is empty, its limits are in the arrays. -/
def Region.Placed (triggercc : Option (Fin 128)) (r : Region) : List Axis → Prop
  | [] => True
  | axis :: axes =>
      (axis.Has (axis.lo triggercc r) ∧ axis.Has (axis.last triggercc r)) ∧
        (axis.lo triggercc r ≤ axis.last triggercc r → r.Placed triggercc axes)

/-- The zones of the limits of a region compare like the limits. -/
theorem zone_lo_le_zone_last_iff {triggercc : Option (Fin 128)} {regions : List Region}
    (axis : Axis) {r : Region} (hr : r ∈ regions) (hlo : axis.Has (axis.lo triggercc r))
    (hlast : axis.Has (axis.last triggercc r)) :
    (axisArr triggercc regions axis).a (axis.lo triggercc r) ≤
        (axisArr triggercc regions axis).a (axis.last triggercc r) ↔
      axis.lo triggercc r ≤ axis.last triggercc r := by
  let c := cuts regions (axis.lo triggercc) (axis.hi triggercc) axis.min axis.max
  have hmax : axis.max + 1 ∈ c := Finset.mem_insert_of_mem (Finset.mem_insert_self _ _)
  have hmem : axis.lo triggercc r ∈ c := (mem_cuts_of_region hr).1
  have hzone : ∀ {x : Int}, axis.Has x → (axisArr triggercc regions axis).a x = zone c x :=
    fun hx => a_fillMapArr axis hx.1 hmax (Int.lt_add_one_of_le hx.2)
  rw [hzone hlo, hzone hlast]
  exact zone_le_iff_of_mem hmem _

/-- Values of an array are numbers of zones. -/
theorem axisArr_range (triggercc : Option (Fin 128)) (regions : List Region) (axis : Axis) {x : Int}
    (hx : axis.Has x) :
    0 ≤ (axisArr triggercc regions axis).a x ∧
      (axisArr triggercc regions axis).a x < (axisArr triggercc regions axis).len := by
  let c := cuts regions (axis.lo triggercc) (axis.hi triggercc) axis.min axis.max
  have hmin : axis.min ∈ c := Finset.mem_insert_self _ _
  have hmax : axis.max + 1 ∈ c := Finset.mem_insert_of_mem (Finset.mem_insert_self _ _)
  have hlt := Int.lt_add_one_of_le hx.2
  have hzone : (axisArr triggercc regions axis).a x = zone c x := a_fillMapArr axis hx.1 hmax hlt
  have hlen : (axisArr triggercc regions axis).len = (c.card : Int) - 1 :=
    len_fillMapArr axis c axis.min
  rw [hzone, hlen]
  exact ⟨zone_nonneg hmin hx.1, zone_lt_card hmax hlt⟩

/-- How many cells there are behind each row. -/
def behind (maps : List MapArr) : Int := (maps.map MapArr.len).prod

theorem behind_pos (triggercc : Option (Fin 128)) (regions : List Region) (axes : List Axis) :
    0 < behind (axes.map (axisArr triggercc regions)) := by
  induction axes with
  | nil => exact Int.one_pos
  | cons axis axes ih =>
      have hrange := axisArr_range triggercc regions axis ⟨le_refl _, axis.min_le_max⟩
      unfold behind at ih ⊢
      rw [List.map_cons, List.map_cons, List.prod_cons]
      exact Int.mul_pos (by omega) ih

/-- A region gets to its cells if and only if its limits are in the arrays. -/
theorem isSome_fillRegionArrIn_iff {triggercc : Option (Fin 128)} {regions : List Region}
    {size : Int} {r : Region} (hr : r ∈ regions) (axes : List Axis) {j : Int} (hj : 0 ≤ j)
    (hsize : (j + 1) * behind (axes.map (axisArr triggercc regions)) ≤ size)
    (arr : Int → List Region) :
    (fillRegionArrIn triggercc size r (axes.map (axisArr triggercc regions)) j arr).isSome ↔
      r.Placed triggercc axes := by
  induction axes generalizing j arr with
  | nil =>
      have hlt : j < size := by
        unfold behind at hsize
        simp only [List.map_nil, List.prod_nil, mul_one] at hsize
        omega
      rw [List.map_nil]
      unfold fillRegionArrIn
      rw [if_pos ⟨hj, hlt⟩]
      exact iff_of_true rfl trivial
  | cons axis axes ih =>
      let m := axisArr triggercc regions axis
      have haxis : m.axis = axis := rfl
      rw [List.map_cons]
      unfold fillRegionArrIn Region.Placed
      rw [haxis]
      by_cases hin : axis.Has (axis.lo triggercc r) ∧ axis.Has (axis.last triggercc r)
      · rw [if_pos hin]
        obtain ⟨hlo, hlast⟩ := hin
        have hfirst : 0 ≤ m.a (axis.lo triggercc r) ∧ m.a (axis.lo triggercc r) < m.len :=
          axisArr_range triggercc regions axis hlo
        have hend : 0 ≤ m.a (axis.last triggercc r) ∧ m.a (axis.last triggercc r) < m.len :=
          axisArr_range triggercc regions axis hlast
        have hcompare : m.a (axis.lo triggercc r) ≤ m.a (axis.last triggercc r) ↔ _ :=
          zone_lo_le_zone_last_iff axis hr hlo hlast
        have hcell : ∀ l ∈ countUp (m.a (axis.lo triggercc r)) (m.a (axis.last triggercc r)),
            ∀ arr, (fillRegionArrIn triggercc size r (axes.map (axisArr triggercc regions))
              (j * m.len + l) arr).isSome ↔ r.Placed triggercc axes := by
          intro l hl arr
          obtain ⟨hle, hge⟩ := mem_countUp.mp hl
          have hpos := behind_pos triggercc regions axes
          have hnonneg : 0 ≤ j * m.len := Int.mul_nonneg hj (by omega)
          refine ih (by omega) ?_ arr
          calc (j * m.len + l + 1) * behind (axes.map (axisArr triggercc regions))
              ≤ (j * m.len + m.len) * behind (axes.map (axisArr triggercc regions)) :=
                Int.mul_le_mul_of_nonneg_right (by omega) hpos.le
            _ = (j + 1) * behind ((axis :: axes).map (axisArr triggercc regions)) := by
                unfold behind
                rw [List.map_cons, List.map_cons, List.prod_cons]
                ring
            _ ≤ size := hsize
        refine (isSome_foldlM_iff hcell arr).trans ?_
        rw [and_iff_right ⟨hlo, hlast⟩]
        constructor
        · intro hall hle
          exact hall _ (mem_countUp.mpr ⟨le_refl _, hcompare.mpr hle⟩)
        · intro hplaced l hl
          obtain ⟨hle, hge⟩ := mem_countUp.mp hl
          exact hplaced (hcompare.mp (hle.trans hge))
      · rw [if_neg hin]
        exact iff_of_false Bool.noConfusion fun hplaced => hin hplaced.1

/-! ## The whole table -/

/-- The limits of the regions are in the arrays of the table, and an `int` can count its
cells. -/
structure TableFits (triggercc : Option (Fin 128)) (instrument : List Region) : Prop where
  covers : ∀ axis ∈ axes triggercc (instrument.filter fun r => Selected triggercc r),
    axis.Covers triggercc (instrument.filter fun r => Selected triggercc r)
  count : cellCount triggercc instrument ≤ intMax
  placed : ∀ r ∈ instrument.filter fun r => Selected triggercc r,
    r.Placed triggercc (axes triggercc (instrument.filter fun r => Selected triggercc r))

theorem LookupTable.constructIn_isSome_iff (instrument : List Region)
    (triggercc : Option (Fin 128)) :
    (constructIn instrument triggercc).isSome ↔ TableFits triggercc instrument := by
  let regions := instrument.filter fun r => Selected triggercc r
  let maps := mapArrs triggercc regions
  have hprod : (maps.map MapArr.len).prod = cellCount triggercc instrument :=
    prod_len_mapArrs triggercc instrument
  have hfill : (regions.foldlM (fun arr r => fillRegionArrIn triggercc (maps.map MapArr.len).prod
      r maps 0 arr) fun _ => []).isSome ↔
        ∀ r ∈ regions, r.Placed triggercc (axes triggercc regions) := by
    refine isSome_foldlM_iff (fun r hr arr => ?_) _
    refine isSome_fillRegionArrIn_iff hr _ (le_refl 0) (le_of_eq ?_) arr
    rw [Int.zero_add, Int.one_mul]
    rfl
  show (mapArrsIn triggercc regions >>= fun maps => _).isSome ↔ _
  rw [mapArrsIn_eq]
  by_cases hcovers : ∀ axis ∈ axes triggercc regions, axis.Covers triggercc regions
  · rw [if_pos hcovers]
    show (if intMax < (maps.map MapArr.len).prod then none else _).isSome ↔ _
    by_cases hcount : intMax < (maps.map MapArr.len).prod
    · rw [if_pos hcount]
      rw [hprod] at hcount
      exact iff_of_false Bool.noConfusion fun hfits => hfits.count.not_gt hcount
    · rw [if_neg hcount]
      rw [hprod] at hcount
      refine Iff.trans ?_ (hfill.trans ⟨fun hplaced => ⟨hcovers, not_lt.mp hcount, hplaced⟩,
        TableFits.placed⟩)
      exact isSome_bind_pure _ _
  · rw [if_neg hcovers]
    exact iff_of_false Bool.noConfusion fun hfits => hcovers hfits.covers

/-- Within bounds, it is the table that the constructor makes. -/
theorem fillRegionArrIn_eq {triggercc : Option (Fin 128)} {size : Int} {r : Region}
    (maps : List MapArr) : ∀ {j : Int} {arr arr' : Int → List Region},
      fillRegionArrIn triggercc size r maps j arr = some arr' →
        arr' = fillRegionArr triggercc r maps j arr := by
  induction maps with
  | nil =>
      intro j arr arr' h
      unfold fillRegionArrIn at h
      obtain ⟨-, h⟩ | ⟨-, h⟩ := ite_eq_iff.mp h
      · exact (Option.some.inj h).symm
      · exact (Option.some_ne_none _ h.symm).elim
  | cons m maps ih =>
      intro j arr arr' h
      unfold fillRegionArrIn at h
      obtain ⟨-, h⟩ | ⟨-, h⟩ := ite_eq_iff.mp h
      · exact foldlM_eq_foldl (fun l _ arr arr' hstep => ih hstep) h
      · exact (Option.some_ne_none _ h.symm).elim

theorem LookupTable.constructIn_eq {instrument : List Region} {triggercc : Option (Fin 128)}
    {table : LookupTable} (h : constructIn instrument triggercc = some table) :
    construct instrument triggercc = some table := by
  let regions := instrument.filter fun r => Selected triggercc r
  obtain ⟨maps, hmaps, h⟩ := Option.bind_eq_some_iff.mp h
  have hmaps : maps = mapArrs triggercc regions := by
    rw [mapArrsIn_eq] at hmaps
    obtain ⟨-, hmaps⟩ | ⟨-, hnone⟩ := ite_eq_iff.mp hmaps
    · exact (Option.some.inj hmaps).symm
    · exact (Option.some_ne_none _ hnone.symm).elim
  obtain ⟨-, hnone⟩ | ⟨hcount, h⟩ := ite_eq_iff.mp h
  · exact (Option.some_ne_none _ hnone.symm).elim
  obtain ⟨arr, harr, h⟩ := Option.bind_eq_some_iff.mp h
  have hfold := foldlM_eq_foldl (fun r _ arr arr' hstep => fillRegionArrIn_eq maps hstep) harr
  unfold construct
  dsimp only
  rw [← hmaps, if_neg hcount, ← hfold]
  exact h

end Sfz

end LinuxSampler
