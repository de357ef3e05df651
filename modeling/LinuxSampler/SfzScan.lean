import LinuxSampler.SfzLookup
import Mathlib.Data.Int.ConditionallyCompleteOrder

/-!
# Lookup table and linear scan

The lookup table of an sfz instrument gives for every query the regions
that a scan of all regions would give, in the order of the file
(`LookupTable.query_iff`), as long as an `int` can count its cells.

A mapping array gives the zone of a value (`a_fillMapArr`), a region is
added once to each cell of a box (`fillRegionArr_apply`), and a query ends
up in the cell whose coordinates are the zones of its values
(`query_cell`). What is left is that the zones of a value and of the limits
of a region compare like the values themselves.
-/

namespace LinuxSampler

namespace Sfz

open ZoneGrid

/-! ## Mapping arrays -/

theorem foldl_step_l (cuts : List Int) : ∀ f : Fill,
    (cuts.foldl Fill.step f).l = f.l + cuts.length := by
  induction cuts with
  | nil => exact fun f => (Int.add_zero _).symm
  | cons c cuts ih =>
      intro f
      rw [List.foldl_cons, ih, List.length_cons]
      show f.l + 1 + (cuts.length : Int) = f.l + ((cuts.length + 1 : Nat) : Int)
      omega

theorem foldl_step_of_lt (cuts : List Int) {x : Int} : ∀ {f : Fill}, x < f.j →
    (cuts.foldl Fill.step f).a x = f.a x := by
  induction cuts with
  | nil => exact fun _ => rfl
  | cons c cuts ih =>
      intro f hx
      have hnext : x < (f.step c).j := lt_of_lt_of_le hx (le_max_left _ _)
      rw [List.foldl_cons, ih hnext]
      exact if_neg fun h => by omega

/-- The loop counts the cuts up to each value. -/
theorem foldl_step_a {cuts : List Int} (hsorted : cuts.Pairwise (· < ·)) {x : Int} :
    ∀ {f : Fill}, f.j ≤ x → (∃ c ∈ cuts, x < c) →
      (cuts.foldl Fill.step f).a x = f.l + (cuts.filter (· ≤ x)).length := by
  induction cuts with
  | nil =>
      rintro f - ⟨c, hc, -⟩
      exact absurd hc List.not_mem_nil
  | cons c cuts ih =>
      intro f hj hlast
      obtain ⟨hhead, hrest⟩ := List.pairwise_cons.mp hsorted
      rw [List.foldl_cons]
      by_cases hc : x < c
      · have hnext : x < (f.step c).j := lt_of_lt_of_le hc (le_max_right _ _)
        have hnone : (c :: cuts).filter (· ≤ x) = [] := by
          refine List.filter_eq_nil_iff.mpr fun d hd => ?_
          rcases List.mem_cons.mp hd with rfl | hd
          · simpa using hc
          · have hlt := hhead d hd
            simp
            omega
        rw [foldl_step_of_lt cuts hnext, hnone]
        exact (if_pos ⟨hj, hc⟩).trans (Int.add_zero _).symm
      · have hnext : (f.step c).j ≤ x := max_le hj (not_lt.mp hc)
        have hlater : ∃ d ∈ cuts, x < d := by
          obtain ⟨d, hd, hlt⟩ := hlast
          rcases List.mem_cons.mp hd with rfl | hd
          · exact absurd hlt hc
          · exact ⟨d, hd, hlt⟩
        rw [ih hrest hnext hlater, List.filter_cons_of_pos (by simpa using not_lt.mp hc),
          List.length_cons]
        show f.l + 1 + _ = _
        omega

theorem length_filter_sort (cuts : Finset Int) (x : Int) :
    (cuts.sort.filter (· ≤ x)).length = (cuts.filter (· ≤ x)).card := by
  have hnodup : (cuts.sort.filter (· ≤ x)).Nodup := (cuts.sort_nodup _).filter _
  rw [← List.toFinset_card_of_nodup hnodup, List.toFinset_filter, Finset.sort_toFinset]
  congr 1
  ext c
  simp

/-- The array maps each value to its zone. -/
theorem a_fillMapArr (axis : Axis) {cuts : Finset Int} {min x c : Int} (hmin : min ≤ x)
    (hc : c ∈ cuts) (hx : x < c) : (fillMapArr axis cuts min).a x = zone cuts x := by
  have hsorted : cuts.sort.Pairwise (· < ·) := (Finset.sortedLT_sort cuts).pairwise
  have hlast : ∃ c ∈ cuts.sort, x < c := ⟨c, (Finset.mem_sort _).mpr hc, hx⟩
  have hcount := foldl_step_a hsorted (f := { j := min, l := -1, a := fun _ => 0 }) hmin hlast
  rw [length_filter_sort] at hcount
  refine hcount.trans ?_
  show -1 + _ = _ - 1
  omega

theorem len_fillMapArr (axis : Axis) (cuts : Finset Int) (min : Int) :
    (fillMapArr axis cuts min).len = (cuts.card : Int) - 1 := by
  have hlen := foldl_step_l cuts.sort { j := min, l := -1, a := fun _ => 0 }
  rw [Finset.length_sort] at hlen
  refine hlen.trans ?_
  show -1 + _ = _ - 1
  omega

/-! ## Cells -/

/-- The side of the box of a region. -/
def side (triggercc : Option (Fin 128)) (r : Region) (m : MapArr) : Side :=
  ⟨m.len, m.a (m.axis.lo triggercc r), m.a (m.axis.last triggercc r)⟩

def addRegion (r : Region) (arr : Int → List Region) (i : Int) : Int → List Region :=
  Function.update arr i (arr i ++ [r])

theorem fillRegionArr_eq (triggercc : Option (Fin 128)) (r : Region) (maps : List MapArr) :
    ∀ (j : Int) (arr : Int → List Region),
      fillRegionArr triggercc r maps j arr =
        (cells (maps.map (side triggercc r)) j).foldl (addRegion r) arr := by
  induction maps with
  | nil => exact fun j arr => rfl
  | cons m maps ih =>
      intro j arr
      rw [List.map_cons, cells, List.foldl_flatMap]
      show (countUp _ _).foldl _ arr = _
      congr 1
      funext arr l
      exact ih _ arr

theorem foldl_addRegion (r : Region) (is : List Int) (i : Int) : ∀ arr : Int → List Region,
    is.foldl (addRegion r) arr i = arr i ++ List.replicate (is.count i) r := by
  induction is with
  | nil => exact fun arr => (List.append_nil _).symm
  | cons k is ih =>
      intro arr
      rw [List.foldl_cons, ih]
      by_cases hk : k = i
      · rw [hk, List.count_cons_self, addRegion, Function.update_self, List.append_assoc]
        rfl
      · rw [List.count_cons_of_ne hk, addRegion, Function.update_of_ne fun h => hk h.symm]

/-- A region is added to a cell once, if each coordinate is on its side. -/
theorem fillRegionArr_apply (triggercc : Option (Fin 128)) (r : Region) {maps : List MapArr}
    {coordinate : MapArr → Int}
    (h : ∀ m ∈ maps, InGrid (side triggercc r m, coordinate m)) (arr : Int → List Region) :
    fillRegionArr triggercc r maps 0 arr
        (index (maps.map fun m => (side triggercc r m, coordinate m)) 0) =
      arr (index (maps.map fun m => (side triggercc r m, coordinate m)) 0) ++
        if ∀ m ∈ maps, (side triggercc r m).first ≤ coordinate m ∧
          coordinate m ≤ (side triggercc r m).last then [r] else [] := by
  have hgrid : ∀ p ∈ maps.map fun m => (side triggercc r m, coordinate m), InGrid p := by
    intro p hp
    obtain ⟨m, hm, rfl⟩ := List.mem_map.mp hp
    exact h m hm
  have hcount := count_cells hgrid 0
  rw [List.map_map] at hcount
  rw [fillRegionArr_eq, foldl_addRegion]
  refine congrArg _ ?_
  have hsides : (Prod.fst ∘ fun m => (side triggercc r m, coordinate m)) = side triggercc r := rfl
  rw [hsides] at hcount
  rw [hcount]
  by_cases hin : ∀ m ∈ maps, (side triggercc r m).first ≤ coordinate m ∧
      coordinate m ≤ (side triggercc r m).last
  · rw [if_pos (List.forall_mem_map.mpr hin), if_pos hin]
    rfl
  · rw [if_neg fun hall => hin (List.forall_mem_map.mp hall), if_neg hin]
    rfl

/-- The multiplied arrays add up to the number of a cell. -/
theorem sum_multiplied (s : MapArr → Side) (hs : ∀ m, (s m).len = m.len) (q : Query)
    {maps : List MapArr} (h : ∀ m ∈ maps, m.axis.min ≤ m.axis.arg q ∧ m.axis.arg q ≤ m.axis.max) :
    (multiplied maps).2 = size (maps.map s) ∧
      (multiplied maps).1.map (fun m => m.a (m.axis.arg q)) =
        weighted (maps.map fun m => (s m, m.a (m.axis.arg q))) := by
  induction maps with
  | nil => exact ⟨rfl, rfl⟩
  | cons m maps ih =>
      obtain ⟨hsize, hweighted⟩ := ih fun n hn => h n (List.mem_cons_of_mem m hn)
      constructor
      · show (multiplied maps).2 * m.len = size (s m :: maps.map s)
        rw [hsize, size, size, List.map_cons, List.prod_cons, hs, Int.mul_comm]
      · have hfst : (maps.map fun m => (s m, m.a (m.axis.arg q))).map Prod.fst = maps.map s := by
          rw [List.map_map]
          rfl
        show (if _ then m.a (m.axis.arg q) * (multiplied maps).2 else _) :: _ = _ :: weighted _
        rw [if_pos (h m List.mem_cons_self), hweighted, hfst, hsize]

/-! ## The query -/

/-- The coordinate of a region that is the same for all regions. -/
theorem foldl_fillRegionArr (triggercc : Option (Fin 128)) {maps : List MapArr} {i : Int}
    {P : Region → Prop} [DecidablePred P] {regions : List Region}
    (h : ∀ r ∈ regions, ∀ arr : Int → List Region,
      fillRegionArr triggercc r maps 0 arr i = arr i ++ if P r then [r] else []) :
    ∀ arr : Int → List Region,
      regions.foldl (fun arr r => fillRegionArr triggercc r maps 0 arr) arr i =
        arr i ++ regions.filter fun r => P r := by
  induction regions with
  | nil => exact fun arr => (List.append_nil _).symm
  | cons r regions ih =>
      intro arr
      rw [List.foldl_cons, ih fun t ht => h t (List.mem_cons_of_mem r ht),
        h r List.mem_cons_self, List.append_assoc, List.filter_cons]
      by_cases hP : P r
      · rw [if_pos hP, if_pos (by simpa using hP)]
        rfl
      · rw [if_neg hP, if_neg (by simpa using hP)]
        rfl

/-- A query comes to the cell of the zones of its values, which holds the regions that have
all of them. -/
theorem query_cell (triggercc : Option (Fin 128)) {maps : List MapArr} (regions : List Region)
    {q : Query} (hrange : ∀ m ∈ maps, m.axis.min ≤ m.axis.arg q ∧ m.axis.arg q ≤ m.axis.max)
    (hgrid : ∀ r ∈ regions, ∀ m ∈ maps, InGrid (side triggercc r m, m.a (m.axis.arg q))) :
    regions.foldl (fun arr r => fillRegionArr triggercc r maps 0 arr) (fun _ => [])
        ((multiplied maps).1.map fun m => m.a (m.axis.arg q)).sum =
      regions.filter fun r => ∀ m ∈ maps, m.a (m.axis.lo triggercc r) ≤ m.a (m.axis.arg q) ∧
        m.a (m.axis.arg q) ≤ m.a (m.axis.last triggercc r) := by
  have hcell : ∀ r, index (maps.map fun m => (side triggercc r m, m.a (m.axis.arg q))) 0 =
      ((multiplied maps).1.map fun m => m.a (m.axis.arg q)).sum := by
    intro r
    rw [index_eq_sum, Int.zero_mul, Int.zero_add,
      (sum_multiplied (side triggercc r) (fun m => rfl) q hrange).2]
  refine (foldl_fillRegionArr triggercc (fun r hr arr => ?_) fun _ => []).trans (List.nil_append _)
  rw [← hcell r]
  exact fillRegionArr_apply triggercc r (hgrid r hr) arr

/-! ## Limits and values -/

theorem int8_of_lt {c : UInt8} (h : c < 128) : int8 c = c.toNat := if_pos h

theorem toNat_of_lt {c : UInt8} (h : c < 128) : (c.toNat : Int) ≤ 127 := by
  have hlt : c.toNat < 128 := UInt8.lt_iff_toNat_lt.mp h
  omega

theorem Query.InRange.int8_prevSwKey {q : Query} (h : q.InRange) :
    -1 ≤ int8 q.prevSwKey ∧ int8 q.prevSwKey ≤ 127 := by
  rcases h.prevSwKey with hlt | heq
  · rw [int8_of_lt hlt]
    exact ⟨by omega, toNat_of_lt hlt⟩
  · rw [heq]
    exact ⟨by decide, by decide⟩

theorem Query.InRange.toNat_chan {q : Query} (h : q.InRange) :
    int8 q.chan = q.chan.toNat ∧ 1 ≤ (q.chan.toNat : Int) ∧ (q.chan.toNat : Int) ≤ 16 := by
  have hlow : 1 ≤ q.chan.toNat := UInt8.le_iff_toNat_le.mp h.chan.1
  have hhigh : q.chan.toNat ≤ 16 := UInt8.le_iff_toNat_le.mp h.chan.2
  refine ⟨int8_of_lt (UInt8.lt_iff_toNat_lt.mpr ?_), by omega, by omega⟩
  show q.chan.toNat < 128
  omega

/-- The mapping arrays have a place for every value. -/
theorem Query.InRange.arg {q : Query} (h : q.InRange) (axis : Axis) :
    axis.min ≤ axis.arg q ∧ axis.arg q ≤ axis.max := by
  have hbyte : ∀ {c : UInt8}, c < 128 → 0 ≤ int8 c ∧ int8 c ≤ 127 := by
    intro c hc
    rw [int8_of_lt hc]
    exact ⟨by omega, toNat_of_lt hc⟩
  cases axis with
  | cc n => exact ⟨Int.natCast_nonneg _, toNat_of_lt (h.cc n)⟩
  | dim d =>
      cases d with
      | chan =>
          obtain ⟨heq, hlow, hhigh⟩ := h.toNat_chan
          exact ⟨hlow.trans_eq heq.symm, heq.trans_le hhigh⟩
      | key => exact hbyte h.key
      | vel => exact hbyte h.vel
      | chanaft => exact hbyte h.chanaft
      | polyaft => exact hbyte h.polyaft
      | prog => exact hbyte h.prog
      | swPrevious => exact h.int8_prevSwKey

namespace Axis

/-- The limits of a region are within the mapping array. -/
structure Bounded (triggercc : Option (Fin 128)) (axis : Axis) (r : Region) : Prop where
  min_le_lo : axis.min ≤ axis.lo triggercc r
  lo_le_max : axis.lo triggercc r ≤ axis.max
  min_le_last : axis.min ≤ axis.last triggercc r
  last_le_max : axis.last triggercc r ≤ axis.max
  last_eq : axis.last triggercc r = axis.hi triggercc r ∨ axis.last triggercc r = axis.max

/-- The value of the query is within the limits of the region. -/
def Within (triggercc : Option (Fin 128)) (axis : Axis) (q : Query) (r : Region) : Prop :=
  axis.lo triggercc r ≤ axis.arg q ∧ axis.arg q ≤ axis.last triggercc r

instance (triggercc : Option (Fin 128)) (axis : Axis) (q : Query) :
    DecidablePred (axis.Within triggercc q) :=
  fun _ => inferInstanceAs (Decidable (_ ∧ _))

end Axis

theorem hi_ne_of_le {min hi : Int} (hmin : 0 ≤ min) (h : min ≤ hi) : hi ≠ -1 := by
  omega

/-- Dimensions whose upper limit may not be missing. -/
theorem bounded_dim {triggercc : Option (Fin 128)} {d : Dimension} {r : Region}
    (hmin : 0 ≤ (dimDef d).min) (hmax : (dimDef d).max ≠ -1)
    (hlo : (dimDef d).min ≤ (dimDef d).lo r ∧ (dimDef d).lo r ≤ (dimDef d).max)
    (hhi : (dimDef d).min ≤ (dimDef d).hi r ∧ (dimDef d).hi r ≤ (dimDef d).max) :
    (Axis.dim d).Bounded triggercc r := by
  have hlast : (Axis.dim d).last triggercc r = (dimDef d).hi r :=
    if_neg (hi_ne_of_le hmin hhi.1)
  have hmax : (Axis.dim d).max = (dimDef d).max := if_neg hmax
  refine ⟨hlo.1, ?_, ?_, ?_, .inl hlast⟩
  · rw [hmax]
    exact hlo.2
  · rw [hlast]
    exact hhi.1
  · rw [hlast, hmax]
    exact hhi.2

/-- Dimensions whose upper limit may be missing. -/
theorem bounded_dim_of_max {triggercc : Option (Fin 128)} {d : Dimension} {r : Region}
    (hmax : (Axis.dim d).max = 127) (hmin : (dimDef d).min ≤ 0)
    (hlo : (dimDef d).min ≤ (dimDef d).lo r ∧ (dimDef d).lo r ≤ 127)
    (hhi : -1 ≤ (dimDef d).hi r ∧ (dimDef d).hi r ≤ 127) : (Axis.dim d).Bounded triggercc r := by
  by_cases hnone : (dimDef d).hi r = -1
  · have hlast : (Axis.dim d).last triggercc r = 127 := if_pos hnone
    refine ⟨hlo.1, hmax ▸ hlo.2, ?_, ?_, .inr (hlast.trans hmax.symm)⟩
    · rw [hlast]
      show (dimDef d).min ≤ 127
      omega
    · exact (hlast.trans hmax.symm).le
  · have hlast : (Axis.dim d).last triggercc r = (dimDef d).hi r := if_neg hnone
    refine ⟨hlo.1, hmax ▸ hlo.2, ?_, ?_, .inl hlast⟩
    · rw [hlast]
      show (dimDef d).min ≤ (dimDef d).hi r
      omega
    · rw [hlast, hmax]
      exact hhi.2

theorem Region.InRange.bounded_cc {triggercc : Option (Fin 128)} {r : Region} (h : r.InRange)
    (hsel : Selected triggercc r) (n : Fin 128) : (Axis.cc n).Bounded triggercc r := by
  have hcc := h.cc n
  have hon := h.on n
  have hmin : (Axis.cc n).min = 0 := rfl
  have hmax : (Axis.cc n).max = 127 := rfl
  by_cases htrigger : triggercc = some n
  · rw [htrigger] at hsel
    obtain ⟨-, honlo, honhi⟩ := hsel
    have hlo : (Axis.cc n).lo triggercc r = max (r.locc n) (r.onLocc n) := if_pos htrigger
    have hlast : (Axis.cc n).last triggercc r = min (r.hicc n) (r.onHicc n) := if_pos htrigger
    constructor
    · omega
    · omega
    · omega
    · omega
    · exact .inl rfl
  · have hlo : (Axis.cc n).lo triggercc r = r.locc n := if_neg htrigger
    have hlast : (Axis.cc n).last triggercc r = r.hicc n := if_neg htrigger
    constructor
    · omega
    · omega
    · omega
    · omega
    · exact .inl rfl

/-- The keys are a dimension of the note-on table only. -/
def UsesDim (triggercc : Option (Fin 128)) (d : Dimension) : Prop := triggercc = none ∨ d ≠ .key

theorem Region.InRange.bounded_dim {triggercc : Option (Fin 128)} {r : Region} (h : r.InRange)
    (hsel : Selected triggercc r) {d : Dimension} (hd : UsesDim triggercc d) :
    (Axis.dim d).Bounded triggercc r := by
  cases d with
  | chan => exact Sfz.bounded_dim (by decide) (by decide) h.chan.1 h.chan.2
  | key =>
      have hnone : triggercc = none := hd.resolve_right fun hne => hne rfl
      rw [hnone] at hsel
      exact bounded_dim_of_max rfl (by decide) ⟨hsel, h.key.1.2⟩ h.key.2
  | vel => exact Sfz.bounded_dim (by decide) (by decide) h.vel.1 h.vel.2
  | chanaft => exact Sfz.bounded_dim (by decide) (by decide) h.chanaft.1 h.chanaft.2
  | polyaft => exact Sfz.bounded_dim (by decide) (by decide) h.polyaft.1 h.polyaft.2
  | prog => exact Sfz.bounded_dim (by decide) (by decide) h.prog.1 h.prog.2
  | swPrevious => exact bounded_dim_of_max rfl (by decide) h.swPrevious h.swPrevious

/-! ## Used dimensions -/

theorem mem_dimDefs (d : Dimension) : d ∈ dimDefs := by
  cases d <;> decide

theorem usesDim_of_mem {triggercc : Option (Fin 128)} {regions : List Region} {d : Dimension}
    (h : d ∈ dims triggercc regions) : UsesDim triggercc d := by
  obtain ⟨-, hany⟩ := List.mem_filter.mp h
  obtain ⟨r, -, hr⟩ := List.any_eq_true.mp hany
  exact (of_decide_eq_true hr).1

/-- A dimension that no region limits takes every value. -/
theorem within_of_not_mem_dims {triggercc : Option (Fin 128)} {regions : List Region}
    {d : Dimension} (hd : UsesDim triggercc d) (h : d ∉ dims triggercc regions) {q : Query}
    (hq : q.InRange) {r : Region} (hr : r ∈ regions) : (Axis.dim d).Within triggercc q r := by
  have hlimits : (dimDef d).lo r = (dimDef d).min ∧ (dimDef d).hi r = (dimDef d).max := by
    by_contra hne
    have hlimited : (dimDef d).lo r ≠ (dimDef d).min ∨ (dimDef d).hi r ≠ (dimDef d).max := by
      by_contra hboth
      exact hne ⟨not_not.mp fun h => hboth (.inl h), not_not.mp fun h => hboth (.inr h)⟩
    exact h (List.mem_filter.mpr ⟨mem_dimDefs d,
      List.any_eq_true.mpr ⟨r, hr, decide_eq_true ⟨hd, hlimited⟩⟩⟩)
  obtain ⟨hmin, hmax⟩ := hq.arg (.dim d)
  have hlast : (Axis.dim d).last triggercc r = (Axis.dim d).max := by
    show (if (dimDef d).hi r = -1 then (127 : Int) else (dimDef d).hi r) = _
    rw [hlimits.2]
    rfl
  constructor
  · exact hlimits.1.trans_le hmin
  · exact hmax.trans_eq hlast.symm

theorem within_of_not_mem_ccs {triggercc : Option (Fin 128)} {regions : List Region}
    {n : Fin 128} (h : n ∉ ccs triggercc regions) {q : Query} (hq : q.InRange) {r : Region}
    (hr : r ∈ regions) : (Axis.cc n).Within triggercc q r := by
  have hlimits : ¬(0 < ccLo triggercc n r ∨ ccHi triggercc n r ≠ 127) := by
    intro hlimited
    exact h (List.mem_filter.mpr ⟨List.mem_finRange n,
      List.any_eq_true.mpr ⟨r, hr, decide_eq_true hlimited⟩⟩)
  obtain ⟨hmin, hmax⟩ := hq.arg (.cc n)
  have hlo : ccLo triggercc n r ≤ 0 := not_lt.mp fun hlt => hlimits (.inl hlt)
  have hhi : ccHi triggercc n r = 127 := not_not.mp fun hne => hlimits (.inr hne)
  exact ⟨hlo.trans hmin, hmax.trans_eq hhi.symm⟩

theorem forall_mem_axes {triggercc : Option (Fin 128)} {regions : List Region} {P : Axis → Prop} :
    (∀ axis ∈ axes triggercc regions, P axis) ↔
      (∀ d ∈ dims triggercc regions, P (.dim d)) ∧ ∀ n ∈ ccs triggercc regions, P (.cc n) := by
  unfold axes
  rw [List.forall_mem_append, List.forall_mem_map, List.forall_mem_map]

/-- The used dimensions decide for all. -/
theorem forall_axes_within {triggercc : Option (Fin 128)} {regions : List Region} {q : Query}
    (hq : q.InRange) {r : Region} (hr : r ∈ regions) :
    (∀ axis ∈ axes triggercc regions, axis.Within triggercc q r) ↔
      (∀ d, UsesDim triggercc d → (Axis.dim d).Within triggercc q r) ∧
        ∀ n, (Axis.cc n).Within triggercc q r := by
  rw [forall_mem_axes]
  constructor
  · rintro ⟨hdims, hccs⟩
    constructor
    · intro d hd
      by_cases hmem : d ∈ dims triggercc regions
      · exact hdims d hmem
      · exact within_of_not_mem_dims hd hmem hq hr
    · intro n
      by_cases hmem : n ∈ ccs triggercc regions
      · exact hccs n hmem
      · exact within_of_not_mem_ccs hmem hq hr
  · rintro ⟨hdims, hccs⟩
    exact ⟨fun d hd => hdims d (usesDim_of_mem hd), fun n _ => hccs n⟩

/-! ## Agreement -/

instance (triggercc : Option (Fin 128)) (q : Query) (r : Region) :
    Decidable (r.Takes triggercc q) :=
  inferInstanceAs (Decidable (_ ∧ _))

/-- A limit of `-1` and the value 127 are no limits. -/
theorem le_last_iff {hi x : Int} (hx : x ≤ 127) :
    (x ≤ if hi = -1 then 127 else hi) ↔ hi = -1 ∨ x ≤ hi := by
  by_cases hnone : hi = -1
  · rw [if_pos hnone]
    exact ⟨fun _ => .inl hnone, fun _ => hx⟩
  · rw [if_neg hnone]
    exact (or_iff_right hnone).symm

theorem within_dim_iff {triggercc : Option (Fin 128)} {d : Dimension} {q : Query} {r : Region}
    (hq : (dimDef d).qarg q < 128) :
    (Axis.dim d).Within triggercc q r ↔
      (dimDef d).lo r ≤ ((dimDef d).qarg q).toNat ∧
        ((dimDef d).hi r = -1 ∨ (((dimDef d).qarg q).toNat : Int) ≤ (dimDef d).hi r) := by
  have harg : (Axis.dim d).arg q = ((dimDef d).qarg q).toNat := int8_of_lt hq
  unfold Axis.Within
  rw [harg]
  exact and_congr_right fun _ => le_last_iff (toNat_of_lt hq)

theorem within_cc_iff {triggercc : Option (Fin 128)} {n : Fin 128} {q : Query} {r : Region} :
    (Axis.cc n).Within triggercc q r ↔
      (r.locc n ≤ (q.cc n).toNat ∧ (q.cc n).toNat ≤ r.hicc n) ∧
        (triggercc = some n → r.onLocc n ≤ (q.cc n).toNat ∧ (q.cc n).toNat ≤ r.onHicc n) := by
  show ccLo triggercc n r ≤ (q.cc n).toNat ∧ (q.cc n).toNat ≤ ccHi triggercc n r ↔ _
  unfold ccLo ccHi
  by_cases htrigger : triggercc = some n
  · rw [if_pos htrigger, if_pos htrigger, max_le_iff, le_min_iff]
    constructor
    · rintro ⟨⟨hlo, honlo⟩, hhi, honhi⟩
      exact ⟨⟨hlo, hhi⟩, fun _ => ⟨honlo, honhi⟩⟩
    · rintro ⟨⟨hlo, hhi⟩, hon⟩
      obtain ⟨honlo, honhi⟩ := hon htrigger
      exact ⟨⟨hlo, honlo⟩, hhi, honhi⟩
  · rw [if_neg htrigger, if_neg htrigger]
    exact ⟨fun h => ⟨h, fun heq => absurd heq htrigger⟩, And.left⟩

/-- The conditions of a region are its limits in all dimensions. -/
theorem takes_iff {triggercc : Option (Fin 128)} {q : Query} (hq : q.InRange) {r : Region}
    (hr : r.InRange) :
    r.Takes triggercc q ↔
      (∀ d, UsesDim triggercc d → (Axis.dim d).Within triggercc q r) ∧
        ∀ n, (Axis.cc n).Within triggercc q r := by
  have hchan : q.chan < 128 := by
    have hhigh : q.chan.toNat ≤ 16 := UInt8.le_iff_toNat_le.mp hq.chan.2
    refine UInt8.lt_iff_toNat_lt.mpr ?_
    show q.chan.toNat < 128
    omega
  have hlimit : ∀ {d : Dimension}, 0 ≤ (dimDef d).min → (dimDef d).qarg q < 128 →
      (dimDef d).min ≤ (dimDef d).hi r → ((Axis.dim d).Within triggercc q r ↔
        (dimDef d).lo r ≤ ((dimDef d).qarg q).toNat ∧
          (((dimDef d).qarg q).toNat : Int) ≤ (dimDef d).hi r) := by
    intro d hmin hlt hle
    rw [within_dim_iff hlt, or_iff_right (hi_ne_of_le hmin hle)]
  have hchanIff := hlimit (d := .chan) (by decide) hchan hr.chan.2.1
  have hvelIff := hlimit (d := .vel) (by decide) hq.vel hr.vel.2.1
  have hchanaftIff := hlimit (d := .chanaft) (by decide) hq.chanaft hr.chanaft.2.1
  have hpolyaftIff := hlimit (d := .polyaft) (by decide) hq.polyaft hr.polyaft.2.1
  have hprogIff := hlimit (d := .prog) (by decide) hq.prog hr.prog.2.1
  have hkeyIff : (Axis.dim .key).Within triggercc q r ↔
      r.lokey ≤ q.key.toNat ∧ (r.hikey = -1 ∨ (q.key.toNat : Int) ≤ r.hikey) :=
    within_dim_iff hq.key
  have hswIff : (Axis.dim .swPrevious).Within triggercc q r ↔
      r.swPrevious = -1 ∨ int8 q.prevSwKey = r.swPrevious := by
    obtain ⟨hmin, hmax⟩ := hq.int8_prevSwKey
    show r.swPrevious ≤ int8 q.prevSwKey ∧
      (int8 q.prevSwKey ≤ if r.swPrevious = -1 then 127 else r.swPrevious) ↔ _
    rw [le_last_iff hmax]
    constructor
    · rintro ⟨hle, hnone | hge⟩
      · exact .inl hnone
      · exact .inr (le_antisymm hge hle)
    · rintro (hnone | heq)
      · exact ⟨hnone.trans_le hmin, .inl hnone⟩
      · exact ⟨heq.ge, .inr heq.le⟩
  constructor
  · rintro ⟨hc, hk, hv, hca, hpa, hp, hsw, hcc⟩
    refine ⟨fun d hd => ?_, fun n => within_cc_iff.mpr (hcc n)⟩
    cases d with
    | chan => exact hchanIff.mpr hc
    | key => exact hkeyIff.mpr (hk (hd.resolve_right fun hne => hne rfl))
    | vel => exact hvelIff.mpr hv
    | chanaft => exact hchanaftIff.mpr hca
    | polyaft => exact hpolyaftIff.mpr hpa
    | prog => exact hprogIff.mpr hp
    | swPrevious => exact hswIff.mpr hsw
  · rintro ⟨hdims, hccs⟩
    have hother : ∀ d, d ≠ .key → (Axis.dim d).Within triggercc q r :=
      fun d hne => hdims d (.inr hne)
    exact ⟨hchanIff.mp (hother .chan (by decide)),
      fun hnone => hkeyIff.mp (hdims .key (.inl hnone)),
      hvelIff.mp (hother .vel (by decide)), hchanaftIff.mp (hother .chanaft (by decide)),
      hpolyaftIff.mp (hother .polyaft (by decide)), hprogIff.mp (hother .prog (by decide)),
      hswIff.mp (hother .swPrevious (by decide)), fun n => within_cc_iff.mp (hccs n)⟩

/-- How many cells the dimensions of an instrument make. -/
def cellCount (triggercc : Option (Fin 128)) (instrument : List Region) : Int :=
  let regions := instrument.filter fun r => Selected triggercc r
  ((axes triggercc regions).map fun axis =>
    ((cuts regions (axis.lo triggercc) (axis.hi triggercc) axis.min axis.max).card : Int) - 1).prod

theorem prod_len_mapArrs (triggercc : Option (Fin 128)) (instrument : List Region) :
    ((mapArrs triggercc (instrument.filter fun r => Selected triggercc r)).map MapArr.len).prod =
      cellCount triggercc instrument := by
  unfold cellCount mapArrs
  rw [List.map_map]
  congr 1
  exact List.map_congr_left fun axis _ => len_fillMapArr axis _ _

/-- The mapping array of an axis. -/
def axisArr (triggercc : Option (Fin 128)) (regions : List Region) (axis : Axis) : MapArr :=
  fillMapArr axis (cuts regions (axis.lo triggercc) (axis.hi triggercc) axis.min axis.max) axis.min

theorem mem_cuts_of_region {regions : List Region} {lo hi : Region → Int} {min max : Int}
    {r : Region} (hr : r ∈ regions) :
    lo r ∈ cuts regions lo hi min max ∧ hi r + 1 ∈ cuts regions lo hi min max := by
  have hmem : ∀ c ∈ [lo r, hi r + 1], c ∈ cuts regions lo hi min max := by
    intro c hc
    refine Finset.mem_insert_of_mem (Finset.mem_insert_of_mem (List.mem_toFinset.mpr ?_))
    exact List.mem_flatMap.mpr ⟨r, hr, hc⟩
  exact ⟨hmem _ List.mem_cons_self, hmem _ (List.mem_cons_of_mem _ List.mem_cons_self)⟩

/-- The zones of an axis compare with the limits of a region like the values. -/
theorem axisArr_spec {triggercc : Option (Fin 128)} {regions : List Region} {axis : Axis}
    {q : Query} (hq : q.InRange) {r : Region} (hr : r ∈ regions)
    (hbounded : axis.Bounded triggercc r) :
    InGrid (side triggercc r (axisArr triggercc regions axis),
        (axisArr triggercc regions axis).a (axis.arg q)) ∧
      ((axisArr triggercc regions axis).a (axis.lo triggercc r) ≤
          (axisArr triggercc regions axis).a (axis.arg q) ∧
        (axisArr triggercc regions axis).a (axis.arg q) ≤
          (axisArr triggercc regions axis).a (axis.last triggercc r) ↔
        axis.Within triggercc q r) := by
  let c := cuts regions (axis.lo triggercc) (axis.hi triggercc) axis.min axis.max
  obtain ⟨hmin, hmax⟩ := hq.arg axis
  have hminMem : axis.min ∈ c := Finset.mem_insert_self _ _
  have hmaxMem : axis.max + 1 ∈ c := Finset.mem_insert_of_mem (Finset.mem_insert_self _ _)
  obtain ⟨hloMem, hhiMem⟩ : axis.lo triggercc r ∈ c ∧ axis.hi triggercc r + 1 ∈ c :=
    mem_cuts_of_region hr
  have hlastMem : axis.last triggercc r + 1 ∈ c := by
    rcases hbounded.last_eq with heq | heq
    · exact heq ▸ hhiMem
    · exact heq ▸ hmaxMem
  have hzone : ∀ {x : Int}, axis.min ≤ x → x ≤ axis.max →
      (axisArr triggercc regions axis).a x = zone c x :=
    fun hlow hhigh => a_fillMapArr axis hlow hmaxMem (Int.lt_add_one_of_le hhigh)
  have hlen : (axisArr triggercc regions axis).len = (c.card : Int) - 1 :=
    len_fillMapArr axis c axis.min
  have hlo := hzone hbounded.min_le_lo hbounded.lo_le_max
  have hlast := hzone hbounded.min_le_last hbounded.last_le_max
  have harg := hzone hmin hmax
  rw [hlo, hlast, harg]
  have hargPos := zone_nonneg hminMem hmin
  have hargLt := zone_lt_card hmaxMem (Int.lt_add_one_of_le hmax)
  constructor
  · refine ⟨⟨?_, ?_, ?_⟩, hargPos, hargLt.trans_eq hlen.symm⟩
    · show 0 < (axisArr triggercc regions axis).len
      omega
    · exact (zone_nonneg hminMem hbounded.min_le_lo).trans_eq hlo.symm
    · show (axisArr triggercc regions axis).a (axis.last triggercc r) <
        (axisArr triggercc regions axis).len
      rw [hlast, hlen]
      exact zone_lt_card hmaxMem (Int.lt_add_one_of_le hbounded.last_le_max)
  · exact and_congr (zone_le_iff_of_mem hloMem _) (zone_le_iff_of_succ_mem hlastMem _)

theorem bounded_of_mem_axes {triggercc : Option (Fin 128)} {regions : List Region} {axis : Axis}
    (haxis : axis ∈ axes triggercc regions) {r : Region} (hr : r.InRange)
    (hsel : Selected triggercc r) : axis.Bounded triggercc r := by
  have hall : ∀ axis ∈ axes triggercc regions, axis.Bounded triggercc r :=
    forall_mem_axes.mpr ⟨fun d hd => hr.bounded_dim hsel (usesDim_of_mem hd),
      fun n _ => hr.bounded_cc hsel n⟩
  exact hall axis haxis

/-- A table that has been built answers like a scan. -/
theorem LookupTable.query_eq {instrument : List Region} (h : ∀ r ∈ instrument, r.InRange)
    {triggercc : Option (Fin 128)} {table : LookupTable}
    (htable : construct instrument triggercc = some table) {q : Query} (hq : q.InRange) :
    table.query q = instrument.filter fun r => Selected triggercc r ∧ r.Takes triggercc q := by
  let regions := instrument.filter fun r => Selected triggercc r
  have hmem : ∀ r ∈ regions, r.InRange ∧ Selected triggercc r := by
    intro r hr
    obtain ⟨hr, hsel⟩ := List.mem_filter.mp hr
    exact ⟨h r hr, of_decide_eq_true hsel⟩
  have hspec : ∀ r ∈ regions, ∀ axis ∈ axes triggercc regions, _ := fun r hr axis haxis =>
    axisArr_spec hq hr (bounded_of_mem_axes haxis (hmem r hr).1 (hmem r hr).2)
  have hmaps : mapArrs triggercc regions = (axes triggercc regions).map (axisArr triggercc regions) :=
    rfl
  unfold construct at htable
  dsimp only at htable
  obtain ⟨-, hnone⟩ | ⟨-, htable⟩ := ite_eq_iff.mp htable
  · exact (Option.some_ne_none table hnone.symm).elim
  rw [← Option.some.inj htable]
  have hrange : ∀ m ∈ mapArrs triggercc regions,
      m.axis.min ≤ m.axis.arg q ∧ m.axis.arg q ≤ m.axis.max := by
    rw [hmaps]
    exact List.forall_mem_map.mpr fun axis _ => hq.arg axis
  have hgrid : ∀ r ∈ regions, ∀ m ∈ mapArrs triggercc regions,
      InGrid (side triggercc r m, m.a (m.axis.arg q)) := by
    rw [hmaps]
    exact fun r hr => List.forall_mem_map.mpr fun axis haxis => (hspec r hr axis haxis).1
  have htakes : ∀ r ∈ regions, (∀ m ∈ mapArrs triggercc regions,
      m.a (m.axis.lo triggercc r) ≤ m.a (m.axis.arg q) ∧
        m.a (m.axis.arg q) ≤ m.a (m.axis.last triggercc r)) ↔ r.Takes triggercc q := by
    intro r hr
    rw [hmaps, List.forall_mem_map, takes_iff hq (hmem r hr).1, ← forall_axes_within hq hr]
    exact forall₂_congr fun axis haxis => (hspec r hr axis haxis).2
  refine (query_cell triggercc regions hrange hgrid).trans ?_
  calc _ = regions.filter fun r => r.Takes triggercc q :=
        List.filter_congr fun r hr => decide_eq_decide.mpr (htakes r hr)
    _ = instrument.filter fun r => r.Takes triggercc q && Selected triggercc r :=
        List.filter_filter
    _ = instrument.filter fun r => Selected triggercc r ∧ r.Takes triggercc q :=
        List.filter_congr fun r _ => by rw [Bool.decide_and, Bool.and_comm]

theorem LookupTable.construct_eq_none_iff {instrument : List Region}
    {triggercc : Option (Fin 128)} :
    construct instrument triggercc = none ↔ intMax < cellCount triggercc instrument := by
  unfold construct
  dsimp only
  rw [prod_len_mapArrs]
  by_cases hlt : intMax < cellCount triggercc instrument
  · rw [if_pos hlt]
    exact iff_of_true rfl hlt
  · rw [if_neg hlt]
    exact iff_of_false (Option.some_ne_none _) hlt

/-- The table answers every query like a scan if and only if an `int` can count its cells. -/
theorem LookupTable.query_iff (instrument : List Region) (h : ∀ r ∈ instrument, r.InRange)
    (triggercc : Option (Fin 128)) :
    (∃ table, construct instrument triggercc = some table ∧ ∀ q : Query, q.InRange →
      table.query q = instrument.filter fun r => Selected triggercc r ∧ r.Takes triggercc q) ↔
        cellCount triggercc instrument ≤ intMax := by
  constructor
  · rintro ⟨table, htable, -⟩
    refine not_lt.mp fun hlt => ?_
    rw [construct_eq_none_iff.mpr hlt] at htable
    exact Option.some_ne_none table htable.symm
  · intro hle
    obtain ⟨table, htable⟩ := Option.ne_none_iff_exists'.mp fun hnone =>
      (construct_eq_none_iff.mp hnone).not_ge hle
    exact ⟨table, htable, fun q hq => query_eq h htable hq⟩

/-- A key split with a region for all keys, and one with limits in the wrong order. -/
def splitInstrument : List Region :=
  [{ id := 1, lokey := 60, hikey := 72 }, { id := 2, hikey := -1 },
    { id := 3, lovel := 100, hivel := 20 }]

theorem LookupTable.query_split :
    ∃ table, construct splitInstrument none = some table ∧ ∀ q : Query, q.InRange →
      table.query q = splitInstrument.filter fun r => Selected none r ∧ r.Takes none q :=
  (query_iff splitInstrument (by decide +kernel) none).mpr (by decide +kernel)

/-- A region with lower limits for 31 controllers. -/
def manyControllers : Region := { id := 1, locc := fun cc => if cc < 31 then 64 else 0 }

/-- Two zones for each of 31 controllers are more cells than an `int` can count. -/
theorem LookupTable.not_query :
    ¬∀ instrument : List Region, (∀ r ∈ instrument, r.InRange) → ∀ triggercc : Option (Fin 128),
      ∃ table, construct instrument triggercc = some table ∧ ∀ q : Query, q.InRange →
        table.query q = instrument.filter fun r => Selected triggercc r ∧ r.Takes triggercc q := by
  intro hclaim
  obtain ⟨table, htable, -⟩ := hclaim [manyControllers] (by decide +kernel) none
  have hlt : intMax < cellCount none [manyControllers] := by decide +kernel
  rw [construct_eq_none_iff.mpr hlt] at htable
  exact Option.some_ne_none table htable.symm

end Sfz

end LinuxSampler
