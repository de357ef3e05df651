import Mathlib.Algebra.BigOperators.Group.List.Basic
import Mathlib.Data.Finset.Card
import Mathlib.Tactic.Linarith
import Mathlib.Tactic.Ring

/-!
# Grids of zones

A set of cuts divides a line into zones, and comparing the zones of two
values is comparing the values, if one of them is a border
(`zone_le_iff_of_mem`, `zone_le_iff_of_succ_mem`).

Zones of several lines make a grid, whose cells are numbered row by row.
The cells of a box are visited once each, and a cell is among them if and
only if each of its coordinates is in the range of the box
(`count_cells`). The number of a cell is the sum of its coordinates, each
multiplied with the number of cells of the lines behind it
(`index_eq_sum`).
-/

namespace LinuxSampler

namespace ZoneGrid

/-! ## Zones of a line -/

/-- The number of the zone of a value, counted from zero at the first cut. -/
def zone (cuts : Finset Int) (x : Int) : Int := ((cuts.filter (· ≤ x)).card : Int) - 1

theorem zone_mono (cuts : Finset Int) {x y : Int} (h : x ≤ y) : zone cuts x ≤ zone cuts y := by
  have hsub : cuts.filter (· ≤ x) ⊆ cuts.filter (· ≤ y) := by
    intro c hc
    obtain ⟨hmem, hle⟩ := Finset.mem_filter.mp hc
    exact Finset.mem_filter.mpr ⟨hmem, le_trans hle h⟩
  have hcard := Finset.card_le_card hsub
  unfold zone
  omega

/-- A cut separates zones. -/
theorem zone_lt {cuts : Finset Int} {c x y : Int} (hc : c ∈ cuts) (hx : x < c) (hy : c ≤ y) :
    zone cuts x < zone cuts y := by
  have hsub : cuts.filter (· ≤ x) ⊂ cuts.filter (· ≤ y) := by
    refine (Finset.ssubset_iff_of_subset ?_).mpr ⟨c, ?_, ?_⟩
    · intro d hd
      obtain ⟨hmem, hle⟩ := Finset.mem_filter.mp hd
      exact Finset.mem_filter.mpr ⟨hmem, by omega⟩
    · exact Finset.mem_filter.mpr ⟨hc, hy⟩
    · intro hmem
      have hle := (Finset.mem_filter.mp hmem).2
      omega
  have hcard := Finset.card_lt_card hsub
  unfold zone
  omega

theorem zone_le_iff_of_mem {cuts : Finset Int} {c : Int} (hc : c ∈ cuts) (x : Int) :
    zone cuts c ≤ zone cuts x ↔ c ≤ x := by
  constructor
  · intro h
    by_contra hlt
    have hzone := zone_lt hc (not_le.mp hlt) (le_refl c)
    omega
  · exact zone_mono cuts

theorem zone_le_iff_of_succ_mem {cuts : Finset Int} {b : Int} (hb : b + 1 ∈ cuts) (x : Int) :
    zone cuts x ≤ zone cuts b ↔ x ≤ b := by
  constructor
  · intro h
    by_contra hlt
    have hzone := zone_lt hb (Int.lt_succ b) (by omega : b + 1 ≤ x)
    omega
  · exact zone_mono cuts

theorem zone_nonneg {cuts : Finset Int} {c x : Int} (hc : c ∈ cuts) (h : c ≤ x) :
    0 ≤ zone cuts x := by
  have hpos : 0 < (cuts.filter (· ≤ x)).card :=
    Finset.card_pos.mpr ⟨c, Finset.mem_filter.mpr ⟨hc, h⟩⟩
  unfold zone
  omega

/-- There is one zone less than cuts. -/
theorem zone_lt_card {cuts : Finset Int} {c x : Int} (hc : c ∈ cuts) (h : x < c) :
    zone cuts x < (cuts.card : Int) - 1 := by
  have hsub : cuts.filter (· ≤ x) ⊂ cuts := by
    refine (Finset.ssubset_iff_of_subset (Finset.filter_subset _ _)).mpr ⟨c, hc, ?_⟩
    intro hmem
    have hle := (Finset.mem_filter.mp hmem).2
    omega
  have hcard := Finset.card_lt_card hsub
  unfold zone
  omega

/-! ## Cells of a grid -/

/-- The numbers from `first` to `last`. -/
def countUp (first last : Int) : List Int :=
  (List.range (last + 1 - first).toNat).map fun n : Nat => first + (n : Int)

theorem mem_countUp {first last l : Int} : l ∈ countUp first last ↔ first ≤ l ∧ l ≤ last := by
  unfold countUp
  rw [List.mem_map]
  constructor
  · rintro ⟨n, hn, rfl⟩
    have hlt := List.mem_range.mp hn
    omega
  · rintro ⟨hfirst, hlast⟩
    exact ⟨(l - first).toNat, List.mem_range.mpr (by omega), by omega⟩

theorem nodup_countUp (first last : Int) : (countUp first last).Nodup := by
  refine (List.nodup_range).map fun m n h => ?_
  have heq : first + (m : Int) = first + (n : Int) := h
  omega

/-- The zones of a box on one line, and how many zones the line has. -/
structure Side where
  len : Int
  first : Int
  last : Int

/-- The cells of a box, row by row, behind the row `j`. -/
def cells : List Side → Int → List Int
  | [], j => [j]
  | s :: sides, j => (countUp s.first s.last).flatMap fun l => cells sides (j * s.len + l)

/-- The number of the cell with the coordinates that stand with the sides, behind the
row `j`. -/
def index : List (Side × Int) → Int → Int
  | [], j => j
  | (s, l) :: sides, j => index sides (j * s.len + l)

/-- How many cells there are behind each row. -/
def size (sides : List Side) : Int := (sides.map Side.len).prod

/-- A box within the grid. -/
def Fits (s : Side) : Prop := 0 < s.len ∧ 0 ≤ s.first ∧ s.last < s.len

theorem size_pos {sides : List Side} (h : ∀ s ∈ sides, Fits s) : 0 < size sides := by
  induction sides with
  | nil => exact Int.one_pos
  | cons s sides ih =>
      have hrest := ih fun t ht => h t (List.mem_cons_of_mem s ht)
      have hlen := (h s List.mem_cons_self).1
      unfold size at hrest ⊢
      rw [List.map_cons, List.prod_cons]
      exact Int.mul_pos hlen hrest

/-- What is numbered behind a row. -/
def Block (sides : List Side) (j x : Int) : Prop := j * size sides ≤ x ∧ x < (j + 1) * size sides

/-- The rows of a line lie in the row that they divide. -/
theorem Block.cons {s : Side} {sides : List Side} {j l x : Int} (hpos : 0 < size sides)
    (hl : 0 ≤ l) (hlt : l < s.len) (h : Block sides (j * s.len + l) x) :
    Block (s :: sides) j x := by
  rcases h with ⟨hlow, hhigh⟩
  have hsize : size (s :: sides) = s.len * size sides := by
    rw [size, List.map_cons, List.prod_cons]
    rfl
  unfold Block
  rw [hsize]
  constructor
  · have hmul : 0 ≤ l * size sides := Int.mul_nonneg hl hpos.le
    calc j * (s.len * size sides) ≤ j * (s.len * size sides) + l * size sides := by omega
      _ = (j * s.len + l) * size sides := by ring
      _ ≤ x := hlow
  · have hmul : (l + 1) * size sides ≤ s.len * size sides :=
      Int.mul_le_mul_of_nonneg_right (by omega) hpos.le
    calc x < (j * s.len + l + 1) * size sides := hhigh
      _ = j * (s.len * size sides) + (l + 1) * size sides := by ring
      _ ≤ j * (s.len * size sides) + s.len * size sides := by omega
      _ = (j + 1) * (s.len * size sides) := by ring

/-- Blocks of different rows have nothing in common. -/
theorem Block.unique {sides : List Side} {i j x : Int} (hpos : 0 < size sides)
    (hi : Block sides i x) (hj : Block sides j x) : i = j := by
  have hle : ∀ {a b : Int}, Block sides a x → Block sides b x → a ≤ b := by
    intro a b ha hb
    by_contra hlt
    have hmul : (b + 1) * size sides ≤ a * size sides :=
      Int.mul_le_mul_of_nonneg_right (by omega) hpos.le
    have hlow := ha.1
    have hhigh := hb.2
    omega
  exact le_antisymm (hle hi hj) (hle hj hi)

theorem block_of_mem_cells {sides : List Side} (h : ∀ s ∈ sides, Fits s) {x : Int} :
    ∀ {j : Int}, x ∈ cells sides j → Block sides j x := by
  induction sides with
  | nil =>
      intro j hx
      rw [List.mem_singleton.mp hx]
      simp [Block, size]
  | cons s sides ih =>
      intro j hx
      obtain ⟨l, hl, hx⟩ := List.mem_flatMap.mp hx
      have hrest : ∀ t ∈ sides, Fits t := fun t ht => h t (List.mem_cons_of_mem s ht)
      obtain ⟨hfirst, hlast⟩ := mem_countUp.mp hl
      obtain ⟨-, hlow, hhigh⟩ := h s List.mem_cons_self
      exact Block.cons (size_pos hrest) (by omega) (by omega) (ih hrest hx)

/-- Coordinates within the grid. -/
def InGrid (p : Side × Int) : Prop := Fits p.1 ∧ 0 ≤ p.2 ∧ p.2 < p.1.len

theorem fits_of_inGrid {ps : List (Side × Int)} (h : ∀ p ∈ ps, InGrid p) :
    ∀ s ∈ ps.map Prod.fst, Fits s := by
  intro s hs
  obtain ⟨p, hp, rfl⟩ := List.mem_map.mp hs
  exact (h p hp).1

theorem block_index {ps : List (Side × Int)} (h : ∀ p ∈ ps, InGrid p) :
    ∀ j : Int, Block (ps.map Prod.fst) j (index ps j) := by
  induction ps with
  | nil =>
      intro j
      simp [Block, size, index]
  | cons p ps ih =>
      intro j
      have hrest : ∀ q ∈ ps, InGrid q := fun q hq => h q (List.mem_cons_of_mem p hq)
      obtain ⟨-, hl, hlt⟩ := h p List.mem_cons_self
      exact Block.cons (size_pos (fits_of_inGrid hrest)) hl hlt (ih hrest _)

/-- A sum over different numbers of which one counts. -/
theorem sum_map_single {L : List Int} (hnodup : L.Nodup) {f : Int → Nat} {l : Int}
    (h : ∀ m ∈ L, m ≠ l → f m = 0) : (L.map f).sum = if l ∈ L then f l else 0 := by
  induction L with
  | nil => rfl
  | cons m L ih =>
      obtain ⟨hm, hrest⟩ := List.nodup_cons.mp hnodup
      have hsum := ih hrest fun n hn => h n (List.mem_cons_of_mem m hn)
      rw [List.map_cons, List.sum_cons, hsum]
      by_cases heq : m = l
      · rw [← heq, if_neg hm, if_pos List.mem_cons_self, Nat.add_zero]
      · rw [h m List.mem_cons_self heq, Nat.zero_add]
        have hmem : l ∈ m :: L ↔ l ∈ L := by
          rw [List.mem_cons]
          exact or_iff_right fun hl => heq hl.symm
        simp only [hmem]

/-- A cell is visited once if its coordinates are in the box, and else not at all. -/
theorem count_cells {ps : List (Side × Int)} (h : ∀ p ∈ ps, InGrid p) : ∀ j : Int,
    (cells (ps.map Prod.fst) j).count (index ps j) =
      if ∀ p ∈ ps, p.1.first ≤ p.2 ∧ p.2 ≤ p.1.last then 1 else 0 := by
  induction ps with
  | nil =>
      intro j
      simp [cells, index]
  | cons p ps ih =>
      intro j
      have hrest : ∀ q ∈ ps, InGrid q := fun q hq => h q (List.mem_cons_of_mem p hq)
      have hfits := fits_of_inGrid hrest
      have hother : ∀ m ∈ countUp p.1.first p.1.last, m ≠ p.2 →
          (cells (ps.map Prod.fst) (j * p.1.len + m)).count (index ps (j * p.1.len + p.2)) = 0 := by
        intro m hm hne
        refine List.count_eq_zero.mpr fun hmem => hne ?_
        have hsame := Block.unique (size_pos hfits) (block_of_mem_cells hfits hmem)
          (block_index hrest (j * p.1.len + p.2))
        omega
      show ((countUp p.1.first p.1.last).flatMap fun l =>
        cells (ps.map Prod.fst) (j * p.1.len + l)).count (index ps (j * p.1.len + p.2)) = _
      rw [List.count_flatMap]
      have hsum := sum_map_single (nodup_countUp p.1.first p.1.last) hother
      refine hsum.trans ?_
      rw [ih hrest]
      by_cases hin : p.1.first ≤ p.2 ∧ p.2 ≤ p.1.last
      · rw [if_pos (mem_countUp.mpr hin)]
        have hiff : (∀ q ∈ p :: ps, q.1.first ≤ q.2 ∧ q.2 ≤ q.1.last) ↔
            ∀ q ∈ ps, q.1.first ≤ q.2 ∧ q.2 ≤ q.1.last := by
          rw [List.forall_mem_cons]
          exact and_iff_right hin
        simp only [hiff]
      · rw [if_neg fun hmem => hin (mem_countUp.mp hmem),
          if_neg fun hall => hin (hall p List.mem_cons_self)]

/-- Coordinates, each multiplied with the number of cells of the lines behind it. -/
def weighted : List (Side × Int) → List Int
  | [] => []
  | p :: ps => p.2 * size (ps.map Prod.fst) :: weighted ps

theorem index_eq_sum (ps : List (Side × Int)) : ∀ j : Int,
    index ps j = j * size (ps.map Prod.fst) + (weighted ps).sum := by
  induction ps with
  | nil =>
      intro j
      simp [index, size, weighted]
  | cons p ps ih =>
      intro j
      show index ps (j * p.1.len + p.2) = _
      rw [ih, weighted, List.sum_cons, List.map_cons, size, size, List.map_cons, List.prod_cons]
      ring

end ZoneGrid

end LinuxSampler
