import LinuxSampler.MidiData
import LinuxSampler.ZoneGrid
import Mathlib.Data.Finset.Sort

/-!
# Lookup table of sfz regions

`engines/sfz/LookupTable.cpp`: the constructor divides every dimension that
the instrument uses into zones, with a mapping array from values to zones,
and puts each region into the cells of an array that it covers. A query
adds up what the mapping arrays give for its values and returns the list
of that cell.

The arrays are functions of their indices, without bounds; integers have
no bounds either, but for the number of cells, whose overflow is undefined
behaviour (`none`).
-/

namespace LinuxSampler

namespace Sfz

open ZoneGrid

/-- What the table reads of a region. -/
structure Region where
  id : Int
  lochan : Int := 1
  hichan : Int := 16
  lokey : Int := 0
  hikey : Int := 127
  lovel : Int := 0
  hivel : Int := 127
  lochanaft : Int := 0
  hichanaft : Int := 127
  lopolyaft : Int := 0
  hipolyaft : Int := 127
  loprog : Int := 0
  hiprog : Int := 127
  swPrevious : Int := -1
  locc : Fin 128 → Int := fun _ => 0
  hicc : Fin 128 → Int := fun _ => 127
  onLocc : Fin 128 → Int := fun _ => -1
  onHicc : Fin 128 → Int := fun _ => -1

structure Query where
  chan : UInt8
  key : UInt8
  vel : UInt8
  chanaft : UInt8
  polyaft : UInt8
  prog : UInt8
  prevSwKey : UInt8
  cc : Fin 128 → UInt8

/-- The cast to `int8_t`. -/
def int8 (c : UInt8) : Int := if c < 128 then c.toNat else c.toNat - 256

/-- All dimensions but control change. -/
inductive Dimension where
  | chan
  | key
  | vel
  | chanaft
  | polyaft
  | prog
  | swPrevious
  deriving DecidableEq

structure DimDef where
  lo : Region → Int
  hi : Region → Int
  qarg : Query → UInt8
  min : Int
  max : Int

/-- An entry of `dimDefs`. -/
def dimDef : Dimension → DimDef
  | .chan => ⟨Region.lochan, Region.hichan, Query.chan, 1, 16⟩
  | .key => ⟨Region.lokey, Region.hikey, Query.key, 0, 127⟩
  | .vel => ⟨Region.lovel, Region.hivel, Query.vel, 0, 127⟩
  | .chanaft => ⟨Region.lochanaft, Region.hichanaft, Query.chanaft, 0, 127⟩
  | .polyaft => ⟨Region.lopolyaft, Region.hipolyaft, Query.polyaft, 0, 127⟩
  | .prog => ⟨Region.loprog, Region.hiprog, Query.prog, 0, 127⟩
  | .swPrevious => ⟨Region.swPrevious, Region.swPrevious, Query.prevSwKey, -1, -1⟩

def dimDefs : List Dimension := [.chan, .key, .vel, .chanaft, .polyaft, .prog, .swPrevious]

/-- The limits of a controller; those of the trigger controller are narrowed. -/
def ccLo (triggercc : Option (Fin 128)) (cc : Fin 128) (r : Region) : Int :=
  if triggercc = some cc then max (r.locc cc) (r.onLocc cc) else r.locc cc

def ccHi (triggercc : Option (Fin 128)) (cc : Fin 128) (r : Region) : Int :=
  if triggercc = some cc then min (r.hicc cc) (r.onHicc cc) else r.hicc cc

/-- A dimension of the table. -/
inductive Axis where
  | dim (d : Dimension)
  | cc (cc : Fin 128)

namespace Axis

def lo (triggercc : Option (Fin 128)) : Axis → Region → Int
  | dim d => (dimDef d).lo
  | cc n => ccLo triggercc n

def hi (triggercc : Option (Fin 128)) : Axis → Region → Int
  | dim d => (dimDef d).hi
  | cc n => ccHi triggercc n

/-- The last value of a region in `fillRegionArr()`; `-1` is no limit. -/
def last (triggercc : Option (Fin 128)) : Axis → Region → Int
  | dim d, r => if (dimDef d).hi r = -1 then 127 else (dimDef d).hi r
  | cc n, r => ccHi triggercc n r

def min : Axis → Int
  | dim d => (dimDef d).min
  | cc _ => 0

def max : Axis → Int
  | dim d => if (dimDef d).max = -1 then 127 else (dimDef d).max
  | cc _ => 127

/-- The index that `query()` uses. -/
def arg : Axis → Query → Int
  | dim d, q => int8 ((dimDef d).qarg q)
  | cc n, q => (q.cc n).toNat

end Axis

/-- The set that `fillMapArr()` makes of the limits. -/
def cuts (regions : List Region) (lo hi : Region → Int) (min max : Int) : Finset Int :=
  insert min (insert (max + 1) (regions.flatMap fun r => [lo r, hi r + 1]).toFinset)

/-- The state of the loop over the cuts. -/
structure Fill where
  j : Int
  l : Int
  a : Int → Int

/-- The array gets the number of the zone up to the next cut. -/
def Fill.step (f : Fill) (cut : Int) : Fill where
  j := max f.j cut
  l := f.l + 1
  a := fun x => if f.j ≤ x ∧ x < cut then f.l else f.a x

/-- A mapping array with the number of its zones. -/
structure MapArr where
  axis : Axis
  len : Int
  a : Int → Int

instance instIsTransIntLe : IsTrans Int (· ≤ ·) := inferInstance

instance instAntisymmIntLe : Std.Antisymm fun a b : Int => a ≤ b := inferInstance

def fillMapArr (axis : Axis) (cuts : Finset Int) (min : Int) : MapArr :=
  let f := cuts.sort.foldl Fill.step { j := min, l := -1, a := fun _ => 0 }
  { axis := axis, len := f.l, a := f.a }

/-- The region is added to the cells that it covers. -/
def fillRegionArr (triggercc : Option (Fin 128)) (region : Region) :
    List MapArr → Int → (Int → List Region) → Int → List Region
  | [], j, arr => Function.update arr j (arr j ++ [region])
  | m :: maps, j, arr =>
      (countUp (m.a (m.axis.lo triggercc region)) (m.a (m.axis.last triggercc region))).foldl
        (fun arr l => fillRegionArr triggercc region maps (j * m.len + l) arr) arr

/-- The loop that multiplies the offsets in the arrays, from the last dimension on, and the
factor for the next one. For the last dimension the factor is one. -/
def multiplied : List MapArr → List MapArr × Int
  | [] => ([], 1)
  | m :: maps =>
      let (rest, c) := multiplied maps
      ({ m with a := fun x => if m.axis.min ≤ x ∧ x ≤ m.axis.max then m.a x * c else m.a x } :: rest,
        c * m.len)

structure LookupTable where
  mapArr : List MapArr
  regionArr : Int → List Region

/-- The regions that are looked up in the table. -/
def Selected (triggercc : Option (Fin 128)) (r : Region) : Prop :=
  match triggercc with
  | none => 0 ≤ r.lokey
  | some cc => r.hikey < 0 ∧ 0 ≤ r.onLocc cc ∧ 0 ≤ r.onHicc cc

instance (triggercc : Option (Fin 128)) : DecidablePred (Selected triggercc) := fun r => by
  cases triggercc with
  | none => exact inferInstanceAs (Decidable (0 ≤ r.lokey))
  | some cc => exact inferInstanceAs (Decidable (r.hikey < 0 ∧ 0 ≤ r.onLocc cc ∧ 0 ≤ r.onHicc cc))

/-- The dimensions that a region limits. -/
def dims (triggercc : Option (Fin 128)) (regions : List Region) : List Dimension :=
  dimDefs.filter fun d => regions.any fun r =>
    (triggercc = none ∨ d ≠ .key) ∧
      ((dimDef d).lo r ≠ (dimDef d).min ∨ (dimDef d).hi r ≠ (dimDef d).max)

def ccs (triggercc : Option (Fin 128)) (regions : List Region) : List (Fin 128) :=
  (List.finRange 128).filter fun cc => regions.any fun r =>
    0 < ccLo triggercc cc r ∨ ccHi triggercc cc r ≠ 127

def axes (triggercc : Option (Fin 128)) (regions : List Region) : List Axis :=
  (dims triggercc regions).map .dim ++ (ccs triggercc regions).map .cc

def mapArrs (triggercc : Option (Fin 128)) (regions : List Region) : List MapArr :=
  (axes triggercc regions).map fun axis =>
    fillMapArr axis (cuts regions (axis.lo triggercc) (axis.hi triggercc) axis.min axis.max) axis.min

/-- The biggest `int`. -/
def intMax : Int := 2147483647

namespace LookupTable

/-- The constructor. The indices and factors that it computes later are less than the
number of cells. -/
def construct (instrument : List Region) (triggercc : Option (Fin 128)) : Option LookupTable :=
  let regions := instrument.filter fun r => Selected triggercc r
  let maps := mapArrs triggercc regions
  if intMax < (maps.map MapArr.len).prod then none
  else
    some {
      mapArr := (multiplied maps).1
      regionArr := regions.foldl (fun arr r => fillRegionArr triggercc r maps 0 arr) fun _ => [] }

def query (table : LookupTable) (q : Query) : List Region :=
  table.regionArr (table.mapArr.map fun m => m.a (m.axis.arg q)).sum

end LookupTable

/-! ## Meaning -/

/-- The region takes the query: all conditions that the table looks at hold. -/
def Region.Takes (triggercc : Option (Fin 128)) (q : Query) (r : Region) : Prop :=
  (r.lochan ≤ q.chan.toNat ∧ q.chan.toNat ≤ r.hichan) ∧
    (triggercc = none → r.lokey ≤ q.key.toNat ∧ (r.hikey = -1 ∨ q.key.toNat ≤ r.hikey)) ∧
    (r.lovel ≤ q.vel.toNat ∧ q.vel.toNat ≤ r.hivel) ∧
    (r.lochanaft ≤ q.chanaft.toNat ∧ q.chanaft.toNat ≤ r.hichanaft) ∧
    (r.lopolyaft ≤ q.polyaft.toNat ∧ q.polyaft.toNat ≤ r.hipolyaft) ∧
    (r.loprog ≤ q.prog.toNat ∧ q.prog.toNat ≤ r.hiprog) ∧
    (r.swPrevious = -1 ∨ int8 q.prevSwKey = r.swPrevious) ∧
    ∀ cc, (r.locc cc ≤ (q.cc cc).toNat ∧ (q.cc cc).toNat ≤ r.hicc cc) ∧
      (triggercc = some cc → r.onLocc cc ≤ (q.cc cc).toNat ∧ (q.cc cc).toNat ≤ r.onHicc cc)

/-- Limits within the ranges of what they limit; `-1` is no limit for a key and unset for
`sw_previous` and the limits of trigger controllers. -/
@[mk_iff]
structure Region.InRange (r : Region) : Prop where
  chan : (1 ≤ r.lochan ∧ r.lochan ≤ 16) ∧ 1 ≤ r.hichan ∧ r.hichan ≤ 16
  key : (-1 ≤ r.lokey ∧ r.lokey ≤ 127) ∧ -1 ≤ r.hikey ∧ r.hikey ≤ 127
  vel : (0 ≤ r.lovel ∧ r.lovel ≤ 127) ∧ 0 ≤ r.hivel ∧ r.hivel ≤ 127
  chanaft : (0 ≤ r.lochanaft ∧ r.lochanaft ≤ 127) ∧ 0 ≤ r.hichanaft ∧ r.hichanaft ≤ 127
  polyaft : (0 ≤ r.lopolyaft ∧ r.lopolyaft ≤ 127) ∧ 0 ≤ r.hipolyaft ∧ r.hipolyaft ≤ 127
  prog : (0 ≤ r.loprog ∧ r.loprog ≤ 127) ∧ 0 ≤ r.hiprog ∧ r.hiprog ≤ 127
  swPrevious : -1 ≤ r.swPrevious ∧ r.swPrevious ≤ 127
  cc : ∀ cc, (0 ≤ r.locc cc ∧ r.locc cc ≤ 127) ∧ 0 ≤ r.hicc cc ∧ r.hicc cc ≤ 127
  on : ∀ cc, (-1 ≤ r.onLocc cc ∧ r.onLocc cc ≤ 127) ∧ -1 ≤ r.onHicc cc ∧ r.onHicc cc ≤ 127

instance (r : Region) : Decidable r.InRange := decidable_of_iff' _ (Region.inRange_iff r)

/-- A query of a channel from 1 to 16, a previous key or none, and values of seven bits. -/
structure Query.InRange (q : Query) : Prop where
  chan : 1 ≤ q.chan ∧ q.chan ≤ 16
  key : q.key < 128
  vel : q.vel < 128
  chanaft : q.chanaft < 128
  polyaft : q.polyaft < 128
  prog : q.prog < 128
  prevSwKey : q.prevSwKey < 128 ∨ q.prevSwKey = 255
  cc : ∀ cc, q.cc cc < 128

end Sfz

end LinuxSampler
