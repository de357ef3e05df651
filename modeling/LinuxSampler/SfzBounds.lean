import LinuxSampler.SfzLoader
import LinuxSampler.SfzTableBounds
import Mathlib.Data.Fintype.Option

/-!
# Bounds of the sfz loader

Loading a file is within bounds if and only if the numbers that its keys
are compared for are really there, and in range, whenever they are used,
and the limits of the regions are in the arrays of the lookup tables
(`load_inBounds_iff`). The lists of envelope generators, nodes and
oscillators grow, so that only negative positions are out of bounds;
controllers, curve indices and limits are not checked at all.
-/

namespace LinuxSampler

namespace Sfz

open Bytes

/-! ## Loading a file -/

/-- Neither out of bounds, nor with a number that has not been read. -/
def Result.InBounds {α : Type} : Result α → Prop
  | done _ => True
  | thrown => True
  | undefined => False

instance {α : Type} (result : Result α) : Decidable result.InBounds := by
  cases result with
  | done a => exact inferInstanceAs (Decidable True)
  | thrown => exact inferInstanceAs (Decidable True)
  | undefined => exact inferInstanceAs (Decidable False)

/-- The lookup tables for notes and for each trigger controller. -/
def finish (regions : List Region) : Result (List Region) :=
  if ∀ triggercc ∈ none :: (List.finRange 128).map some,
      (LookupTable.constructIn regions triggercc).isSome then .done regions
  else .undefined

/-- What is left of a file, behind what has been read. -/
def load (objectFirst : Bytes → Bool) : Loader → List Item → Result (List Region)
  | f, [] => finish (f.allRegions.map Extent.region)
  | f, item :: items =>
      match f.push objectFirst item with
      | .done f' => load objectFirst f' items
      | .thrown => .thrown
      | .undefined => .undefined

/-! ## Targets -/

/-- The number has been read and is an index of an array. -/
def IsIndex (x : Suffix) : Prop := ∃ n, x = some n ∧ 0 ≤ n ∧ n ≤ 127

/-- The number has been read and is not negative. -/
def IsPosition (x : Suffix) : Prop := ∃ n, x = some n ∧ 0 ≤ n

/-- The numbers that are used for a target have been read and are in range. -/
def Target.Valid : Target → Prop
  | member => True
  | velcurve x => IsIndex x
  | controller _ n => 0 ≤ n ∧ n ≤ 127
  | eg x cc => IsPosition x ∧ cc ≠ some none
  | egnode x y cc => IsPosition x ∧ IsPosition y ∧ cc ≠ some none
  | lfo x cc => IsPosition x ∧ cc ≠ some none

theorem isSome_arrayIndex_iff (x : Suffix) : (arrayIndex x).isSome ↔ IsIndex x := by
  cases x with
  | none => exact iff_of_false Bool.noConfusion fun ⟨n, hn, _⟩ => Option.some_ne_none n hn.symm
  | some n =>
      unfold arrayIndex
      rw [Option.bind_some]
      by_cases hn : 0 ≤ n ∧ n < 128
      · rw [dif_pos hn]
        exact iff_of_true rfl ⟨n, rfl, hn.1, by omega⟩
      · rw [dif_neg hn]
        refine iff_of_false Bool.noConfusion ?_
        rintro ⟨m, hm, hlow, hhigh⟩
        cases hm
        omega

/-- After the loop that makes it longer, a list has every element but negative ones. -/
theorem isSome_eg_iff (e : Extent) (x : Int) : (e.eg x).isSome ↔ 0 ≤ x := by
  unfold Extent.eg
  dsimp only
  rw [List.length_append, List.length_replicate]
  split_ifs with hin
  · exact iff_of_true rfl hin.1
  · refine iff_of_false Bool.noConfusion fun hx => hin ⟨hx, ?_⟩
    push_cast
    omega

theorem isSome_lfo_iff (e : Extent) (x : Int) : (e.lfo x).isSome ↔ 0 ≤ x := by
  unfold Extent.lfo
  dsimp only
  split_ifs with hin
  · exact iff_of_true rfl hin.1
  · refine iff_of_false Bool.noConfusion fun hx => hin ⟨hx, ?_⟩
    omega

theorem isSome_egnode_iff (e : Extent) (x y : Int) : (e.egnode x y).isSome ↔ 0 ≤ x ∧ 0 ≤ y := by
  unfold Extent.egnode
  have hx := isSome_eg_iff e x
  cases heg : e.eg x with
  | none =>
      rw [heg] at hx
      exact iff_of_false Bool.noConfusion fun hin => Bool.noConfusion (hx.mpr hin.1)
  | some e' =>
      rw [heg] at hx
      have hx := hx.mp rfl
      show (if _ then some _ else none : Option Extent).isSome ↔ _
      split_ifs with hin
      · exact iff_of_true rfl ⟨hx, hin.1⟩
      · refine iff_of_false Bool.noConfusion fun hy => hin ⟨hy.2, ?_⟩
        omega

/-- A number that has been read is used. -/
theorem isSome_bind_iff {α : Type} {x : Suffix} {f : Int → Option α} {P : Int → Prop}
    (h : ∀ n, (f n).isSome ↔ P n) : (x.bind f).isSome ↔ ∃ n, x = some n ∧ P n := by
  cases x with
  | none => exact iff_of_false Bool.noConfusion fun ⟨n, hn, _⟩ => Option.some_ne_none n hn.symm
  | some n =>
      rw [Option.bind_some, h]
      constructor
      · exact fun hn => ⟨n, rfl, hn⟩
      · rintro ⟨m, hm, hP⟩
        rw [Option.some.inj hm]
        exact hP

theorem isSome_ite_iff {α : Type} {c : Prop} [Decidable c] {x : Option α} :
    (if c then none else x).isSome ↔ x.isSome ∧ ¬c := by
  by_cases hc : c
  · rw [if_pos hc]
    exact iff_of_false Bool.noConfusion fun h => h.2 hc
  · rw [if_neg hc]
    exact (and_iff_left hc).symm

theorem Target.isSome_set_iff (target : Target) (key : Bytes) (n : Int) (e : Extent) :
    (target.set key n e).isSome ↔ target.Valid := by
  cases target with
  | member => exact iff_of_true rfl trivial
  | velcurve x =>
      refine Iff.trans ?_ (isSome_arrayIndex_iff x)
      rw [Target.set, Option.isSome_map]
  | controller name x =>
      rw [Target.set, Option.isSome_map, isSome_arrayIndex_iff]
      constructor
      · rintro ⟨m, hm, hlow, hhigh⟩
        cases hm
        exact ⟨hlow, hhigh⟩
      · exact fun hx => ⟨x, rfl, hx⟩
  | eg x cc => exact isSome_ite_iff.trans (and_congr_left fun _ => isSome_bind_iff (isSome_eg_iff e))
  | egnode x y cc =>
      refine isSome_ite_iff.trans ?_
      rw [Target.Valid, ← and_assoc]
      refine and_congr_left fun _ => ?_
      refine (isSome_bind_iff fun x => isSome_bind_iff fun y => isSome_egnode_iff e x y).trans ?_
      constructor
      · rintro ⟨m, hm, k, hk, hin⟩
        exact ⟨⟨m, hm, hin.1⟩, k, hk, hin.2⟩
      · rintro ⟨⟨m, hm, hx⟩, k, hk, hy⟩
        exact ⟨m, hm, k, hk, hx, hy⟩
  | lfo x cc => exact isSome_ite_iff.trans (and_congr_left fun _ => isSome_bind_iff (isSome_lfo_iff e))

/-! ## Opcodes -/

namespace Loader

/-- An opcode of a curve is cut short, or its index is out of range, only if its value cannot
be read. -/
def CurveFits (key value : Bytes) : Prop :=
  isFloat value = true → ¬CutShort (bytes "v") (cStr key) ∧
    ∀ n rest, sscanf (bytes "v") (cStr key) = .number n rest → 0 ≤ n ∧ n ≤ 127

/-- What the key of an opcode is compared with does not end before a number that a pointer is
computed from; and if the value is read, or the target is evaluated before it, the numbers
for the target are there and in range. -/
def OpcodeFits (objectFirst : Bytes → Bool) (f : Loader) (token : Bytes) : Prop :=
  f.section_ ≠ .unknown → ∀ value, applyMacros f.macros none (valueOf token) = some value →
    if f.section_ = .curve then CurveFits (keyOf token) value
    else
      dispatch f.macros (keyOf token) ≠ .wild ∧
        ∀ target kind, dispatch f.macros (keyOf token) = .value target kind →
          (f.read kind value).isSome ∨ (objectFirst (keyOf token) ∧ target.inList) → target.Valid

theorem isIndex_suffix_iff (n : Int) : IsIndex (suffix n) ↔ 0 ≤ n ∧ n ≤ 127 := by
  unfold suffix
  by_cases hn : IsInt n
  · rw [if_pos hn]
    constructor
    · rintro ⟨m, hm, hin⟩
      rw [Option.some.inj hm]
      exact hin
    · exact fun hin => ⟨n, rfl, hin⟩
  · rw [if_neg hn]
    refine iff_of_false ?_ fun hin => hn ?_
    · rintro ⟨m, hm, -⟩
      exact Option.some_ne_none m hm.symm
    · unfold IsInt intMax
      omega

/-- The value of a curve point is read, then its array element is written. -/
theorem curvePoint_inBounds_iff (f : Loader) (value : Bytes) (x : Suffix) :
    (if isFloat value then
        match arrayIndex x with
        | some _ => .done f
        | none => .undefined
      else .thrown : Result Loader).InBounds ↔ (isFloat value = true → IsIndex x) := by
  have hindex := isSome_arrayIndex_iff x
  by_cases hvalue : isFloat value = true
  · rw [if_pos hvalue]
    refine Iff.trans ?_ (hindex.trans (imp_iff_right hvalue).symm)
    cases arrayIndex x with
    | none => exact iff_of_false id Bool.noConfusion
    | some i => exact iff_of_true trivial rfl
  · rw [if_neg hvalue]
    exact iff_of_true trivial fun h => absurd h hvalue

theorem pushCurve_inBounds_iff (f : Loader) (key value : Bytes) :
    (f.pushCurve key value).InBounds ↔ CurveFits key value := by
  have hended := sscanf_eq_ended_iff (bytes "v") (cStr key)
  have haccess := curvePoint_inBounds_iff f value
  unfold pushCurve CurveFits
  rw [← hended]
  cases hscan : sscanf (bytes "v") (cStr key) with
  | mismatch =>
      refine iff_of_true trivial fun _ => ⟨Scanned.noConfusion, ?_⟩
      exact fun n rest hn => Scanned.noConfusion hn
  | ended =>
      refine (haccess none).trans (imp_congr_right fun _ => ?_)
      refine iff_of_false ?_ fun h => h.1 rfl
      rintro ⟨n, hn, -⟩
      exact Option.some_ne_none n hn.symm
  | number n rest =>
      refine (haccess (suffix n)).trans (imp_congr_right fun _ => ?_)
      rw [isIndex_suffix_iff]
      constructor
      · refine fun hin => ⟨Scanned.noConfusion, fun m rest' hm => ?_⟩
        rw [← (Scanned.number.inj hm).1]
        exact hin
      · exact fun h => h.2 n rest rfl

theorem assign_inBounds_iff (f : Loader) (objectFirst : Bool) (target : Target) (key : Bytes)
    (n? : Option Int) :
    (f.assign objectFirst target key n?).InBounds ↔
      (n?.isSome ∨ (objectFirst ∧ target.inList) → target.Valid) := by
  cases n? with
  | some n =>
      have hset := target.isSome_set_iff key n f.current
      have hread : ((some n).isSome ∨ (objectFirst ∧ target.inList) → target.Valid) ↔
          target.Valid :=
        ⟨fun h => h (.inl rfl), fun h _ => h⟩
      rw [hread, ← hset]
      unfold assign
      dsimp only
      cases target.set key n f.current with
      | some e => exact iff_of_true trivial rfl
      | none => exact iff_of_false id Bool.noConfusion
  | none =>
      have hset := target.isSome_set_iff key 0 f.current
      unfold assign
      dsimp only
      split_ifs with hearly
      · obtain ⟨hfirst, hlist, hnone⟩ := hearly
        rw [hnone] at hset
        refine iff_of_false id fun h => ?_
        exact Bool.noConfusion (hset.mpr (h (.inr ⟨hfirst, hlist⟩)))
      · refine iff_of_true trivial ?_
        rintro (hread | ⟨hfirst, hlist⟩)
        · exact Bool.noConfusion hread
        · refine hset.mp (Option.isSome_iff_ne_none.mpr fun hnone => ?_)
          exact hearly ⟨hfirst, hlist, hnone⟩

theorem pushOpcode_inBounds_iff (objectFirst : Bytes → Bool) (f : Loader) (token : Bytes) :
    (f.pushOpcode objectFirst token).InBounds ↔ f.OpcodeFits objectFirst token := by
  unfold pushOpcode OpcodeFits
  by_cases hunknown : f.section_ = .unknown
  · rw [if_pos hunknown]
    exact iff_of_true trivial fun hne => absurd hunknown hne
  rw [if_neg hunknown]
  refine Iff.trans ?_ (forall_prop_of_true hunknown).symm
  cases hvalue : applyMacros f.macros none (valueOf token) with
  | none => exact iff_of_true trivial fun value h => (Option.some_ne_none value h.symm).elim
  | some value =>
      dsimp only
      have hone : ∀ {P : Bytes → Prop}, (∀ v, some value = some v → P v) ↔ P value :=
        ⟨fun h => h value rfl, fun h v hv => Option.some.inj hv ▸ h⟩
      rw [hone]
      by_cases hcurve : f.section_ = .curve
      · rw [if_pos hcurve, if_pos hcurve]
        exact pushCurve_inBounds_iff f _ _
      rw [if_neg hcurve, if_neg hcurve]
      cases hdispatch : dispatch f.macros (keyOf token) with
      | ignored =>
          refine iff_of_true trivial ⟨Dispatched.noConfusion, ?_⟩
          exact fun target kind h => Dispatched.noConfusion h
      | thrown =>
          refine iff_of_true trivial ⟨Dispatched.noConfusion, ?_⟩
          exact fun target kind h => Dispatched.noConfusion h
      | wild => exact iff_of_false id fun h => h.1 rfl
      | value target kind =>
          refine (assign_inBounds_iff f _ target _ _).trans ?_
          constructor
          · refine fun h => ⟨Dispatched.noConfusion, fun target' kind' heq => ?_⟩
            cases heq
            exact h
          · exact fun h => h.2 target kind rfl

end Loader

/-! ## Files -/

theorem finish_inBounds_iff (regions : List Region) :
    (finish regions).InBounds ↔ ∀ triggercc, TableFits triggercc regions := by
  have hall : (∀ triggercc ∈ none :: (List.finRange 128).map some,
      (LookupTable.constructIn regions triggercc).isSome) ↔
        ∀ triggercc, TableFits triggercc regions := by
    simp only [LookupTable.constructIn_isSome_iff]
    refine forall_congr' fun triggercc => forall_prop_of_true ?_
    cases triggercc with
    | none => exact List.mem_cons_self
    | some cc => exact List.mem_cons_of_mem _ (List.mem_map_of_mem (List.mem_finRange cc))
  unfold finish
  rw [← hall]
  split_ifs with hbuilt
  · exact iff_of_true trivial hbuilt
  · exact iff_of_false id hbuilt

/-- Every opcode that the loader comes to fits the state that it is in, and so do the regions
if it comes to the end of the file. -/
def Fits (objectFirst : Bytes → Bool) : Loader → List Item → Prop
  | f, [] => ∀ triggercc, TableFits triggercc (f.allRegions.map Extent.region)
  | f, item :: items =>
      (∀ token, item = .opcode token → f.OpcodeFits objectFirst token) ∧
        ∀ f', f.push objectFirst item = .done f' → Fits objectFirst f' items

theorem push_inBounds_iff (objectFirst : Bytes → Bool) (f : Loader) (item : Item) :
    (f.push objectFirst item).InBounds ↔
      ∀ token, item = .opcode token → f.OpcodeFits objectFirst token := by
  cases item with
  | define name value => exact iff_of_true trivial fun token h => Item.noConfusion h
  | header token => exact iff_of_true trivial fun token h => Item.noConfusion h
  | opcode token =>
      refine (f.pushOpcode_inBounds_iff objectFirst token).trans ⟨fun h token' heq => ?_, ?_⟩
      · rw [← Item.opcode.inj heq]
        exact h
      · exact fun h => h token rfl

/-- A file is loaded within bounds, and with numbers that stand in its keys, if and only if
its opcodes and regions fit. -/
theorem load_inBounds_iff (objectFirst : Bytes → Bool) (f : Loader) (items : List Item) :
    (load objectFirst f items).InBounds ↔ Fits objectFirst f items := by
  induction items generalizing f with
  | nil => exact finish_inBounds_iff _
  | cons item items ih =>
      have hpush := push_inBounds_iff objectFirst f item
      unfold load Fits
      rw [← hpush]
      cases hstep : f.push objectFirst item with
      | done f' =>
          refine (ih f').trans ⟨fun h => ⟨trivial, fun f'' heq => ?_⟩, ?_⟩
          · rw [← Result.done.inj heq]
            exact h
          · exact fun h => h.2 f' rfl
      | thrown => exact iff_of_true trivial ⟨trivial, fun f' heq => nomatch heq⟩
      | undefined => exact iff_of_false id fun h => h.1

/-- The controller 200 is reported as invalid, and set. -/
theorem not_load_inBounds :
    ¬∀ (objectFirst : Bytes → Bool) (items : List Item), (load objectFirst {} items).InBounds := by
  intro h
  have hload := h (fun _ => false) [.header (bytes "<region>"), .opcode (bytes "locc200=5")]
  revert hload
  decide +kernel

end Sfz

end LinuxSampler
