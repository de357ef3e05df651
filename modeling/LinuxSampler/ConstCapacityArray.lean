import Mathlib.Algebra.Group.Nat.Defs
import Mathlib.Data.List.Nodup
import Mathlib.Data.List.Range

/-!
# Arrays of constant capacity

`ConstCapacityArray::remove()` moves as many elements down as it removes,
instead of all that follow the removed ones. Elements further behind stay where
they were, and if fewer follow than are removed, what it moves was never part
of the array.
-/

namespace LinuxSampler

/-- The members of `ConstCapacityArray`; `data` goes on with the memory behind the array. -/
structure ConstCapacityArray (T : Type) where
  data : ℕ → T
  capacity : ℕ
  size : ℕ
  size_le : size ≤ capacity

namespace ConstCapacityArray

variable {T : Type}

/-- The elements the array holds. -/
def contents (a : ConstCapacityArray T) : List T := (List.range a.size).map a.data

def append (a : ConstCapacityArray T) (element : T) : ConstCapacityArray T :=
  if h : a.size = a.capacity then a
  else
    { a with
      data := Function.update a.data a.size element
      size := a.size + 1
      size_le := Nat.lt_of_le_of_ne a.size_le h }

/-- The loop of `remove()`, which moves `count` elements. -/
def moveDown (data : ℕ → T) (index count : ℕ) : ℕ → T :=
  (List.range count).foldl
    (fun data i => Function.update data (index + i) (data (index + i + count))) data

def remove (a : ConstCapacityArray T) (index count : ℕ) : ConstCapacityArray T :=
  if index ≥ a.size ∨ index + count > a.size then a
  else
    { a with
      data := moveDown a.data index count
      size := a.size - count
      size_le := (Nat.sub_le ..).trans a.size_le }

section Lookup

variable [DecidableEq T]

def contains (a : ConstCapacityArray T) (value : T) : Bool :=
  (List.range a.size).any (a.data · = value)

/-- The index of an element, if there is one with the value. -/
def find (a : ConstCapacityArray T) (value : T) : Option ℕ :=
  (List.range a.size).find? (a.data · = value)

/-! ## What the operations do -/

omit [DecidableEq T] in
theorem mem_contents {a : ConstCapacityArray T} {x : T} :
    x ∈ a.contents ↔ ∃ i < a.size, a.data i = x := by
  simp only [contents, List.mem_map, List.mem_range]

theorem contains_iff {a : ConstCapacityArray T} {value : T} :
    a.contains value = true ↔ value ∈ a.contents := by
  simp only [contains, mem_contents, List.any_eq_true, List.mem_range, decide_eq_true_eq]

omit [DecidableEq T] in
theorem append_of_full {a : ConstCapacityArray T} (h : a.size = a.capacity) (element : T) :
    a.append element = a :=
  dif_pos h

omit [DecidableEq T] in
theorem contents_append {a : ConstCapacityArray T} (h : a.size < a.capacity) (element : T) :
    (a.append element).contents = a.contents ++ [element] := by
  rw [append, dif_neg h.ne, contents, contents]
  dsimp only
  rw [List.range_succ, List.map_append]
  refine congrArg₂ (· ++ ·) (List.map_congr_left fun i hi => ?_) ?_
  · exact Function.update_of_ne (List.mem_range.1 hi).ne ..
  · rw [List.map_singleton, Function.update_self]

omit [DecidableEq T] in
/-- Within the range elements come from behind it, all others stay. -/
theorem moveDown_apply (data : ℕ → T) (index count j : ℕ) :
    moveDown data index count j =
      if index ≤ j ∧ j < index + count then data (j + count) else data j := by
  have hloop : ∀ n ≤ count, ∀ j, (List.range n).foldl
      (fun data i => Function.update data (index + i) (data (index + i + count))) data j =
        if index ≤ j ∧ j < index + n then data (j + count) else data j := by
    intro n
    induction n with
    | zero => exact fun _ j => (if_neg (by omega)).symm
    | succ n ih =>
        intro hn j
        rw [List.range_succ, List.foldl_append]
        show Function.update _ (index + n) _ j = _
        by_cases hj : j = index + n
        · subst hj
          rw [Function.update_self, ih (by omega), if_neg (by omega), if_pos (by omega)]
        · rw [Function.update_of_ne hj, ih (by omega)]
          exact if_congr (by omega) rfl rfl
  exact hloop count le_rfl j

omit [DecidableEq T] in
theorem size_remove_le (a : ConstCapacityArray T) (index count : ℕ) :
    (a.remove index count).size ≤ a.size := by
  unfold remove
  split
  · exact le_rfl
  · exact Nat.sub_le ..

omit [DecidableEq T] in
theorem length_contents (a : ConstCapacityArray T) : a.contents.length = a.size := by
  rw [contents, List.length_map, List.length_range]

omit [DecidableEq T] in
theorem getElem_contents {a : ConstCapacityArray T} {j : ℕ} (h : j < a.contents.length) :
    a.contents[j] = a.data j := by
  simp only [contents, List.getElem_map, List.getElem_range]

omit [DecidableEq T] in
/-- The contents without a range, read from the memory they come from. -/
theorem take_append_drop_contents {a : ConstCapacityArray T} {index count : ℕ}
    (h : index + count ≤ a.size) :
    a.contents.take index ++ a.contents.drop (index + count) =
      (List.range (a.size - count)).map
        fun j => if j < index then a.data j else a.data (j + count) := by
  refine List.ext_getElem ?_ fun j hleft hright => ?_
  · rw [List.length_append, List.length_take, List.length_drop, length_contents,
      List.length_map, List.length_range]
    omega
  · have hj : j < a.size - count := by
      rwa [List.length_map, List.length_range] at hright
    rw [List.getElem_map, List.getElem_range]
    have htake : (a.contents.take index).length = index := by
      rw [List.length_take, length_contents]
      omega
    by_cases hlt : j < index
    · rw [if_pos hlt, List.getElem_append_left (by omega), List.getElem_take, getElem_contents]
    · rw [if_neg hlt, List.getElem_append_right (by omega), List.getElem_drop, getElem_contents,
        htake]
      exact congrArg a.data (by omega)

end Lookup

/-! ## Removing a range -/

/-- What a call of `remove()` leaves behind the pointer and as the size, and the
positions it read. -/
structure Removal (T : Type) where
  data : ℕ → T
  size : ℕ
  reads : List ℕ

/-- The loop of `remove()` with the positions it reads; positions are of type `size_t`. -/
def moveDownReading (data : ℕ → T) (index count : UInt64) : (ℕ → T) × List ℕ :=
  (List.range count.toNat).foldl
    (fun m i =>
      let source := (index + UInt64.ofNat i + count).toNat
      (Function.update m.1 (index + UInt64.ofNat i).toNat (m.1 source), m.2 ++ [source]))
    (data, [])

/-- `remove()` with the sums and differences that `size_t` has. -/
def removeCall (a : ConstCapacityArray T) (index count : UInt64) : Removal T :=
  if index.toNat ≥ a.size ∨ (index + count).toNat > a.size then ⟨a.data, a.size, []⟩
  else
    let moved := moveDownReading a.data index count
    ⟨moved.1, (UInt64.ofNat a.size - count).toNat, moved.2⟩

/-- Without an overflow the loop is that over natural numbers. -/
theorem moveDownReading_eq (data : ℕ → T) {index count : UInt64}
    (h : index.toNat + count.toNat + count.toNat ≤ 2 ^ 64) :
    moveDownReading data index count =
      (moveDown data index.toNat count.toNat,
        (List.range count.toNat).map (index.toNat + · + count.toNat)) := by
  have hloop : ∀ n ≤ count.toNat, (List.range n).foldl
      (fun m i =>
        let source := (index + UInt64.ofNat i + count).toNat
        (Function.update m.1 (index + UInt64.ofNat i).toNat (m.1 source), m.2 ++ [source]))
      (data, []) =
        ((List.range n).foldl
          (fun data i => Function.update data (index.toNat + i)
            (data (index.toNat + i + count.toNat))) data,
        (List.range n).map (index.toNat + · + count.toNat)) := by
    intro n
    induction n with
    | zero => exact fun _ => rfl
    | succ n ih =>
        intro hn
        have hpos : (index + UInt64.ofNat n).toNat = index.toNat + n := by
          rw [UInt64.toNat_add, UInt64.toNat_ofNat', Nat.mod_eq_of_lt (a := n) (by omega),
            Nat.mod_eq_of_lt (by omega)]
        have hsource : (index + UInt64.ofNat n + count).toNat = index.toNat + n + count.toNat := by
          rw [UInt64.toNat_add, hpos, Nat.mod_eq_of_lt (by omega)]
        simp only [List.range_succ, List.foldl_append, List.map_append, ih (by omega), hpos,
          hsource, List.foldl_cons, List.foldl_nil, List.map_cons, List.map_nil]
  exact hloop count.toNat le_rfl

/-- A call with a range of the array removes just that range and reads no position at
or behind the end, and a call with any other range changes nothing. -/
structure RemovesRange (a : ConstCapacityArray T) (index count : ℕ) (r : Removal T) : Prop where
  contents : index + count ≤ a.size →
    (List.range r.size).map r.data = a.contents.take index ++ a.contents.drop (index + count)
  size : index + count ≤ a.size → r.size = a.size - count
  reads : index + count ≤ a.size → ∀ position ∈ r.reads, position < a.size
  unchanged : a.size < index + count → r.data = a.data ∧ r.size = a.size

variable {a : ConstCapacityArray T} {index count : UInt64}

theorem removeCall_of_guarded
    (h : index.toNat ≥ a.size ∨ (index + count).toNat > a.size) :
    removeCall a index count = ⟨a.data, a.size, []⟩ :=
  if_pos h

/-- A call with a range of the array runs the loop. -/
theorem removeCall_of_le (ha : a.capacity < 2 ^ 63) (hlt : index.toNat < a.size)
    (hle : index.toNat + count.toNat ≤ a.size) :
    removeCall a index count =
      ⟨moveDown a.data index.toNat count.toNat, a.size - count.toNat,
        (List.range count.toNat).map (index.toNat + · + count.toNat)⟩ := by
  have hsize := a.size_le
  have hsum : (index + count).toNat = index.toNat + count.toNat := by
    rw [UInt64.toNat_add, Nat.mod_eq_of_lt (by omega)]
  have hof : (UInt64.ofNat a.size).toNat = a.size := by
    rw [UInt64.toNat_ofNat', Nat.mod_eq_of_lt (by omega)]
  have hdiff : (UInt64.ofNat a.size - count).toNat = a.size - count.toNat := by
    rw [UInt64.toNat_sub_of_le _ _ (UInt64.le_iff_toNat_le.2 (by omega)), hof]
  rw [removeCall, if_neg (by omega), moveDownReading_eq a.data (by omega), hdiff]

/-- If the sum overflows, the size grows. -/
theorem size_removeCall_of_overflow (ha : a.capacity < 2 ^ 63) (hlt : index.toNat < a.size)
    (hover : 2 ^ 64 ≤ index.toNat + count.toNat) :
    a.size < (removeCall a index count).size := by
  have hsize := a.size_le
  have hcount := count.toNat_lt
  have hsum : (index + count).toNat = index.toNat + count.toNat - 2 ^ 64 := by
    rw [UInt64.toNat_add]
    omega
  have hof : (UInt64.ofNat a.size).toNat = a.size := by
    rw [UInt64.toNat_ofNat', Nat.mod_eq_of_lt (by omega)]
  rw [removeCall, if_neg (by omega)]
  show a.size < (UInt64.ofNat a.size - count).toNat
  rw [UInt64.toNat_sub, hof]
  omega

/-- The positions the loop reads are all within the array if as many elements follow
the range as it has. -/
theorem reads_lt_iff {size index count : ℕ} :
    (∀ position ∈ (List.range count).map (index + · + count), position < size) ↔
      count = 0 ∨ index + 2 * count ≤ size := by
  simp only [List.forall_mem_map, List.mem_range]
  constructor
  · intro h
    by_contra hnot
    have := h (count - 1) (by omega)
    omega
  · intro h i hi
    omega

/-- The loop leaves the array without the range if each element it does not move is
that which had to come there. -/
theorem contents_moveDown_iff {index count : ℕ} (h : index + count ≤ a.size) :
    (List.range (a.size - count)).map (moveDown a.data index count) =
        a.contents.take index ++ a.contents.drop (index + count) ↔
      ∀ j, index + count ≤ j → j + count < a.size → a.data j = a.data (j + count) := by
  rw [take_append_drop_contents h, List.map_inj_left]
  simp only [List.mem_range, moveDown_apply]
  constructor
  · intro hsame j hj hlt
    have := hsame j (by omega)
    rwa [if_neg (by omega), if_neg (by omega)] at this
  · intro hsame j hj
    by_cases hbefore : j < index
    · rw [if_neg (by omega), if_pos hbefore]
    · rw [if_neg hbefore]
      by_cases hmoved : j < index + count
      · rw [if_pos (by omega)]
      · rw [if_neg (by omega)]
        exact hsame j (by omega) (by omega)

variable (a index count) in
/-- A call removes the range it is given exactly if the range is empty, or at least as many
elements follow it as it has and those further behind repeat with its length. A call with
any other range is ignored unless it overflows. -/
theorem removesRange_removeCall_iff (ha : a.capacity < 2 ^ 63) :
    RemovesRange a index.toNat count.toNat (removeCall a index count) ↔
      index.toNat + count.toNat ≤ a.size ∧
          (count.toNat = 0 ∨ index.toNat + 2 * count.toNat ≤ a.size ∧
            ∀ j, index.toNat + count.toNat ≤ j → j + count.toNat < a.size →
              a.data j = a.data (j + count.toNat)) ∨
        a.size < index.toNat + count.toNat ∧
          (a.size ≤ index.toNat ∨ index.toNat + count.toNat < 2 ^ 64) := by
  have hsize := a.size_le
  rcases Nat.lt_or_ge a.size (index.toNat + count.toNat) with hout | hin
  · constructor
    · intro h
      refine .inr ⟨hout, ?_⟩
      by_contra hnot
      have hgrows : a.size < (removeCall a index count).size :=
        size_removeCall_of_overflow ha (by omega) (by omega)
      exact absurd (h.unchanged hout).2 hgrows.ne'
    · rintro (⟨hin, -⟩ | ⟨-, hcond⟩)
      · exact absurd hin hout.not_ge
      · have hguard : index.toNat ≥ a.size ∨ (index + count).toNat > a.size := by
          refine hcond.imp id fun hlt => ?_
          rw [UInt64.toNat_add, Nat.mod_eq_of_lt hlt]
          exact hout
        rw [removeCall_of_guarded hguard]
        exact ⟨fun hin => absurd hin hout.not_ge, fun hin => absurd hin hout.not_ge,
          fun hin => absurd hin hout.not_ge, fun _ => ⟨rfl, rfl⟩⟩
  · rw [or_iff_left fun h => hin.not_gt h.1, and_iff_right hin]
    rcases Nat.lt_or_ge index.toNat a.size with hlt | hge
    · rw [removeCall_of_le ha hlt hin]
      constructor
      · intro h
        refine (reads_lt_iff.1 (h.reads hin)).imp id fun hle => ⟨hle, ?_⟩
        exact (contents_moveDown_iff hin).1 (h.contents hin)
      · intro h
        refine ⟨fun _ => (contents_moveDown_iff hin).2 ?_, fun _ => rfl,
          fun _ => reads_lt_iff.2 (h.imp id And.left), fun hout => absurd hin hout.not_ge⟩
        rcases h with hzero | ⟨-, hrepeats⟩
        · intro j _ _
          rw [hzero, Nat.add_zero]
        · exact hrepeats
    · have hzero : count.toNat = 0 := by omega
      have hend : index.toNat = a.size := by omega
      rw [removeCall_of_guarded (.inl hge), hzero, hend]
      refine ⟨fun _ => .inl rfl, fun _ => ⟨fun _ => ?_, fun _ => rfl, fun _ => nofun,
        fun _ => ⟨rfl, rfl⟩⟩⟩
      rw [Nat.add_zero, List.take_append_drop]
      rfl

/-- The numbers 1 to 3 in an array with one place left. -/
def oneToThree : ConstCapacityArray ℕ := ⟨(· + 1), 4, 3, by decide⟩

theorem removesRange_oneToThree : RemovesRange oneToThree 1 1 (removeCall oneToThree 1 1) :=
  (removesRange_removeCall_iff oneToThree 1 1 (by decide)).2
    (.inl ⟨by decide, .inr ⟨by decide, fun _ hj hlt =>
      absurd hlt (Nat.not_lt.2 (Nat.succ_le_succ hj))⟩⟩)

/-- Without its first element the array is 2 and 2, instead of 2 and 3. -/
theorem not_removesRange_oneToThree :
    ¬ RemovesRange oneToThree 0 1 (removeCall oneToThree 0 1) :=
  fun h => absurd (h.contents (by decide)) (by decide)

end ConstCapacityArray

end LinuxSampler
