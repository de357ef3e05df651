import Mathlib.Data.List.Basic

/-!
# Memory with arrays

Arrays that are allocated and freed, and all accesses to their elements. An
element that nobody has set has the value `unset` gives for its address and
position, and so has what is read outside of an array.
-/

namespace LinuxSampler

/-- The arrays by their addresses, the address of the next one, and the accesses: each with
the position and the length the array had. -/
structure ArrayMemory (T : Type) where
  arrays : ℕ → Option (List T)
  next : ℕ
  accesses : List (ℕ × ℕ)

namespace ArrayMemory

variable {T : Type} (unset : ℕ → ℕ → T)

/-- The null pointer. -/
def NULL : ℕ := 0

def empty : ArrayMemory T := ⟨fun _ => none, 1, []⟩

/-- The array at an address; without one, that of no element. -/
def elements (m : ArrayMemory T) (p : ℕ) : List T := (m.arrays p).getD []

def access (m : ArrayMemory T) (p i : ℕ) : ArrayMemory T :=
  { m with accesses := m.accesses ++ [(i, (m.elements p).length)] }

/-- `new T[n]`; the array gets the address `m.next`. -/
def new (m : ArrayMemory T) (n : ℕ) : ArrayMemory T :=
  { m with
    arrays := Function.update m.arrays m.next (some ((List.range n).map (unset m.next)))
    next := m.next + 1 }

/-- `delete[] p` -/
def delete (m : ArrayMemory T) (p : ℕ) : ArrayMemory T :=
  { m with arrays := Function.update m.arrays p none }

def read (m : ArrayMemory T) (p i : ℕ) : T × ArrayMemory T :=
  ((m.elements p)[i]?.getD (unset p i), m.access p i)

def write (m : ArrayMemory T) (p i : ℕ) (x : T) : ArrayMemory T :=
  { m.access p i with
    arrays := Function.update m.arrays p ((m.arrays p).map fun xs => xs.set i x) }

/-- `dst[j] = src[i]` -/
def move (m : ArrayMemory T) (dst j src i : ℕ) : ArrayMemory T :=
  let r := m.read unset src i
  r.2.write dst j r.1

/-- The first `n` elements of an array, one after another to another one. -/
def copy (m : ArrayMemory T) (dst src n : ℕ) : ArrayMemory T :=
  (List.range n).foldl (fun m i => m.move unset dst i src i) m

/-! ## Accesses within the arrays -/

def InBounds (m : ArrayMemory T) : Prop :=
  ∀ access ∈ m.accesses, access.1 < access.2

/-- All arrays have addresses that were given out. -/
structure WellFormed (m : ArrayMemory T) : Prop where
  next_pos : NULL < m.next
  of_some : ∀ p xs, m.arrays p = some xs → NULL < p ∧ p < m.next

variable {unset} {m m' : ArrayMemory T} {p dst src i n : ℕ} {x : T} {a b c : List T}

theorem wellFormed_empty : (empty : ArrayMemory T).WellFormed := ⟨Nat.one_pos, nofun⟩

theorem elements_of_some (h : m.arrays p = some a) : m.elements p = a := by
  rw [elements, h]
  rfl

theorem WellFormed.null (h : m.WellFormed) : m.arrays NULL = none :=
  Option.eq_none_iff_forall_ne_some.2 fun xs hxs => Nat.lt_irrefl _ (h.of_some _ xs hxs).1

theorem WellFormed.new (h : m.WellFormed) : (m.new unset n).WellFormed := by
  refine ⟨Nat.lt_succ_of_lt h.next_pos, fun p xs hxs => ?_⟩
  by_cases hp : p = m.next
  · exact hp ▸ ⟨h.next_pos, Nat.lt_succ_self _⟩
  · rw [show (m.new unset n).arrays p = m.arrays p from Function.update_of_ne hp ..] at hxs
    exact (h.of_some p xs hxs).imp id Nat.lt_succ_of_lt

theorem WellFormed.delete (h : m.WellFormed) : (m.delete p).WellFormed := by
  refine ⟨h.next_pos, fun q xs hxs => h.of_some q xs ?_⟩
  by_cases hq : q = p
  · rw [hq, show (m.delete p).arrays p = none from Function.update_self ..] at hxs
    cases hxs
  · rwa [show (m.delete p).arrays q = m.arrays q from Function.update_of_ne hq ..] at hxs

theorem inBounds_access_iff (h : m.arrays p = some a) :
    (m.access p i).InBounds ↔ m.InBounds ∧ i < a.length := by
  simp only [InBounds, access, List.forall_mem_append, List.forall_mem_singleton,
    elements_of_some h]

/-! ## Filling an array -/

/-- What is written behind the first elements of an array comes before the rest. -/
theorem set_append_drop (h : c.length < b.length) :
    (c ++ b.drop c.length).set c.length x = (c ++ [x]) ++ b.drop (c ++ [x]).length := by
  rw [List.drop_eq_getElem_cons h, List.set_append_right _ _ (Nat.le_refl _), Nat.sub_self,
    List.set_cons_zero, List.length_append, List.length_singleton, List.append_assoc,
    List.singleton_append]

/-- `m'` is what comes of `m` if the first elements of the array at `dst`, which is `b`,
become those of `c`. -/
structure Fills (m m' : ArrayMemory T) (dst : ℕ) (b c : List T) : Prop where
  arrays : m'.arrays = Function.update m.arrays dst (some (c ++ b.drop c.length))
  next : m'.next = m.next
  inBounds : m.InBounds → m'.InBounds

namespace Fills

theorem refl (h : m.arrays dst = some b) : Fills m m dst b [] := by
  refine ⟨?_, rfl, id⟩
  rw [List.nil_append, List.length_nil, List.drop_zero, ← h, Function.update_eq_self]

theorem arrays_self (h : Fills m m' dst b c) : m'.arrays dst = some (c ++ b.drop c.length) := by
  rw [h.arrays, Function.update_self]

theorem arrays_of_ne (h : Fills m m' dst b c) (hp : p ≠ dst) : m'.arrays p = m.arrays p := by
  rw [h.arrays, Function.update_of_ne hp]

theorem wellFormed (h : Fills m m' dst b c) (hb : m.arrays dst = some b) (hm : m.WellFormed) :
    m'.WellFormed := by
  refine ⟨h.next ▸ hm.next_pos, fun p xs hxs => ?_⟩
  rw [h.next]
  by_cases hp : p = dst
  · exact hp ▸ hm.of_some dst b hb
  · exact hm.of_some p xs (h.arrays_of_ne hp ▸ hxs)

/-- Another array is freed before and after. -/
theorem delete (h : Fills m m' dst b c) (hne : p ≠ dst) :
    Fills (m.delete p) (m'.delete p) dst b c := by
  refine ⟨?_, h.next, h.inBounds⟩
  show Function.update m'.arrays p none = Function.update (Function.update m.arrays p none) dst _
  rw [h.arrays, Function.update_comm hne]

/-- One more element is written. -/
theorem write (h : Fills m m' dst b c) (hlt : c.length < b.length) :
    Fills m (m'.write dst c.length x) dst b (c ++ [x]) := by
  refine ⟨?_, h.next, fun hin => ?_⟩
  · show Function.update m'.arrays dst _ = _
    rw [h.arrays_self, h.arrays, Function.update_idem, Option.map_some, set_append_drop hlt]
  · refine (inBounds_access_iff h.arrays_self).2 ⟨h.inBounds hin, ?_⟩
    rw [List.length_append, List.length_drop]
    omega

/-- An access that changes nothing. -/
theorem access (h : Fills m m' dst b c) (hsrc : m'.arrays src = some a) (hi : i < a.length) :
    Fills m (m'.access src i) dst b c :=
  ⟨h.arrays, h.next, fun hin => (inBounds_access_iff hsrc).2 ⟨h.inBounds hin, hi⟩⟩

variable (unset) in
/-- One more element is moved. -/
theorem move (h : Fills m m' dst b c) (hsrc : m'.arrays src = some a) (hi : i < a.length)
    (hlt : c.length < b.length) :
    Fills m (m'.move unset dst c.length src i) dst b (c ++ [a[i]]) := by
  have hread : (m'.read unset src i).1 = a[i] := by
    rw [read, elements_of_some hsrc, List.getElem?_eq_getElem hi, Option.getD_some]
  rw [← hread]
  exact (h.access hsrc hi).write hlt

end Fills

variable (unset) in
/-- As many elements as both arrays have can be copied, also onto themselves. -/
theorem fills_copy (hsrc : m.arrays src = some a) (hdst : m.arrays dst = some b)
    (ha : n ≤ a.length) (hb : n ≤ b.length) :
    Fills m (m.copy unset dst src n) dst b (a.take n) := by
  induction n with
  | zero => exact Fills.refl hdst
  | succ n ih =>
      have hfills := ih (by omega) (by omega)
      have hlen : (a.take n).length = n := by
        rw [List.length_take]
        omega
      have hkept : (m.copy unset dst src n).arrays src = some a := by
        by_cases hsame : src = dst
        · subst hsame
          have hab : a = b := Option.some.inj (hsrc.symm.trans hdst)
          rw [hfills.arrays_self, hlen, ← hab, List.take_append_drop]
        · rw [hfills.arrays_of_ne hsame, hsrc]
      have hmove := hfills.move unset (i := n) hkept (by omega) (by omega)
      rw [hlen, ← List.take_succ_eq_append_getElem] at hmove
      rw [copy, List.range_succ, List.foldl_append]
      exact hmove

variable (unset) in
/-- All positions to copy are read, whether the array has them or not. -/
theorem mem_accesses_copy (hsrc : m.arrays src = some a) (hne : src ≠ dst) (hi : i < n) :
    (i, a.length) ∈ (m.copy unset dst src n).accesses := by
  have hloop : ∀ n, (m.copy unset dst src n).arrays src = some a ∧
      ∀ i < n, (i, a.length) ∈ (m.copy unset dst src n).accesses := by
    intro n
    induction n with
    | zero => exact ⟨hsrc, nofun⟩
    | succ n ih =>
        have hcopy : m.copy unset dst src (n + 1) =
            (m.copy unset dst src n).move unset dst n src n := by
          rw [copy, List.range_succ, List.foldl_append]
          rfl
        rw [hcopy]
        refine ⟨(Function.update_of_ne hne ..).trans ih.1, fun i hi => ?_⟩
        refine List.mem_append_left _ ?_
        rcases Nat.lt_succ_iff_lt_or_eq.1 hi with hlt | rfl
        · exact List.mem_append_left _ (ih.2 i hlt)
        · refine List.mem_append_right _ ?_
          rw [elements_of_some ih.1]
          exact List.mem_singleton_self _
  exact (hloop n).2 i hi

end ArrayMemory

end LinuxSampler
