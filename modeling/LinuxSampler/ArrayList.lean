import LinuxSampler.ArrayMemory
import Mathlib.Algebra.Order.Group.Int

/-!
# The list class

`ArrayList` keeps its elements in an array of just their number, and makes a new
one whenever that changes. `resize()` copies as many elements as the new array
has, so that it reads behind the end of the old one when it makes a list longer.
-/

namespace LinuxSampler

open ArrayMemory (NULL)

/-! ## Operations -/

structure ArrayList where
  pData : ℕ
  iSize : ℕ

namespace ArrayList

/-- `Exception`, and what `new` throws for a negative length. -/
inductive Thrown where
  | exception (message : String)
  | badArrayNewLength

/-- What a call leaves of the list it is made for and of the memory. -/
structure Call (T : Type) where
  list : ArrayList
  memory : ArrayMemory T
  result : Except Thrown Unit := .ok ()

variable {T : Type} (unset : ℕ → ℕ → T)

/-- The default constructor. -/
def init : ArrayList := ⟨NULL, 0⟩

def add (l : ArrayList) (element : T) (m : ArrayMemory T) : Call T :=
  let pNewArray := m.next
  let m := m.new unset (l.iSize + 1)
  let m :=
    if l.pData ≠ NULL then (m.copy unset pNewArray l.pData l.iSize).delete l.pData else m
  { list := ⟨pNewArray, l.iSize + 1⟩, memory := m.write pNewArray l.iSize element }

def clear (l : ArrayList) (m : ArrayMemory T) : Call T :=
  if l.pData ≠ NULL then { list := ⟨NULL, 0⟩, memory := m.delete l.pData }
  else { list := l, memory := m }

/-- The loop of `remove()` over `n` elements, with `iDst`. -/
def copyWithout (dst src iPosition n : ℕ) (m : ArrayMemory T) : ArrayMemory T × ℕ :=
  (List.range n).foldl
    (fun s iSrc =>
      if iSrc = iPosition then s else (s.1.move unset dst s.2 src iSrc, s.2 + 1))
    (m, 0)

def remove (l : ArrayList) (iPosition : ℤ) (m : ArrayMemory T) : Call T :=
  if iPosition < 0 ∨ iPosition ≥ l.iSize then
    { list := l, memory := m
      result := .error (.exception "ArrayList::remove(): index out of range") }
  else if l.iSize = 1 then l.clear m
  else if l.pData ≠ NULL then
    let pNewArray := m.next
    let m := m.new unset (l.iSize - 1)
    let m := (copyWithout unset pNewArray l.pData iPosition.toNat l.iSize m).1
    { list := ⟨pNewArray, l.iSize - 1⟩, memory := m.delete l.pData }
  else { list := l, memory := m }

/-- The loop of `find()` from position `i` on, with `n` elements to go. -/
def findFrom [BEq T] (l : ArrayList) (element : T) :
    ℕ → ℕ → ArrayMemory T → Option ℕ × ArrayMemory T
  | _, 0, m => (none, m)
  | i, n + 1, m =>
      let r := m.read unset l.pData i
      if r.1 == element then (some i, r.2) else findFrom l element (i + 1) n r.2

/-- `find()`; nothing is found where it throws. -/
def find [BEq T] (l : ArrayList) (element : T) (m : ArrayMemory T) : Option ℕ × ArrayMemory T :=
  l.findFrom unset element 0 l.iSize m

/-- `remove()` for an element. -/
def removeElement [BEq T] (l : ArrayList) (element : T) (m : ArrayMemory T) : Call T :=
  match l.find unset element m with
  | (some i, m) => l.remove unset i m
  | (none, m) =>
      { list := l, memory := m
        result := .error (.exception "ArrayList::find(): could not find given element") }

def resize (l : ArrayList) (cnt : ℤ) (m : ArrayMemory T) : Call T :=
  if cnt < 0 then { list := l, memory := m, result := .error .badArrayNewLength }
  else
    let pNewArray := m.next
    let m := m.new unset cnt.toNat
    let m :=
      if l.pData ≠ NULL then (m.copy unset pNewArray l.pData cnt.toNat).delete l.pData else m
    { list := ⟨pNewArray, cnt.toNat⟩, memory := m }

/-- `copy()`, and the copy constructor. -/
def copy (list : ArrayList) (m : ArrayMemory T) : Call T :=
  if list.pData ≠ NULL then
    let pData := m.next
    { list := ⟨pData, list.iSize⟩
      memory := (m.new unset list.iSize).copy unset pData list.pData list.iSize }
  else { list := ⟨NULL, list.iSize⟩, memory := m }

/-- `operator=()` for another list. -/
def assign (l list : ArrayList) (m : ArrayMemory T) : Call T :=
  list.copy unset (l.clear m).memory

/-- `copyFlatFrom()`, the `memcpy()` of which goes through the elements. -/
def copyFlatFrom (l list : ArrayList) (m : ArrayMemory T) : Call T :=
  let n := if l.iSize < list.iSize then l.iSize else list.iSize
  { list := l, memory := m.copy unset l.pData list.pData n }

/-! ## What an operation does to the list and its array -/

/-- The list has the elements, and its array no others. -/
structure Represents (m : ArrayMemory T) (l : ArrayList) (xs : List T) : Prop where
  size : l.iSize = xs.length
  null : l.pData = NULL → xs = []
  array : l.pData ≠ NULL → m.arrays l.pData = some xs

/-- A call leaves a list with the elements `ys`. Of the arrays there were it changes none
but that of the list, and the one the list has then is not in use elsewhere. -/
structure Effect (m : ArrayMemory T) (l : ArrayList) (c : Call T) (ys : List T) : Prop where
  represents : Represents c.memory c.list ys
  wellFormed : c.memory.WellFormed
  inBounds : m.InBounds → c.memory.InBounds
  frame : ∀ p < m.next, p ≠ l.pData → c.memory.arrays p = m.arrays p
  own : c.list.pData = NULL ∨ c.list.pData = l.pData ∨ m.next ≤ c.list.pData

variable {unset} {m m' : ArrayMemory T} {l l' list : ArrayList} {xs ys b c : List T} {x : T} {n : ℕ}
  {r : Except Thrown Unit}

theorem Represents.lt_next (h : Represents m l xs) (hm : m.WellFormed) : l.pData < m.next := by
  by_cases hp : l.pData = NULL
  · exact hp ▸ hm.next_pos
  · exact (hm.of_some _ _ (h.array hp)).2

theorem Represents.ne_next (h : Represents m l xs) (hm : m.WellFormed) : m.next ≠ l.pData :=
  (h.lt_next hm).ne'

namespace Effect

/-- A call that leaves the list and the arrays as they are. -/
theorem unchanged (hm : m.WellFormed) (h : Represents m l xs) : Effect m l ⟨l, m, r⟩ xs :=
  ⟨h, hm, id, fun _ _ _ => rfl, .inr (.inl rfl)⟩

/-- A new array, with elements nobody has set. -/
theorem new (hm : m.WellFormed) :
    Effect m l ⟨⟨m.next, n⟩, m.new unset n, r⟩ ((List.range n).map (unset m.next)) where
  represents :=
    { size := by rw [List.length_map, List.length_range]
      null := fun h => absurd h hm.next_pos.ne'
      array := fun _ => Function.update_self .. }
  wellFormed := hm.new
  inBounds := id
  frame _ hp _ := Function.update_of_ne hp.ne ..
  own := .inr (.inr le_rfl)

/-- The array of the list before the call is freed. -/
theorem delete (h : Effect m l ⟨l', m', r⟩ ys) (hne : l'.pData ≠ l.pData) :
    Effect m l ⟨l', m'.delete l.pData, r⟩ ys where
  represents :=
    { h.represents with
      array := fun hp => (Function.update_of_ne hne ..).trans (h.represents.array hp) }
  wellFormed := h.wellFormed.delete
  inBounds := h.inBounds
  frame p hp hpl := (Function.update_of_ne hpl ..).trans (h.frame p hp hpl)
  own := h.own

/-- The array of the list after the call is filled. -/
theorem fill (h : Effect m l ⟨l', m', r⟩ b) {m'' : ArrayMemory T}
    (hfills : m'.Fills m'' l'.pData b c) (hnull : l'.pData ≠ NULL) (hle : c.length ≤ b.length) :
    Effect m l ⟨l', m'', r⟩ (c ++ b.drop c.length) where
  represents :=
    { size := by
        rw [h.represents.size, List.length_append, List.length_drop]
        omega
      null := fun hp => absurd hp hnull
      array := fun _ => hfills.arrays_self }
  wellFormed := hfills.wellFormed (h.represents.array hnull) h.wellFormed
  inBounds hin := hfills.inBounds (h.inBounds hin)
  frame p hp hpl := by
    have hne : p ≠ l'.pData := by
      intro heq
      rcases h.own with hown | hown | hown
      · exact hnull hown
      · exact hpl (heq.trans hown)
      · exact absurd hp (heq ▸ hown).not_gt
    exact (hfills.arrays_of_ne hne).trans (h.frame p hp hpl)
  own := h.own

/-- The array of the list after the call is filled to its end. -/
theorem fill_all (h : Effect m l ⟨l', m', r⟩ b) {m'' : ArrayMemory T}
    (hfills : m'.Fills m'' l'.pData b c) (hnull : l'.pData ≠ NULL) (heq : c.length = b.length) :
    Effect m l ⟨l', m'', r⟩ c := by
  have hfill := h.fill hfills hnull heq.le
  rwa [heq, List.drop_length, List.append_nil] at hfill

/-- One call after another one that gave out no address. -/
theorem trans {call : Call T} (h : Effect m l ⟨l', m', r⟩ xs) (hnext : m'.next = m.next)
    (hthen : Effect m' l call ys) : Effect m l call ys where
  represents := hthen.represents
  wellFormed := hthen.wellFormed
  inBounds hin := hthen.inBounds (h.inBounds hin)
  frame p hp hpl := (hthen.frame p (hnext ▸ hp) hpl).trans (h.frame p hp hpl)
  own := hnext ▸ hthen.own

end Effect

/-! ## The operations on one list -/

theorem effect_clear (hm : m.WellFormed) (h : Represents m l xs) :
    Effect m l (l.clear m) [] := by
  unfold clear
  by_cases hp : l.pData = NULL
  · rw [if_neg (not_not_intro hp)]
    exact h.null hp ▸ Effect.unchanged hm h
  · rw [if_pos hp]
    have hempty : Effect m l { list := ⟨NULL, 0⟩, memory := m } [] :=
      ⟨⟨rfl, fun _ => rfl, fun hnull => absurd rfl hnull⟩, hm, id, fun _ _ _ => rfl, .inl rfl⟩
    exact hempty.delete (Ne.symm hp)

theorem result_clear : (l.clear m).result = .ok () := by
  unfold clear
  split <;> rfl

theorem next_clear : (l.clear m).memory.next = m.next := by
  unfold clear
  split <;> rfl

/-- The elements of a new array of length `n`. -/
abbrev unsetElements (unset : ℕ → ℕ → T) (m : ArrayMemory T) (n : ℕ) : List T :=
  (List.range n).map (unset m.next)

theorem length_unsetElements : (unsetElements unset m n).length = n := by
  rw [List.length_map, List.length_range]

theorem arrays_new_next : (m.new unset n).arrays m.next = some (unsetElements unset m n) :=
  Function.update_self ..

variable (unset n) in
/-- A list that has an array has it in the memory with a new one. -/
theorem Represents.arrays_new (h : Represents m l xs) (hm : m.WellFormed) (hp : l.pData ≠ NULL) :
    (m.new unset n).arrays l.pData = some xs :=
  (Function.update_of_ne (h.ne_next hm).symm ..).trans (h.array hp)

variable (unset n r) in
/-- The new array that `add()` and `resize()` make gets the first elements of the old one. -/
theorem exists_fills (hm : m.WellFormed) (h : Represents m l xs) {k : ℕ}
    (hk : l.pData ≠ NULL → k ≤ xs.length) (hkn : k ≤ n) :
    ∃ base, Effect m l ⟨⟨m.next, n⟩, base, r⟩ (unsetElements unset m n) ∧
      base.Fills
        (if l.pData ≠ NULL then
          ((m.new unset n).copy unset m.next l.pData k).delete l.pData
        else m.new unset n)
        m.next (unsetElements unset m n) (xs.take k) := by
  by_cases hp : l.pData = NULL
  · rw [if_neg (not_not_intro hp), h.null hp, List.take_nil]
    exact ⟨m.new unset n, Effect.new hm, ArrayMemory.Fills.refl arrays_new_next⟩
  · rw [if_pos hp]
    have hfills := ArrayMemory.fills_copy unset (h.arrays_new unset n hm hp) arrays_new_next
      (hk hp) (length_unsetElements.symm ▸ hkn)
    exact ⟨(m.new unset n).delete l.pData, (Effect.new hm).delete (h.ne_next hm),
      hfills.delete (h.ne_next hm).symm⟩

variable (unset x) in
theorem effect_add (hm : m.WellFormed) (h : Represents m l xs) :
    Effect m l (l.add unset x m) (xs ++ [x]) := by
  obtain ⟨base, hbase, hfills⟩ := exists_fills unset (l.iSize + 1) (.ok ()) hm h
    (k := l.iSize) (fun _ => h.size.le) (Nat.le_succ _)
  rw [h.size, List.take_length] at hfills
  rw [h.size] at hbase
  have hwrite := hfills.write (x := x) (length_unsetElements.ge.trans_lt' (Nat.lt_succ_self _))
  rw [add, h.size]
  refine hbase.fill_all hwrite hm.next_pos.ne' ?_
  rw [length_unsetElements, List.length_append, List.length_singleton]

variable (unset) in
/-- The elements behind those that were copied are such as nobody has set. -/
theorem effect_resize (hm : m.WellFormed) (h : Represents m l xs) {cnt : ℤ} (hcnt : 0 ≤ cnt)
    (hfits : l.pData ≠ NULL → cnt ≤ l.iSize) :
    ∃ ys, Effect m l (l.resize unset cnt m) ys ∧ ys.length = cnt.toNat ∧
      ys.take (min xs.length cnt.toNat) = xs.take (min xs.length cnt.toNat) := by
  have hfits : l.pData ≠ NULL → cnt.toNat ≤ xs.length := fun hp => by
    have := hfits hp
    have := h.size
    omega
  obtain ⟨base, hbase, hfills⟩ := exists_fills unset cnt.toNat (.ok ()) hm h
    (k := cnt.toNat) hfits le_rfl
  have hlen : (xs.take cnt.toNat).length = min xs.length cnt.toNat := by
    rw [List.length_take, min_comm]
  have heffect := hbase.fill hfills hm.next_pos.ne' (by
    rw [length_unsetElements, hlen]
    exact min_le_right ..)
  rw [resize, if_neg (not_lt.2 hcnt)]
  refine ⟨_, heffect, ?_, ?_⟩
  · rw [List.length_append, List.length_drop, length_unsetElements, hlen]
    omega
  · rw [List.take_append_of_le_length hlen.ge, List.take_take, min_assoc, min_self]

/-- Without enough elements to copy, elements behind the end are read. -/
theorem not_inBounds_resize (hm : m.WellFormed) (h : Represents m l xs) {cnt : ℤ}
    (hp : l.pData ≠ NULL) (hlt : l.iSize < cnt) : ¬ (l.resize unset cnt m).memory.InBounds := by
  have hsize := h.size
  intro hin
  rw [resize, if_neg (by omega)] at hin
  dsimp only at hin
  rw [if_pos hp] at hin
  have hmem := ArrayMemory.mem_accesses_copy unset (n := cnt.toNat)
    (h.arrays_new unset cnt.toNat hm hp) (h.ne_next hm).symm (i := xs.length) (by omega)
  exact absurd (hin _ hmem) (Nat.lt_irrefl _)

/-- One more element of the first ones without one of them. -/
theorem eraseIdx_take_succ {a : List T} {i : ℕ} (h : n < a.length) :
    (a.take (n + 1)).eraseIdx i =
      if n = i then (a.take n).eraseIdx i else (a.take n).eraseIdx i ++ [a[n]] := by
  have hlen : (a.take n).length = n := by
    rw [List.length_take]
    omega
  rw [List.take_succ_eq_append_getElem h]
  by_cases hlt : i < n
  · rw [if_neg (by omega), List.eraseIdx_append_of_lt_length (by omega)]
  · rw [List.eraseIdx_append_of_length_le (by omega), hlen,
      List.eraseIdx_of_length_le (l := a.take n) (by omega)]
    by_cases hni : n = i
    · rw [if_pos hni, show i - n = 0 by omega, List.eraseIdx_cons_zero, List.append_nil]
    · rw [if_neg hni, List.eraseIdx_of_length_le (by rw [List.length_singleton]; omega)]

variable (unset) in
/-- The loop copies all elements but one. -/
theorem fills_copyWithout {dst src i : ℕ} {a : List T} (hsrc : m.arrays src = some a)
    (hdst : m.arrays dst = some b) (hne : src ≠ dst) (hi : i < a.length)
    (hb : b.length = a.length - 1) :
    m.Fills (copyWithout unset dst src i a.length m).1 dst b (a.eraseIdx i) := by
  have hloop : ∀ n ≤ a.length,
      m.Fills (copyWithout unset dst src i n m).1 dst b ((a.take n).eraseIdx i) ∧
        (copyWithout unset dst src i n m).2 = ((a.take n).eraseIdx i).length := by
    intro n
    induction n with
    | zero => exact fun _ => ⟨ArrayMemory.Fills.refl hdst, rfl⟩
    | succ n ih =>
        intro hn
        obtain ⟨hfills, hpos⟩ := ih (by omega)
        have hstep : copyWithout unset dst src i (n + 1) m =
            if n = i then copyWithout unset dst src i n m
            else ((copyWithout unset dst src i n m).1.move unset dst
              (copyWithout unset dst src i n m).2 src n,
              (copyWithout unset dst src i n m).2 + 1) := by
          rw [copyWithout, List.range_succ, List.foldl_append]
          rfl
        rw [hstep, eraseIdx_take_succ (by omega)]
        by_cases hni : n = i
        · rw [if_pos hni, if_pos hni]
          exact ⟨hfills, hpos⟩
        · rw [if_neg hni, if_neg hni, List.length_append, hpos]
          refine ⟨hfills.move unset ((hfills.arrays_of_ne hne).trans hsrc) (by omega) ?_, rfl⟩
          -- Behind the element that is left out, one place fewer is needed.
          rw [List.length_eraseIdx, List.length_take, hb]
          split <;> omega
  have hall := (hloop a.length le_rfl).1
  rwa [List.take_length] at hall

variable (unset) in
theorem effect_remove (hm : m.WellFormed) (h : Represents m l xs) {i : ℕ} (hi : i < xs.length) :
    (l.remove unset i m).result = .ok () ∧ Effect m l (l.remove unset i m) (xs.eraseIdx i) := by
  have hsize := h.size
  have hp : l.pData ≠ NULL := fun hnull => by
    rw [h.null hnull] at hi
    exact Nat.not_lt_zero _ hi
  rw [remove, if_neg (by omega)]
  by_cases hone : l.iSize = 1
  · have hnil : xs.eraseIdx i = [] := by
      refine List.eq_nil_of_length_eq_zero ?_
      rw [List.length_eraseIdx_of_lt hi]
      omega
    rw [if_pos hone, hnil]
    refine ⟨?_, effect_clear hm h⟩
    rw [clear, if_pos hp]
  · have hfills := fills_copyWithout unset (h.arrays_new unset (xs.length - 1) hm hp)
      arrays_new_next (h.ne_next hm).symm hi length_unsetElements
    have hlen : (xs.eraseIdx i).length = (unsetElements unset m (xs.length - 1)).length := by
      rw [length_unsetElements, List.length_eraseIdx_of_lt hi]
    rw [if_neg hone, if_pos hp, Int.toNat_natCast, hsize]
    exact ⟨rfl, ((Effect.new hm).fill_all hfills hm.next_pos.ne' hlen).delete (h.ne_next hm)⟩

theorem remove_of_not (unset : ℕ → ℕ → T) {iPosition : ℤ}
    (h : iPosition < 0 ∨ iPosition ≥ l.iSize) :
    l.remove unset iPosition m =
      { list := l, memory := m
        result := .error (.exception "ArrayList::remove(): index out of range") } :=
  if_pos h

variable (unset) in
theorem effect_copy (hm : m.WellFormed) (h : Represents m list xs) :
    Effect m l (list.copy unset m) xs := by
  unfold copy
  by_cases hp : list.pData = NULL
  · have hnil := h.null hp
    rw [if_neg (not_not_intro hp), hnil]
    exact ⟨⟨h.size.trans (congrArg List.length hnil), fun _ => rfl,
      fun hnull => absurd rfl hnull⟩, hm, id, fun _ _ _ => rfl, .inl rfl⟩
  · have hfills := ArrayMemory.fills_copy unset (n := xs.length)
      (h.arrays_new unset xs.length hm hp) arrays_new_next le_rfl length_unsetElements.ge
    rw [List.take_length] at hfills
    rw [if_pos hp, h.size]
    exact (Effect.new hm).fill_all hfills hm.next_pos.ne' length_unsetElements.symm

theorem result_copy : (list.copy unset m).result = .ok () := by
  unfold copy
  split <;> rfl

variable (unset) in
/-- The list assigned from is another one, with an array of its own. -/
theorem effect_assign (hm : m.WellFormed) (h : Represents m l xs) (hlist : Represents m list ys)
    (hne : list.pData = l.pData → l.pData = NULL) : Effect m l (l.assign unset list m) ys := by
  have hclear := effect_clear hm h
  refine hclear.trans next_clear (effect_copy unset hclear.wellFormed ⟨hlist.size, hlist.null, ?_⟩)
  intro hp
  have hother : list.pData ≠ l.pData := fun heq => hp (heq.trans (hne heq))
  exact (hclear.frame _ (hlist.lt_next hm) hother).trans (hlist.array hp)

variable (unset) in
theorem effect_copyFlatFrom (hm : m.WellFormed) (h : Represents m l xs)
    (hlist : Represents m list ys) :
    Effect m l (l.copyFlatFrom unset list m) (ys.take xs.length ++ xs.drop ys.length) := by
  have hn : (if l.iSize < list.iSize then l.iSize else list.iSize) =
      min xs.length ys.length := by
    rw [h.size, hlist.size]
    split <;> omega
  rw [copyFlatFrom, hn]
  rcases Nat.eq_zero_or_pos (min xs.length ys.length) with hzero | hpos
  · have hsame : ys.take xs.length ++ xs.drop ys.length = xs := by
      rcases Nat.eq_zero_or_pos xs.length with hxs | hxs
      · rw [List.eq_nil_of_length_eq_zero hxs, List.drop_nil, List.length_nil, List.take_zero,
          List.append_nil]
      · rw [List.eq_nil_of_length_eq_zero (l := ys) (by omega), List.take_nil, List.length_nil,
          List.drop_zero, List.nil_append]
    rw [hzero, hsame]
    exact Effect.unchanged hm h
  · have hp : l.pData ≠ NULL := fun hnull => by
      rw [h.null hnull, List.length_nil, Nat.zero_min] at hpos
      exact Nat.lt_irrefl _ hpos
    have hplist : list.pData ≠ NULL := fun hnull => by
      rw [hlist.null hnull, List.length_nil, Nat.min_zero] at hpos
      exact Nat.lt_irrefl _ hpos
    have hfills := ArrayMemory.fills_copy unset (hlist.array hplist) (h.array hp)
      (min_le_right xs.length ys.length) (min_le_left ..)
    have hlen : (ys.take (min xs.length ys.length)).length = min xs.length ys.length := by
      rw [List.length_take]
      omega
    have hfill := (Effect.unchanged (r := .ok ()) hm h).fill hfills hp
      (hlen.trans_le (min_le_left ..))
    have htake : ys.take (min xs.length ys.length) = ys.take xs.length := by
      rw [List.take_eq_take_iff]
      omega
    have hdrop : xs.drop (min xs.length ys.length) = xs.drop ys.length := by
      rcases Nat.le_total xs.length ys.length with hle | hle
      · rw [min_eq_left hle, List.drop_length, List.drop_of_length_le hle]
      · rw [min_eq_right hle]
    rwa [hlen, htake, hdrop] at hfill

section Find

variable [BEq T]

variable (unset x) in
/-- The loop finds the first element that is equal, reading no others than those of the list. -/
theorem effect_findFrom (i n : ℕ) (m : ArrayMemory T) (hm : m.WellFormed) (h : Represents m l xs)
    (hn : i + n = xs.length) :
    (l.findFrom unset x i n m).1 = ((xs.drop i).findIdx? (· == x)).map (· + i) ∧
      (l.findFrom unset x i n m).2.next = m.next ∧
      Effect m l ⟨l, (l.findFrom unset x i n m).2, .ok ()⟩ xs := by
  induction n generalizing i m with
  | zero =>
      rw [List.drop_of_length_le (by omega)]
      exact ⟨rfl, rfl, Effect.unchanged hm h⟩
  | succ n ih =>
      have hi : i < xs.length := by omega
      have hp : l.pData ≠ NULL := fun hnull => by
        rw [h.null hnull] at hi
        exact Nat.not_lt_zero _ hi
      have haccess : Effect m l ⟨l, m.access l.pData i, .ok ()⟩ xs :=
        ⟨⟨h.size, h.null, h.array⟩, ⟨hm.next_pos, hm.of_some⟩,
          fun hin => (ArrayMemory.inBounds_access_iff (h.array hp)).2 ⟨hin, hi⟩,
          fun _ _ _ => rfl, .inr (.inl rfl)⟩
      have hread : m.read unset l.pData i = (xs[i], m.access l.pData i) := by
        rw [ArrayMemory.read, ArrayMemory.elements_of_some (h.array hp),
          List.getElem?_eq_getElem hi, Option.getD_some]
      rw [findFrom, hread, List.drop_eq_getElem_cons hi, List.findIdx?_cons]
      dsimp only
      by_cases heq : (xs[i] == x) = true
      · rw [if_pos heq, if_pos heq]
        exact ⟨by rw [Option.map_some, Nat.zero_add], rfl, haccess⟩
      · rw [if_neg heq, if_neg heq]
        obtain ⟨hfound, hnext, heffect⟩ :=
          ih (i + 1) (m.access l.pData i) haccess.wellFormed haccess.represents (by omega)
        refine ⟨?_, hnext, haccess.trans rfl heffect⟩
        rw [hfound, Option.map_map]
        exact congrArg (Option.map · _) (funext fun j => by rw [Function.comp_apply]; omega)

variable (unset x) in
theorem effect_removeElement (hm : m.WellFormed) (h : Represents m l xs) :
    match xs.findIdx? (· == x) with
    | some i =>
        (l.removeElement unset x m).result = .ok () ∧
          Effect m l (l.removeElement unset x m) (xs.eraseIdx i)
    | none =>
        (∃ e, (l.removeElement unset x m).result = .error e) ∧
          Effect m l (l.removeElement unset x m) xs := by
  obtain ⟨hfound, hnext, heffect⟩ := effect_findFrom unset x 0 xs.length m hm h (Nat.zero_add _)
  rw [List.drop_zero, show (fun j => j + 0) = id from rfl, Option.map_id, id] at hfound
  rw [removeElement, find, h.size]
  generalize l.findFrom unset x 0 xs.length m = found at hfound hnext heffect
  obtain ⟨index, m'⟩ := found
  rcases Option.eq_none_or_eq_some (xs.findIdx? (· == x)) with hnone | ⟨i, hsome⟩
  · rw [hnone] at hfound ⊢
    obtain rfl : index = none := hfound
    exact ⟨⟨_, rfl⟩, heffect.represents, heffect.wellFormed, heffect.inBounds, heffect.frame,
      heffect.own⟩
  · rw [hsome] at hfound ⊢
    obtain rfl : index = some i := hfound
    have hi : i < xs.length := (List.findIdx?_eq_some_iff_getElem.1 hsome).1
    obtain ⟨hresult, hremove⟩ := effect_remove unset heffect.wellFormed heffect.represents hi
    exact ⟨hresult, heffect.trans hnext hremove⟩

end Find

end ArrayList

end LinuxSampler
