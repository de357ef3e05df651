import LinuxSampler.PoolId

/-!
# Using a pool

What each list operation does to the lists of a pool, in the shape in
which the owner of some of the lists needs it: the element concerned is
known by its index, and what is known of the IDs goes along.

An operation that succeeds has taken elements from its pools, and one that
fails has given back what it took (`Pool.Takes`). Both are stated by what the lists
of a pool hold before and after, whatever lists an element has been on meanwhile.

A search steps an iterator to the end of its list, or leaves at the first
element that will do (`Pool.search`). An iterator that was kept from an earlier
search goes on in the list that its element is in now.
-/

namespace LinuxSampler

open DoublyLinked

section Operations

variable {ι : Type*} [DecidableEq ι] {P : Pool ι} {L : Lists ι} {l : ListId ι} {i j n r : ℕ}
  {it itDst : Iterator ι} {A B : List ℕ}

namespace Lists

/-- An element moves to the end of a list. -/
def moveTo (L : Lists ι) (l : ListId ι) (i : ℕ) : Lists ι := (L.remove i).putLast l [i]

theorem mem_moveTo {l' : ListId ι} (hn : (L l').Nodup) :
    j ∈ L.moveTo l i l' ↔ j ≠ i ∧ j ∈ L l' ∨ l' = l ∧ j = i := by
  rw [moveTo, mem_putLast, mem_remove hn, List.mem_singleton]

/-- A list that neither loses nor gets the element is as before. -/
theorem mem_moveTo_of_ne {l' : ListId ι} (hn : (L l').Nodup) (hi : i ∉ L l') (hl : l' ≠ l) :
    j ∈ L.moveTo l i l' ↔ j ∈ L l' := by
  rw [mem_moveTo hn]
  simp only [hl, false_and, or_false, and_iff_right_iff_imp]
  rintro hj rfl
  exact hi hj

/-- Back to the end of the list it was taken from. -/
theorem moveTo_moveTo_last {l' : ListId ι} (hn : ∀ l, (L l).Nodup) (hl : l ≠ l')
    (hlast : (L l').getLast? = some i) (hi : ∀ l, l ≠ l' → i ∉ L l) :
    (L.moveTo l i).moveTo l' i = L := by
  obtain ⟨A, hA⟩ := List.getLast?_eq_some_iff.mp hlast
  have hnotin : i ∉ A := by
    have hnodup := hn l'
    rw [hA] at hnodup
    exact fun hmem => List.disjoint_of_nodup_append hnodup hmem List.mem_cons_self
  funext k
  unfold moveTo putLast remove
  by_cases hk : k = l'
  · subst hk
    simp [hl.symm, hA, List.erase_append, hnotin]
  · have herase : (L k).erase i = L k := List.erase_of_not_mem (hi k hk)
    by_cases hkl : k = l
    · subst hkl
      simp [hk, List.erase_append, herase, hi k hk]
    · simp [hk, hkl, herase]

end Lists

omit [DecidableEq ι] in
theorem Iterator.hasData_iff : it.hasData = true ↔ ∃ i, it.index = some i := by
  unfold hasData index
  cases it.current <;> simp

namespace Pool

/-- An element is missing only where the pool has none left. -/
theorem Holds.index_allocAppend (h : Holds n P L) (list : ι) :
    (P.allocAppend list).2.index = none ↔ P.poolIsEmpty = true := by
  have hlinked := h.linked
  constructor
  · intro hindex
    cases hlast : (L .freelist).getLast? with
    | none => exact hlinked.poolIsEmpty_iff.mpr (List.getLast?_eq_none_iff.mp hlast)
    | some i =>
        by_contra hne
        rw [Pool.allocAppend, if_neg hne] at hindex
        have hi := (hlinked.alloc hlast).1
        rw [Iterator.index_eq_some.mpr hi] at hindex
        cases hindex
  · intro hempty
    rw [Pool.allocAppend, if_pos hempty]
    rfl

theorem Holds.getLast?_freelist (h : Holds n P L) {list : ι}
    (hindex : (P.allocAppend list).2.index = some i) : (L .freelist).getLast? = some i := by
  have hlinked := h.linked
  cases hlast : (L .freelist).getLast? with
  | none =>
      have hempty := hlinked.poolIsEmpty_iff.mpr (List.getLast?_eq_none_iff.mp hlast)
      rw [Pool.allocAppend, if_pos hempty] at hindex
      cases hindex
  | some k =>
      have hne : ¬ P.poolIsEmpty = true := by
        intro he
        rw [hlinked.poolIsEmpty_iff.mp he] at hlast
        cases hlast
      rw [Iterator.index_eq_some, Pool.allocAppend, if_neg hne] at hindex
      have hk := (hlinked.alloc hlast).1
      exact congrArg some (NodeRef.node.inj (hk.symm.trans hindex))

/-- An allocated element goes from the end of the free list to the end of the list. -/
theorem Holds.lists_allocAppend {L' : Lists ι} {list : ι} (h : Holds n P L)
    (h' : Holds n (P.allocAppend list).1 L') (hindex : (P.allocAppend list).2.index = some i) :
    L .freelist = L' .freelist ++ [i] ∧ L' (.rtlist list) = L (.rtlist list) ++ [i] ∧
      ∀ l, l ≠ list → L' (.rtlist l) = L (.rtlist l) := by
  have hlast := h.getLast?_freelist hindex
  have hfree : i ∈ L .freelist := List.mem_of_mem_getLast? hlast
  obtain ⟨A, hA⟩ := List.getLast?_eq_some_iff.mp hlast
  have hnotin : i ∉ A := by
    have hnodup := h.linked.nodup .freelist
    rw [hA] at hnodup
    exact fun hmem => List.disjoint_of_nodup_append hnodup hmem List.mem_cons_self
  have hL' : L' = L.moveTo (.rtlist list) i := by
    obtain ⟨P', hrun, -, hP'⟩ := h.apply (.allocAppend list) trivial
    obtain rfl : (P.allocAppend list).1 = P' := Option.some.inj hrun
    rw [← h'.elements_eq, hP'.elements_eq, Op.next, hlast]
    rfl
  have herase (l : ι) : (L (.rtlist l)).erase i = L (.rtlist l) :=
    List.erase_of_not_mem (h.linked.notMem_of_freelist hfree)
  rw [hL']
  unfold Lists.moveTo Lists.putLast Lists.remove
  refine ⟨?_, ?_, fun l hl => ?_⟩
  · rw [Function.update_of_ne (by simp), hA, List.erase_append_right _ hnotin]
    simp
  · rw [Function.update_self, herase]
  · rw [Function.update_of_ne (by simpa using hl), herase]

/-! ## Sizes and lists -/

omit [DecidableEq ι] in
theorem getID_allocAppend (P : Pool ι) [DecidableEq ι] (list : ι) (i : ℕ) :
    (P.allocAppend list).1.getID i = P.getID i := by
  unfold allocAppend
  split <;> rfl

namespace Sized

variable {P' : Pool ι}

omit [DecidableEq ι] in
/-- The links do not matter. -/
theorem congr (h : Sized n r P) (hpoolsize : P'.poolsize = P.poolsize)
    (hpoolsizebits : P'.poolsizebits = P.poolsizebits)
    (hbits : P'.reincarnationbits = P.reincarnationbits)
    (hreincarnation : P'.reincarnation = P.reincarnation) : Sized n r P' where
  poolsize := hpoolsize.trans h.poolsize
  poolsizebits := hpoolsizebits.trans h.poolsizebits
  reincarnationbits := hbits.trans h.reincarnationbits
  reincarnation i := by
    rw [hreincarnation, hbits]
    exact h.reincarnation i

theorem bumpReincarnation (h : Sized n r P) (x : NodeRef ι) : Sized n r (P.bumpReincarnation x) := by
  refine ⟨h.poolsize, h.poolsizebits, h.reincarnationbits, fun j => ?_⟩
  change (P.bumpReincarnation x).reincarnation (.node j) < 2 ^ counterBits P.reincarnationbits
  by_cases hj : .node j = x
  · subst hj
    rw [bumpReincarnation_self, bumped_eq]
    exact Nat.mod_lt _ (Nat.two_pow_pos _)
  · have hsame : (P.bumpReincarnation x).reincarnation (.node j) = P.reincarnation (.node j) :=
      Function.update_of_ne hj ..
    rw [hsame]
    exact h.reincarnation j

theorem bumpRange {pLast : NodeRef ι} {fuel : ℕ} {x : NodeRef ι} (h : Sized n r P)
    (hrun : Pool.bumpRange pLast fuel P x = some P') : Sized n r P' := by
  induction fuel generalizing P x with
  | zero => cases hrun
  | succ fuel ih =>
      rw [Pool.bumpRange] at hrun
      split at hrun
      · cases hrun
        exact h.bumpReincarnation x
      · exact ih (h.bumpReincarnation x) hrun

theorem allocAppend (h : Sized n r P) (list : ι) : Sized n r (P.allocAppend list).1 := by
  unfold Pool.allocAppend
  split
  · exact h
  · exact h.congr rfl rfl rfl rfl

theorem free (h : Sized n r P) (it : Iterator ι) : Sized n r (P.free it).1 := by
  have hdetach : Sized n r (P.detach it.current) := h.congr rfl rfl rfl rfl
  exact (hdetach.bumpReincarnation it.current).congr rfl rfl rfl rfl

theorem moveToEndOf (h : Sized n r P) (it : Iterator ι) (dst : ι) :
    Sized n r (P.moveToEndOf it dst).1 :=
  h.congr rfl rfl rfl rfl

theorem clear {list : ι} (h : Sized n r P) (hrun : P.clear list = some P') : Sized n r P' := by
  unfold Pool.clear at hrun
  split at hrun
  · cases hrun
    exact h
  · obtain ⟨P₁, hbump, hrun⟩ := Option.bind_eq_some_iff.mp hrun
    cases hrun
    have hdetach : Sized n r (P.detachRange (P.next (.beginOf (.rtlist list)))
        (P.prev (.endOf (.rtlist list)))) := h.congr rfl rfl rfl rfl
    exact (hdetach.bumpRange hbump).congr rfl rfl rfl rfl

end Sized

/-- The lists of a pool of `n` elements with `r` reserved bits. -/
structure InUse (n r : ℕ) (P : Pool ι) (L : Lists ι) : Prop where
  holds : Holds n P L
  sized : Sized n r P

theorem create_inUse (n r : ℕ) :
    InUse n r (create ι n r) (Lists.putLast (fun _ => []) .freelist (List.range n)) :=
  ⟨create_holds n r, create_sized n r⟩

namespace InUse

omit [DecidableEq ι] in
theorem nodup (h : InUse n r P L) (l : ListId ι) : (L l).Nodup := h.holds.linked.nodup l

omit [DecidableEq ι] in
theorem lt (h : InUse n r P L) (hi : i ∈ L l) : i < n := (h.holds.cover i).mpr ⟨l, hi⟩

omit [DecidableEq ι] in
theorem disjoint {l' : ListId ι} (h : InUse n r P L) (hi : i ∈ L l) (hl : l ≠ l') : i ∉ L l' :=
  fun hi' => hl (h.holds.linked.eq_of_mem hi hi')

theorem apply {op : Op ι} (h : InUse n r P L) (hop : op.Valid P) :
    ∃ P', op.apply P = some P' ∧ InUse n r P' (op.next L) := by
  obtain ⟨P', hrun, hspec, hP'⟩ := h.holds.apply op hop
  exact ⟨P', hrun, hP', hspec.sized h.holds.linked h.sized⟩

/-! ### Operations -/

theorem allocAppend (h : InUse n r P L) (list : ι) :
    (P.allocAppend list).2.index = none ∧ (P.allocAppend list).1 = P ∧ L .freelist = [] ∨
      ∃ i, (P.allocAppend list).2.index = some i ∧ i ∈ L .freelist ∧
        InUse n r (P.allocAppend list).1 (L.moveTo (.rtlist list) i) := by
  have hlinked := h.holds.linked
  cases hlast : (L .freelist).getLast? with
  | none =>
      have hnil := List.getLast?_eq_none_iff.mp hlast
      have hempty := hlinked.poolIsEmpty_iff.mpr hnil
      left
      rw [Pool.allocAppend, if_pos hempty]
      exact ⟨rfl, rfl, hnil⟩
  | some i =>
      have hne : ¬ P.poolIsEmpty = true := by
        intro he
        rw [hlinked.poolIsEmpty_iff.mp he] at hlast
        cases hlast
      obtain ⟨P', hrun, hP'⟩ := h.apply (show (Op.allocAppend list).Valid P from trivial)
      obtain rfl : (P.allocAppend list).1 = P' := Option.some.inj hrun
      rw [Op.next, hlast] at hP'
      refine .inr ⟨i, ?_, List.mem_of_mem_getLast? hlast, hP'⟩
      rw [Iterator.index_eq_some, Pool.allocAppend, if_neg hne]
      exact (hlinked.alloc hlast).1

theorem free (h : InUse n r P L) (hit : it.index = some i) (hi : i < n) :
    InUse n r (P.free it).1 (L.moveTo .freelist i) :=
  ⟨h.holds.free (Iterator.index_eq_some.mp hit) hi, h.sized.free it⟩

/-- An element that is given back at once leaves all lists as they were. -/
theorem allocAppend_free (h : InUse n r P L) {list : ι}
    (hindex : (P.allocAppend list).2.index = some i) :
    InUse n r ((P.allocAppend list).1.free (P.allocAppend list).2).1 L := by
  have hlast := h.holds.getLast?_freelist hindex
  rcases h.allocAppend list with ⟨hnone, -⟩ | ⟨k, hk, hfree, hP⟩
  · rw [hindex] at hnone
    cases hnone
  · obtain rfl : i = k := Option.some.inj (hindex.symm.trans hk)
    have hback := hP.free hindex (h.lt hfree)
    rwa [Lists.moveTo_moveTo_last h.nodup (by simp) hlast fun l hl => h.disjoint hfree hl.symm]
      at hback

theorem moveToEndOf {list : ι} (h : InUse n r P L) (hit : it.index = some i)
    (hi : i ∈ L (.rtlist list)) (dst : ι) :
    InUse n r (P.moveToEndOf it dst).1 (L.moveTo (.rtlist dst) i) := by
  have hvalid : (Op.moveToEndOf it dst).Valid P :=
    ⟨i, hit, h.holds.allocated_iff.mpr ⟨list, hi⟩⟩
  obtain ⟨P', hrun, hP'⟩ := h.apply hvalid
  obtain rfl : (P.moveToEndOf it dst).1 = P' := Option.some.inj hrun
  rwa [Op.next, hit] at hP'

theorem moveBefore (h : InUse n r P L) (hit : it.index = some i) (hi : i < n)
    (hl : L.remove i l = A ++ B)
    (hdst : itDst.current ∈ (B.map NodeRef.node ++ [NodeRef.endOf l]).head?) :
    InUse n r (P.moveBefore it itDst).1 (Function.update (L.remove i) l (A ++ i :: B)) :=
  ⟨h.holds.moveBefore (Iterator.index_eq_some.mp hit) hi hl hdst, h.sized.poolsize,
    h.sized.poolsizebits, h.sized.reincarnationbits, h.sized.reincarnation⟩

theorem clear (h : InUse n r P L) (list : ι) : ∃ P', P.clear list = some P' ∧
    InUse n r P' ((L.empty (.rtlist list)).putLast .freelist (L (.rtlist list))) :=
  h.apply (show (Op.clear list).Valid P from trivial)

/-! ### Iteration -/

omit [DecidableEq ι] in
theorem next_node (h : InUse n r P L) (hl : L l = A ++ i :: B) :
    P.next (.node i) ∈ (B.map NodeRef.node ++ [NodeRef.endOf l]).head? := by
  have hmap : (L l).map (NodeRef.node (ι := ι)) = (A ++ [i]).map .node ++ B.map .node := by
    rw [hl, ← List.map_append, List.append_assoc, List.singleton_append]
  have hlast : NodeRef.node i ∈ (NodeRef.beginOf l :: (A ++ [i]).map .node).getLast? := by
    rw [List.map_append, ← List.cons_append, List.getLast?_append]
    rfl
  have hne : B.map NodeRef.node ++ [NodeRef.endOf l] ≠ [] := by simp
  have hhead := List.head?_eq_some_head hne
  rw [(Represents.mutual h.holds.linked (i := l) hmap hlast hhead).1]
  exact hhead

omit [DecidableEq ι] in
theorem first_current (h : InUse n r P L) (l : ListId ι) :
    (P.first l).current ∈ ((L l).map NodeRef.node ++ [NodeRef.endOf l]).head? :=
  h.holds.linked.next_begin l

omit [DecidableEq ι] in
theorem length_lt (h : InUse n r P L) (hl : L l = A ++ B) : B.length < P.poolsize + 1 := by
  have hlen := h.holds.length_le l
  rw [hl, List.length_append] at hlen
  omega

/-! ### IDs -/

omit [DecidableEq ι] in
/-- The index in an ID is always that of an element. -/
theorem fromID_lt {id : ℕ} (h : InUse n r P L) (hid : (P.fromID id).index = some i) : i < n := by
  rw [Iterator.index_eq_some, fromID] at hid
  split_ifs at hid with h0
  · cases hid
  · dsimp only at hid
    split_ifs at hid with hsize
    · cases hid
    · cases hid
    · injection hid with hid
      rw [h.sized.poolsize] at hsize
      omega

omit [DecidableEq ι] in
/-- What an ID leads to depends on the sizes and the counters alone. -/
theorem fromID_current_congr {P' : Pool ι} (hsize : P'.poolsize = P.poolsize)
    (hbits : P'.poolsizebits = P.poolsizebits)
    (hcount : ∀ i, P'.reincarnation (.node i) = P.reincarnation (.node i)) (id : ℕ) :
    (P'.fromID id).current = (P.fromID id).current := by
  unfold fromID
  simp only [hsize, hbits, hcount]
  split_ifs <;> rfl

theorem fromID_allocAppend (h : InUse n r P L) (list : ι) (id : ℕ) :
    ((P.allocAppend list).1.fromID id).index = (P.fromID id).index := by
  have hvalid : (Op.allocAppend list).Valid P := trivial
  obtain ⟨P', hrun, hspec, -⟩ := h.holds.apply _ hvalid
  obtain rfl : (P.allocAppend list).1 = P' := Option.some.inj hrun
  have hcur := fromID_current_congr hspec.poolsize hspec.poolsizebits
    (fun i => (hspec.reincarnation i).trans (if_neg List.not_mem_nil)) id
  unfold Iterator.index
  rw [hcur]

omit [DecidableEq ι] in
/-- The number of elements is an `int`. -/
theorem fromID_getID (h : InUse n r P L) (hn : n < 2 ^ 31) (hi : i < n) :
    (P.fromID (P.getID i)).index = some i := by
  have hbits : P.poolsizebits < 32 := by
    rw [h.sized.poolsizebits, bitsForSize_eq]
    exact Nat.lt_succ_of_le (Nat.size_le.mpr hn)
  rw [Iterator.index_eq_some, h.sized.fromID_getID h.sized hbits hi, if_pos rfl]

omit [DecidableEq ι] in
theorem getID_ne_zero (h : InUse n r P L) (hn : n < 2 ^ 31) (hi : i < n) : P.getID i ≠ 0 := by
  have hbits : P.poolsizebits < 32 := by
    rw [h.sized.poolsizebits, bitsForSize_eq]
    exact Nat.lt_succ_of_le (Nat.size_le.mpr hn)
  rw [h.sized.getID_eq hbits hi]
  omega

end InUse

end Pool

end Operations

/-! ## Taking elements -/

section TakingElements

variable {ι : Type*}

namespace Pool

/-- The number of free elements. -/
def available (P : Pool ι) : ℕ := (P.elements .freelist).length

/-- One element was taken from the pool, for the end of a list. -/
structure Takes (P : Pool ι) (list : ι) (i : ℕ) (P' : Pool ι) : Prop where
  free : i ∈ P.elements .freelist
  available : P'.available + 1 = P.available
  appended : P'.elements (.rtlist list) = P.elements (.rtlist list) ++ [i]
  others : ∀ l, l ≠ list → P'.elements (.rtlist l) = P.elements (.rtlist l)

end Pool

variable [DecidableEq ι] {P P' : Pool ι} {L : Lists ι} {l l' : ListId ι} {list : ι} {i n r : ℕ}

/-- An element passes through a list that it was not on. -/
theorem Lists.moveTo_moveTo (hn : ∀ l, (L l).Nodup) (hi : i ∉ L l) :
    (L.moveTo l i).moveTo l' i = L.moveTo l' i := by
  have hback : (L.moveTo l i).remove i = L.remove i := by
    funext k
    unfold moveTo putLast remove
    by_cases hk : k = l
    · subst hk
      simp [List.erase_append, hi, List.erase_of_not_mem hi]
    · simp [hk, List.erase_of_not_mem (hn k).not_mem_erase]
  rw [moveTo, hback, moveTo]

namespace Pool

namespace InUse

omit [DecidableEq ι] in
/-- The lists are those that are iterated. -/
theorem elements (h : InUse n r P L) : InUse n r P P.elements := by
  rwa [h.holds.elements_eq]

omit [DecidableEq ι] in
theorem available_eq (h : InUse n r P L) : P.available = (L .freelist).length := by
  rw [available, h.holds.elements_eq]

theorem poolIsEmpty_iff (h : InUse n r P L) : P.poolIsEmpty = true ↔ L .freelist = [] :=
  h.holds.linked.poolIsEmpty_iff

theorem takes (h : InUse n r P L) (hi : i ∈ L .freelist)
    (h' : InUse n r P' (L.moveTo (.rtlist list) i)) : P.Takes list i P' := by
  have herase (l : ι) : (L (.rtlist l)).erase i = L (.rtlist l) :=
    List.erase_of_not_mem (h.disjoint hi (by simp))
  refine ⟨?_, ?_, ?_, fun l hl => ?_⟩
  · rwa [h.holds.elements_eq]
  · have hlen := List.length_erase_of_mem hi
    have hpos := List.length_pos_of_mem hi
    rw [h.available_eq, h'.available_eq, Lists.moveTo, Lists.putLast,
      Function.update_of_ne (by simp), Lists.remove, hlen, Nat.sub_add_cancel hpos]
  · rw [h.holds.elements_eq, h'.holds.elements_eq, Lists.moveTo, Lists.putLast,
      Function.update_self, Lists.remove, herase]
  · rw [h.holds.elements_eq, h'.holds.elements_eq, Lists.moveTo, Lists.putLast,
      Function.update_of_ne (by simpa using hl), Lists.remove, herase]

/-- A pool has an element to give, or it stays as it is. -/
theorem allocAppend_cases (h : InUse n r P L) (list : ι) :
    P.poolIsEmpty = true ∧ (P.allocAppend list).2.index = none ∧ (P.allocAppend list).1 = P ∨
      P.poolIsEmpty = false ∧ ∃ i, (P.allocAppend list).2.index = some i ∧ i ∈ L .freelist ∧
        InUse n r (P.allocAppend list).1 (L.moveTo (.rtlist list) i) := by
  rcases h.allocAppend list with ⟨hindex, hpool, hnil⟩ | ⟨i, hindex, hfree, hP⟩
  · exact .inl ⟨h.poolIsEmpty_iff.mpr hnil, hindex, hpool⟩
  · refine .inr ⟨?_, i, hindex, hfree, hP⟩
    rw [← Bool.not_eq_true, h.poolIsEmpty_iff]
    exact List.ne_nil_of_mem hfree

/-- The element goes on from the list that it was allocated for. -/
theorem allocAppend_moveToEndOf (h : InUse n r P L)
    (hindex : (P.allocAppend list).2.index = some i) (dst : ι) :
    InUse n r ((P.allocAppend list).1.moveToEndOf (P.allocAppend list).2 dst).1
      (L.moveTo (.rtlist dst) i) := by
  rcases h.allocAppend list with ⟨hnone, -⟩ | ⟨j, hj, hfree, hP⟩
  · rw [hindex] at hnone
    cases hnone
  · obtain rfl : i = j := Option.some.inj (hindex.symm.trans hj)
    have hmem : i ∈ L.moveTo (.rtlist list) i (.rtlist list) :=
      (Lists.mem_moveTo (h.nodup _)).mpr (.inr ⟨rfl, rfl⟩)
    have hnot : i ∉ L (.rtlist list) := h.disjoint hfree (by simp)
    rw [← Lists.moveTo_moveTo h.nodup hnot]
    exact hP.moveToEndOf hindex hmem dst

end InUse

end Pool

end TakingElements

/-! ## Searching the lists -/

namespace Pool

variable {ι α : Type*}

/-- `if (it) ++it;` -/
def advance (P : Pool ι) : NodeRef ι → NodeRef ι
  | .node i => P.next (.node i)
  | it => it

/-- `for (; it; ++it)`. The loop is left with a result of its body. -/
def searchFrom (P : Pool ι) (body : ℕ → Option (Option α)) : ℕ → NodeRef ι → Option (Option α)
  | 0, _ => none
  | fuel + 1, .node i => do
      match ← body i with
      | some a => return some a
      | none => searchFrom P body fuel (P.next (.node i))
  | _ + 1, _ => some none

def search (P : Pool ι) (body : ℕ → Option (Option α)) (it : NodeRef ι) : Option (Option α) :=
  P.searchFrom body (P.poolsize + 1) it

/-- The elements behind the one that an iterator points to. -/
def behind (P : Pool ι) : NodeRef ι → List ℕ
  | .node i => P.nodesFrom P.poolsize (P.next (.node i))
  | _ => []

variable {P : Pool ι} {L : Lists ι} {l : ListId ι} {n r i fuel : ℕ} {A B : List ℕ}
  {it : NodeRef ι} {body : ℕ → Option (Option α)} {f : ℕ → Option α}

namespace InUse

theorem searchFrom_eq (h : InUse n r P L) (hl : L l = A ++ B)
    (hit : it ∈ (B.map NodeRef.node ++ [NodeRef.endOf l]).head?)
    (hbody : ∀ i ∈ B, body i = some (f i)) (hfuel : B.length < fuel) :
    P.searchFrom body fuel it = some (B.findSome? f) := by
  induction B generalizing it A fuel with
  | nil =>
      obtain ⟨fuel, rfl⟩ := Nat.exists_eq_succ_of_ne_zero (Nat.ne_zero_of_lt hfuel)
      obtain rfl : NodeRef.endOf l = it := by simpa using hit
      rfl
  | cons i B ih =>
      obtain ⟨fuel, rfl⟩ := Nat.exists_eq_succ_of_ne_zero (Nat.ne_zero_of_lt hfuel)
      obtain rfl : NodeRef.node i = it := by simpa using hit
      have hl' : L l = (A ++ [i]) ++ B := by simp [hl]
      have hrest : P.searchFrom body fuel (P.next (.node i)) = some (B.findSome? f) :=
        ih hl' (h.next_node hl) (fun j hj => hbody j (List.mem_cons_of_mem _ hj))
          (by simpa using hfuel)
      rw [searchFrom, hbody i List.mem_cons_self, List.findSome?_cons]
      cases f i with
      | none => exact hrest
      | some a => rfl

theorem search_first (h : InUse n r P L) (l : ListId ι)
    (hbody : ∀ i ∈ P.elements l, body i = some (f i)) :
    P.search body (P.next (.beginOf l)) = some ((P.elements l).findSome? f) := by
  rw [h.holds.elements_eq] at hbody ⊢
  exact h.searchFrom_eq (List.nil_append _).symm (h.first_current l) hbody
    (h.length_lt (List.nil_append _).symm)

theorem behind_eq (h : InUse n r P L) (hl : L l = A ++ i :: B) : P.behind (.node i) = B := by
  have hpath := h.holds.linked.path l
  have hmap : whole NodeRef.beginOf NodeRef.endOf (fun l => (L l).map NodeRef.node) l =
      (.beginOf l :: A.map .node) ++ (.node i :: (B.map .node ++ [.endOf l])) := by
    simp [whole, hl]
  have hlen := h.length_lt hl
  rw [hmap] at hpath
  refine nodesFrom_eq (path_append.mp hpath).2.1 ?_
  simp only [List.length_cons] at hlen
  omega

/-- The search goes on behind the element, in the list where the element is now. -/
theorem search_advance (h : InUse n r P L) (hit : ∀ i, it = .node i → i < n)
    (hbody : ∀ i ∈ P.behind it, body i = some (f i)) :
    P.search body (P.advance it) = some ((P.behind it).findSome? f) := by
  cases it with
  | node i =>
      obtain ⟨l, hi⟩ := (h.holds.cover i).mp (hit i rfl)
      obtain ⟨A, B, hl⟩ := List.append_of_mem hi
      have hl' : L l = (A ++ [i]) ++ B := by simp [hl]
      rw [h.behind_eq hl] at hbody ⊢
      exact h.searchFrom_eq hl' (h.next_node hl) hbody (h.length_lt hl')
  | _ => rfl

theorem behind_lt (h : InUse n r P L) (hit : ∀ i, it = .node i → i < n) {j : ℕ}
    (hj : j ∈ P.behind it) : j < n := by
  cases it with
  | node i =>
      obtain ⟨l, hi⟩ := (h.holds.cover i).mp (hit i rfl)
      obtain ⟨A, B, hl⟩ := List.append_of_mem hi
      rw [h.behind_eq hl] at hj
      exact h.lt (l := l) (by simp [hl, hj])
  | _ => cases hj

end InUse

end Pool

end LinuxSampler
