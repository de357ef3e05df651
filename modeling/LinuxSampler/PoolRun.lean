import LinuxSampler.PoolLists
import Mathlib.Data.Fintype.Basic

/-!
# Runs over a pool

Any sequence of allocations, releases and moves over one pool and any
number of lists bound to it: each node is in exactly one list at every
point, and no operation reorders elements that it does not touch. A
forward loop may release or move away its current element and still
meets every element of its list once.
-/

namespace LinuxSampler

open DoublyLinked

variable {ι : Type*} [DecidableEq ι] {P : Pool ι} {L : Lists ι} {l : ListId ι} {i j n : ℕ}
  {S : List ℕ} {it : Iterator ι}

/-- The element an iterator points to. -/
def Iterator.index (it : Iterator ι) : Option ℕ :=
  match it.current with
  | .node i => some i
  | _ => none

omit [DecidableEq ι] in
theorem Iterator.index_eq_some : it.index = some i ↔ it.current = .node i := by
  unfold Iterator.index
  cases it.current <;> simp

namespace Pool

/-! ## Operations -/

inductive Op (ι : Type*) where
  | allocAppend (list : ι)
  | allocPrepend (list : ι)
  | free (it : Iterator ι)
  | moveToEndOf (it : Iterator ι) (dst : ι)
  | moveToBeginOf (it : Iterator ι) (dst : ι)
  | clear (list : ι)

def Op.apply (P : Pool ι) : Op ι → Option (Pool ι)
  | .allocAppend list => some (P.allocAppend list).1
  | .allocPrepend list => some (P.allocPrepend list).1
  | .free it => some (P.free it).1
  | .moveToEndOf it dst => some (P.moveToEndOf it dst).1
  | .moveToBeginOf it dst => some (P.moveToBeginOf it dst).1
  | .clear list => P.clear list

/-- The iterators given to an operation point to elements in use. -/
def Op.Valid (P : Pool ι) : Op ι → Prop
  | .free it | .moveToEndOf it _ | .moveToBeginOf it _ => ∃ i ∈ it.index, P.Allocated i
  | _ => True

def run : List (Op ι) → Pool ι → Option (Pool ι)
  | [], P => some P
  | op :: ops, P => do
      let P ← op.apply P
      run ops P

def ValidRun : List (Op ι) → Pool ι → Prop
  | [], _ => True
  | op :: ops, P => op.Valid P ∧ ∀ P' ∈ op.apply P, ValidRun ops P'

instance [Fintype ι] (P : Pool ι) (i : ℕ) : Decidable (P.Allocated i) :=
  inferInstanceAs (Decidable (∃ l, i ∈ P.elements (.rtlist l)))

instance [Fintype ι] (P : Pool ι) : DecidablePred (Op.Valid P)
  | .free it | .moveToEndOf it _ | .moveToBeginOf it _ =>
      inferInstanceAs (Decidable (∃ i ∈ it.index, P.Allocated i))
  | .allocAppend _ | .allocPrepend _ | .clear _ => inferInstanceAs (Decidable True)

instance decidableValidRun [Fintype ι] : ∀ (ops : List (Op ι)) (P : Pool ι),
    Decidable (ValidRun ops P)
  | [], _ => inferInstanceAs (Decidable True)
  | op :: ops, P =>
      have := decidableValidRun ops
      inferInstanceAs (Decidable (op.Valid P ∧ ∀ P' ∈ op.apply P, ValidRun ops P'))

/-- What an operation is for, on the lists. -/
def Op.next (L : Lists ι) : Op ι → Lists ι
  | .allocAppend list =>
      (L .freelist).getLast?.elim L fun i => (L.remove i).putLast (.rtlist list) [i]
  | .allocPrepend list =>
      (L .freelist).getLast?.elim L fun i => (L.remove i).putFirst (.rtlist list) i
  | .free it => it.index.elim L fun i => (L.remove i).putLast .freelist [i]
  | .moveToEndOf it dst => it.index.elim L fun i => (L.remove i).putLast (.rtlist dst) [i]
  | .moveToBeginOf it dst => it.index.elim L fun i => (L.remove i).putFirst (.rtlist dst) i
  | .clear list => (L.empty (.rtlist list)).putLast .freelist (L (.rtlist list))

/-- The elements that an operation takes, moves or releases. -/
def Op.touched (L : Lists ι) : Op ι → List ℕ
  | .allocAppend _ | .allocPrepend _ => (L .freelist).getLast?.toList
  | .free it | .moveToEndOf it _ | .moveToBeginOf it _ => it.index.toList
  | .clear list => L (.rtlist list)

/-! ## Spec of each operation -/

theorem bumpReincarnation_linked (h : P.Linked L) (x : NodeRef ι) :
    (P.bumpReincarnation x).Linked L :=
  h.congr rfl

theorem Linked.freeToPool (h : P.Linked L) (hfresh : ∀ l, i ∉ L l) :
    (P.freeToPool (.node i)).Linked (L.putLast .freelist [i]) :=
  (bumpReincarnation_linked h (.node i)).append hfresh

omit [DecidableEq ι] in
theorem Linked.last_freelist (h : P.Linked L) (hi : i ∈ (L .freelist).getLast?) :
    (P.last .freelist).current = .node i := by
  have hlast := h.prev_end .freelist
  obtain ⟨S, hS⟩ := List.getLast?_eq_some_iff.mp hi
  rw [hS, List.map_append, ← List.cons_append] at hlast
  change P.prev (.endOf .freelist) = .node i
  simpa using (Option.some.inj hlast).symm

theorem Linked.alloc (h : P.Linked L) (hi : i ∈ (L .freelist).getLast?) :
    P.alloc.2.current = .node i ∧ P.alloc.1.Linked (L.remove i) := by
  have hcur := h.last_freelist hi
  refine ⟨hcur, ?_⟩
  rw [Pool.alloc, hcur]
  exact h.detach (List.mem_of_mem_getLast? hi)

theorem Linked.poolIsEmpty_iff (h : P.Linked L) : P.poolIsEmpty = true ↔ L .freelist = [] :=
  h.isEmpty_iff

theorem Linked.allocAppend (h : P.Linked L) (list : ι) :
    (P.allocAppend list).1.Linked ((Op.allocAppend list).next L) := by
  rw [Pool.allocAppend, Op.next]
  cases hi : (L .freelist).getLast? with
  | none =>
      rw [if_pos (h.poolIsEmpty_iff.mpr (List.getLast?_eq_none_iff.mp hi))]
      exact h
  | some i =>
      have hne : ¬ P.poolIsEmpty = true := fun he => by
        rw [h.poolIsEmpty_iff.mp he] at hi
        cases hi
      obtain ⟨hcur, hdet⟩ := h.alloc hi
      rw [if_neg hne]
      simp only [hcur]
      exact hdet.append (h.notMem_remove i)

theorem Linked.allocPrepend (h : P.Linked L) (list : ι) :
    (P.allocPrepend list).1.Linked ((Op.allocPrepend list).next L) := by
  rw [Pool.allocPrepend, Op.next]
  cases hi : (L .freelist).getLast? with
  | none =>
      rw [if_pos (h.poolIsEmpty_iff.mpr (List.getLast?_eq_none_iff.mp hi))]
      exact h
  | some i =>
      have hne : ¬ P.poolIsEmpty = true := fun he => by
        rw [h.poolIsEmpty_iff.mp he] at hi
        cases hi
      obtain ⟨hcur, hdet⟩ := h.alloc hi
      rw [if_neg hne]
      simp only [hcur]
      exact hdet.prepend (h.notMem_remove i)

theorem Linked.free (h : P.Linked L) (hit : it.current = .node i) (hi : i ∈ L l) :
    (P.free it).1.Linked ((L.remove i).putLast .freelist [i]) := by
  rw [Pool.free, hit]
  exact (h.detach hi).freeToPool (h.notMem_remove i)

theorem Linked.moveToEndOf (h : P.Linked L) (hit : it.current = .node i) (hi : i ∈ L l) (dst : ι) :
    (P.moveToEndOf it dst).1.Linked ((L.remove i).putLast (.rtlist dst) [i]) := by
  rw [Pool.moveToEndOf, hit]
  exact (h.detach hi).append (h.notMem_remove i)

theorem Linked.moveToBeginOf (h : P.Linked L) (hit : it.current = .node i) (hi : i ∈ L l)
    (dst : ι) : (P.moveToBeginOf it dst).1.Linked ((L.remove i).putFirst (.rtlist dst) i) := by
  rw [Pool.moveToBeginOf, hit]
  exact (h.detach hi).prepend (h.notMem_remove i)

theorem Linked.moveBefore {A B : List ℕ} {itDst : Iterator ι} (h : P.Linked L)
    (hit : it.current = .node i) (hi : ∃ l', i ∈ L l') (hl : L.remove i l = A ++ B)
    (hdst : itDst.current ∈ (B.map NodeRef.node ++ [NodeRef.endOf l]).head?) :
    (P.moveBefore it itDst).1.Linked (Function.update (L.remove i) l (A ++ i :: B)) := by
  obtain ⟨l', hi⟩ := hi
  rw [Pool.moveBefore, hit]
  exact (h.detach hi).prependBefore hl (h.notMem_remove i) hdst

/-- The counters of several nodes are bumped one after another. -/
def bumpAll (P : Pool ι) (S : List ℕ) : Pool ι :=
  S.foldl (fun P i => P.bumpReincarnation (.node i)) P

@[simp] theorem bumpAll_toDoublyLinked (P : Pool ι) (S : List ℕ) :
    (P.bumpAll S).toDoublyLinked = P.toDoublyLinked := by
  induction S generalizing P with
  | nil => rfl
  | cons i S ih => exact ih _

theorem bumpAll_sizes (P : Pool ι) (S : List ℕ) :
    (P.bumpAll S).poolsize = P.poolsize ∧ (P.bumpAll S).poolsizebits = P.poolsizebits ∧
      (P.bumpAll S).reincarnationbits = P.reincarnationbits := by
  induction S generalizing P with
  | nil => exact ⟨rfl, rfl, rfl⟩
  | cons i S ih => exact ih _

/-- The loop runs through the segment to its last node. -/
theorem bumpRange_eq {fuel : ℕ} (hpath : P.Path (S.map .node)) (hn : S.Nodup) (hs : i ∈ S.head?)
    (ht : j ∈ S.getLast?) (hfuel : S.length ≤ fuel) :
    bumpRange (.node j) fuel P (.node i) = some (P.bumpAll S) := by
  induction S generalizing P i fuel with
  | nil => cases hs
  | cons x S ih =>
      obtain rfl : x = i := Option.some.inj hs
      obtain ⟨fuel, rfl⟩ : ∃ f, fuel = f + 1 := ⟨fuel - 1, by simp at hfuel; omega⟩
      cases S with
      | nil =>
          obtain rfl : x = j := Option.some.inj ht
          rw [bumpRange, if_pos rfl]
          rfl
      | cons y S =>
          rw [List.getLast?_cons_cons] at ht
          obtain ⟨hx, hn⟩ := List.nodup_cons.mp hn
          have hxj : NodeRef.node (ι := ι) x ≠ .node j := by
            intro h
            injection h with h
            exact hx (h ▸ List.mem_of_mem_getLast? ht)
          have hnext : (P.bumpReincarnation (.node x)).next (.node x) = .node y :=
            Path.next_eq hpath
          rw [bumpRange, if_neg hxj, hnext]
          exact ih (P := P.bumpReincarnation (.node x)) (List.IsChain.tail hpath) hn rfl ht
            (by simpa using hfuel)

/-- The counter of a node after its next release. -/
def bumped (P : Pool ι) (i : ℕ) : ℕ :=
  (P.reincarnation (.node i) + 1) % 2 ^ 64 &&& intMask P.reincarnationbits

theorem bumpReincarnation_self : (P.bumpReincarnation (.node i)).reincarnation (.node i) =
    P.bumped i :=
  Function.update_self _ _ _

theorem bumpReincarnation_of_ne (h : j ≠ i) :
    (P.bumpReincarnation (.node i)).reincarnation (.node j) = P.reincarnation (.node j) :=
  Function.update_of_ne (fun e => h (by injection e)) _ _

theorem bumpAll_reincarnation (P : Pool ι) (hn : S.Nodup) (j : ℕ) :
    (P.bumpAll S).reincarnation (.node j) =
      if j ∈ S then P.bumped j else P.reincarnation (.node j) := by
  induction S generalizing P with
  | nil => rfl
  | cons i S ih =>
      obtain ⟨hi, hn⟩ := List.nodup_cons.mp hn
      rw [show P.bumpAll (i :: S) = (P.bumpReincarnation (.node i)).bumpAll S from rfl, ih _ hn]
      by_cases hj : j = i
      · subst hj
        rw [if_neg hi, if_pos List.mem_cons_self, bumpReincarnation_self]
      · rw [bumpReincarnation_of_ne hj]
        simp only [List.mem_cons, hj, false_or]
        rw [bumped, bumpReincarnation_of_ne hj]
        rfl

/-- The elements that an operation releases. -/
def Op.freed (L : Lists ι) : Op ι → List ℕ
  | .free it => it.index.toList
  | .clear list => L (.rtlist list)
  | _ => []

/-- What an operation does to the links, to the counters and to the sizes. -/
structure Op.Spec (P : Pool ι) (L : Lists ι) (op : Op ι) (P' : Pool ι) : Prop where
  linked : P'.Linked (op.next L)
  poolsize : P'.poolsize = P.poolsize
  poolsizebits : P'.poolsizebits = P.poolsizebits
  reincarnationbits : P'.reincarnationbits = P.reincarnationbits
  reincarnation : ∀ i, P'.reincarnation (.node i) =
    if i ∈ op.freed L then P.bumped i else P.reincarnation (.node i)

theorem Linked.clear_spec (h : P.Linked L) (list : ι)
    (hlen : (L (.rtlist list)).length ≤ P.poolsize) :
    ∃ P', P.clear list = some P' ∧ Op.Spec P L (.clear list) P' := by
  rw [Pool.clear]
  by_cases hS : L (.rtlist list) = []
  · have hnext : (Op.clear list).next L = L := by
      rw [Op.next, hS, Lists.putLast, Lists.empty, List.append_nil, Function.update_eq_self, ← hS,
        Function.update_eq_self]
    rw [if_pos (h.isEmpty_iff.mpr hS)]
    exact ⟨P, rfl, hnext.symm ▸ h, rfl, rfl, rfl, fun i => by simp [Op.freed, hS]⟩
  · have hhead := List.head?_eq_some_head hS
    have hlast := List.getLast?_eq_some_getLast hS
    have hfirst : P.next (.beginOf (.rtlist list)) = .node ((L (.rtlist list)).head hS) := by
      have hnext := h.next_begin (.rtlist list)
      rw [List.head?_append_of_ne_nil _ (by simpa using hS), List.head?_map, hhead] at hnext
      exact (Option.some.inj hnext).symm
    have hlast' : P.prev (.endOf (.rtlist list)) = .node ((L (.rtlist list)).getLast hS) := by
      have hprev := h.prev_end (.rtlist list)
      rw [List.getLast?_cons, List.getLast?_map, hlast] at hprev
      exact (Option.some.inj hprev).symm
    rw [if_neg (fun he => hS (h.isEmpty_iff.mp he)), hfirst, hlast']
    generalize (L (.rtlist list)).head hS = i at hhead hfirst
    generalize (L (.rtlist list)).getLast hS = j at hlast hlast'
    obtain ⟨hempty, hpath⟩ := h.detachRange (l := .rtlist list) (A := []) (B := [])
      (List.append_nil _).symm hhead hlast
    have hbump : bumpRange (.node j) P.poolsize _ (.node i) = some _ :=
      bumpRange_eq hpath (h.nodup _) hhead hlast hlen
    have hsizes := (P.detachRange (.node i) (.node j)).bumpAll_sizes (L (.rtlist list))
    have hrun : (P.detachRange (.node i) (.node j)).freeRangeToPool (.node i) (.node j) =
        some (((P.detachRange (.node i) (.node j)).bumpAll (L (.rtlist list))).appendRange
          .freelist (.node i) (.node j)) := by
      rw [freeRangeToPool]
      exact congrArg (Option.bind · _) hbump
    refine ⟨_, hrun, ?_, hsizes.1, hsizes.2.1, hsizes.2.2,
      fun k => bumpAll_reincarnation _ (h.nodup _) k⟩
    refine (hempty.congr (bumpAll_toDoublyLinked _ _)).appendRange ?_ (h.nodup _) ?_ hhead hlast
    · rwa [bumpAll_toDoublyLinked]
    · intro x hx l hl
      obtain ⟨hl, hne⟩ := Lists.mem_empty.mp hl
      exact hne (h.eq_of_mem hl hx)

/-! ## One step -/

private theorem allocAppend_fields (P : Pool ι) (list : ι) :
    (P.allocAppend list).1.reincarnation = P.reincarnation ∧
      (P.allocAppend list).1.poolsize = P.poolsize ∧
      (P.allocAppend list).1.poolsizebits = P.poolsizebits ∧
      (P.allocAppend list).1.reincarnationbits = P.reincarnationbits := by
  rw [Pool.allocAppend]
  split <;> exact ⟨rfl, rfl, rfl, rfl⟩

private theorem allocPrepend_fields (P : Pool ι) (list : ι) :
    (P.allocPrepend list).1.reincarnation = P.reincarnation ∧
      (P.allocPrepend list).1.poolsize = P.poolsize ∧
      (P.allocPrepend list).1.poolsizebits = P.poolsizebits ∧
      (P.allocPrepend list).1.reincarnationbits = P.reincarnationbits := by
  rw [Pool.allocPrepend]
  split <;> exact ⟨rfl, rfl, rfl, rfl⟩

/-- A pool of `n` nodes whose links stand for the lists, each node in one
of them. -/
structure Holds (n : ℕ) (P : Pool ι) (L : Lists ι) : Prop where
  linked : P.Linked L
  poolsize : P.poolsize = n
  cover : ∀ i, i < n ↔ ∃ l, i ∈ L l

omit [DecidableEq ι] in
theorem Holds.length_le (h : Holds n P L) (l : ListId ι) : (L l).length ≤ P.poolsize := by
  have hsub : (L l).Subperm (List.range n) :=
    List.subperm_of_subset (h.linked.nodup l) fun i hi =>
      List.mem_range.mpr ((h.cover i).mpr ⟨l, hi⟩)
  simpa [h.poolsize] using hsub.length_le

omit [DecidableEq ι] in
theorem Holds.elements_eq (h : Holds n P L) : P.elements = L :=
  funext fun l => h.linked.elements_eq (h.length_le l)

omit [DecidableEq ι] in
theorem Holds.allocated_iff (h : Holds n P L) : P.Allocated i ↔ ∃ l, i ∈ L (.rtlist l) := by
  rw [Allocated, h.elements_eq]

theorem Holds.spec (h : Holds n P L) {op : Op ι} (hop : op.Valid P) :
    ∃ P', op.apply P = some P' ∧ op.Spec P L P' := by
  cases op with
  | allocAppend list =>
      obtain ⟨h₁, h₂, h₃, h₄⟩ := allocAppend_fields P list
      exact ⟨_, rfl, h.linked.allocAppend list, h₂, h₃, h₄, fun i => congrFun h₁ _⟩
  | allocPrepend list =>
      obtain ⟨h₁, h₂, h₃, h₄⟩ := allocPrepend_fields P list
      exact ⟨_, rfl, h.linked.allocPrepend list, h₂, h₃, h₄, fun i => congrFun h₁ _⟩
  | free it =>
      obtain ⟨i, hit, hi⟩ := hop
      obtain ⟨l, hl⟩ := h.allocated_iff.mp hi
      have hcur := Iterator.index_eq_some.mp hit
      have hindex : it.index = some i := hit
      refine ⟨_, rfl, ?_, rfl, rfl, rfl, fun j => ?_⟩
      · rw [Op.next, hindex]
        exact h.linked.free hcur hl
      · rw [Op.freed, hindex, Pool.free, hcur]
        by_cases hj : j = i
        · subst hj
          rw [if_pos (by simp)]
          exact bumpReincarnation_self
        · rw [if_neg (by simpa using hj)]
          exact bumpReincarnation_of_ne (P := P.detach (.node i)) hj
  | moveToEndOf it dst =>
      obtain ⟨i, hit, hi⟩ := hop
      obtain ⟨l, hl⟩ := h.allocated_iff.mp hi
      have hindex : it.index = some i := hit
      refine ⟨_, rfl, ?_, rfl, rfl, rfl, fun j => rfl⟩
      rw [Op.next, hindex]
      exact h.linked.moveToEndOf (Iterator.index_eq_some.mp hit) hl dst
  | moveToBeginOf it dst =>
      obtain ⟨i, hit, hi⟩ := hop
      obtain ⟨l, hl⟩ := h.allocated_iff.mp hi
      have hindex : it.index = some i := hit
      refine ⟨_, rfl, ?_, rfl, rfl, rfl, fun j => rfl⟩
      rw [Op.next, hindex]
      exact h.linked.moveToBeginOf (Iterator.index_eq_some.mp hit) hl dst
  | clear list => exact h.linked.clear_spec list (h.length_le _)

theorem Op.mem_next {op : Op ι} (h : Holds n P L) (hop : op.Valid P) :
    (∃ l, i ∈ op.next L l) ↔ ∃ l, i ∈ L l := by
  have hn := h.linked.nodup
  cases op with
  | allocAppend list =>
      rw [Op.next]
      cases hi : (L .freelist).getLast? with
      | none => rfl
      | some j => exact Lists.exists_mem_moveLast hn ⟨_, List.mem_of_mem_getLast? hi⟩
  | allocPrepend list =>
      rw [Op.next]
      cases hi : (L .freelist).getLast? with
      | none => rfl
      | some j => exact Lists.exists_mem_moveFirst hn ⟨_, List.mem_of_mem_getLast? hi⟩
  | free it =>
      obtain ⟨j, hit, hj⟩ := hop
      obtain ⟨l, hl⟩ := h.allocated_iff.mp hj
      rw [Op.next, show it.index = some j from hit]
      exact Lists.exists_mem_moveLast hn ⟨_, hl⟩
  | moveToEndOf it dst =>
      obtain ⟨j, hit, hj⟩ := hop
      obtain ⟨l, hl⟩ := h.allocated_iff.mp hj
      rw [Op.next, show it.index = some j from hit]
      exact Lists.exists_mem_moveLast hn ⟨_, hl⟩
  | moveToBeginOf it dst =>
      obtain ⟨j, hit, hj⟩ := hop
      obtain ⟨l, hl⟩ := h.allocated_iff.mp hj
      rw [Op.next, show it.index = some j from hit]
      exact Lists.exists_mem_moveFirst hn ⟨_, hl⟩
  | clear list =>
      simp only [Op.next, Lists.mem_putLast, Lists.mem_empty]
      constructor
      · rintro ⟨l, ⟨hl, -⟩ | ⟨-, hl⟩⟩
        · exact ⟨l, hl⟩
        · exact ⟨_, hl⟩
      · rintro ⟨l, hl⟩
        by_cases hlist : l = .rtlist list
        · subst hlist
          exact ⟨.freelist, .inr ⟨rfl, hl⟩⟩
        · exact ⟨l, .inl ⟨hl, hlist⟩⟩

theorem Holds.apply (h : Holds n P L) (op : Op ι) (hop : op.Valid P) :
    ∃ P', op.apply P = some P' ∧ op.Spec P L P' ∧ Holds n P' (op.next L) := by
  obtain ⟨P', hrun, hspec⟩ := h.spec hop
  refine ⟨P', hrun, hspec, hspec.linked, hspec.poolsize.trans h.poolsize, fun i => ?_⟩
  rw [Op.mem_next h hop]
  exact h.cover i

/-- Also an element that is not in use can be released. -/
theorem Holds.free (h : Holds n P L) (hit : it.current = .node i) (hi : i < n) :
    Holds n (P.free it).1 ((L.remove i).putLast .freelist [i]) := by
  obtain ⟨l, hl⟩ := (h.cover i).mp hi
  refine ⟨h.linked.free hit hl, h.poolsize, fun j => ?_⟩
  rw [Lists.exists_mem_moveLast h.linked.nodup ⟨l, hl⟩]
  exact h.cover j

theorem Holds.moveBefore {A B : List ℕ} {itDst : Iterator ι} (h : Holds n P L)
    (hit : it.current = .node i) (hi : i < n) (hl : L.remove i l = A ++ B)
    (hdst : itDst.current ∈ (B.map NodeRef.node ++ [NodeRef.endOf l]).head?) :
    Holds n (P.moveBefore it itDst).1 (Function.update (L.remove i) l (A ++ i :: B)) := by
  have hi' := (h.cover i).mp hi
  refine ⟨h.linked.moveBefore hit hi' hl hdst, h.poolsize, fun j => ?_⟩
  rw [h.cover j]
  have hn := h.linked.nodup
  constructor
  · rintro ⟨l', hj⟩
    by_cases hji : j = i
    · exact ⟨l, by simp [hji]⟩
    · refine ⟨l', ?_⟩
      have hj' : j ∈ L.remove i l' := (Lists.mem_remove (hn l')).mpr ⟨hji, hj⟩
      by_cases hll : l' = l
      · subst hll
        rw [hl] at hj'
        simpa [or_left_comm] using Or.inr hj'
      · rwa [Function.update_of_ne hll]
  · rintro ⟨l', hj⟩
    by_cases hji : j = i
    · exact hji ▸ hi'
    · refine ⟨l', ?_⟩
      by_cases hll : l' = l
      · subst hll
        have hj' : j ∈ L.remove i l' := by
          rw [hl]
          simpa [hji] using hj
        exact ((Lists.mem_remove (hn l')).mp hj').2
      · rw [Function.update_of_ne hll] at hj
        exact ((Lists.mem_remove (hn l')).mp hj).2

/-! ## Runs -/

omit [DecidableEq ι] in
theorem unlinked_linked (n r : ℕ) : (unlinked ι n r).Linked fun _ => [] where
  path := fun l => List.isChain_pair.mpr ⟨rfl, rfl⟩
  nodup := fun l => by simp [whole]
  disjoint := fun l l' hne => by simp [whole, hne.symm]

/-- The loop of `_init()` after `k` nodes. -/
private theorem linkNodes (n r k : ℕ) :
    ((List.range k).foldl (fun P i => P.append .freelist (.node i)) (unlinked ι n r)).Linked
        (Lists.putLast (fun _ => []) .freelist (List.range k)) ∧
      ∃ next prev, (List.range k).foldl (fun P i => P.append .freelist (.node i))
        (unlinked ι n r) = { unlinked ι n r with next := next, prev := prev } := by
  induction k with
  | zero =>
      refine ⟨?_, _, _, rfl⟩
      have hempty : Lists.putLast (fun _ : ListId ι => []) .freelist (List.range 0) =
          fun _ => [] := Function.update_eq_self _ _
      rw [hempty]
      exact unlinked_linked n r
  | succ k ih =>
      obtain ⟨hlinked, next, prev, hfields⟩ := ih
      rw [List.range_succ, List.foldl_append]
      refine ⟨?_, ?_⟩
      · have hnew : Lists.putLast (fun _ : ListId ι => []) .freelist (List.range k ++ [k]) =
            (Lists.putLast (fun _ => []) .freelist (List.range k)).putLast .freelist [k] := by
          simp [Lists.putLast]
        rw [hnew]
        refine hlinked.append fun l hk => ?_
        simp at hk
      · rw [hfields]
        exact ⟨_, _, rfl⟩

theorem create_fields (n r : ℕ) : ∃ next prev,
    create ι n r = { unlinked ι n r with next := next, prev := prev } :=
  (linkNodes n r n).2

theorem create_holds (n r : ℕ) :
    Holds n (create ι n r) (Lists.putLast (fun _ => []) .freelist (List.range n)) := by
  obtain ⟨next, prev, hfields⟩ := create_fields (ι := ι) n r
  refine ⟨(linkNodes n r n).1, by rw [hfields]; rfl, fun i => ?_⟩
  simp

theorem Holds.run {ops : List (Op ι)} (h : Holds n P L) (hops : ValidRun ops P) :
    ∃ P' L', Pool.run ops P = some P' ∧ Holds n P' L' := by
  induction ops generalizing P L with
  | nil => exact ⟨P, L, rfl, h⟩
  | cons op ops ih =>
      obtain ⟨hop, hops⟩ := hops
      obtain ⟨P₁, hrun, -, h₁⟩ := h.apply op hop
      obtain ⟨P', L', hrest, h'⟩ := ih h₁ (hops P₁ hrun)
      refine ⟨P', L', ?_, h'⟩
      rw [Pool.run, hrun]
      exact hrest

/-! ## Order -/

/-- An operation does not reorder the elements that it does not touch. -/
theorem Op.next_filter (h : P.Linked L) (op : Op ι) (l : ListId ι) :
    (op.next L l).filter (· ∉ op.touched L) = (L l).filter (· ∉ op.touched L) := by
  have hremove : ∀ i, (L.remove i l).filter (· ∉ [i]) = (L l).filter (· ∉ [i]) := by
    intro i
    rw [Lists.remove, (h.nodup l).erase_eq_filter, List.filter_filter]
    exact List.filter_congr fun x _ => by simp
  have hlast : ∀ i l', ((L.remove i).putLast l' [i] l).filter (· ∉ [i]) =
      (L l).filter (· ∉ [i]) := by
    intro i l'
    by_cases hl : l = l'
    · subst hl
      rw [Lists.putLast, Function.update_self, List.filter_append, hremove i]
      simp
    · rw [Lists.putLast, Function.update_of_ne hl, hremove i]
  have hfirst : ∀ i l', ((L.remove i).putFirst l' i l).filter (· ∉ [i]) =
      (L l).filter (· ∉ [i]) := by
    intro i l'
    by_cases hl : l = l'
    · subst hl
      rw [Lists.putFirst, Function.update_self, List.filter_cons_of_neg (by simp), hremove i]
    · rw [Lists.putFirst, Function.update_of_ne hl, hremove i]
  cases op with
  | allocAppend list =>
      rw [Op.next, Op.touched]
      cases (L .freelist).getLast? with
      | none => rfl
      | some i => exact hlast i _
  | allocPrepend list =>
      rw [Op.next, Op.touched]
      cases (L .freelist).getLast? with
      | none => rfl
      | some i => exact hfirst i _
  | free it =>
      rw [Op.next, Op.touched]
      cases it.index with
      | none => rfl
      | some i => exact hlast i _
  | moveToEndOf it dst =>
      rw [Op.next, Op.touched]
      cases it.index with
      | none => rfl
      | some i => exact hlast i _
  | moveToBeginOf it dst =>
      rw [Op.next, Op.touched]
      cases it.index with
      | none => rfl
      | some i => exact hfirst i _
  | clear list =>
      rw [Op.next, Op.touched]
      by_cases hl : l = .rtlist list
      · subst hl
        simp [Lists.putLast, Lists.empty, List.filter_eq_nil_iff]
      · by_cases hf : l = .freelist
        · subst hf
          rw [Lists.putLast, Function.update_self, List.filter_append, Lists.empty,
            Function.update_of_ne hl]
          simp [List.filter_eq_nil_iff]
        · rw [Lists.putLast, Function.update_of_ne hf, Lists.empty, Function.update_of_ne hl]

end Pool

end LinuxSampler
