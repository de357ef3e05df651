import LinuxSampler.PoolRun

/-!
# Forward loops over a list

`for (it = list.first(); it; ++it)` with a body that keeps its element,
releases it or moves it to another list. The iterator falls back to the
last element that stayed, which is linked to the rest of the list.
-/

namespace LinuxSampler

open DoublyLinked

variable {ι : Type*} [DecidableEq ι] {P P' : Pool ι} {L : Lists ι} {list : ι} {i n : ℕ}
  {A B : List ℕ} {it it' : Iterator ι}

namespace Pool

/-- What the body of a loop over `list` does with the current element. -/
inductive LoopAction (list : ι) where
  | keep
  | free
  | moveToEndOf (dst : ι) (hdst : dst ≠ list)
  | moveToBeginOf (dst : ι) (hdst : dst ≠ list)

def LoopAction.apply (P : Pool ι) (it : Iterator ι) : LoopAction list → Pool ι × Iterator ι
  | .keep => (P, it)
  | .free => P.free it
  | .moveToEndOf dst _ => ((P.moveToEndOf it dst).1, (P.moveToEndOf it dst).2.1)
  | .moveToBeginOf dst _ => ((P.moveToBeginOf it dst).1, (P.moveToBeginOf it dst).2.1)

/-- The loop from an iterator on. The body may decide by the state it finds.
The result has the elements visited. -/
def forwardLoopFrom (body : Pool ι → ℕ → LoopAction list) :
    ℕ → Pool ι → Iterator ι → Option (Pool ι × List ℕ)
  | 0, _, _ => none
  | fuel + 1, P, it =>
      match it.current with
      | .node i => do
          let (P', it') := (body P i).apply P it
          let (P'', visited) ← forwardLoopFrom body fuel P' (P'.increment it')
          return (P'', i :: visited)
      | _ => some (P, [])

def forwardLoop (P : Pool ι) (list : ι) (body : Pool ι → ℕ → LoopAction list) :
    Option (Pool ι × List ℕ) :=
  forwardLoopFrom body (P.poolsize + 1) P (P.first (.rtlist list))

/-- An element that leaves the list leaves the rest as it is. -/
theorem Holds.leave (h : Holds n P L) (hit : it.current = .node i) (hi : i ∈ L (.rtlist list))
    (action : LoopAction list) (hkeep : action ≠ .keep) :
    ∃ P' L', action.apply P it = (P', { it with current := it.fallback }) ∧ Holds n P' L' ∧
      L' (.rtlist list) = (L (.rtlist list)).erase i := by
  have hindex : it.index = some i := Iterator.index_eq_some.mpr hit
  have hvalid : ∃ i ∈ it.index, P.Allocated i := ⟨i, hindex, h.allocated_iff.mpr ⟨list, hi⟩⟩
  cases action with
  | keep => exact absurd rfl hkeep
  | free =>
      obtain ⟨P', hrun, -, hP'⟩ := h.apply (.free it) hvalid
      cases hrun
      refine ⟨_, _, rfl, hP', ?_⟩
      rw [Op.next, hindex]
      have hne : ListId.rtlist list ≠ .freelist := by simp
      simp only [Option.elim_some, Lists.putLast, Function.update_of_ne hne]
      rfl
  | moveToEndOf dst hdst =>
      obtain ⟨P', hrun, -, hP'⟩ := h.apply (.moveToEndOf it dst) hvalid
      cases hrun
      refine ⟨_, _, rfl, hP', ?_⟩
      rw [Op.next, hindex]
      exact Function.update_of_ne (by simpa using hdst.symm) _ _
  | moveToBeginOf dst hdst =>
      obtain ⟨P', hrun, -, hP'⟩ := h.apply (.moveToBeginOf it dst) hvalid
      cases hrun
      refine ⟨_, _, rfl, hP', ?_⟩
      rw [Op.next, hindex]
      exact Function.update_of_ne (by simpa using hdst.symm) _ _

/-- The iterator stands behind the elements of `A`, which stayed in the list,
and before those of `B`. -/
structure Cursor (list : ι) (A B : List ℕ) (it : Iterator ι) : Prop where
  current : it.current ∈ (B.map NodeRef.node ++ [NodeRef.endOf (.rtlist list)]).head?
  fallback : it.fallback ∈ (NodeRef.beginOf (.rtlist list) :: A.map NodeRef.node).getLast?

omit [DecidableEq ι] in
theorem Cursor.next_fallback (hit : Cursor list A B it) (h : P'.Linked L)
    {B' : List ℕ} (hL : L (.rtlist list) = A ++ B') :
    P'.next it.fallback ∈ (B'.map NodeRef.node ++ [NodeRef.endOf (.rtlist list)]).head? := by
  have hne : B'.map NodeRef.node ++ [NodeRef.endOf (.rtlist list)] ≠ [] := by simp
  have hhead := List.head?_eq_some_head hne
  have hmap : (L (.rtlist list)).map (NodeRef.node (ι := ι)) =
      A.map NodeRef.node ++ B'.map NodeRef.node := by
    rw [hL, List.map_append]
  rw [(Represents.mutual h (i := .rtlist list) hmap hit.fallback hhead).1]
  exact hhead

omit [DecidableEq ι] in
/-- The element at the iterator stays, and the loop goes on. -/
theorem Cursor.stay (hit : Cursor list A (i :: B) it) (h : P.Linked L)
    (hL : L (.rtlist list) = A ++ i :: B) : Cursor list (A ++ [i]) B (P.increment it) := by
  have hcur : it.current = .node i := (Option.some.inj hit.current).symm
  have hfb : it.current ∈
      (NodeRef.beginOf (.rtlist list) :: (A ++ [i]).map NodeRef.node).getLast? := by
    rw [List.map_append, ← List.cons_append, List.getLast?_append, hcur]
    rfl
  have hstay : Cursor list (A ++ [i]) (i :: B) ⟨it.current, it.current⟩ := ⟨hit.current, hfb⟩
  refine ⟨hstay.next_fallback h ?_, hfb⟩
  rw [hL, List.append_assoc, List.singleton_append]

omit [DecidableEq ι] in
/-- The element at the iterator has left the list, and the loop goes on. -/
theorem Cursor.leave (hit : Cursor list A (i :: B) it) (h : P.Linked L)
    (hL : L (.rtlist list) = A ++ B) :
    Cursor list A B (P.increment { it with current := it.fallback }) :=
  ⟨hit.next_fallback h hL, hit.fallback⟩

theorem forwardLoopFrom_spec (body : Pool ι → ℕ → LoopAction list) {fuel : ℕ} (h : Holds n P L)
    (hL : L (.rtlist list) = A ++ B) (hit : Cursor list A B it) (hfuel : B.length < fuel) :
    ∃ P' L', forwardLoopFrom body fuel P it = some (P', B) ∧ Holds n P' L' := by
  induction B generalizing P L A it fuel with
  | nil =>
      obtain ⟨fuel, rfl⟩ : ∃ f, fuel = f + 1 := ⟨fuel - 1, by simp at hfuel; omega⟩
      have hcur : it.current = .endOf (.rtlist list) := (Option.some.inj hit.current).symm
      exact ⟨P, L, by rw [forwardLoopFrom, hcur], h⟩
  | cons i B ih =>
      obtain ⟨fuel, rfl⟩ : ∃ f, fuel = f + 1 := ⟨fuel - 1, by simp at hfuel; omega⟩
      have hcur : it.current = .node i := (Option.some.inj hit.current).symm
      have hi : i ∈ L (.rtlist list) := by simp [hL]
      have hfuel' : B.length < fuel := by simpa using hfuel
      rw [forwardLoopFrom, hcur]
      by_cases hkeep : body P i = .keep
      · -- the element stays and becomes the one to fall back to
        have hL' : L (.rtlist list) = (A ++ [i]) ++ B := by
          rw [hL, List.append_assoc, List.singleton_append]
        have hcursor := hit.stay h.linked hL
        obtain ⟨P', L', hrun, hP'⟩ := ih h hL' hcursor hfuel'
        refine ⟨P', L', ?_, hP'⟩
        simp only [hkeep, LoopAction.apply]
        rw [hrun]
        rfl
      · obtain ⟨P₁, L₁, happly, h₁, hL₁⟩ := h.leave hcur hi (body P i) hkeep
        have hiA : i ∉ A := by
          have hn := h.linked.nodup (.rtlist list)
          rw [hL, List.nodup_append'] at hn
          exact fun hA => hn.2.2 hA List.mem_cons_self
        have hL₁ : L₁ (.rtlist list) = A ++ B := by
          rw [hL₁, hL, List.erase_append_right _ hiA, List.erase_cons_head]
        have hcursor := hit.leave h₁.linked hL₁
        obtain ⟨P', L', hrun, hP'⟩ := ih h₁ hL₁ hcursor hfuel'
        refine ⟨P', L', ?_, hP'⟩
        simp only [happly]
        rw [hrun]
        rfl

theorem Holds.forwardLoop (h : Holds n P L) (list : ι) (body : Pool ι → ℕ → LoopAction list) :
    ∃ P' L', P.forwardLoop list body = some (P', L (.rtlist list)) ∧ Holds n P' L' := by
  have hcur := h.linked.next_begin (.rtlist list)
  have hmut := (Represents.mutual h.linked (i := .rtlist list) (A := []) (List.nil_append _).symm
    rfl hcur).2
  refine forwardLoopFrom_spec body h (List.nil_append _).symm ⟨hcur, ?_⟩
    (Nat.lt_succ_of_le (h.length_le _))
  rw [first, iterator, if_pos rfl]
  exact congrArg some hmut.symm

/-! ## The partition -/

/-- Each of the `n` nodes is in exactly one of the lists, once, and the
neighbours in a list point to each other from one boundary to the other. -/
structure WellFormed (n : ℕ) (P : Pool ι) : Prop where
  mutual_links : ∀ l, P.Path (.beginOf l :: ((P.elements l).map .node ++ [.endOf l]))
  nodup : ∀ l, (P.elements l).Nodup
  partition : ∀ i, i < n → ∃! l, i ∈ P.elements l
  bound : ∀ l, ∀ i ∈ P.elements l, i < n

omit [DecidableEq ι] in
theorem Holds.wellFormed (h : Holds n P L) : WellFormed n P := by
  rw [show L = P.elements from h.elements_eq.symm] at h
  refine ⟨h.linked.path, h.linked.nodup, fun i hi => ?_, fun l i hi => (h.cover i).mpr ⟨l, hi⟩⟩
  obtain ⟨l, hl⟩ := (h.cover i).mp hi
  exact ⟨l, hl, fun l' hl' => h.linked.eq_of_mem hl' hl⟩

/-- Over runs of the pool: the nodes are always partitioned among the lists. An operation puts
what it touches where it says (`Op.next`) and leaves the order of all else alone, and the loop
over a list visits its elements once each, whatever its body does with the element it has. -/
theorem run_partition {n r : ℕ} {ops : List (Op ι)} (hops : ValidRun ops (create ι n r)) :
    ∃ P, run ops (create ι n r) = some P ∧ WellFormed n P ∧
      (∀ op : Op ι, op.Valid P → ∃ P', op.apply P = some P' ∧ P'.elements = op.next P.elements ∧
        ∀ l, (P'.elements l).filter (· ∉ op.touched P.elements) =
          (P.elements l).filter (· ∉ op.touched P.elements)) ∧
      ∀ list body, ∃ P', P.forwardLoop list body = some (P', P.elements (.rtlist list)) ∧
        WellFormed n P' := by
  obtain ⟨P, L, hrun, hP⟩ := (create_holds n r).run hops
  have hL := hP.elements_eq
  refine ⟨P, hrun, hP.wellFormed, fun op hop => ?_, fun list body => ?_⟩
  · obtain ⟨P', happly, -, hP'⟩ := hP.apply op hop
    rw [hL]
    refine ⟨P', happly, hP'.elements_eq, fun l => ?_⟩
    rw [hP'.elements_eq]
    exact op.next_filter hP.linked l
  · obtain ⟨P', L', hloop, hP'⟩ := hP.forwardLoop list body
    rw [hL]
    exact ⟨P', hloop, hP'.wellFormed⟩

/-- Two lists of a pool with three nodes. -/
def moves : List (Op Bool) :=
  [.allocAppend true, .allocPrepend false, .moveToEndOf ⟨.node 1, .null⟩ true,
    .free ⟨.node 2, .null⟩, .clear true]

theorem run_partition_moves : ValidRun moves (create Bool 3 0) ∧
    ∃ P, run moves (create Bool 3 0) = some P ∧ WellFormed 3 P := by
  have hops : ValidRun moves (create Bool 3 0) := by decide
  obtain ⟨P, hrun, hP, -⟩ := run_partition hops
  exact ⟨hops, P, hrun, hP⟩

end Pool

end LinuxSampler
