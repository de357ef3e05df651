import LinuxSampler.RtAvlQueue

/-!
# Runs of an RTAVLTree

Any sequence of insertions of nodes that are not in the tree, erasures
of nodes that are, and `clear()`, from an empty tree. The links are
those of a balanced search tree with its rings at every point, and
taking out the lowest node again and again sorts the nodes without
changing the order of nodes with equal keys.
-/

namespace LinuxSampler

open AvlTree

namespace RTAVLTree

variable {ν κ : Type*} [DecidableEq ν] [LinearOrder κ] {key : ν → κ} {tSafe : Bool}
  {T T' : RTAVLTree ν} {t : BinaryTree ν} {pending : List ν}

/-! ## Runs -/

inductive Op (ν : Type*) where
  | insert (item : ν)
  | erase (item : ν)
  | clear

def Op.apply (key : ν → κ) (tSafe : Bool) (T : RTAVLTree ν) : Op ν → Option (RTAVLTree ν)
  | .insert item => T.insert key tSafe item
  | .erase item => T.erase tSafe item
  | .clear => T.clear tSafe

def run (key : ν → κ) (tSafe : Bool) : List (Op ν) → RTAVLTree ν → Option (RTAVLTree ν)
  | [], T => some T
  | op :: ops, T => do
      let T ← op.apply key tSafe T
      run key tSafe ops T

/-- The nodes inserted and not yet erased, in the order of their
insertion. -/
def Op.next (pending : List ν) : Op ν → List ν
  | .insert item => pending ++ [item]
  | .erase item => pending.erase item
  | .clear => []

/-- An inserted node is not in the tree, an erased one is. -/
def Op.Valid (pending : List ν) : Op ν → Prop
  | .insert item => item ∉ pending
  | .erase item => item ∈ pending
  | .clear => True

def queue (ops : List (Op ν)) : List ν :=
  ops.foldl Op.next []

def ValidRun : List ν → List (Op ν) → Prop
  | _, [] => True
  | pending, op :: ops => op.Valid pending ∧ ValidRun (op.next pending) ops

instance (pending : List ν) : DecidablePred (Op.Valid pending)
  | .insert item => inferInstanceAs (Decidable (item ∉ pending))
  | .erase item => inferInstanceAs (Decidable (item ∈ pending))
  | .clear => inferInstanceAs (Decidable True)

instance decidableValidRun : ∀ (pending : List ν) (ops : List (Op ν)),
    Decidable (ValidRun pending ops)
  | _, [] => inferInstanceAs (Decidable True)
  | pending, op :: ops =>
      have := decidableValidRun (op.next pending) ops
      inferInstanceAs (Decidable (op.Valid pending ∧ ValidRun (op.next pending) ops))

theorem Holds.apply (hT : Holds key tSafe T t pending) {op : Op ν} (hop : op.Valid pending) :
    ∃ T' t', op.apply key tSafe T = some T' ∧ Holds key tSafe T' t' (op.next pending) := by
  cases op with
  | insert item => exact hT.insert hop
  | erase item => exact hT.erase hop
  | clear =>
      obtain ⟨T', hrun, hT'⟩ := hT.clear
      exact ⟨T', .nil, hrun, hT'⟩

theorem Holds.run {ops : List (Op ν)} (hT : Holds key tSafe T t pending)
    (hops : ValidRun pending ops) :
    ∃ T' t', RTAVLTree.run key tSafe ops T = some T' ∧
      Holds key tSafe T' t' (ops.foldl Op.next pending) := by
  induction ops generalizing T t pending with
  | nil => exact ⟨T, t, rfl, hT⟩
  | cons op ops ih =>
      obtain ⟨hop, hops⟩ := hops
      obtain ⟨T₁, t₁, hrun, hT₁⟩ := hT.apply hop
      obtain ⟨T', t', hrest, hT'⟩ := ih hT₁ hops
      refine ⟨T', t', ?_, hT'⟩
      simp only [RTAVLTree.run, hrun, Option.bind_eq_bind, Option.bind_some, hrest]

/-- A tree object with no nodes; the fields of the nodes are arbitrary. -/
structure IsEmpty (tSafe : Bool) (T : RTAVLTree ν) : Prop where
  root : T.root = none
  nodesCount : T.nodesCount = 0
  tree : tSafe → ∀ x, T.tree x = false

theorem IsEmpty.run (key : ν → κ) {ops : List (Op ν)} (hT : IsEmpty tSafe T) (hops : ValidRun [] ops) :
    ∃ T' t, RTAVLTree.run key tSafe ops T = some T' ∧ Holds key tSafe T' t (queue ops) :=
  (Holds.empty hT.root hT.nodesCount hT.tree).run hops

/-- The heads are the search tree `t` with its links and balances, and
the nodes of the list are exactly those of the rings. -/
structure WellFormed (key : ν → κ) (T : RTAVLTree ν) (nodes : List ν) (t : BinaryTree ν)
    (twins : ν → List ν) : Prop where
  root : T.root = top t
  links : Links T none t
  mutual_links : Mutual T (walk .left t)
  search : SearchTree key t
  balanced : Balanced t
  ring : ∀ h ∈ walk .left t, Ring T h (twins h)
  key_eq : ∀ h ∈ walk .left t, ∀ x ∈ twins h, key x = key h
  nodes_perm : ((walk .left t).flatMap fun h => h :: twins h).Perm nodes
  nodes_nodup : nodes.Nodup
  count : T.nodesCount = nodes.length

omit [DecidableEq ν] in
theorem Holds.wellFormed (hT : Holds key tSafe T t pending) :
    WellFormed key T pending t fun h => (withKey key (key h) pending).tail := by
  have hring : ∀ h ∈ walk .left t, withKey key (key h) pending =
      h :: (withKey key (key h) pending).tail ∧ Ring T h (withKey key (key h) pending).tail := by
    intro h hh
    obtain ⟨twins, hw, hr⟩ := hT.ring h hh
    rw [hw]
    exact ⟨rfl, hr⟩
  have hflat : ((walk .left t).flatMap fun h => h :: (withKey key (key h) pending).tail) =
      (walk .left t).flatMap fun h => withKey key (key h) pending :=
    List.flatMap_congr fun h hh => (hring h hh).1.symm
  refine ⟨hT.represents.root, hT.represents.links, hT.represents.mutual, hT.search, hT.balanced,
    fun h hh => (hring h hh).2, fun h hh x hx => ?_, ?_, hT.nodup, hT.count⟩
  · exact (mem_withKey.mp (List.mem_of_mem_tail hx)).2
  · rw [hflat]
    refine (List.perm_ext_iff_of_nodup ?_ hT.nodup).mpr fun x => ?_
    · refine List.nodup_flatMap.mpr ⟨fun h _ => hT.nodup.filter _, ?_⟩
      refine (searchTree_iff.mp hT.search).imp fun hlt x hx hx' => ?_
      exact hlt.ne ((mem_withKey.mp hx).2.symm.trans (mem_withKey.mp hx').2)
    · simp only [List.mem_flatMap, mem_withKey]
      constructor
      · rintro ⟨h, -, hx, -⟩
        exact hx
      · intro hx
        obtain ⟨h, hh, hk⟩ := hT.cover x hx
        exact ⟨h, hh, hx, hk.symm⟩

/-- Over runs of insertions and erasures, the tree holds the nodes that are queued and no others. Its
links agree with each other, it is sorted and balanced, and the twins of a key are in one ring, the
oldest first. -/
theorem run_wellFormed {ops : List (Op ν)} (hT : IsEmpty tSafe T) (hops : ValidRun [] ops) :
    ∃ T' t twins, run key tSafe ops T = some T' ∧ WellFormed key T' (queue ops) t twins := by
  obtain ⟨T', t, hrun, hT'⟩ := hT.run key hops
  exact ⟨T', t, _, hrun, hT'.wellFormed⟩

def decade (n : ℕ) : ℕ := n / 10

/-- An object without nodes whose node fields are not initialised. -/
def freshTree : RTAVLTree ℕ where
  root := none
  nodesCount := 0
  parent x := some x
  children x _ := some x
  prevTwin x := x + 1
  nextTwin x := x + 1
  balance _ := 7
  twinHead _ := false
  tree _ := false

theorem freshTree_isEmpty (tSafe : Bool) : IsEmpty tSafe freshTree :=
  ⟨rfl, rfl, fun _ _ => rfl⟩

theorem run_wellFormed_twins :
    ∃ T' t twins, run decade false
        [.insert 10, .insert 20, .insert 11, .insert 30, .erase 10, .insert 12, .erase 20]
        freshTree = some T' ∧
      WellFormed decade T' [11, 30, 12] t twins :=
  run_wellFormed (freshTree_isEmpty false) (by decide)

/-! ## Taking out the lowest node -/

/-- `while (!isEmpty()) erase(lowest());`, with the nodes in the order in
which they come out. -/
def drain (tSafe : Bool) : ℕ → RTAVLTree ν → Option (List ν)
  | 0, _ => none
  | fuel + 1, T =>
      if T.root = none then some []
      else do
        let x ← T.lowest
        let T ← T.erase tSafe x
        let rest ← drain tSafe fuel T
        return x :: rest

/-- `out` is `pending` sorted by the key, and equal keys keep their
order. -/
structure StableSorted (key : ν → κ) (pending out : List ν) : Prop where
  perm : out.Perm pending
  sorted : out.Pairwise fun x y => key x ≤ key y
  stable : ∀ k, withKey key k out = withKey key k pending

theorem StableSorted.cons {x : ν} {twins out : List ν} (h : StableSorted key (pending.erase x) out)
    (hn : pending.Nodup) (hw : withKey key (key x) pending = x :: twins)
    (hmin : ∀ y ∈ pending, key x ≤ key y) : StableSorted key pending (x :: out) := by
  have hx : x ∈ pending := by
    have : x ∈ withKey key (key x) pending := by
      rw [hw]
      exact List.mem_cons_self
    exact (mem_withKey.mp this).1
  refine ⟨(h.perm.cons x).trans (List.perm_cons_erase hx).symm, ?_, fun k => ?_⟩
  · refine List.pairwise_cons.mpr ⟨fun y hy => ?_, h.sorted⟩
    exact hmin y (List.mem_of_mem_erase (h.perm.mem_iff.mp hy))
  · have hk := h.stable k
    by_cases hkx : key x = k
    · subst hkx
      rw [withKey_erase hn, hw, List.erase_cons_head] at hk
      rw [hw, ← hk]
      exact List.filter_cons_of_pos (by simp)
    · rw [withKey_erase_of_ne hn hkx] at hk
      rw [← hk]
      exact List.filter_cons_of_neg (by simp [hkx])

theorem drain_spec : ∀ {n : ℕ} {T : RTAVLTree ν} {t : BinaryTree ν} {pending : List ν},
    Holds key tSafe T t pending → pending.length < n →
    ∃ out, drain tSafe n T = some out ∧ StableSorted key pending out
  | fuel + 1, T, t, pending, hT, hfuel => by
      unfold drain
      by_cases hroot : T.root = none
      · rw [if_pos hroot, hT.eq_nil hroot]
        exact ⟨[], rfl, .rfl, .nil, fun _ => rfl⟩
      · have hne : pending ≠ [] := by
          rintro rfl
          obtain ⟨x, hx⟩ := Option.ne_none_iff_exists'.mp hroot
          exact List.not_mem_nil (hT.root_mem hx)
        obtain ⟨x, hx, hlow, hmin⟩ := hT.lowest hne
        have hmem := hT.head_mem hx
        obtain ⟨twins, hw, -⟩ := hT.ring x hx
        obtain ⟨T₁, t₁, hrun, hT₁⟩ := hT.erase hmem
        have hlen := List.length_erase_of_mem hmem
        have hpos := List.length_pos_of_mem hmem
        obtain ⟨out, hdrain, hout⟩ := drain_spec (n := fuel) hT₁ (by omega)
        refine ⟨x :: out, ?_, hout.cons hT.nodup hw hmin⟩
        rw [if_neg hroot]
        simp only [hlow, hrun, hdrain, Option.bind_eq_bind, Option.bind_some]
        rfl

/-- The lowest node is one of those with the lowest key, and taking the lowest out until the tree is
empty sorts the nodes. Those of one key come out in the order in which they were inserted. -/
theorem run_drain {ops : List (Op ν)} (hT : IsEmpty tSafe T) (hops : ValidRun [] ops) :
    ∃ T', run key tSafe ops T = some T' ∧
      (queue ops ≠ [] →
        ∃ x ∈ queue ops, T'.lowest = some x ∧ ∀ y ∈ queue ops, key x ≤ key y) ∧
      ∃ out, drain tSafe T'.fuel T' = some out ∧ StableSorted key (queue ops) out := by
  obtain ⟨T', t, hrun, hT'⟩ := hT.run key hops
  refine ⟨T', hrun, fun hne => ?_, drain_spec hT' hT'.length_lt_fuel⟩
  obtain ⟨x, hx, hlow, hmin⟩ := hT'.lowest hne
  exact ⟨x, hT'.head_mem hx, hlow, hmin⟩

theorem run_drain_twins :
    ∃ T', run decade true
        [.insert 20, .insert 10, .insert 21, .insert 11, .erase 20, .insert 12] freshTree =
          some T' ∧
      ([10, 21, 11, 12] ≠ [] →
        ∃ x ∈ [10, 21, 11, 12], T'.lowest = some x ∧
          ∀ y ∈ [10, 21, 11, 12], decade x ≤ decade y) ∧
      ∃ out, drain true T'.fuel T' = some out ∧
        StableSorted decade [10, 21, 11, 12] out :=
  run_drain (freshTree_isEmpty true) (by decide)

end RTAVLTree

end LinuxSampler
