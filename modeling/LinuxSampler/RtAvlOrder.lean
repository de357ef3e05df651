import LinuxSampler.RtAvlRun

/-!
# Iteration

`after()` and `before()` from node to node. Both find the neighbours of
a head in the tree. But a twin that is not a head has no tree links, so
`after()` ends at the last twin of a ring, and `before()` steps from a
head past the twins of its predecessor.
-/

namespace LinuxSampler

open AvlTree

namespace RTAVLTree

variable {ν κ : Type*} [DecidableEq ν] [LinearOrder κ] {key : ν → κ} {tSafe : Bool}
  {T : RTAVLTree ν} {t : BinaryTree ν} {pending : List ν}

/-! ## Neighbours in the tree -/

theorem climb_spec {d : Dir} : ∀ {c : List (Frame ν)} {t : BinaryTree ν} {fuel : ℕ} {x : ν},
    Represents T (plug c t) → top t = some x → c.length < fuel →
    T.climb d fuel x = some (walkAfter d c).head?
  | [], t, fuel + 1, x, hT, hx, _ => by
      have hp := parent_top (represents_plug.mp hT) hx
      unfold climb
      rw [hp]
      rfl
  | f :: c, t, fuel + 1, x, hT, hx, hfuel => by
      have hat := represents_plug.mp hT
      obtain ⟨-, hd, ho, -, -, -⟩ := hat.ctx
      unfold climb
      rw [parent_top hat hx]
      simp only [above, walkAfter]
      rcases Dir.eq_or_eq_opposite d f.dir with e | e
      · rw [if_pos (by rw [← e, hd, hx]), if_pos e]
        rfl
      · rw [if_neg, if_neg (by simp [e])]
        · exact climb_spec (t := f.fill t) hT (top_branch ..)
            (by simp only [List.length_cons] at hfuel; omega)
        · rw [e, Dir.opposite_opposite] at ho
          rw [ho]
          intro htop
          exact hat.disjoint (by simp [ctxNodes, top_mem htop]) (top_mem hx)

theorem neighbour_spec {d : Dir} {x : ν} {A B : List ν} (hT : Represents T t)
    (hw : walk d t = A ++ x :: B) (hcount : ((walk .left t).length : ℤ) ≤ T.nodesCount) :
    T.neighbour d x = some B.head? := by
  have hx : x ∈ walk .left t := by
    rw [mem_walk .left d, hw]
    simp
  obtain ⟨c, l, r, rfl⟩ := exists_plug hx
  obtain ⟨a, b, hab⟩ := exists_branch d x l r
  rw [hab] at hT hw hcount hx
  have hat := represents_plug.mp hT
  obtain ⟨-, -, hxb, -, -, hlb⟩ := links_branch.mp hat.links
  have hnodup : (walk d (plug c (branch d a x b))).Nodup := by
    rcases Dir.eq_or_eq_opposite .left d with rfl | rfl
    · exact hT.nodup
    · rw [walk_opposite, List.nodup_reverse]
      exact hT.nodup
  have hB : B = walk d b ++ walkAfter d c := by
    have hw' : walkBefore d c ++ walk d a ++ x :: (walk d b ++ walkAfter d c) = A ++ x :: B := by
      rw [← hw, walk_plug, walk_branch]
      simp
    rw [hw, List.nodup_middle, List.nodup_cons, List.mem_append, not_or] at hnodup
    exact ((List.append_cons_inj_of_notMem hnodup.1.1 hnodup.1.2).mp hw'.symm).2.2
  have hheight := height_le_length .left (plug c (branch d a x b))
  unfold neighbour
  rw [hxb, hB]
  cases htop : top b with
  | none =>
      obtain rfl := top_eq_none.mp htop
      have hlen := length_le_ctxNodes c
      have hperm := (walk_plug_perm c (branch d a x .nil)).length_eq
      rw [List.length_append] at hperm
      simpa using climb_spec hT (top_branch ..) (by unfold fuel; omega)
  | some y =>
      have hbh : b.height ≤ T.fuel := by
        have h₁ := height_le_length .left b
        have h₂ := (walk_plug_perm c (branch d a x b)).length_eq
        have h₃ : (walk .left (branch d a x b)).length =
            (walk .left a).length + (walk .left b).length + 1 := by
          simp only [length_walk]
          cases d
          · rfl
          · simp [branch]
            omega
        rw [List.length_append] at h₂
        unfold fuel
        omega
      obtain ⟨z, hz, hhead⟩ := walkDown_head d hlb htop hbh
      simp only [hz, Option.map_some]
      rw [List.head?_append, hhead]
      rfl

/-! ## Iteration -/

/-- The nodes from `x` on, up to the one after which `step` answers
NULL. -/
def follow (step : ν → Option (Option ν)) : ℕ → ν → Option (List ν)
  | 0, _ => none
  | fuel + 1, x => do
      match ← step x with
      | none => return [x]
      | some y =>
          let rest ← follow step fuel y
          return x :: rest

omit [DecidableEq ν] in
theorem follow_eq {step : ν → Option (Option ν)} {L : List ν}
    (hstep : ∀ A x B, L = A ++ x :: B → step x = some B.head?) :
    ∀ {B A : List ν} {x : ν}, L = A ++ x :: B → follow step (B.length + 1) x = some (x :: B)
  | [], A, x, hL => by
      unfold follow
      rw [hstep A x [] hL]
      rfl
  | y :: B, A, x, hL => by
      have ih := follow_eq hstep (A := A ++ [x]) (x := y) (B := B) (by simp [hL])
      unfold follow
      rw [hstep A x (y :: B) hL]
      simp only [List.head?_cons, Option.bind_eq_bind, Option.bind_some, List.length_cons, ih]
      rfl

omit [DecidableEq ν] in
theorem follow_mem {step : ν → Option (Option ν)} {S : List ν}
    (hstep : ∀ x ∈ S, ∀ y, step x = some (some y) → y ∈ S) :
    ∀ {n : ℕ} {x : ν} {out : List ν}, x ∈ S → follow step n x = some out → ∀ y ∈ out, y ∈ S
  | n + 1, x, out, hx, hrun, y, hy => by
      unfold follow at hrun
      simp only [Option.bind_eq_bind, Option.bind_eq_some_iff] at hrun
      obtain ⟨o, ho, hrun⟩ := hrun
      cases o with
      | none =>
          cases hrun
          rwa [List.mem_singleton.mp hy]
      | some z =>
          obtain ⟨rest, hrest, hout⟩ := Option.bind_eq_some_iff.mp hrun
          cases hout
          rcases List.mem_cons.mp hy with rfl | hy
          · exact hx
          · exact follow_mem hstep (hstep x hx z ho) hrest y hy

/-- Iteration from either end meets every node once, forwards in the
order of the keys, and the two directions are inverse to each other. -/
structure Iterates (key : ν → κ) (T : RTAVLTree ν) (nodes : List ν) : Prop where
  forward : ∀ x, T.lowest = some x → ∃ n out, follow T.after n x = some out ∧
    out.Perm nodes ∧ out.Pairwise fun x y => key x ≤ key y
  backward : ∀ x, T.highest = some x → ∃ n out, follow T.before n x = some out ∧
    out.Perm nodes
  inverse : ∀ x ∈ nodes, ∀ y, T.after x = some (some y) → T.before y = some (some x)

omit [DecidableEq ν] in
theorem Holds.ends_eq (hT : Holds key tSafe T t pending) :
    T.lowest = (walk .left t).head? ∧ T.highest = (walk .right t).head? := by
  unfold RTAVLTree.lowest highest
  cases hroot : T.root with
  | none =>
      have hr := hT.represents.root
      rw [hroot] at hr
      rw [top_eq_none.mp hr.symm]
      exact ⟨rfl, rfl⟩
  | some root =>
      obtain ⟨x, hl, hx⟩ := hT.walkDown .left hroot
      obtain ⟨y, hr, hy⟩ := hT.walkDown .right hroot
      rw [hx, hy]
      exact ⟨hl, hr⟩

theorem Holds.neighbour (hT : Holds key tSafe T t pending) {d : Dir} {x : ν} {A B : List ν}
    (hw : walk d t = A ++ x :: B) : T.neighbour d x = some B.head? :=
  neighbour_spec hT.represents hw hT.length_le

theorem Holds.before_head (hT : Holds key tSafe T t pending) {x : ν} {A B : List ν}
    (hw : walk .right t = A ++ x :: B) : T.before x = some B.head? := by
  have hx : x ∈ walk .left t := by
    rw [mem_walk .left .right, hw]
    simp
  obtain ⟨twins, -, hring⟩ := hT.ring x hx
  unfold before
  rw [if_neg (by simp [hring.head_eq])]
  exact hT.neighbour hw

omit [DecidableEq ν] in
/-- No node has a twin. -/
theorem Holds.singleton (hT : Holds key tSafe T t pending) (hd : (pending.map key).Nodup)
    {x : ν} (hx : x ∈ walk .left t) : T.nextTwin x = x ∧ T.twinHead x = true := by
  obtain ⟨twins, hw, hring⟩ := hT.ring x hx
  obtain ⟨hn, hsub⟩ := hT.ring_mem hw
  have htwins : twins = [] := by
    rw [List.eq_nil_iff_forall_not_mem]
    intro y hy
    obtain ⟨hyp, hyk⟩ := hsub y (List.mem_cons_of_mem _ hy)
    obtain rfl := List.inj_on_of_nodup_map hd hyp (hT.head_mem hx) hyk
    exact (List.nodup_cons.mp hn).1 hy
  exact ⟨(hring.nextTwin_eq hn).mpr htwins, hring.head_eq⟩

omit [DecidableEq ν] in
theorem Holds.walk_perm (hT : Holds key tSafe T t pending) (hd : (pending.map key).Nodup) :
    (walk .left t).Perm pending := by
  refine (List.perm_ext_iff_of_nodup hT.represents.nodup hT.nodup).mpr fun x => ?_
  constructor
  · exact hT.head_mem
  · intro hx
    obtain ⟨h, hh, hk⟩ := hT.cover x hx
    obtain rfl := List.inj_on_of_nodup_map hd (hT.head_mem hh) hx hk
    exact hh

theorem Holds.after_eq (hT : Holds key tSafe T t pending) (hd : (pending.map key).Nodup)
    {x : ν} {A B : List ν} (hw : walk .left t = A ++ x :: B) : T.after x = some B.head? := by
  obtain ⟨hnext, hhead⟩ := hT.singleton hd (x := x) (by simp [hw])
  unfold after
  rw [hnext, if_neg (by simp [hhead])]
  exact hT.neighbour hw

theorem Holds.iterates (hT : Holds key tSafe T t pending) (hd : (pending.map key).Nodup) :
    Iterates key T pending := by
  have hperm := hT.walk_perm hd
  have hsorted := searchTree_iff.mp hT.search
  refine ⟨fun x hx => ?_, fun x hx => ?_, fun x hx y hy => ?_⟩
  · rw [hT.ends_eq.1] at hx
    obtain ⟨B, hw⟩ := List.head?_eq_some_iff.mp hx
    refine ⟨_, x :: B, follow_eq (fun A y B => hT.after_eq hd) (A := []) hw, hw ▸ hperm, ?_⟩
    rw [← hw]
    exact hsorted.imp fun h => h.le
  · rw [hT.ends_eq.2] at hx
    obtain ⟨B, hw⟩ := List.head?_eq_some_iff.mp hx
    have hrev : x :: B = (walk .left t).reverse := by
      rw [← hw]
      exact walk_opposite .left t
    refine ⟨_, x :: B, follow_eq (fun A y B => hT.before_head) (A := []) hw, ?_⟩
    rw [hrev]
    exact (List.reverse_perm _).trans hperm
  · obtain ⟨A, B, hw⟩ := List.append_of_mem (hperm.mem_iff.mpr hx)
    rw [hT.after_eq hd hw] at hy
    obtain ⟨B', rfl⟩ := List.head?_eq_some_iff.mp (Option.some.inj hy)
    have hw' : walk .right t = B'.reverse ++ y :: x :: A.reverse := by
      rw [show Dir.right = Dir.left.opposite from rfl, walk_opposite, hw]
      simp
    rw [hT.before_head hw']
    rfl

/-- Backwards only heads are met. -/
theorem Holds.distinct (hT : Holds key tSafe T t pending) (hI : Iterates key T pending) :
    (pending.map key).Nodup := by
  have hstep : ∀ x ∈ walk .left t, ∀ y, T.before x = some (some y) → y ∈ walk .left t := by
    intro x hx y hy
    obtain ⟨A, B, hw⟩ := List.append_of_mem ((mem_walk .right .left).mpr hx)
    rw [hT.before_head hw] at hy
    rw [mem_walk .left .right, hw]
    exact List.mem_append_right _ (List.mem_cons_of_mem _
      (List.mem_of_mem_head? (Option.some.inj hy)))
  have hsub : ∀ y ∈ pending, y ∈ walk .left t := by
    intro y hy
    obtain ⟨h, hh, -⟩ := hT.cover y hy
    obtain ⟨x, hx⟩ : ∃ x, (walk .right t).head? = some x := by
      cases hw : walk .right t with
      | nil =>
          rw [mem_walk .left .right, hw] at hh
          cases hh
      | cons x B => exact ⟨x, rfl⟩
    obtain ⟨n, out, hrun, hperm⟩ := hI.backward x (hT.ends_eq.2.trans hx)
    have hxw : x ∈ walk .left t := (mem_walk .right .left).mp (List.mem_of_mem_head? hx)
    exact follow_mem hstep hxw hrun y (hperm.mem_iff.mpr hy)
  refine hT.nodup.map_on fun x hx y hy hk => ?_
  exact hT.search.key_inj (hsub x hx) (hsub y hy) hk

theorem Holds.iterates_iff (hT : Holds key tSafe T t pending) :
    Iterates key T pending ↔ (pending.map key).Nodup :=
  ⟨hT.distinct, hT.iterates⟩

/-- `after()` and `before()` go through all nodes in order just if no key is there twice. -/
theorem run_iterates_iff {ops : List (Op ν)} (hT : IsEmpty tSafe T) (hops : ValidRun [] ops) :
    ∃ T', run key tSafe ops T = some T' ∧
      (Iterates key T' (queue ops) ↔ ((queue ops).map key).Nodup) := by
  obtain ⟨T', t, hrun, hT'⟩ := hT.run key hops
  exact ⟨T', hrun, hT'.iterates_iff⟩

theorem run_iterates_iff_twins :
    ∃ T', run decade true [.insert 10, .insert 20, .insert 11] freshTree = some T' ∧
      (Iterates decade T' [10, 20, 11] ↔ ([10, 20, 11].map decade).Nodup) :=
  run_iterates_iff (freshTree_isEmpty true) (by decide)

/-- `after()` answers NULL for 11, the last twin of 10, and `before()`
steps from 20 to 10. -/
theorem iteration_stops_at_twins :
    ∃ T', run decade true [.insert 10, .insert 20, .insert 11] freshTree = some T' ∧
      T'.lowest = some 10 ∧ follow T'.after 3 10 = some [10, 11] ∧
      T'.highest = some 20 ∧ follow T'.before 3 20 = some [20, 10] ∧
      ¬ Iterates decade T' [10, 20, 11] := by
  have hops : ValidRun [] [Op.insert 10, .insert 20, .insert 11] := by decide
  obtain ⟨T', t, hrun, hT'⟩ := (freshTree_isEmpty true).run decade hops
  have heval : ∀ {α : Type} {f : RTAVLTree ℕ → Option α} {a : α},
      (run decade true [.insert 10, .insert 20, .insert 11] freshTree).bind f = some a →
        f T' = some a := by
    intro α f a h
    rwa [hrun] at h
  refine ⟨T', hrun, heval (by decide), heval (f := fun T => follow T.after 3 10) (by decide),
    heval (by decide), heval (f := fun T => follow T.before 3 20) (by decide), fun hI => ?_⟩
  exact absurd (hT'.distinct hI) (by decide)

end RTAVLTree

end LinuxSampler
