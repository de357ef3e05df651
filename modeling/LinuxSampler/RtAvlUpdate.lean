import LinuxSampler.RtAvlRelabel

/-!
# insert() and erase() on the tree of the heads

What a new item and an erased item do to the represented tree: the walk
through it gets or loses one node, at the place that the keys determine,
and it stays balanced. The twin rings are not touched here.
-/

namespace LinuxSampler

open AvlTree

namespace RTAVLTree

variable {ν κ : Type*} [DecidableEq ν] [LinearOrder κ] {T T' : RTAVLTree ν}
  {c : List (Frame ν)} {t : BinaryTree ν} {h : ℕ}

/-! ## insert() -/

omit [DecidableEq ν] in
/-- The walk from the top down ends at a node with the key of the item,
or below the node next to which the item belongs. -/
theorem descend_spec {key : ν → κ} (item : ν) : ∀ {t : BinaryTree ν} {p : Option ν} {x : ν}
    {c : List (Frame ν)} {fuel : ℕ}, Links T p t → top t = some x → SearchTree key t →
    t.height ≤ fuel →
    (∃ y ∈ walk .left t, descend key T item fuel x = some (y, none) ∧ key y = key item) ∨
    ∃ f c' A B, descend key T item fuel x = some (f.head, some f.dir) ∧
      plug (f :: c') .nil = plug c t ∧ walkBefore .left (f :: c') = walkBefore .left c ++ A ∧
      walkAfter .left (f :: c') = B ++ walkAfter .left c ∧ A ++ B = walk .left t ∧
      (∀ a ∈ A, key a < key item) ∧ ∀ b ∈ B, key item < key b
  | .node x l r, p, _, c, fuel + 1, hl, rfl, hk, hfuel => by
      obtain ⟨-, hcl, hcr, -, hll, hlr⟩ := hl
      obtain ⟨hkl, hkr, hsl, hsr⟩ := hk
      simp only [BinaryTree.height, Nat.add_le_add_iff_right, max_le_iff] at hfuel
      unfold descend compare
      rcases lt_trichotomy (key item) (key x) with hlt | heq | hgt
      · rw [if_neg hlt.ne, if_pos hlt]
        simp only [if_true, hcl]
        have hbx : ∀ b ∈ x :: walk .left r, key item < key b := by
          intro b hb
          rcases List.mem_cons.mp hb with rfl | hb
          · exact hlt
          · exact hlt.trans (hkr b hb)
        cases l with
        | nil =>
            refine .inr ⟨⟨.left, x, r⟩, c, [], x :: walk .left r, rfl, rfl, ?_, ?_, rfl, ?_, hbx⟩
            · simp [walkBefore]
            · simp [walkAfter]
            · exact fun a ha => (List.not_mem_nil ha).elim
        | node y ly ry =>
            rcases descend_spec (c := ⟨.left, x, r⟩ :: c) item hll rfl hsl hfuel.1 with
              ⟨z, hz, hd, hkz⟩ | ⟨f, c', A, B, hd, hplug, hA, hB, hAB, hkA, hkB⟩
            · exact .inl ⟨z, List.mem_append_left _ hz, hd, hkz⟩
            · refine .inr ⟨f, c', A, B ++ x :: walk .left r, hd, hplug, ?_, ?_, ?_, hkA, ?_⟩
              · rw [hA]
                simp [walkBefore]
              · rw [hB]
                simp [walkAfter]
              · rw [← List.append_assoc, hAB]
                rfl
              · intro b hb
                rcases List.mem_append.mp hb with hb | hb
                · exact hkB b hb
                · exact hbx b hb
      · rw [if_pos heq]
        exact .inl ⟨x, by simp [walk], rfl, heq.symm⟩
      · rw [if_neg hgt.ne', if_neg hgt.not_gt]
        simp only [hcr, reduceCtorEq, if_false]
        have hax : ∀ a ∈ walk .left l ++ [x], key a < key item := by
          intro a ha
          rcases List.mem_append.mp ha with ha | ha
          · exact (hkl a ha).trans hgt
          · rw [List.mem_singleton.mp ha]
            exact hgt
        cases r with
        | nil =>
            refine .inr ⟨⟨.right, x, l⟩, c, walk .left l ++ [x], [], rfl, rfl, ?_, ?_, ?_, hax, ?_⟩
            · simp [walkBefore]
            · simp [walkAfter]
            · simp [walk]
            · exact fun b hb => (List.not_mem_nil hb).elim
        | node y ly ry =>
            rcases descend_spec (c := ⟨.right, x, l⟩ :: c) item hlr rfl hsr hfuel.2 with
              ⟨z, hz, hd, hkz⟩ | ⟨f, c', A, B, hd, hplug, hA, hB, hAB, hkA, hkB⟩
            · exact .inl ⟨z, List.mem_append_right _ (List.mem_cons_of_mem _ hz), hd, hkz⟩
            · refine .inr ⟨f, c', walk .left l ++ [x] ++ A, B, hd, hplug, ?_, ?_, ?_, ?_, hkB⟩
              · rw [hA]
                simp [walkBefore]
              · rw [hB]
                simp [walkAfter]
              · rw [List.append_assoc, hAB]
                simp [walk]
              · intro a ha
                rcases List.mem_append.mp ha with ha | ha
                · exact hax a ha
                · exact hkA a ha

omit [DecidableEq ν] in
theorem Represents.congr (hT : Represents T t) (hr : T'.root = T.root)
    (hs : ∀ x ∈ walk .left t, SameLinks T T' x) : Represents T' t :=
  ⟨hr.trans hT.root, hT.links.congr hs, hT.nodup⟩

theorem reset_sameLinks {item x : ν} {n : ℤ} (hx : x ≠ item) :
    SameLinks T { T.reset item with nodesCount := n } x :=
  ⟨Function.update_of_ne hx .., Function.update_of_ne hx .., Function.update_of_ne hx ..⟩

theorem resetInTree_sameLinks (tSafe : Bool) {item x : ν} (hx : x ≠ item) :
    SameLinks T (T.resetInTree tSafe item) x := by
  unfold resetInTree
  cases tSafe <;> exact reset_sameLinks (n := T.nodesCount) hx

theorem resetInTree_links (tSafe : Bool) (T : RTAVLTree ν) (item : ν) :
    (T.resetInTree tSafe item).parent item = none ∧
      (∀ e, (T.resetInTree tSafe item).children item e = none) ∧
      (T.resetInTree tSafe item).balance item = 0 ∧
      (T.resetInTree tSafe item).root = T.root := by
  unfold resetInTree reset
  cases tSafe <;> simp

/-- The new item at its place; the frames still record that there is
nothing. -/
theorem insertChild_at (tSafe : Bool) {f : Frame ν} {item : ν}
    (hT : Represents T (plug (f :: c) .nil)) (hitem : item ∉ walk .left (plug (f :: c) .nil)) :
    At (T.insertChild tSafe f.head f.dir item) (f :: c) (.node item .nil .nil) 0 := by
  obtain ⟨⟨hp, hd, ho, hb, hls, hctx⟩, -, -, hcn, -⟩ := represents_plug.mp hT
  rw [(walk_plug_perm _ _).mem_iff, walk_nil, List.append_nil] at hitem
  obtain ⟨hip, hic, hib, hroot⟩ := resetInTree_links tSafe T item
  have hne : f.head ≠ item := by
    rintro rfl
    exact hitem (by simp [ctxNodes])
  have hsame : ∀ x, x ≠ item → x ≠ f.head →
      SameLinks T (T.insertChild tSafe f.head f.dir item) x := by
    intro x hx hxf
    refine (resetInTree_sameLinks tSafe hx).trans ⟨?_, ?_, rfl⟩
    · simp [insertChild, hx]
    · simp [insertChild, setChild_children_of_ne _ _ _ hxf]
  have hsub : ∀ {x}, x ∈ ctxNodes (f :: c) → x ≠ item := by
    rintro x hx rfl
    exact hitem hx
  obtain ⟨sp, sc, sb⟩ := resetInTree_sameLinks (T := T) tSafe hne
  have hcn' := hcn
  simp only [ctxNodes, List.cons_append, List.nodup_cons, List.mem_append, not_or] at hcn'
  refine ⟨⟨?_, ?_, ?_, ?_, ?_, ?_⟩, ⟨?_, ?_, ?_, ?_, trivial, trivial⟩, by simp [walk], hcn, ?_⟩
  · simp [insertChild, hne, sp, hp]
  · simp [insertChild]
  · simp [insertChild, sc, ho]
  · simp [insertChild, sb, hb]
  · refine hls.congr fun x hx => hsame x (hsub (by simp [ctxNodes, hx])) ?_
    rintro rfl
    exact hcn'.1.1 hx
  · refine hctx.congr hroot fun x hx => hsame x (hsub (by simp [ctxNodes, hx])) ?_
    rintro rfl
    exact hcn'.1.2 hx
  · simp [insertChild, above]
  · simp [insertChild, hne.symm, hic]
  · simp [insertChild, hne.symm, hic]
  · simp [insertChild, hib]
  · intro x hx hx'
    simp only [walk, List.nil_append, List.mem_singleton] at hx'
    exact hitem (hx' ▸ hx)

/-- The item gets a node of its own. -/
theorem insert_new {key : ν → κ} {tSafe : Bool} {item : ν} (hT : Represents T t)
    (hb : Balanced t) (hk : SearchTree key t) (hitem : item ∉ walk .left t)
    (hnew : ∀ y ∈ walk .left t, key y ≠ key item) (hsafe : ¬ (tSafe ∧ T.tree item))
    (hcount : ((walk .left t).length : ℤ) ≤ T.nodesCount) :
    ∃ T' t' A B, T.insert key tSafe item = some T' ∧ Represents T' t' ∧ Balanced t' ∧
      walk .left t' = A ++ item :: B ∧ walk .left t = A ++ B ∧
      (∀ a ∈ A, key a < key item) ∧ (∀ b ∈ B, key item < key b) ∧
      T'.ringFields = { T.resetInTree tSafe item with nodesCount := T.nodesCount + 1 }.ringFields := by
  unfold insert
  rw [if_neg hsafe, hT.root]
  cases t with
  | nil =>
      obtain ⟨hip, hic, hib, -⟩ := resetInTree_links tSafe T item
      refine ⟨_, .node item .nil .nil, [], [], rfl, ⟨rfl, ?_, by simp [walk]⟩, ?_, rfl, rfl,
        by simp, by simp, rfl⟩
      · exact ⟨hip, hic .left, hic .right, hib, trivial, trivial⟩
      · simp [AvlTree.Balanced]
  | node x l r =>
      rw [top_node]
      have hfuel : (BinaryTree.node x l r).height ≤ T.fuel := by
        have := height_le_length .left (.node x l r)
        unfold fuel
        omega
      rcases descend_spec (c := []) item hT.links rfl hk hfuel with
        ⟨y, hy, -, hky⟩ | ⟨f, c, A, B, hd, hplug, hA, hB, hAB, hkA, hkB⟩
      · exact (hnew y hy hky).elim
      · rw [← show plug [] (BinaryTree.node x l r) = .node x l r from rfl, ← hplug] at hT hitem hb
        have hat := insertChild_at tSafe hT hitem
        obtain ⟨-, hcb⟩ := (balanced_plug ..).mp hb
        have hlen : (f :: c).length < (T.insertChild tSafe f.head f.dir item).fuel := by
          have h₁ := length_le_ctxNodes (f :: c)
          have h₂ := (walk_plug_perm (f :: c) (.nil : BinaryTree ν)).length_eq
          rw [hplug] at h₂
          simp only [walk_nil, List.append_nil, plug] at h₂
          have h₃ : (T.insertChild tSafe f.head f.dir item).nodesCount = T.nodesCount + 1 := by
            unfold insertChild resetInTree reset
            cases tSafe <;> rfl
          unfold fuel
          omega
        obtain ⟨T', t', hrun, hrep, hbal, hwalk, hring⟩ := insertRebalance_spec hat rfl hcb
          (by simp [AvlTree.Balanced]) (i := 1) (by simp) (.inr rfl) hlen
        refine ⟨T', t', A, B, ?_, hrep, hbal, ?_, hAB.symm, hkA, hkB, ?_⟩
        · simp only [hd, Option.bind_eq_bind, Option.bind_some]
          exact hrun
        · rw [hwalk, walk_plug, hA, hB]
          simp [walkBefore, walkAfter, walk]
        · rw [hring]
          unfold insertChild resetInTree reset
          cases tSafe <;> rfl

/-- The item joins the ring of the head with its key. -/
theorem insert_twin {key : ν → κ} {tSafe : Bool} {item y : ν} (hT : Represents T t)
    (hk : SearchTree key t) (hitem : item ∉ walk .left t) (hy : y ∈ walk .left t)
    (hkey : key y = key item) (hsafe : ¬ (tSafe ∧ T.tree item))
    (hcount : ((walk .left t).length : ℤ) ≤ T.nodesCount) :
    T.insert key tSafe item = some (T.insertTwin tSafe y item) := by
  unfold insert
  rw [if_neg hsafe, hT.root]
  cases t with
  | nil => cases hy
  | node x l r =>
      rw [top_node]
      have hfuel : (BinaryTree.node x l r).height ≤ T.fuel := by
        have := height_le_length .left (.node x l r)
        unfold fuel
        omega
      rcases descend_spec (c := []) item hT.links rfl hk hfuel with
        ⟨z, hz, hd, hkz⟩ | ⟨f, c, A, B, hd, hplug, hA, hB, hAB, hkA, hkB⟩
      · obtain rfl := hk.key_inj hz hy (hkz.trans hkey.symm)
        have hne : z ≠ item := fun e => hitem (e ▸ hz)
        simp only [hd, Option.bind_eq_bind, Option.bind_some, if_neg hne]
      · rw [← hAB, List.mem_append] at hy
        rcases hy with hy | hy
        · exact absurd hkey (hkA y hy).ne
        · exact absurd hkey (hkB y hy).ne'

/-! ## erase() -/

omit [DecidableEq ν] in
/-- The walk down ends at the first node of the walk from that end. -/
theorem walkDown_spec (dir : Dir) : ∀ {t : BinaryTree ν} {p : Option ν} {x : ν} {n : ℕ},
    Links T p t → top t = some x → t.height ≤ n →
    ∃ y spine s, T.walkDown dir n x = some y ∧ t = plug spine (branch dir .nil y s) ∧
      ∀ f ∈ spine, f.dir = dir
  | .node x l r, p, _, fuel + 1, hl, rfl, hfuel => by
      obtain ⟨a, b, hab⟩ := exists_branch dir x l r
      rw [hab] at hl hfuel ⊢
      obtain ⟨-, hca, -, -, hla, -⟩ := links_branch.mp hl
      rw [height_branch] at hfuel
      unfold walkDown
      rw [hca]
      cases a with
      | nil => exact ⟨x, [], b, rfl, rfl, fun f hf => (List.not_mem_nil hf).elim⟩
      | node z l' r' =>
          have hsize : sizeOf (BinaryTree.node z l' r') < sizeOf (BinaryTree.node x l r) := by
            cases dir
            · cases hab
              simp
              omega
            · cases hab
              simp
          obtain ⟨y, spine, s, hw, ht, hdir⟩ := walkDown_spec dir hla rfl
            (n := fuel) (by omega)
          refine ⟨y, spine ++ [⟨dir, x, b⟩], s, hw, ?_, ?_⟩
          · rw [plug_append, ← ht]
            rfl
          · intro f hf
            rcases List.mem_append.mp hf with hf | hf
            · exact hdir f hf
            · rw [List.mem_singleton.mp hf]
termination_by t => sizeOf t

omit [DecidableEq ν] in
theorem walkDown_head (dir : Dir) {p : Option ν} {x : ν} {fuel : ℕ} (hl : Links T p t)
    (hx : top t = some x) (hfuel : t.height ≤ fuel) :
    ∃ y, T.walkDown dir fuel x = some y ∧ (walk dir t).head? = some y := by
  obtain ⟨y, spine, s, hw, rfl, hdir⟩ := walkDown_spec dir hl hx hfuel
  refine ⟨y, hw, ?_⟩
  rw [walk_plug, walkBefore_of_dir hdir, walk_branch]
  rfl

/-- A node without a child in one direction leaves its place to the
other child. -/
theorem cut_at {e : Dir} {x : ν} {s : BinaryTree ν} (hT : At T c (branch e .nil x s) h) :
    At ((T.setDownLink x (top s)).setParentOf (top s) (above c)) c s h := by
  obtain ⟨hctx, hlinks, hn, hcn, hd⟩ := id hT
  obtain ⟨-, hxs, -, hns, -⟩ := nodup_branch.mp hn
  obtain ⟨hp, -, -, -, -, hls⟩ := links_branch.mp hlinks
  rw [top_branch] at hctx
  simp only [List.disjoint_left, mem_walk_branch, not_or] at hd
  have hxc : x ∉ ctxNodes c := fun hm => (hd hm).1 rfl
  have hpar : ∀ y, y ∉ ctxNodes c → T.parent x ≠ some y := by
    intro y hy e
    exact hy (above_mem (hp ▸ e))
  refine ⟨?_, ?_, hns, hcn, fun y hy hy' => (hd hy).2.2 hy'⟩
  · refine (setDownLink_ctx hctx hp hcn hxc).congr (by simp) fun y hy => ⟨?_, by simp, by simp⟩
    rw [setParentOf_parent, if_neg]
    exact fun e => (hd hy).2.2 (top_mem e)
  · refine hls.move hns fun y hy => ⟨by simp, ?_, by simp⟩
    rw [setParentOf_children, setDownLink_children_of_ne]
    exact hpar y fun hc => (hd hc).2.2 hy

/-- The item has been taken out: `W` are the remaining nodes in order,
and the walk upwards is to start at `y`. -/
def Hooked (T T' : RTAVLTree ν) (W : List ν) (y : ν) (k : ℤ) : Prop :=
  ∃ c t h, At T' c t h ∧ top t = some y ∧ CtxBalanced c h ∧ Balanced t ∧
    (t.height : ℤ) = h - k ∧ (k = 0 ∨ k = 1) ∧ walk .left (plug c t) = W ∧
    T'.ringFields = T.ringFields

theorem eraseFromTree_leaf {item : ν} {f : Frame ν}
    (hT : Represents T (plug (f :: c) (.node item .nil .nil)))
    (hb : Balanced (plug (f :: c) (.node item .nil .nil))) :
    ∃ T' y k, T.eraseFromTree item = some (T', some (y, k)) ∧
      Hooked T T' (walkBefore .left (f :: c) ++ walkAfter .left (f :: c)) y k := by
  have hat := represents_plug.mp hT
  have hM := hT.mutual
  obtain ⟨hp, hcl, hcr, -, -, -⟩ := hat.links
  obtain ⟨hpar, hdir, -⟩ := relationToParent_eq hat rfl
  obtain ⟨-, hcb⟩ := (balanced_plug ..).mp hb
  have hcut := cut_at (e := .left) hat
  have hset : T.setChild f.head f.dir none = T.setDownLink item none := by
    unfold setDownLink
    rw [hpar, ← hdir]
    rfl
  have hroot : T.root ≠ some item := by
    intro hr
    have hmem : item ∈ walk .left (plug (f :: c) (.node item .nil .nil)) := by
      rw [walk_plug]
      simp [walk]
    rw [(hM.root item hmem).mpr hr] at hpar
    cases hpar
  simp only [top_nil, setParentOf, ← hset] at hcut
  obtain ⟨T', y, k, t', hstep, hR⟩ := settle_spec hcut hcb trivial (by simp)
  refine ⟨T', y, k, ?_, c, t', _, hR.at_ctx, hR.top_eq, hcb.2.2.2, hR.balanced, hR.height_eq,
    hR.change, ?_, hR.ringFields⟩
  · have hsign : (if f.dir = .left then Relation.less else .greater).toInt = f.dir.sign := by
      cases f.dir <;> rfl
    unfold eraseFromTree
    simp only [hcl, hcr, top_nil, if_neg hroot, hpar, Option.bind_eq_bind, Option.bind_some, hdir,
      hsign, hstep]
    rfl
  · rw [walk_plug_congr hR.walk_eq, ← plug, walk_plug]
    simp

theorem linkUp_eq {item y : ν} {l r : BinaryTree ν}
    (hT : Represents T (plug c (.node item l r))) :
    T.linkUp item y = some (T.setDownLink item (some y)) := by
  have hat := represents_plug.mp hT
  have hpar := parent_top hat rfl
  have hmem : item ∈ walk .left (plug c (.node item l r)) := by
    rw [walk_plug]
    simp [walk]
  have hroot := hT.mutual.root item hmem
  unfold linkUp setDownLink
  cases hp : T.parent item with
  | none => rw [if_pos (hroot.mp hp)]
  | some p =>
      rw [if_neg]
      · rfl
      · intro hr
        rw [hroot.mpr hr] at hp
        cases hp

theorem eraseFromTree_branch {item y : ν} {e : Dir} {s : BinaryTree ν}
    (hT : Represents T (plug c (branch e .nil item s)))
    (hb : Balanced (plug c (branch e .nil item s))) (hs : top s = some y) :
    ∃ T' k, T.eraseFromTree item = some (T', some (y, k)) ∧
      Hooked T T' (walkBefore .left c ++ walk .left s ++ walkAfter .left c) y k := by
  have hat := represents_plug.mp hT
  obtain ⟨hp, hce, hco, -, -, -⟩ := links_branch.mp hat.links
  obtain ⟨hbn, hcb⟩ := (balanced_plug ..).mp hb
  obtain ⟨-, -, -, hbs⟩ := (balanced_branch ..).mp hbn
  have hcut := cut_at hat
  rw [height_branch] at hcut hcb
  have hlink : T.linkUp item y = some (T.setDownLink item (some y)) := by
    cases e
    · exact linkUp_eq hT
    · exact linkUp_eq hT
  have hchild : (T.children item .left = none ∧ T.children item .right = some y) ∨
      (T.children item .left = some y ∧ T.children item .right = none) := by
    rw [hs] at hco
    cases e
    · exact .inl ⟨hce, hco⟩
    · exact .inr ⟨hco, hce⟩
  refine ⟨_, 1, ?_, c, s, _, hcut, hs, hcb, hbs, by simp, .inr rfl, walk_plug .., by simp⟩
  unfold eraseFromTree
  rcases hchild with ⟨hl, hr⟩ | ⟨hl, hr⟩
  · simp only [hl, hr, Option.or, Option.bind_eq_bind, Option.bind_some, hlink, hs, setParentOf,
      setDownLink_parent, hp]
    rfl
  · simp only [hl, hr, Option.or, Option.bind_eq_bind, Option.bind_some, hlink, hs, setParentOf,
      setDownLink_parent, hp]
    rfl

theorem hangOut_at {d : ν} {s : BinaryTree ν} (hT : At T c (branch .left .nil d s) h) :
    At (T.hangOut d) c s h ∧ (T.hangOut d).children d .right = top s := by
  obtain ⟨hp, -, hr, -, -, -⟩ := links_branch.mp hT.links
  have hne : T.parent d ≠ some d := by
    rw [hp]
    exact fun e => hT.disjoint (above_mem e) (by simp)
  have hcut := cut_at hT
  simp only [Dir.opposite] at hr
  unfold hangOut
  simp only [setDownLink_children_of_ne _ hne, setDownLink_parent, hr, hp]
  refine ⟨hcut, ?_⟩
  rw [setParentOf_children, setDownLink_children_of_ne _ hne, hr]

theorem hangOut_ringFields (T : RTAVLTree ν) (d : ν) :
    (T.hangOut d).ringFields = T.ringFields := by
  simp [hangOut]

theorem replaceBy_ringFields (T : RTAVLTree ν) (item d : ν) (first : Bool) :
    (T.replaceBy item d first).ringFields = T.ringFields := by
  cases first <;> simp [replaceBy]

omit [DecidableEq ν] in
theorem fuel_congr (h : T'.ringFields = T.ringFields) : T'.fuel = T.fuel := by
  have hn : T'.nodesCount = T.nodesCount := congrArg Prod.fst h
  unfold fuel
  rw [hn]

/-- Both children are there: the first node of the right subtree leaves
its place and takes the place of the item. -/
theorem eraseFromTree_two {item a b : ν} {l r : BinaryTree ν}
    (hT : Represents T (plug c (.node item l r))) (hb : Balanced (plug c (.node item l r)))
    (hl : top l = some a) (hr : top r = some b)
    (hcount : ((walk .left (plug c (.node item l r))).length : ℤ) ≤ T.nodesCount) :
    ∃ T' y k, T.eraseFromTree item = some (T', some (y, k)) ∧
      Hooked T T' (walkBefore .left c ++ walk .left l ++ walk .left r ++ walkAfter .left c) y k := by
  have hnodup := hT.nodup
  obtain ⟨-, hcl, hcr, -, -, hlr⟩ := (represents_plug.mp hT).links
  have hlen := (walk_plug_perm c (.node item l r)).length_eq
  have hrfuel : r.height ≤ T.fuel := by
    have h₁ := height_le_length .left r
    simp only [walk, List.length_append, List.length_cons] at hlen
    unfold fuel
    omega
  obtain ⟨d, spine, s, hwalk, rfl, hspine⟩ := walkDown_spec .left hlr hr hrfuel
  -- the same tree, seen from the first node of the right subtree
  have hplug : plug c (.node item l (plug spine (branch .left .nil d s))) =
      plug (spine ++ ⟨.right, item, l⟩ :: c) (branch .left .nil d s) := by
    rw [plug_append]
    rfl
  rw [hplug] at hT hb hnodup hlen hcount
  have hat := represents_plug.mp hT
  obtain ⟨hcut, hdr⟩ := hangOut_at hat
  obtain ⟨hbn, hcb⟩ := (balanced_plug ..).mp hb
  obtain ⟨-, -, -, hbs⟩ := (balanced_branch ..).mp hbn
  rw [height_branch] at hcut hcb
  generalize hC : spine ++ ⟨.right, item, l⟩ :: c = C at *
  have hM := hcut.mutual.of_perm (walk_plug_perm C s)
  have hCmem : item ∈ ctxNodes C := by
    rw [← hC, ctxNodes_append]
    simp [ctxNodes]
  obtain ⟨-, hds, -, -, -⟩ := nodup_branch.mp hat.nodup
  have hdC : d ∉ ctxNodes C := fun hm => hat.disjoint hm (by simp)
  have hdN : d ∉ ctxNodes C ++ walk .left s := by
    rw [List.mem_append]
    exact fun hm => hm.elim hdC hds
  obtain ⟨p, hp⟩ : ∃ p, above C = some p := by
    rw [← hC]
    cases spine with
    | nil => exact ⟨_, rfl⟩
    | cons g spine => exact ⟨_, rfl⟩
  have hpd : T.parent d = some p := (parent_top hat (top_branch ..)).trans hp
  have hitem : item ∈ walk .left (plug C (branch .left .nil d s)) := by
    rw [(walk_plug_perm ..).mem_iff]
    exact List.mem_append_left _ hCmem
  have hcase : b = d ∧ p = item ∧
      (T.hangOut d).children d .right = (T.hangOut d).children item .right ∨
      b ≠ d ∧ p ≠ item := by
    cases spine with
    | nil =>
        subst hC
        refine .inl ⟨(Option.some.inj hr).symm, (Option.some.inj hp).symm, ?_⟩
        rw [hdr]
        exact hcut.ctx.2.1.symm
    | cons g spine =>
        have hpg : p ≠ item := by
          rintro rfl
          have hn := hcut.ctxNodup
          rw [← hC, List.cons_append] at hn hp
          cases hp
          rw [ctxNodes, List.cons_append, List.nodup_cons] at hn
          refine hn.1 (List.mem_append_right _ ?_)
          rw [ctxNodes_append]
          simp [ctxNodes]
        refine .inr ⟨?_, hpg⟩
        rintro rfl
        rw [hr] at hcr
        have := (hT.mutual.child item hitem _ _ hcr).2
        rw [hpd] at this
        exact hpg (Option.some.inj this)
  have hR := replaceBy_relabeled hM
    (List.mem_append_left _ hCmem) hdN (decide (b = d)) (by
      intro hf
      rcases hcase with ⟨-, -, h⟩ | ⟨hne, -⟩
      · exact h
      · exact absurd (of_decide_eq_true hf) hne)
  have hstart : (if b = d then d else p) = relabel item d p := by
    rcases hcase with ⟨h, rfl, -⟩ | ⟨h, hp⟩
    · rw [if_pos h, relabel_self]
    · rw [if_neg h, relabel_of_ne hp]
  have hring : ((T.hangOut d).replaceBy item d (b = d)).ringFields = T.ringFields :=
    (replaceBy_ringFields ..).trans (hangOut_ringFields ..)
  have hat₂ := hcut.relabel hR hdN
  have habove : above (C.map (Frame.map (relabel item d))) = some (relabel item d p) := by
    rw [above_map, hp]
    rfl
  have hcb₂ := (ctxBalanced_map (relabel item d)).mpr hcb
  have hmapC : C.map (Frame.map (relabel item d)) = spine.map (Frame.map (relabel item d)) ++
      ⟨.right, d, l.map (relabel item d)⟩ :: c.map (Frame.map (relabel item d)) := by
    rw [← hC]
    simp [Frame.map]
  have hspfuel : (spine.map (Frame.map (relabel item d))).length <
      ((T.hangOut d).replaceBy item d (b = d)).fuel := by
    have h₁ := length_le_ctxNodes C
    have h₂ := (walk_plug_perm C (branch .left .nil d s)).length_eq
    have h₃ : C.length = spine.length + (c.length + 1) := by
      rw [← hC, List.length_append, List.length_cons]
    rw [fuel_congr hring, List.length_map]
    rw [List.length_append] at h₂
    unfold fuel
    omega
  rw [hmapC] at hat₂ habove hcb₂
  obtain ⟨T', y, k, t', h', hrun, hc', hR'⟩ := eraseSpine_spec (i := 1)
    (by simpa [Frame.map] using hspine) hat₂ habove hcb₂ ((balanced_map _).mpr hbs) (by simp)
      (.inr rfl) hspfuel
  refine ⟨T', y, k, ?_, c.map (Frame.map (relabel item d)), t', h', hR'.at_ctx, hR'.top_eq, hc',
    hR'.balanced, hR'.height_eq, hR'.change, ?_, hR'.ringFields.trans hring⟩
  · rw [hl] at hcl
    rw [hr] at hcr
    unfold eraseFromTree
    simp only [hcl, hcr, hwalk, hpd, hstart, hrun, Option.bind_eq_bind, Option.bind_some]
    rfl
  · rw [walk_plug_congr hR'.walk_eq, ← plug_append, List.append_assoc, List.singleton_append,
      ← hmapC, ← plug_map, walk_map]
    have hwalkC : walk .left (plug C s) = walkBefore .left c ++ walk .left l ++
        item :: (walk .left (plug spine s) ++ walkAfter .left c) := by
      rw [← hC, plug_append, plug, walk_plug]
      simp [Frame.fill, branch, walk]
    have hn : (walk .left (plug C s)).Nodup :=
      nodup_plug.mpr ⟨hcut.ctxNodup, hcut.nodup, hcut.disjoint⟩
    rw [hwalkC] at hn ⊢
    rw [List.nodup_middle, List.nodup_cons, List.mem_append, not_or] at hn
    rw [List.map_append, List.map_cons, relabel_self, map_relabel_of_notMem hn.1.1,
      map_relabel_of_notMem hn.1.2, walk_plug _ spine, walk_plug _ spine,
      walkBefore_of_dir hspine]
    simp [branch, walk]

theorem eraseFromTree_spec {item : ν} {l r : BinaryTree ν}
    (hT : Represents T (plug c (.node item l r))) (hb : Balanced (plug c (.node item l r)))
    (hcount : ((walk .left (plug c (.node item l r))).length : ℤ) ≤ T.nodesCount) :
    (plug c (.node item l r) = .node item .nil .nil ∧
      T.eraseFromTree item = some ({ T with root := none, nodesCount := 0 }, none)) ∨
    ∃ T' y k, T.eraseFromTree item = some (T', some (y, k)) ∧
      Hooked T T' (walkBefore .left c ++ walk .left l ++ walk .left r ++ walkAfter .left c) y k := by
  cases hl : top l with
  | none =>
      obtain rfl := top_eq_none.mp hl
      cases hr : top r with
      | none =>
          obtain rfl := top_eq_none.mp hr
          cases c with
          | nil =>
              refine .inl ⟨rfl, ?_⟩
              obtain ⟨-, hcl, hcr, -, -, -⟩ := hT.links
              have hroot : T.root = some item := hT.root
              unfold eraseFromTree
              simp only [hcl, hcr, top_nil, if_pos hroot]
          | cons f c =>
              obtain ⟨T', y, k, hrun, hH⟩ := eraseFromTree_leaf hT hb
              exact .inr ⟨T', y, k, hrun, by simpa using hH⟩
      | some b =>
          obtain ⟨T', k, hrun, hH⟩ := eraseFromTree_branch (e := .left) hT hb hr
          exact .inr ⟨T', b, k, hrun, by simpa using hH⟩
  | some a =>
      cases hr : top r with
      | none =>
          obtain rfl := top_eq_none.mp hr
          obtain ⟨T', k, hrun, hH⟩ := eraseFromTree_branch (e := .right) hT hb hl
          exact .inr ⟨T', a, k, hrun, by simpa using hH⟩
      | some b => exact .inr (eraseFromTree_two hT hb hl hr hcount)

theorem reset_ringFields {item : ν} (h : T'.ringFields = T.ringFields) :
    (T'.reset item).ringFields = (T.reset item).ringFields := by
  simp only [ringFields, Prod.mk.injEq] at h
  obtain ⟨h₁, h₂, h₃, h₄, h₅⟩ := h
  simp only [ringFields, reset, h₁, h₂, h₃, h₄, h₅]

theorem eraseUnique_spec {item : ν} (hT : Represents T t) (hb : Balanced t)
    (hitem : item ∈ walk .left t) (hcount : ((walk .left t).length : ℤ) ≤ T.nodesCount) :
    ∃ T' t', T.eraseUnique item = some T' ∧ Represents T' t' ∧ Balanced t' ∧
      walk .left t' = (walk .left t).erase item ∧
      (T'.ringFields = ({ T with nodesCount := T.nodesCount - 1 }.reset item).ringFields ∨
        t' = .nil ∧ T'.ringFields = ({ T with nodesCount := 0 }.reset item).ringFields) := by
  obtain ⟨c, l, r, rfl⟩ := exists_plug hitem
  have hnodup := hT.nodup
  have herase : (walk .left (plug c (.node item l r))).erase item =
      walkBefore .left c ++ walk .left l ++ walk .left r ++ walkAfter .left c := by
    have hn := hnodup
    rw [walk_plug] at hn ⊢
    simp only [walk, List.append_assoc, List.cons_append] at hn ⊢
    rw [← List.append_assoc] at hn ⊢
    rw [List.nodup_middle, List.nodup_cons, List.mem_append, not_or] at hn
    rw [List.erase_append_right _ hn.1.1, List.erase_cons_head]
    simp
  unfold eraseUnique
  rcases eraseFromTree_spec hT hb hcount with ⟨hnode, hrun⟩ |
    ⟨T₁, y, k, hrun, c', t₁, h₁, hat, htop, hcb, hbal, hh, hk, hW, hring⟩
  · rw [hrun]
    refine ⟨_, .nil, rfl, ⟨rfl, trivial, List.nodup_nil⟩, trivial, ?_, .inr ⟨rfl, rfl⟩⟩
    rw [hnode]
    simp [walk]
  · have hlen : c'.length < T₁.fuel := by
      have h₂ := length_le_ctxNodes c'
      have h₃ := (walk_plug_perm c' t₁).length_eq
      rw [hW, ← herase] at h₃
      have h₄ := List.length_erase_of_mem hitem
      rw [List.length_append] at h₃
      rw [fuel_congr hring]
      unfold fuel
      omega
    obtain ⟨T₂, t₂, hrun₂, hrep, hbal₂, hwalk, hring₂⟩ :=
      eraseRebalance_spec hat htop hcb hbal hh hk hlen
    rw [hrun]
    simp only [Option.bind_eq_bind, Option.bind_some, hrun₂]
    have hw : walk .left t₂ = (walk .left (plug c (.node item l r))).erase item := by
      rw [hwalk, hW, herase]
    refine ⟨_, t₂, rfl, hrep.congr rfl fun x hx => ?_, hbal₂, hw, .inl ?_⟩
    · have hx' : x ≠ item := by
        rintro rfl
        rw [hw] at hx
        exact hnodup.not_mem_erase hx
      exact reset_sameLinks (T := { T₂ with nodesCount := _ }) (n := T₂.nodesCount - 1) hx'
    · refine reset_ringFields ?_
      have h := hring₂.trans hring
      simp only [ringFields, Prod.mk.injEq] at h ⊢
      exact ⟨by rw [h.1], h.2⟩

/-- The next twin takes the place of the item. -/
theorem eraseHead_represents {item : ν} (hT : Represents T t) (hitem : item ∈ walk .left t)
    (hnext : T.nextTwin item ∉ walk .left t) :
    Represents (T.eraseHead item) (t.map (relabel item (T.nextTwin item))) := by
  have hat : At T [] t t.height := represents_plug.mp hT
  have h := hat.relabel (eraseHead_relabeled hT.mutual hitem hnext) hnext
  exact ⟨h.ctx, h.links, h.nodup⟩

end RTAVLTree

end LinuxSampler
