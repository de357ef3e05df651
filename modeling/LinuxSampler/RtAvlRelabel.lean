import LinuxSampler.RtAvlClimb

/-!
# Mutual links, and a node that takes the place of another one

Parent and child links of the nodes of a tree are mutual. When a node
that is in the tree hands all its links to one that is not, as a head
does to its next twin and an erased node with two children to its
successor, the tree is the same with another label.
-/

namespace LinuxSampler

open AvlTree

namespace RTAVLTree

variable {ν : Type*} {T T' : RTAVLTree ν} {c : List (Frame ν)} {t : BinaryTree ν} {h : ℕ}

/-! ## Mutual links -/

theorem Links.child {p : Option ν} (hl : Links T p t) :
    ∀ x ∈ walk .left t, ∀ e y, T.children x e = some y →
      y ∈ walk .left t ∧ T.parent y = some x := by
  induction t generalizing p with
  | nil => exact fun x hx => (List.not_mem_nil hx).elim
  | node z l r ihl ihr =>
      obtain ⟨-, hcl, hcr, -, hll, hlr⟩ := hl
      have htop : ∀ {s : BinaryTree ν} {y}, Links T (some z) s → top s = some y →
          y ∈ walk .left s ∧ T.parent y = some z := by
        intro s y hs hy
        cases s with
        | nil => cases hy
        | node y' l' r' =>
            cases hy
            exact ⟨by simp [walk], hs.1⟩
      intro x hx e y he
      simp only [walk, List.mem_append, List.mem_cons] at hx ⊢
      rcases hx with hx | rfl | hx
      · obtain ⟨hm, hp⟩ := ihl hll x hx e y he
        exact ⟨.inl hm, hp⟩
      · cases e with
        | left =>
            obtain ⟨hm, hp⟩ := htop hll (hcl ▸ he)
            exact ⟨.inl hm, hp⟩
        | right =>
            obtain ⟨hm, hp⟩ := htop hlr (hcr ▸ he)
            exact ⟨.inr (.inr hm), hp⟩
      · obtain ⟨hm, hp⟩ := ihr hlr x hx e y he
        exact ⟨.inr (.inr hm), hp⟩

theorem Links.parent {p : Option ν} (hl : Links T p t) :
    ∀ y ∈ walk .left t, top t = some y ∧ T.parent y = p ∨
      ∃ x ∈ walk .left t, ∃ e, T.parent y = some x ∧ T.children x e = some y := by
  induction t generalizing p with
  | nil => exact fun x hx => (List.not_mem_nil hx).elim
  | node z l r ihl ihr =>
      obtain ⟨hp, hcl, hcr, -, hll, hlr⟩ := hl
      intro y hy
      simp only [walk, List.mem_append, List.mem_cons] at hy ⊢
      rcases hy with hy | rfl | hy
      · rcases ihl hll y hy with ⟨htop, hyp⟩ | ⟨x, hx, e, hyp, he⟩
        · exact .inr ⟨z, .inr (.inl rfl), .left, hyp, hcl.trans htop⟩
        · exact .inr ⟨x, .inl hx, e, hyp, he⟩
      · exact .inl ⟨rfl, hp⟩
      · rcases ihr hlr y hy with ⟨htop, hyp⟩ | ⟨x, hx, e, hyp, he⟩
        · exact .inr ⟨z, .inr (.inl rfl), .right, hyp, hcr.trans htop⟩
        · exact .inr ⟨x, .inr (.inr hx), e, hyp, he⟩

theorem Links.children_ne {p : Option ν} (hl : Links T p t) (hn : (walk .left t).Nodup) :
    ∀ x ∈ walk .left t, ∀ e y, T.children x e = some y →
      y ≠ x ∧ T.children x e.opposite ≠ some y := by
  induction t generalizing p with
  | nil => exact fun x hx => (List.not_mem_nil hx).elim
  | node z l r ihl ihr =>
      obtain ⟨-, hcl, hcr, -, hll, hlr⟩ := hl
      obtain ⟨hzl, hzr, hnl, hnr, hd⟩ := (nodup_branch (d := .left)).mp hn
      intro x hx e y hy
      simp only [walk, List.mem_append, List.mem_cons] at hx
      rcases hx with hx | rfl | hx
      · exact ihl hll hnl x hx e y hy
      · cases e with
        | left =>
            rw [hcl] at hy
            refine ⟨by rintro rfl; exact hzl (top_mem hy), fun hy' => ?_⟩
            rw [Dir.opposite, hcr] at hy'
            exact hd (top_mem hy) (top_mem hy')
        | right =>
            rw [hcr] at hy
            refine ⟨by rintro rfl; exact hzr (top_mem hy), fun hy' => ?_⟩
            rw [Dir.opposite, hcl] at hy'
            exact hd (top_mem hy') (top_mem hy)
      · exact ihr hlr hnr x hx e y hy

/-- The links between the nodes of `N` are mutual, and the root is the
one node without a parent. -/
structure Mutual (T : RTAVLTree ν) (N : List ν) : Prop where
  child : ∀ x ∈ N, ∀ e y, T.children x e = some y → y ∈ N ∧ T.parent y = some x
  parent : ∀ y ∈ N, ∀ x, T.parent y = some x → x ∈ N ∧ ∃ e, T.children x e = some y
  children_ne : ∀ x ∈ N, ∀ e y, T.children x e = some y →
    y ≠ x ∧ T.children x e.opposite ≠ some y
  root : ∀ y ∈ N, T.parent y = none ↔ T.root = some y

theorem Represents.mutual (hT : Represents T t) : Mutual T (walk .left t) where
  child := hT.links.child
  parent y hy x hx := by
    rcases hT.links.parent y hy with ⟨-, hp⟩ | ⟨x', hx', e, hp, he⟩
    · rw [hp] at hx
      cases hx
    · obtain rfl : x' = x := Option.some.inj (hp ▸ hx)
      exact ⟨hx', e, he⟩
  children_ne := hT.links.children_ne hT.nodup
  root y hy := by
    rw [hT.root]
    rcases hT.links.parent y hy with ⟨htop, hp⟩ | ⟨x, hx, e, hp, he⟩
    · simp [htop, hp]
    · rw [hp]
      constructor
      · intro h
        cases h
      · intro htop
        cases t with
        | nil => cases htop
        | node z l r =>
            cases htop
            rw [hT.links.1] at hp
            cases hp

/-- The recorded heights do not matter here. -/
theorem At.mutual [DecidableEq ν] : ∀ {c : List (Frame ν)} {T : RTAVLTree ν} {t : BinaryTree ν}
    {h : ℕ}, At T c t h → Mutual T (walk .left (plug c t))
  | [], _, _, _, hT => Represents.mutual ⟨hT.ctx, hT.links, hT.nodup⟩
  | _ :: _, _, _, _, hT => by
      obtain ⟨h₁, h₂, h₃, h₄⟩ := (hT.up rfl).mutual
      exact ⟨h₁, h₂, h₃, h₄⟩

theorem Mutual.of_perm {N N' : List ν} (hT : Mutual T N) (hN : N.Perm N') : Mutual T N' := by
  obtain ⟨h₁, h₂, h₃, h₄⟩ := hT
  simp only [hN.mem_iff] at h₁ h₂ h₃ h₄
  exact ⟨h₁, h₂, h₃, h₄⟩

/-! ## A new label -/

section Relabel

variable [DecidableEq ν]

def relabel (item next x : ν) : ν := if x = item then next else x

/-- `T'` has at `next` what `T` has at `item`. -/
structure Relabeled (T T' : RTAVLTree ν) (item next : ν) (N : List ν) : Prop where
  root : T'.root = T.root.map (relabel item next)
  parent : ∀ x ∈ N, T'.parent (relabel item next x) = (T.parent x).map (relabel item next)
  children : ∀ x ∈ N, ∀ e,
    T'.children (relabel item next x) e = (T.children x e).map (relabel item next)
  balance : ∀ x ∈ N, T'.balance (relabel item next x) = T.balance x

variable {item next : ν} {N : List ν}

theorem Links.relabel {p : Option ν} (hl : Links T p t)
    (hR : Relabeled T T' item next N) (hN : ∀ x ∈ walk .left t, x ∈ N) :
    Links T' (p.map (relabel item next)) (t.map (relabel item next)) := by
  induction t generalizing p with
  | nil => trivial
  | node x l r ihl ihr =>
      obtain ⟨hp, hcl, hcr, hb, hll, hlr⟩ := hl
      simp only [walk, List.mem_append, List.mem_cons] at hN
      have hx : x ∈ N := hN x (.inr (.inl rfl))
      refine ⟨?_, ?_, ?_, ?_, ?_, ?_⟩
      · rw [hR.parent x hx, hp]
      · rw [hR.children x hx, hcl, top_map]
      · rw [hR.children x hx, hcr, top_map]
      · rw [hR.balance x hx, hb, height_map, height_map]
      · exact ihl hll fun y hy => hN y (.inl hy)
      · exact ihr hlr fun y hy => hN y (.inr (.inr hy))

theorem CtxLinks.relabel : ∀ {c : List (Frame ν)} {hole : Option ν} {h : ℕ},
    CtxLinks T c hole h → Relabeled T T' item next N → (∀ x ∈ ctxNodes c, x ∈ N) →
      CtxLinks T' (c.map (Frame.map (relabel item next))) (hole.map (relabel item next)) h
  | [], _, _, hc, hR, _ => by
      rw [CtxLinks] at hc
      exact hR.root.trans (by rw [hc])
  | f :: c, hole, h, hc, hR, hN => by
      obtain ⟨hp, hd, ho, hb, hl, hc⟩ := hc
      have hf : f.head ∈ N := hN _ (by simp [ctxNodes])
      refine ⟨?_, ?_, ?_, ?_, ?_, ?_⟩
      · rw [Frame.map, hR.parent _ hf, hp, above_map]
      · rw [Frame.map, hR.children _ hf, hd]
      · rw [Frame.map, hR.children _ hf, ho, top_map]
      · rw [Frame.map, hR.balance _ hf, hb, height_map]
      · exact hl.relabel hR fun x hx => hN x (by simp [ctxNodes, hx])
      · rw [Frame.map, height_map]
        exact hc.relabel hR fun x hx => hN x (by simp [ctxNodes, hx])

theorem relabel_of_ne {x : ν} (h : x ≠ item) : relabel item next x = x := if_neg h

@[simp] theorem relabel_self : relabel item next item = next := if_pos rfl

theorem map_relabel_of_notMem {l : List ν} (h : item ∉ l) : l.map (relabel item next) = l := by
  refine (List.map_congr_left fun x hx => ?_).trans (List.map_id l)
  exact relabel_of_ne fun e => h (e ▸ hx)

theorem relabel_injOn (item : ν) {l : List ν} (h : next ∉ l) {x y : ν} (hx : x ∈ l) (hy : y ∈ l)
    (e : relabel item next x = relabel item next y) : x = y := by
  unfold relabel at e
  split at e <;> split at e
  · next h₁ h₂ => exact h₁.trans h₂.symm
  · exact (h (e ▸ hy)).elim
  · exact (h (e ▸ hx)).elim
  · exact e

theorem At.relabel (hT : At T c t h)
    (hR : Relabeled T T' item next (ctxNodes c ++ walk .left t))
    (hnext : next ∉ ctxNodes c ++ walk .left t) :
    At T' (c.map (Frame.map (relabel item next))) (t.map (relabel item next)) h := by
  have hnodup : (ctxNodes c ++ walk .left t).Nodup :=
    List.nodup_append'.mpr ⟨hT.ctxNodup, hT.nodup, hT.disjoint⟩
  have hmap := List.Nodup.map_on (fun x hx y hy => relabel_injOn item hnext hx hy) hnodup
  rw [List.map_append, List.nodup_append'] at hmap
  obtain ⟨hn₁, hn₂, hn₃⟩ := hmap
  refine ⟨?_, ?_, by rwa [walk_map], by rwa [ctxNodes_map], by rwa [walk_map, ctxNodes_map]⟩
  · rw [top_map]
    exact hT.ctx.relabel hR fun x hx => List.mem_append_left _ hx
  · rw [above_map]
    exact hT.links.relabel hR fun x hx => List.mem_append_right _ hx

/-! ## Who hands over his links -/

theorem Mutual.uplinkDir {x y : ν} {e : Dir} (hM : Mutual T N) (hx : x ∈ N)
    (he : T.children x e = some y) : T.uplinkDir x y = e := by
  unfold RTAVLTree.uplinkDir
  cases e with
  | left => rw [if_pos he]
  | right =>
      have hl : T.children x .left ≠ some y := (hM.children_ne x hx _ _ he).2
      rw [if_neg hl]

omit [DecidableEq ν] in
theorem Mutual.parent_eq_iff {x y : ν} (hM : Mutual T N) (hx : x ∈ N) (hy : y ∈ N) :
    T.parent y = some x ↔ T.children x .left = some y ∨ T.children x .right = some y := by
  constructor
  · intro hp
    obtain ⟨-, e, he⟩ := hM.parent y hy x hp
    cases e with
    | left => exact .inl he
    | right => exact .inr he
  · rintro (he | he)
    · exact (hM.child x hx _ y he).2
    · exact (hM.child x hx _ y he).2

theorem Mutual.child_eq_iff {x y : ν} {e : Dir} (hM : Mutual T N) (hx : x ∈ N) (hy : y ∈ N) :
    T.children x e = some y ↔ T.parent y = some x ∧ e = T.uplinkDir x y := by
  constructor
  · intro he
    exact ⟨(hM.child x hx e y he).2, (hM.uplinkDir hx he).symm⟩
  · rintro ⟨hp, rfl⟩
    obtain ⟨-, e, he⟩ := hM.parent y hy x hp
    rwa [hM.uplinkDir hx he]

omit [DecidableEq ν] in
theorem Mutual.not_self {x : ν} (hM : Mutual T N) (hx : x ∈ N) :
    (∀ e, T.children x e ≠ some x) ∧ T.parent x ≠ some x := by
  have hc : ∀ e, T.children x e ≠ some x := fun e he => (hM.children_ne x hx e _ he).1 rfl
  refine ⟨hc, fun hp => ?_⟩
  obtain ⟨-, e, he⟩ := hM.parent x hx x hp
  exact hc e he

/-- `next` has got the links of `item`, and the children have got `next`
as their parent; the link down to `item` is turned last. -/
theorem Mutual.relabeled (hM : Mutual T N) (hitem : item ∈ N) (hnext : next ∉ N)
    (hroot : T'.root = T.root)
    (hparent : ∀ y, T'.parent y = if y = next then T.parent item
      else if T.children item .left = some y ∨ T.children item .right = some y then some next
      else T.parent y)
    (hchildren : ∀ y e, T'.children y e =
      if y = next then T.children item e else T.children y e)
    (hbalance : ∀ y, T'.balance y = if y = next then T.balance item else T.balance y) :
    Relabeled T (T'.setDownLink item (some next)) item next N := by
  have hne : item ≠ next := fun e => hnext (e ▸ hitem)
  obtain ⟨hself, hpself⟩ := hM.not_self hitem
  have hpitem : T'.parent item = T.parent item := by
    rw [hparent, if_neg hne, if_neg (by simp [hself])]
  have hpnext : T.parent item ≠ some next := fun hp => hnext (hM.parent item hitem _ hp).1
  have hkeep : ∀ {o : Option ν}, o ≠ some item → o.map (RTAVLTree.relabel item next) = o := by
    rintro (_ | x) ho
    · rfl
    · exact congrArg some (relabel_of_ne fun e => ho (congrArg some e))
  refine ⟨?_, ?_, ?_, ?_⟩
  · rw [setDownLink_root, hpitem, hroot]
    split
    · next h =>
      rw [(hM.root item hitem).mp h]
      simp
    · next h => rw [hkeep fun hr => h ((hM.root item hitem).mpr hr)]
  · intro x hx
    rw [setDownLink_parent, hparent]
    by_cases hxi : x = item
    · subst hxi
      rw [relabel_self, if_pos rfl, hkeep hpself]
    · have hxn : x ≠ next := fun e => hnext (e ▸ hx)
      rw [relabel_of_ne hxi, if_neg hxn]
      split
      · next hc =>
        rw [(hM.parent_eq_iff hitem hx).mpr hc]
        simp
      · next hc => rw [hkeep fun hp => hc ((hM.parent_eq_iff hitem hx).mp hp)]
  · intro x hx e
    rw [setDownLink_children, hpitem, hchildren]
    by_cases hxi : x = item
    · subst hxi
      rw [relabel_self, if_neg (by simp [hpnext]), if_pos rfl, hkeep (hself e)]
    · have hxn : x ≠ next := fun e => hnext (e ▸ hx)
      have hdir : T'.uplinkDir x item = T.uplinkDir x item := by
        unfold RTAVLTree.uplinkDir
        rw [hchildren, if_neg hxn]
      rw [relabel_of_ne hxi, if_neg hxn, hdir]
      split
      · next hc =>
        rw [(hM.child_eq_iff hx hitem).mpr hc]
        simp
      · next hc => rw [hkeep fun he => hc ((hM.child_eq_iff hx hitem).mp he)]
  · intro x hx
    rw [setDownLink_balance, hbalance]
    by_cases hxi : x = item
    · subst hxi
      rw [relabel_self, if_pos rfl]
    · have hxn : x ≠ next := fun e => hnext (e ▸ hx)
      rw [relabel_of_ne hxi, if_neg hxn]

theorem Relabeled.reset {n : ℤ} (hR : Relabeled T T' item next N) (hne : next ≠ item) :
    Relabeled T { T'.reset item with nodesCount := n } item next N := by
  have hx : ∀ x, RTAVLTree.relabel item next x ≠ item := by
    intro x
    unfold RTAVLTree.relabel
    split
    · exact hne
    · assumption
  refine ⟨hR.root, ?_, ?_, ?_⟩
  · intro x hxN
    rw [← hR.parent x hxN]
    exact Function.update_of_ne (hx x) ..
  · intro x hxN e
    rw [← hR.children x hxN]
    exact congrFun (Function.update_of_ne (hx x) ..) e
  · intro x hxN
    rw [← hR.balance x hxN]
    exact Function.update_of_ne (hx x) ..

theorem eraseHead_relabeled (hM : Mutual T N) (hitem : item ∈ N)
    (hnext : T.nextTwin item ∉ N) :
    Relabeled T (T.eraseHead item) item (T.nextTwin item) N := by
  generalize hn : T.nextTwin item = next at hnext ⊢
  have hne : next ≠ item := fun e => hnext (e ▸ hitem)
  have hnext' : ∀ e, T.children item e ≠ some next :=
    fun e he => hnext (hM.child item hitem e _ he).1
  unfold eraseHead
  rw [hn]
  refine (hM.relabeled hitem hnext ?_ ?_ ?_ ?_).reset hne
  · simp [setNextTwin, setPrevTwin, setTwinHead]
  · intro y
    simp [setNextTwin, setPrevTwin, setTwinHead, hne.symm]
    grind
  · intro y e
    cases e <;> simp [setNextTwin, setPrevTwin, setTwinHead, hne.symm]
  · intro y
    simp [setNextTwin, setPrevTwin, setTwinHead]

theorem replaceBy_relabeled (hM : Mutual T N) (hitem : item ∈ N) (hnext : next ∉ N)
    (first : Bool) (hfirst : first → T.children next .right = T.children item .right) :
    Relabeled T (T.replaceBy item next first) item next N := by
  have hne : next ≠ item := fun e => hnext (e ▸ hitem)
  unfold replaceBy
  refine hM.relabeled hitem hnext ?_ ?_ ?_ ?_
  · cases first <;> simp
  · intro y
    cases first <;> simp [hne.symm, (hM.not_self hitem).1] <;> grind
  · intro y e
    cases first <;> cases e <;> simp [hne.symm]
    rintro rfl
    exact hfirst rfl
  · intro y
    cases first <;> simp

end Relabel

end RTAVLTree

end LinuxSampler
