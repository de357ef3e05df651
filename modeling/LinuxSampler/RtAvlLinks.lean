import LinuxSampler.RtAvlTree

/-!
# The tree that the links of an RTAVLTree represent

`Links` reads the parent and child links and the balance factors of a
subtree, `CtxLinks` those of the nodes around it. The frames record the
height that the subtree is supposed to have, which is its own height
except while `insert()` and `erase()` walk upwards. A rotation, and with
it `rebalance()`, changes a subtree in place.
-/

namespace LinuxSampler

open AvlTree

namespace RTAVLTree

variable {ν : Type*} {T T' : RTAVLTree ν}

/-! ## Representation -/

/-- The links of a subtree whose parent is `p`. -/
def Links (T : RTAVLTree ν) : Option ν → BinaryTree ν → Prop
  | _, .nil => True
  | p, .node x l r =>
      T.parent x = p ∧ T.children x .left = top l ∧ T.children x .right = top r ∧
        T.balance x = (r.height : ℤ) - l.height ∧ Links T (some x) l ∧ Links T (some x) r

/-- The links of the frames around a subtree with the top `hole` and the
height `h`. -/
def CtxLinks (T : RTAVLTree ν) : List (Frame ν) → Option ν → ℕ → Prop
  | [], hole, _ => T.root = hole
  | f :: c, hole, h =>
      T.parent f.head = above c ∧ T.children f.head f.dir = hole ∧
        T.children f.head f.dir.opposite = top f.sibling ∧
        T.balance f.head = f.dir.sign * ((h : ℤ) - f.sibling.height) ∧
        Links T (some f.head) f.sibling ∧
        CtxLinks T c (some f.head) (max h f.sibling.height + 1)

theorem links_branch {d : Dir} {p : Option ν} {a b : BinaryTree ν} {x : ν} :
    Links T p (branch d a x b) ↔
      T.parent x = p ∧ T.children x d = top a ∧ T.children x d.opposite = top b ∧
        T.balance x = d.sign * ((a.height : ℤ) - b.height) ∧
        Links T (some x) a ∧ Links T (some x) b := by
  cases d
  · simp only [branch, Links, Dir.opposite, Dir.sign]
    constructor
    · rintro ⟨h₁, h₂, h₃, h₄, h₅, h₆⟩
      exact ⟨h₁, h₂, h₃, by omega, h₅, h₆⟩
    · rintro ⟨h₁, h₂, h₃, h₄, h₅, h₆⟩
      exact ⟨h₁, h₂, h₃, by omega, h₅, h₆⟩
  · simp only [branch, Links, Dir.opposite, Dir.sign, one_mul]
    constructor
    · rintro ⟨h₁, h₂, h₃, h₄, h₅, h₆⟩
      exact ⟨h₁, h₃, h₂, h₄, h₆, h₅⟩
    · rintro ⟨h₁, h₂, h₃, h₄, h₅, h₆⟩
      exact ⟨h₁, h₃, h₂, h₄, h₆, h₅⟩

theorem links_plug : ∀ (c : List (Frame ν)) (t : BinaryTree ν),
    T.root = top (plug c t) ∧ Links T none (plug c t) ↔
      CtxLinks T c (top t) t.height ∧ Links T (above c) t
  | [], t => Iff.rfl
  | f :: c, t => by
      rw [plug, links_plug c, Frame.fill, links_branch, top_branch, CtxLinks, height_branch]
      simp only [above]
      tauto

/-! ## What a change of other nodes leaves -/

/-- The links of `x` are as before. -/
def SameLinks (T T' : RTAVLTree ν) (x : ν) : Prop :=
  T'.parent x = T.parent x ∧ T'.children x = T.children x ∧ T'.balance x = T.balance x

theorem SameLinks.refl (T : RTAVLTree ν) (x : ν) : SameLinks T T x :=
  ⟨rfl, rfl, rfl⟩

theorem SameLinks.trans {T₁ T₂ T₃ : RTAVLTree ν} {x : ν} (h₁ : SameLinks T₁ T₂ x)
    (h₂ : SameLinks T₂ T₃ x) : SameLinks T₁ T₃ x :=
  ⟨h₂.1.trans h₁.1, h₂.2.1.trans h₁.2.1, h₂.2.2.trans h₁.2.2⟩

theorem Links.congr {p : Option ν} {t : BinaryTree ν} (h : Links T p t)
    (hs : ∀ x ∈ walk .left t, SameLinks T T' x) : Links T' p t := by
  induction t generalizing p with
  | nil => trivial
  | node x l r ihl ihr =>
      obtain ⟨hp, hl, hr, hb, hll, hlr⟩ := h
      simp only [walk, List.mem_append, List.mem_cons] at hs
      obtain ⟨sp, sc, sb⟩ := hs x (by simp)
      refine ⟨by rw [sp, hp], by rw [sc, hl], by rw [sc, hr], by rw [sb, hb], ?_, ?_⟩
      · exact ihl hll fun y hy => hs y (.inl hy)
      · exact ihr hlr fun y hy => hs y (.inr (.inr hy))

/-- A subtree gets another parent. -/
theorem Links.move [DecidableEq ν] {p p' : Option ν} {t : BinaryTree ν} (h : Links T p t)
    (hn : (walk .left t).Nodup)
    (hs : ∀ x ∈ walk .left t, T'.parent x = (if top t = some x then p' else T.parent x) ∧
      T'.children x = T.children x ∧ T'.balance x = T.balance x) : Links T' p' t := by
  cases t with
  | nil => trivial
  | node x l r =>
      obtain ⟨hp, hl, hr, hb, hll, hlr⟩ := h
      have hn' : x ∉ walk .left l ∧ x ∉ walk .left r := by
        have := (nodup_branch (d := .left)).mp hn
        exact ⟨this.1, this.2.1⟩
      simp only [walk, List.mem_append, List.mem_cons, top_node, Option.some.injEq] at hs
      have hx := hs x (by simp)
      rw [if_pos rfl] at hx
      obtain ⟨sp, sc, sb⟩ := hx
      refine ⟨sp, by rw [sc, hl], by rw [sc, hr], by rw [sb, hb], ?_, ?_⟩
      · refine hll.congr fun y hy => ?_
        have hy' := hs y (.inl hy)
        rw [if_neg (by rintro ⟨⟩; exact hn'.1 hy)] at hy'
        exact hy'
      · refine hlr.congr fun y hy => ?_
        have hy' := hs y (.inr (.inr hy))
        rw [if_neg (by rintro ⟨⟩; exact hn'.2 hy)] at hy'
        exact hy'

theorem CtxLinks.congr : ∀ {c : List (Frame ν)} {hole : Option ν} {h : ℕ},
    CtxLinks T c hole h → T'.root = T.root → (∀ x ∈ ctxNodes c, SameLinks T T' x) →
      CtxLinks T' c hole h
  | [], _, _, hc, hr, _ => hr.trans hc
  | f :: c, hole, h, hc, hr, hs => by
      obtain ⟨hp, hd, ho, hb, hl, hc⟩ := hc
      obtain ⟨sp, sc, sb⟩ := hs f.head (by simp [ctxNodes])
      refine ⟨by rw [sp, hp], by rw [sc, hd], by rw [sc, ho], by rw [sb, hb], ?_, ?_⟩
      · exact hl.congr fun x hx => hs x (by simp [ctxNodes, hx])
      · exact hc.congr hr fun x hx => hs x (by simp [ctxNodes, hx])

/-- The fields of the rings and the node count. -/
def ringFields (T : RTAVLTree ν) : ℤ × (ν → ν) × (ν → ν) × (ν → Bool) × (ν → Bool) :=
  (T.nodesCount, T.prevTwin, T.nextTwin, T.twinHead, T.tree)

/-! ## Fields after an update -/

section Fields

variable [DecidableEq ν] (T : RTAVLTree ν) (x y : ν) (p v : Option ν) (b : ℤ) (d e : Dir)

@[simp] theorem setParent_parent :
    (T.setParent x p).parent y = if y = x then p else T.parent y :=
  Function.update_apply ..

@[simp] theorem setParent_children : (T.setParent x p).children = T.children := rfl
@[simp] theorem setParent_balance : (T.setParent x p).balance = T.balance := rfl
@[simp] theorem setParent_root : (T.setParent x p).root = T.root := rfl
@[simp] theorem setParent_ringFields : (T.setParent x p).ringFields = T.ringFields := rfl

@[simp] theorem setChild_children :
    (T.setChild x d v).children y e = if y = x ∧ e = d then v else T.children y e := by
  simp only [setChild, Function.update_apply]
  split
  · next h =>
    subst h
    simp [Function.update_apply]
  · next h => simp [h]

theorem setChild_children_of_ne {x y : ν} (h : y ≠ x) :
    (T.setChild x d v).children y = T.children y := by
  funext e
  simp [h]

@[simp] theorem setChild_parent : (T.setChild x d v).parent = T.parent := rfl
@[simp] theorem setChild_balance : (T.setChild x d v).balance = T.balance := rfl
@[simp] theorem setChild_root : (T.setChild x d v).root = T.root := rfl
@[simp] theorem setChild_ringFields : (T.setChild x d v).ringFields = T.ringFields := rfl

@[simp] theorem setBalance_balance :
    (T.setBalance x b).balance y = if y = x then b else T.balance y :=
  Function.update_apply ..

@[simp] theorem setBalance_parent : (T.setBalance x b).parent = T.parent := rfl
@[simp] theorem setBalance_children : (T.setBalance x b).children = T.children := rfl
@[simp] theorem setBalance_root : (T.setBalance x b).root = T.root := rfl
@[simp] theorem setBalance_ringFields : (T.setBalance x b).ringFields = T.ringFields := rfl

@[simp] theorem setParentOf_parent :
    (T.setParentOf v p).parent y = if v = some y then p else T.parent y := by
  cases v with
  | none => simp [setParentOf]
  | some x => simp [setParentOf, eq_comm]

@[simp] theorem setParentOf_children : (T.setParentOf v p).children = T.children := by
  cases v <;> rfl

@[simp] theorem setParentOf_balance : (T.setParentOf v p).balance = T.balance := by
  cases v <;> rfl

@[simp] theorem setParentOf_root : (T.setParentOf v p).root = T.root := by
  cases v <;> rfl

@[simp] theorem setParentOf_ringFields : (T.setParentOf v p).ringFields = T.ringFields := by
  cases v <;> rfl

@[simp] theorem setDownLink_parent : (T.setDownLink x v).parent = T.parent := by
  unfold setDownLink
  split <;> rfl

@[simp] theorem setDownLink_balance : (T.setDownLink x v).balance = T.balance := by
  unfold setDownLink
  split <;> rfl

@[simp] theorem setDownLink_ringFields : (T.setDownLink x v).ringFields = T.ringFields := by
  unfold setDownLink
  split <;> rfl

theorem setDownLink_root :
    (T.setDownLink x v).root = if T.parent x = none then v else T.root := by
  unfold setDownLink
  split
  · next h => simp [h]
  · next h => simp [h]

theorem setDownLink_children :
    (T.setDownLink x v).children y e =
      if T.parent x = some y ∧ e = T.uplinkDir y x then v else T.children y e := by
  unfold setDownLink uplinkDir
  split
  · next h => simp [h]
  · next p h =>
    rw [setChild_children]
    by_cases hy : y = p
    · simp [h, hy]
    · simp [h, hy, Ne.symm hy]

theorem setDownLink_children_of_ne {T : RTAVLTree ν} {x y : ν} (h : T.parent x ≠ some y) :
    (T.setDownLink x v).children y = T.children y := by
  unfold setDownLink
  split
  · rfl
  · next p hp =>
    refine setChild_children_of_ne T v _ ?_
    rintro rfl
    exact h hp

end Fields

/-! ## A subtree at its position -/

/-- The subtree `t` in the frames `c`, which record the height `h` for
it. -/
structure At (T : RTAVLTree ν) (c : List (Frame ν)) (t : BinaryTree ν) (h : ℕ) : Prop where
  ctx : CtxLinks T c (top t) h
  links : Links T (above c) t
  nodup : (walk .left t).Nodup
  ctxNodup : (ctxNodes c).Nodup
  disjoint : (ctxNodes c).Disjoint (walk .left t)

/-- The whole tree. -/
structure Represents (T : RTAVLTree ν) (t : BinaryTree ν) : Prop where
  root : T.root = top t
  links : Links T none t
  nodup : (walk .left t).Nodup

theorem nodup_plug {c : List (Frame ν)} {t : BinaryTree ν} :
    (walk .left (plug c t)).Nodup ↔
      (ctxNodes c).Nodup ∧ (walk .left t).Nodup ∧ (ctxNodes c).Disjoint (walk .left t) := by
  rw [(walk_plug_perm c t).nodup_iff, List.nodup_append']

theorem represents_plug {c : List (Frame ν)} {t : BinaryTree ν} :
    Represents T (plug c t) ↔ At T c t t.height := by
  constructor
  · intro h
    obtain ⟨hc, hn, hd⟩ := nodup_plug.mp h.nodup
    obtain ⟨hcl, hl⟩ := (links_plug c t).mp ⟨h.root, h.links⟩
    exact ⟨hcl, hl, hn, hc, hd⟩
  · intro h
    obtain ⟨hr, hl⟩ := (links_plug c t).mpr ⟨h.ctx, h.links⟩
    exact ⟨hr, hl, nodup_plug.mpr ⟨h.ctxNodup, h.nodup, h.disjoint⟩⟩

theorem above_mem {c : List (Frame ν)} {y : ν} (h : above c = some y) : y ∈ ctxNodes c := by
  cases c with
  | nil => cases h
  | cons f c =>
      cases h
      simp [ctxNodes]

theorem top_mem {t : BinaryTree ν} {y : ν} (h : top t = some y) : y ∈ walk .left t := by
  cases t with
  | nil => cases h
  | node x l r =>
      cases h
      simp [walk]

section DownLink

variable [DecidableEq ν] {c : List (Frame ν)} {x : ν} {h : ℕ}

/-- Which link leads to a subtree is found out from the left child of its
parent. -/
theorem uplinkDir_eq {f : Frame ν} (hc : CtxLinks T (f :: c) (some x) h)
    (hx : x ∉ ctxNodes (f :: c)) : T.uplinkDir f.head x = f.dir := by
  obtain ⟨-, hd, ho, -, -, -⟩ := hc
  unfold uplinkDir
  rcases Dir.eq_or_eq_opposite .left f.dir with e | e
  · rw [e] at hd
    rw [hd, if_pos rfl, e]
  · rw [e, Dir.opposite_opposite] at ho
    rw [ho, if_neg, e]
    · rfl
    · intro htop
      refine hx ?_
      simp [ctxNodes, top_mem htop]

theorem setDownLink_ctx {v : Option ν} (hc : CtxLinks T c (some x) h)
    (hp : T.parent x = above c) (hn : (ctxNodes c).Nodup) (hx : x ∉ ctxNodes c) :
    CtxLinks (T.setDownLink x v) c v h := by
  cases c with
  | nil =>
      unfold setDownLink
      rw [hp]
      exact rfl
  | cons f c =>
      have hdir := uplinkDir_eq hc hx
      obtain ⟨hpf, hd, ho, hb, hl, hc⟩ := hc
      simp only [ctxNodes, List.cons_append, List.nodup_cons, List.mem_append, not_or] at hn
      have hset : T.setDownLink x v = T.setChild f.head f.dir v := by
        unfold setDownLink
        rw [hp]
        simp only [above]
        rw [← hdir]
        rfl
      have hsame : ∀ y ≠ f.head, SameLinks T (T.setDownLink x v) y := by
        intro y hy
        rw [hset]
        exact ⟨rfl, setChild_children_of_ne T v _ hy, rfl⟩
      refine ⟨by simpa using hpf, by simp [hset], by simpa [hset] using ho, by simpa using hb,
        ?_, ?_⟩
      · exact hl.congr fun y hy => hsame y fun e => hn.1.1 (e ▸ hy)
      · refine hc.congr (by rw [hset]; rfl) fun y hy => hsame y fun e => hn.1.2 (e ▸ hy)

end DownLink

end RTAVLTree

end LinuxSampler
