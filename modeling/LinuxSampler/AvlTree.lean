import Mathlib.Data.Tree.Basic
import Mathlib.Data.List.Perm.Lattice
import Mathlib.Data.List.Pairwise
import Mathlib.Tactic.Ring

/-!
# Height balanced binary trees and positions in them

Directions, the walk through a tree from either end, the height balance
condition, and positions: a path from the root to a subtree is a list of
frames, innermost first, and `plug` puts a subtree back. The two
rotations of height balanced trees are stated once for both directions.
-/

namespace AvlTree

open BinaryTree

inductive Dir where
  | left
  | right
deriving DecidableEq, Repr

namespace Dir

def opposite : Dir → Dir
  | left => right
  | right => left

/-- The sign with which the height of the subtree in this direction
counts in a balance factor. -/
def sign : Dir → ℤ
  | left => -1
  | right => 1

@[simp] theorem opposite_opposite (d : Dir) : d.opposite.opposite = d := by
  cases d <;> rfl

@[simp] theorem opposite_ne (d : Dir) : d.opposite ≠ d := by
  cases d <;> decide

@[simp] theorem ne_opposite (d : Dir) : d ≠ d.opposite := by
  cases d <;> decide

theorem eq_or_eq_opposite (d e : Dir) : e = d ∨ e = d.opposite := by
  cases d <;> cases e <;> decide

end Dir

variable {α : Type*}

/-! ## Trees -/

def top : BinaryTree α → Option α
  | .nil => none
  | .node x _ _ => some x

/-- The node `x` with `a` in direction `d` and `b` in the other one. -/
def branch (d : Dir) (a : BinaryTree α) (x : α) (b : BinaryTree α) : BinaryTree α :=
  match d with
  | .left => .node x a b
  | .right => .node x b a

/-- The nodes in the order in which they are met when one starts at the
end in direction `d`. -/
def walk (d : Dir) : BinaryTree α → List α
  | .nil => []
  | .node x l r =>
      match d with
      | .left => walk d l ++ x :: walk d r
      | .right => walk d r ++ x :: walk d l

def Balanced : BinaryTree α → Prop
  | .nil => True
  | .node _ l r =>
      (r.height : ℤ) - l.height ≤ 1 ∧ -1 ≤ (r.height : ℤ) - l.height ∧ Balanced l ∧ Balanced r

@[simp] theorem top_nil : top (.nil : BinaryTree α) = none := rfl

@[simp] theorem top_node (x : α) (l r : BinaryTree α) : top (.node x l r) = some x := rfl

@[simp] theorem top_branch (d : Dir) (a b : BinaryTree α) (x : α) : top (branch d a x b) = some x := by
  cases d <;> rfl

theorem top_eq_none {t : BinaryTree α} : top t = none ↔ t = .nil := by
  cases t <;> simp

@[simp] theorem height_branch (d : Dir) (a b : BinaryTree α) (x : α) :
    (branch d a x b).height = max a.height b.height + 1 := by
  cases d
  · rfl
  · simp only [branch, height, max_comm]

@[simp] theorem walk_nil (d : Dir) : walk d (.nil : BinaryTree α) = [] := rfl

theorem walk_branch (d : Dir) (a b : BinaryTree α) (x : α) :
    walk d (branch d a x b) = walk d a ++ x :: walk d b := by
  cases d <;> rfl

theorem walk_opposite_branch (d : Dir) (a b : BinaryTree α) (x : α) :
    walk d (branch d.opposite a x b) = walk d b ++ x :: walk d a := by
  cases d <;> rfl

theorem exists_branch (d : Dir) (x : α) (l r : BinaryTree α) :
    ∃ a b, BinaryTree.node x l r = branch d a x b := by
  cases d
  · exact ⟨l, r, rfl⟩
  · exact ⟨r, l, rfl⟩

theorem walk_opposite (d : Dir) (t : BinaryTree α) : walk d.opposite t = (walk d t).reverse := by
  induction t with
  | nil => rfl
  | node x l r ihl ihr => cases d <;> simp_all [walk, Dir.opposite]

theorem mem_walk_opposite {d : Dir} {t : BinaryTree α} {x : α} :
    x ∈ walk d.opposite t ↔ x ∈ walk d t := by
  rw [walk_opposite, List.mem_reverse]

theorem mem_walk (d e : Dir) {t : BinaryTree α} {x : α} : x ∈ walk d t ↔ x ∈ walk e t := by
  rcases Dir.eq_or_eq_opposite d e with rfl | rfl
  · rfl
  · exact mem_walk_opposite.symm

@[simp] theorem mem_walk_branch {d e : Dir} {a b : BinaryTree α} {x y : α} :
    y ∈ walk e (branch d a x b) ↔ y = x ∨ y ∈ walk e a ∨ y ∈ walk e b := by
  cases d <;> cases e <;> simp [branch, walk] <;> tauto

theorem nodup_branch {d : Dir} {a b : BinaryTree α} {x : α} :
    (walk .left (branch d a x b)).Nodup ↔ x ∉ walk .left a ∧ x ∉ walk .left b ∧
      (walk .left a).Nodup ∧ (walk .left b).Nodup ∧
        (walk .left a).Disjoint (walk .left b) := by
  cases d
  · simp only [branch, walk, List.nodup_append', List.nodup_cons, List.disjoint_cons_right]
    tauto
  · simp only [branch, walk, List.nodup_append', List.nodup_cons, List.disjoint_cons_right]
    rw [List.disjoint_comm]
    tauto

theorem length_walk (d : Dir) (t : BinaryTree α) : (walk d t).length = t.numNodes := by
  induction t with
  | nil => rfl
  | node x l r ihl ihr =>
      cases d <;> simp [walk, ihl, ihr] <;> omega

theorem height_le_length (d : Dir) (t : BinaryTree α) : t.height ≤ (walk d t).length := by
  rw [length_walk]
  exact t.height_le_numNodes

/-- The balance factor is counted to the right, whatever the direction. -/
theorem balanced_branch (d : Dir) (a b : BinaryTree α) (x : α) :
    Balanced (branch d a x b) ↔ d.sign * ((a.height : ℤ) - b.height) ≤ 1 ∧
      -1 ≤ d.sign * ((a.height : ℤ) - b.height) ∧ Balanced a ∧ Balanced b := by
  cases d
  · simp only [branch, Balanced, Dir.sign]
    constructor
    · rintro ⟨h₁, h₂, ha, hb⟩
      exact ⟨by omega, by omega, ha, hb⟩
    · rintro ⟨h₁, h₂, ha, hb⟩
      exact ⟨by omega, by omega, ha, hb⟩
  · simp only [branch, Balanced, Dir.sign, one_mul]
    constructor
    · rintro ⟨h₁, h₂, ha, hb⟩
      exact ⟨h₁, h₂, hb, ha⟩
    · rintro ⟨h₁, h₂, ha, hb⟩
      exact ⟨h₁, h₂, hb, ha⟩

theorem walk_rotateOnce (e d : Dir) (a b c : BinaryTree α) (x y : α) :
    walk e (branch d a y (branch d b x c)) = walk e (branch d (branch d a y b) x c) := by
  cases d <;> cases e <;> simp [branch, walk]

theorem walk_rotateTwice (e d : Dir) (a b b' c : BinaryTree α) (x y z : α) :
    walk e (branch d (branch d a z b) y (branch d b' x c)) =
      walk e (branch d (branch d a z (branch d b y b')) x c) := by
  cases d <;> cases e <;> simp [branch, walk]

/-! ## Positions -/

/-- One step of a path: the path goes to `dir` below `head`, and leaves
`sibling` on the other side. -/
structure Frame (α : Type*) where
  dir : Dir
  head : α
  sibling : BinaryTree α

def Frame.fill (f : Frame α) (t : BinaryTree α) : BinaryTree α :=
  branch f.dir t f.head f.sibling

/-- The whole tree around the subtree `t`; the innermost frame is first. -/
def plug : List (Frame α) → BinaryTree α → BinaryTree α
  | [], t => t
  | f :: c, t => plug c (f.fill t)

/-- The node above the hole. -/
def above : List (Frame α) → Option α
  | [] => none
  | f :: _ => some f.head

def ctxNodes : List (Frame α) → List α
  | [] => []
  | f :: c => f.head :: walk .left f.sibling ++ ctxNodes c

/-- What a walk from the end `d` meets before the hole. -/
def walkBefore (d : Dir) : List (Frame α) → List α
  | [] => []
  | f :: c => walkBefore d c ++ if f.dir = d then [] else walk d f.sibling ++ [f.head]

/-- What a walk from the end `d` meets after the hole. -/
def walkAfter (d : Dir) : List (Frame α) → List α
  | [] => []
  | f :: c => (if f.dir = d then f.head :: walk d f.sibling else []) ++ walkAfter d c

/-- The frames are balanced around a subtree of height `h`. -/
def CtxBalanced : List (Frame α) → ℕ → Prop
  | [], _ => True
  | f :: c, h =>
      (h : ℤ) - f.sibling.height ≤ 1 ∧ -1 ≤ (h : ℤ) - f.sibling.height ∧ Balanced f.sibling ∧
        CtxBalanced c (max h f.sibling.height + 1)

theorem walk_fill (d : Dir) (f : Frame α) (t : BinaryTree α) :
    walk d (f.fill t) = (if f.dir = d then [] else walk d f.sibling ++ [f.head]) ++ walk d t ++
      if f.dir = d then f.head :: walk d f.sibling else [] := by
  rcases Dir.eq_or_eq_opposite d f.dir with h | h
  · simp [Frame.fill, h, walk_branch]
  · simp [Frame.fill, h, walk_opposite_branch]

theorem walk_plug (d : Dir) : ∀ (c : List (Frame α)) (t : BinaryTree α),
    walk d (plug c t) = walkBefore d c ++ walk d t ++ walkAfter d c
  | [], t => by simp [plug, walkBefore, walkAfter]
  | f :: c, t => by
      rw [plug, walk_plug d c, walk_fill]
      simp [walkBefore, walkAfter]

theorem ctxNodes_perm : ∀ c : List (Frame α),
    (ctxNodes c).Perm (walkBefore .left c ++ walkAfter .left c)
  | [] => by simp [ctxNodes, walkBefore, walkAfter]
  | f :: c => by
      have ih := (ctxNodes_perm c).append_left (f.head :: walk .left f.sibling)
      refine ih.trans ?_
      rw [walkBefore, walkAfter]
      split
      · simp only [List.append_nil, ← List.append_assoc]
        exact List.perm_append_comm.append_right _
      · simp only [List.nil_append, ← List.append_assoc]
        refine List.Perm.append_right _ (List.perm_append_comm.trans ?_)
        rw [List.append_assoc]
        exact (List.perm_append_singleton _ _).symm.append_left _

theorem walk_plug_perm (c : List (Frame α)) (t : BinaryTree α) :
    (walk .left (plug c t)).Perm (ctxNodes c ++ walk .left t) := by
  have hmid : (walkBefore .left c ++ walk .left t ++ walkAfter .left c).Perm
      (walkBefore .left c ++ walkAfter .left c ++ walk .left t) := by
    rw [List.append_assoc, List.append_assoc]
    exact List.perm_append_comm.append_left _
  rw [walk_plug]
  exact hmid.trans ((ctxNodes_perm c).symm.append_right _)

theorem walkBefore_of_dir {d : Dir} {c : List (Frame α)} (h : ∀ f ∈ c, f.dir = d) :
    walkBefore d c = [] := by
  induction c with
  | nil => rfl
  | cons f c ih =>
      rw [walkBefore, ih fun g hg => h g (List.mem_cons_of_mem _ hg), if_pos (h f (by simp))]
      rfl

theorem balanced_plug : ∀ (c : List (Frame α)) (t : BinaryTree α),
    Balanced (plug c t) ↔ Balanced t ∧ CtxBalanced c t.height
  | [], t => by simp [plug, CtxBalanced]
  | f :: c, t => by
      rw [plug, balanced_plug c, Frame.fill, balanced_branch, height_branch, CtxBalanced]
      cases f.dir <;> simp only [Dir.sign]
      · constructor
        · rintro ⟨⟨h₁, h₂, ht, hs⟩, hc⟩
          exact ⟨ht, by omega, by omega, hs, hc⟩
        · rintro ⟨ht, h₁, h₂, hs, hc⟩
          exact ⟨⟨by omega, by omega, ht, hs⟩, hc⟩
      · constructor
        · rintro ⟨⟨h₁, h₂, ht, hs⟩, hc⟩
          exact ⟨ht, by omega, by omega, hs, hc⟩
        · rintro ⟨ht, h₁, h₂, hs, hc⟩
          exact ⟨⟨by omega, by omega, ht, hs⟩, hc⟩

theorem balanced_fill {f : Frame α} {t : BinaryTree α} (ht : Balanced t)
    (hs : Balanced f.sibling) (h₁ : t.height ≤ f.sibling.height + 1)
    (h₂ : f.sibling.height ≤ t.height + 1) : Balanced (f.fill t) := by
  refine (balanced_branch ..).mpr ⟨?_, ?_, ht, hs⟩ <;>
    cases f.dir <;> simp only [Dir.sign] <;> omega

theorem ctxNodes_append (c₁ c₂ : List (Frame α)) :
    ctxNodes (c₁ ++ c₂) = ctxNodes c₁ ++ ctxNodes c₂ := by
  induction c₁ with
  | nil => rfl
  | cons f c ih => simp [ctxNodes, ih]

theorem plug_append (c₁ c₂ : List (Frame α)) (t : BinaryTree α) :
    plug (c₁ ++ c₂) t = plug c₂ (plug c₁ t) := by
  induction c₁ generalizing t with
  | nil => rfl
  | cons f c ih => exact ih _

/-- Every node of a tree has a position. -/
theorem exists_plug {t : BinaryTree α} {x : α} (hx : x ∈ walk .left t) :
    ∃ c l r, t = plug c (.node x l r) := by
  induction t with
  | nil => cases hx
  | node y l r ihl ihr =>
      rw [walk, List.mem_append, List.mem_cons] at hx
      rcases hx with hl | rfl | hr
      · obtain ⟨c, l', r', rfl⟩ := ihl hl
        exact ⟨c ++ [⟨.left, y, r⟩], l', r', by rw [plug_append]; rfl⟩
      · exact ⟨[], l, r, rfl⟩
      · obtain ⟨c, l', r', rfl⟩ := ihr hr
        exact ⟨c ++ [⟨.right, y, l⟩], l', r', by rw [plug_append]; rfl⟩

theorem length_le_ctxNodes (c : List (Frame α)) : c.length ≤ (ctxNodes c).length := by
  induction c with
  | nil => rfl
  | cons f c ih =>
      simp only [ctxNodes, List.cons_append, List.length_cons, List.length_append]
      omega

/-! ## Other labels -/

section Map

variable {β : Type*} (σ : α → β)

def Frame.map (f : Frame α) : Frame β :=
  ⟨f.dir, σ f.head, f.sibling.map σ⟩

@[simp] theorem top_map (t : BinaryTree α) : top (t.map σ) = (top t).map σ := by
  cases t <;> rfl

@[simp] theorem height_map (t : BinaryTree α) : (t.map σ).height = t.height := by
  induction t with
  | nil => rfl
  | node x l r ihl ihr => simp [BinaryTree.map, ihl, ihr]

@[simp] theorem walk_map (d : Dir) (t : BinaryTree α) : walk d (t.map σ) = (walk d t).map σ := by
  induction t with
  | nil => rfl
  | node x l r ihl ihr => cases d <;> simp_all [BinaryTree.map, walk]

theorem balanced_map {t : BinaryTree α} : Balanced (t.map σ) ↔ Balanced t := by
  induction t with
  | nil => rfl
  | node x l r ihl ihr => simp [BinaryTree.map, Balanced, ihl, ihr]

theorem branch_map (d : Dir) (a b : BinaryTree α) (x : α) :
    (branch d a x b).map σ = branch d (a.map σ) (σ x) (b.map σ) := by
  cases d <;> rfl

theorem plug_map (c : List (Frame α)) (t : BinaryTree α) :
    (plug c t).map σ = plug (c.map (Frame.map σ)) (t.map σ) := by
  induction c generalizing t with
  | nil => rfl
  | cons f c ih =>
      rw [plug, ih, Frame.fill, branch_map]
      rfl

theorem above_map (c : List (Frame α)) : above (c.map (Frame.map σ)) = (above c).map σ := by
  cases c <;> rfl

theorem ctxNodes_map (c : List (Frame α)) :
    ctxNodes (c.map (Frame.map σ)) = (ctxNodes c).map σ := by
  induction c with
  | nil => rfl
  | cons f c ih => simp [ctxNodes, Frame.map, ih]

theorem ctxBalanced_map : ∀ {c : List (Frame α)} {h : ℕ},
    CtxBalanced (c.map (Frame.map σ)) h ↔ CtxBalanced c h
  | [], _ => Iff.rfl
  | f :: c, h => by
      simp [CtxBalanced, Frame.map, balanced_map, ctxBalanced_map]

end Map

/-! ## Search trees -/

/-- Everything to the left of a node has a smaller key, everything to the
right of it a larger one. -/
def SearchTree {κ : Type*} [LT κ] (key : α → κ) : BinaryTree α → Prop
  | .nil => True
  | .node x l r =>
      (∀ y ∈ walk .left l, key y < key x) ∧ (∀ y ∈ walk .left r, key x < key y) ∧
        SearchTree key l ∧ SearchTree key r

theorem searchTree_iff {κ : Type*} [Preorder κ] {key : α → κ} {t : BinaryTree α} :
    SearchTree key t ↔ (walk .left t).Pairwise (fun x y => key x < key y) := by
  induction t with
  | nil => simp [SearchTree]
  | node x l r ihl ihr =>
      rw [SearchTree, walk, ihl, ihr, List.pairwise_append, List.pairwise_cons]
      constructor
      · rintro ⟨hl, hr, hpl, hpr⟩
        refine ⟨hpl, ⟨hr, hpr⟩, ?_⟩
        intro y hy z hz
        rcases List.mem_cons.mp hz with rfl | hz
        · exact hl y hy
        · exact (hl y hy).trans (hr z hz)
      · rintro ⟨hpl, ⟨hr, hpr⟩, hlr⟩
        exact ⟨fun y hy => hlr y hy x List.mem_cons_self, hr, hpl, hpr⟩

theorem SearchTree.key_inj {κ : Type*} [Preorder κ] {key : α → κ} {t : BinaryTree α}
    (hk : SearchTree key t) {x y : α} (hx : x ∈ walk .left t) (hy : y ∈ walk .left t)
    (h : key x = key y) : x = y := by
  have hp : (walk .left t).Pairwise fun x y => key x ≠ key y :=
    (searchTree_iff.mp hk).imp fun h => h.ne
  have : Std.Symm fun x y : α => key x ≠ key y := ⟨fun _ _ h => h.symm⟩
  by_contra hne
  exact hp.forall hx hy hne h

end AvlTree
