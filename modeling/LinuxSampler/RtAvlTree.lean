import LinuxSampler.AvlTree

/-!
# RTAVLTree

The intrusive AVL tree of RTAVLTree.h: the tree object and the link
fields of all nodes, `insert()`, `erase()`, `clear()` and the walk to
the neighbours of a node. Nodes with the key of a node that is already
in the tree are not linked into the tree, they join the ring of that
node, its *twins*. A step that would follow a null pointer gives `none`,
and so does a loop that runs more often than the tree has nodes.
-/

namespace LinuxSampler

open AvlTree (Dir)

/-- A tree object and the fields of all nodes. `tree` holds for the
nodes whose field `tree` points to this tree. -/
structure RTAVLTree (ν : Type*) where
  root : Option ν
  nodesCount : ℤ
  parent : ν → Option ν
  children : ν → Dir → Option ν
  prevTwin : ν → ν
  nextTwin : ν → ν
  balance : ν → ℤ
  twinHead : ν → Bool
  tree : ν → Bool

inductive Relation where
  | less
  | equal
  | greater
deriving DecidableEq, Repr

namespace Relation

def toInt : Relation → ℤ
  | less => -1
  | equal => 0
  | greater => 1

end Relation

namespace RTAVLTree

variable {ν κ : Type*} [DecidableEq ν] [LinearOrder κ]

/-! ## Fields -/

def setParent (T : RTAVLTree ν) (x : ν) (p : Option ν) : RTAVLTree ν :=
  { T with parent := Function.update T.parent x p }

def setChild (T : RTAVLTree ν) (x : ν) (d : Dir) (y : Option ν) : RTAVLTree ν :=
  { T with children := Function.update T.children x (Function.update (T.children x) d y) }

def setBalance (T : RTAVLTree ν) (x : ν) (b : ℤ) : RTAVLTree ν :=
  { T with balance := Function.update T.balance x b }

def setPrevTwin (T : RTAVLTree ν) (x y : ν) : RTAVLTree ν :=
  { T with prevTwin := Function.update T.prevTwin x y }

def setNextTwin (T : RTAVLTree ν) (x y : ν) : RTAVLTree ν :=
  { T with nextTwin := Function.update T.nextTwin x y }

def setTwinHead (T : RTAVLTree ν) (x : ν) (b : Bool) : RTAVLTree ν :=
  { T with twinHead := Function.update T.twinHead x b }

/-- `if (y) y->parent = p;` -/
def setParentOf (T : RTAVLTree ν) (y p : Option ν) : RTAVLTree ν :=
  match y with
  | some y => T.setParent y p
  | none => T

/-- `RTAVLNode::reset()` -/
def reset (T : RTAVLTree ν) (item : ν) : RTAVLTree ν :=
  { T with
    parent := Function.update T.parent item none
    children := Function.update T.children item fun _ => none
    prevTwin := Function.update T.prevTwin item item
    nextTwin := Function.update T.nextTwin item item
    balance := Function.update T.balance item 0
    twinHead := Function.update T.twinHead item true
    tree := Function.update T.tree item false }

/-- `item.reset(); if (T_SAFE) item.tree = this;` -/
def resetInTree (tSafe : Bool) (T : RTAVLTree ν) (item : ν) : RTAVLTree ν :=
  let T := T.reset item
  if tSafe then { T with tree := Function.update T.tree item true } else T

/-! ## Relations between nodes -/

def compare (key : ν → κ) (a b : ν) : Relation :=
  if key b = key a then .equal else if key b < key a then .less else .greater

/-- `*downLinkTo(node) = y;` -/
def setDownLink (T : RTAVLTree ν) (node : ν) (y : Option ν) : RTAVLTree ν :=
  match T.parent node with
  | none => { T with root := y }
  | some p => T.setChild p (if T.children p .left = some node then .left else .right) y

/-- `uplinkDirFrom(node)` for a node whose parent is `p`. -/
def uplinkDir (T : RTAVLTree ν) (p node : ν) : Dir :=
  if T.children p .left = some node then .left else .right

def relationToParent (T : RTAVLTree ν) (node : ν) : Relation :=
  match T.parent node with
  | none => .equal
  | some p => if T.uplinkDir p node = .left then .less else .greater

/-! ## Rotations

Each answers the node that is now on top, and by how much the subtree
has become lower. -/

def rotateOnce (T : RTAVLTree ν) (old : ν) (dir : Dir) : Option (RTAVLTree ν × ν × ℤ) := do
  let otherDir := dir.opposite
  let node ← T.children old otherDir
  let heightChange := if T.balance node = 0 then 0 else 1
  let T := T.setDownLink old (some node)
  let T := T.setParent node (T.parent old)
  let T := T.setChild old otherDir (T.children node dir)
  let T := T.setParentOf (T.children old otherDir) (some old)
  let T := T.setParent old (some node)
  let T := T.setChild node dir (some old)
  let T := T.setBalance node (T.balance node + if dir = .left then -1 else 1)
  let T := T.setBalance old (-T.balance node)
  return (T, node, heightChange)

/-- The new balances after a double rotation that brought `node` to the
top. -/
def balanceTwice (T : RTAVLTree ν) (node : ν) : Option (RTAVLTree ν) := do
  let left ← T.children node .left
  let T := T.setBalance left (-max (T.balance node) 0)
  let right ← T.children node .right
  let T := T.setBalance right (-min (T.balance node) 0)
  return T.setBalance node 0

def rotateTwice (T : RTAVLTree ν) (x : ν) (dir : Dir) : Option (RTAVLTree ν × ν × ℤ) := do
  let otherDir := dir.opposite
  let z ← T.children x otherDir
  let y ← T.children z dir
  let T := T.setDownLink x (some y)
  let T := T.setParent y (T.parent x)
  let T := T.setChild x otherDir (T.children y dir)
  let T := T.setParentOf (T.children x otherDir) (some x)
  let T := T.setChild y dir (some x)
  let T := T.setParent x (some y)
  let T := T.setChild z dir (T.children y otherDir)
  let T := T.setParentOf (T.children z dir) (some z)
  let T := T.setChild y otherDir (some z)
  let T := T.setParent z (some y)
  let T ← T.balanceTwice y
  return (T, y, 1)

def rebalance (T : RTAVLTree ν) (node : ν) : Option (RTAVLTree ν × ν × ℤ) :=
  if T.balance node < -1 then do
    let child ← T.children node .left
    if T.balance child = 1 then T.rotateTwice node .right else T.rotateOnce node .right
  else if T.balance node > 1 then do
    let child ← T.children node .right
    if T.balance child = -1 then T.rotateTwice node .left else T.rotateOnce node .left
  else
    return (T, node, 0)

/-! ## insert() -/

/-- The walk from the top down: the node with the key of `item`, or the
node and the direction in which `item` belongs below it. -/
def descend (key : ν → κ) (T : RTAVLTree ν) (item : ν) : ℕ → ν → Option (ν × Option Dir)
  | 0, _ => none
  | fuel + 1, node =>
      match compare key node item with
      | .equal => some (node, none)
      | relation =>
          let dir := if relation = .less then .left else .right
          match T.children node dir with
          | some child => descend key T item fuel child
          | none => some (node, some dir)

/-- The item joins the twin ring of `node`. -/
def insertTwin (tSafe : Bool) (T : RTAVLTree ν) (node item : ν) : RTAVLTree ν :=
  let T := T.resetInTree tSafe item
  let T := T.setNextTwin (T.prevTwin node) item
  let T := T.setPrevTwin item (T.prevTwin node)
  let T := T.setNextTwin item node
  let T := T.setTwinHead item false
  let T := T.setPrevTwin node item
  { T with nodesCount := T.nodesCount + 1 }

/-- The item becomes a child of `node`. -/
def insertChild (tSafe : Bool) (T : RTAVLTree ν) (node : ν) (dir : Dir) (item : ν) :
    RTAVLTree ν :=
  let T := T.resetInTree tSafe item
  let T := T.setChild node dir (some item)
  let T := T.setParent item (some node)
  { T with nodesCount := T.nodesCount + 1 }

/-- The walk from the new item upwards. -/
def insertRebalance : ℕ → RTAVLTree ν → ν → ℤ → Option (RTAVLTree ν)
  | 0, _, _, _ => none
  | fuel + 1, T, node, increase =>
      match T.parent node with
      | none => some T
      | some p =>
          if increase = 0 then some T
          else
            let increase := increase * (T.relationToParent node).toInt
            let T := T.setBalance p (T.balance p + increase)
            if T.balance p = 0 then insertRebalance fuel T p 0
            else do
              let (T, node, change) ← T.rebalance p
              insertRebalance fuel T node (1 - change)

/-- A bound for every loop over the nodes of the tree. -/
def fuel (T : RTAVLTree ν) : ℕ := T.nodesCount.toNat + 1

def insert (key : ν → κ) (tSafe : Bool) (T : RTAVLTree ν) (item : ν) :
    Option (RTAVLTree ν) :=
  if tSafe ∧ T.tree item then some T
  else
    match T.root with
    | none =>
        some { T.resetInTree tSafe item with
          root := some item, nodesCount := T.nodesCount + 1 }
    | some root => do
        match ← T.descend key item T.fuel root with
        | (node, none) => if node = item then some T else some (T.insertTwin tSafe node item)
        | (node, some dir) =>
            let T := T.insertChild tSafe node dir item
            insertRebalance T.fuel T item 1

/-! ## erase() -/

/-- The item is not the head of its ring. -/
def eraseTwin (T : RTAVLTree ν) (item : ν) : RTAVLTree ν :=
  let T := T.setNextTwin (T.prevTwin item) (T.nextTwin item)
  let T := T.setPrevTwin (T.nextTwin item) (T.prevTwin item)
  let T := T.reset item
  { T with nodesCount := T.nodesCount - 1 }

/-- The item is the head of a ring of several: the next twin takes its
place. -/
def eraseHead (T : RTAVLTree ν) (item : ν) : RTAVLTree ν :=
  let next := T.nextTwin item
  let T := T.setParent next (T.parent item)
  let T := T.setChild next .left (T.children item .left)
  let T := T.setChild next .right (T.children item .right)
  let T := T.setBalance next (T.balance item)
  let T := T.setTwinHead next true
  let T := T.setNextTwin (T.prevTwin item) next
  let T := T.setPrevTwin next (T.prevTwin item)
  let T := T.setParentOf (T.children item .left) (some next)
  let T := T.setParentOf (T.children item .right) (some next)
  let T := T.setDownLink item (some next)
  let T := T.reset item
  { T with nodesCount := T.nodesCount - 1 }

/-- `for (; node->children[dir]; node = node->children[dir]);` -/
def walkDown (T : RTAVLTree ν) (dir : Dir) : ℕ → ν → Option ν
  | 0, _ => none
  | fuel + 1, node =>
      match T.children node dir with
      | some child => walkDown T dir fuel child
      | none => some node

/-- `decrease = (node->balance) ? rebalance(node) : 1` -/
def settle (T : RTAVLTree ν) (node : ν) : Option (RTAVLTree ν × ν × ℤ) :=
  if T.balance node ≠ 0 then T.rebalance node else some (T, node, 1)

/-- `dangling`, which has no left child, leaves its place to its right
child. -/
def hangOut (T : RTAVLTree ν) (dangling : ν) : RTAVLTree ν :=
  let T := T.setDownLink dangling (T.children dangling .right)
  T.setParentOf (T.children dangling .right) (T.parent dangling)

/-- `dangling` replaces the item to be erased. -/
def replaceBy (T : RTAVLTree ν) (item dangling : ν) (danglingIs1stChild : Bool) :
    RTAVLTree ν :=
  let T := T.setParentOf (T.children item .left) (some dangling)
  let T := if ¬ danglingIs1stChild then T.setChild dangling .right (T.children item .right) else T
  let T := T.setParentOf (T.children item .right) (some dangling)
  let T := T.setParent dangling (T.parent item)
  let T := T.setBalance dangling (T.balance item)
  let T := T.setChild dangling .left (T.children item .left)
  T.setDownLink item (some dangling)

/-- `if (decrease) decrease = (node->balance) ? rebalance(node) : 1;` -/
def settleIf (T : RTAVLTree ν) (node : ν) (decrease : ℤ) : Option (RTAVLTree ν × ν × ℤ) :=
  if decrease ≠ 0 then T.settle node else some (T, node, decrease)

/-- From the place where `dangling` was up to the place where it is now. -/
def eraseSpine (dangling : ν) : ℕ → RTAVLTree ν → ν → ℤ → Option (RTAVLTree ν × ν × ℤ)
  | 0, _, _, _ => none
  | fuel + 1, T, node, decrease => do
      let isDangling := node = dangling
      let decrease := decrease * (if isDangling then Relation.greater else .less).toInt
      let T := T.setBalance node (T.balance node - decrease)
      let (T, node, decrease) ← T.settleIf node decrease
      if isDangling then some (T, node, decrease)
      else
        let p ← T.parent node
        eraseSpine dangling fuel T p decrease

/-- The walk from the erased item upwards. -/
def eraseRebalance : ℕ → RTAVLTree ν → ν → ℤ → Option (RTAVLTree ν)
  | 0, _, _, _ => none
  | fuel + 1, T, node, decrease =>
      match T.parent node with
      | none => some T
      | some p =>
          if decrease = 0 then some T
          else do
            let decrease := decrease * (T.relationToParent node).toInt
            let T := T.setBalance p (T.balance p - decrease)
            let (T, node, decrease) ← T.settle p
            eraseRebalance fuel T node decrease

/-- The link that leads to the item leads to its only child. -/
def linkUp (T : RTAVLTree ν) (item child : ν) : Option (RTAVLTree ν) :=
  if T.root = some item then some { T with root := some child }
  else do
    let p ← T.parent item
    return T.setChild p (T.uplinkDir p item) (some child)

/-- The item leaves the tree, up to the point where the common walk
upwards starts; `none` inside when there is nothing left to walk. -/
def eraseFromTree (T : RTAVLTree ν) (item : ν) :
    Option (RTAVLTree ν × Option (ν × ℤ)) :=
  match T.children item .left, T.children item .right with
  | some _, some right => do
      let dangling ← T.walkDown .left T.fuel right
      let p ← T.parent dangling
      let danglingIs1stChild := right = dangling
      let T := T.hangOut dangling
      let node := if danglingIs1stChild then dangling else p
      let T := T.replaceBy item dangling danglingIs1stChild
      let (T, node, decrease) ← eraseSpine dangling T.fuel T node 1
      return (T, some (node, decrease))
  | none, none =>
      if T.root = some item then some ({ T with root := none, nodesCount := 0 }, none)
      else do
        let p ← T.parent item
        let dir := T.uplinkDir p item
        let T := T.setChild p dir none
        let decrease := (if dir = .left then Relation.less else .greater).toInt
        let T := T.setBalance p (T.balance p - decrease)
        let (T, node, decrease) ← T.settle p
        return (T, some (node, decrease))
  | left, right => do
      let child ← right.or left
      let T ← T.linkUp item child
      return (T.setParent child (T.parent item), some (child, 1))

/-- The item has no twins. -/
def eraseUnique (T : RTAVLTree ν) (item : ν) : Option (RTAVLTree ν) := do
  match ← T.eraseFromTree item with
  | (T, none) => return T.reset item
  | (T, some (node, decrease)) =>
      let T ← eraseRebalance T.fuel T node decrease
      return { T with nodesCount := T.nodesCount - 1 }.reset item

def erase (tSafe : Bool) (T : RTAVLTree ν) (item : ν) : Option (RTAVLTree ν) :=
  if tSafe ∧ ¬ T.tree item then some T
  else if T.root = none then some (T.reset item)
  else if ¬ T.twinHead item then some (T.eraseTwin item)
  else if T.nextTwin item ≠ item then some (T.eraseHead item)
  else T.eraseUnique item

/-! ## clear(), lowest(), highest() -/

/-- `while (root) erase(*root);` -/
def eraseAll : ℕ → RTAVLTree ν → Option (RTAVLTree ν)
  | 0, _ => none
  | fuel + 1, T =>
      match T.root with
      | none => some T
      | some root => do
          let T ← T.erase true root
          eraseAll fuel T

def clear (tSafe : Bool) (T : RTAVLTree ν) : Option (RTAVLTree ν) := do
  let T ← if tSafe then eraseAll T.fuel T else some T
  return { T with root := none, nodesCount := 0 }

def lowest (T : RTAVLTree ν) : Option ν := do
  let root ← T.root
  T.walkDown .left T.fuel root

def highest (T : RTAVLTree ν) : Option ν := do
  let root ← T.root
  T.walkDown .right T.fuel root

/-! ## after(), before() -/

/-- Climbs to the first ancestor that is reached from its child in
direction `dir`. The outer `none` is a loop that does not end. -/
def climb (T : RTAVLTree ν) (dir : Dir) : ℕ → ν → Option (Option ν)
  | 0, _ => none
  | fuel + 1, node =>
      match T.parent node with
      | none => some none
      | some p => if T.children p dir = some node then some (some p) else climb T dir fuel p

/-- The neighbour of `node` in the tree, away from the end `dir`. -/
def neighbour (T : RTAVLTree ν) (dir : Dir) (node : ν) : Option (Option ν) :=
  match T.children node dir.opposite with
  | some child => (T.walkDown dir T.fuel child).map some
  | none => T.climb dir T.fuel node

def after (T : RTAVLTree ν) (item : ν) : Option (Option ν) :=
  if ¬ T.twinHead (T.nextTwin item) then some (some (T.nextTwin item))
  else T.neighbour .left item

def before (T : RTAVLTree ν) (item : ν) : Option (Option ν) :=
  if ¬ T.twinHead item then some (some (T.nextTwin item))
  else T.neighbour .right item

end RTAVLTree

end LinuxSampler
