import LinuxSampler.DoublyLinked
import Mathlib.Data.Nat.Bitwise

/-!
# Pool and RTList

The allocator of the real-time threads. A pool owns an array of nodes;
every node is linked into the free list of the pool or into one of the
lists that allocate from it, each of them a chain of nodes between two
boundary nodes without data. An element has a numeric ID, made of its
index in the array and a counter of its releases.
-/

namespace LinuxSampler

/-- The free list of the pool, or a list of elements in use. The pool
is itself one of the latter. -/
inductive ListId (ι : Type*) where
  | freelist
  | rtlist (list : ι)
deriving DecidableEq

/-- A `Node*`: the null pointer, the boundary nodes `_begin` and `_end` of a
list, or the address of `nodes[index]`. -/
inductive NodeRef (ι : Type*) where
  | null
  | beginOf (list : ListId ι)
  | endOf (list : ListId ι)
  | node (index : ℕ)
deriving DecidableEq

/-- The pointers and the counters of the nodes, and the sizes of the pool. -/
structure Pool (ι : Type*) extends DoublyLinked (NodeRef ι) where
  reincarnation : NodeRef ι → ℕ
  poolsize : ℕ
  poolsizebits : ℕ
  reservedbits : ℕ
  reincarnationbits : ℕ

structure Iterator (ι : Type*) where
  current : NodeRef ι
  fallback : NodeRef ι
deriving DecidableEq

variable {ι : Type*} [DecidableEq ι]

/-! ## Iterators -/

namespace Iterator

inductive Dir where
  | forward
  | backward
deriving DecidableEq

/-- `Iterator()`, the result of a search that fails. -/
def invalid : Iterator ι where
  current := .null
  fallback := .null

/-- `operator bool`: only the nodes of the array have data. -/
def hasData (it : Iterator ι) : Bool :=
  match it.current with
  | .node _ => true
  | _ => false

end Iterator

namespace Pool

variable (P : Pool ι)

def iterator (pNode : NodeRef ι) (direction : Iterator.Dir) : Iterator ι where
  current := pNode
  fallback := if direction = .forward then P.prev pNode else P.next pNode

/-- `++it` -/
def increment (it : Iterator ι) : Iterator ι where
  current := P.next it.current
  fallback := it.current

def first (l : ListId ι) : Iterator ι := P.iterator (P.next (.beginOf l)) .forward

def last (l : ListId ι) : Iterator ι := P.iterator (P.prev (.endOf l)) .backward

def begin (l : ListId ι) : Iterator ι := P.iterator (.beginOf l) .forward

def «end» (l : ListId ι) : Iterator ι := P.iterator (.endOf l) .backward

def isEmpty (l : ListId ι) : Bool := P.next (.beginOf l) == .endOf l

/-! ## RTListBase -/

def setNext (x y : NodeRef ι) : Pool ι := { P with next := Function.update P.next x y }

def setPrev (x y : NodeRef ι) : Pool ι := { P with prev := Function.update P.prev x y }

def append (l : ListId ι) (pNode : NodeRef ι) : Pool ι :=
  let last := P.prev (.endOf l)
  let P := P.setNext last pNode
  let P := P.setPrev pNode last
  let P := P.setNext pNode (.endOf l)
  P.setPrev (.endOf l) pNode

/-- `append(itFirst, itLast)` -/
def appendRange (l : ListId ι) (pFirst pLast : NodeRef ι) : Pool ι :=
  let last := P.prev (.endOf l)
  let P := P.setNext last pFirst
  let P := P.setPrev pFirst last
  let P := P.setNext pLast (.endOf l)
  P.setPrev (.endOf l) pLast

def prepend (l : ListId ι) (pNode : NodeRef ι) : Pool ι :=
  let first := P.next (.beginOf l)
  let P := P.setNext (.beginOf l) pNode
  let P := P.setPrev pNode (.beginOf l)
  let P := P.setNext pNode first
  P.setPrev first pNode

def prependBefore (itSrc itDst : NodeRef ι) : Pool ι :=
  let prev := P.prev itDst
  let P := P.setNext prev itSrc
  let P := P.setPrev itDst itSrc
  let P := P.setPrev itSrc prev
  P.setNext itSrc itDst

def detach (pNode : NodeRef ι) : Pool ι :=
  let prev := P.prev pNode
  let next := P.next pNode
  let P := P.setNext prev next
  P.setPrev next prev

/-- `detach(itFirst, itLast)` -/
def detachRange (pFirst pLast : NodeRef ι) : Pool ι :=
  let prev := P.prev pFirst
  let next := P.next pLast
  let P := P.setNext prev next
  P.setPrev next prev

/-! ## Free list and IDs -/

/-- `(1 << bits) - 1` with the `int` literal `1`: the processor takes the shift
count modulo 32. -/
def intMask (bits : ℕ) : ℕ := 2 ^ (bits % 32) - 1

def bumpReincarnation (pNode : NodeRef ι) : Pool ι :=
  { P with
    reincarnation := Function.update P.reincarnation pNode
      ((P.reincarnation pNode + 1) % 2 ^ 64 &&& intMask P.reincarnationbits) }

def alloc : Pool ι × Iterator ι :=
  let element := P.last .freelist
  (P.detach element.current, element)

def freeToPool (pNode : NodeRef ι) : Pool ι :=
  (P.bumpReincarnation pNode).append .freelist pNode

/-- The loop of `freeToPool(itFirst, itLast)`. -/
def bumpRange (pLast : NodeRef ι) : ℕ → Pool ι → NodeRef ι → Option (Pool ι)
  | 0, _, _ => none
  | fuel + 1, P, n =>
      let P := P.bumpReincarnation n
      if n = pLast then some P else bumpRange pLast fuel P (P.next n)

/-- `freeToPool(itFirst, itLast)` -/
def freeRangeToPool (pFirst pLast : NodeRef ι) : Option (Pool ι) := do
  let P ← bumpRange pLast P.poolsize P pFirst
  return P.appendRange .freelist pFirst pLast

def getID (index : ℤ) : ℕ :=
  if P.poolsize = 0 then 0
  else if index < 0 ∨ index ≥ P.poolsize then 0
  else
    ((P.reincarnation (.node index.toNat) <<< P.poolsizebits % 2 ^ 64 ||| index.toNat) + 1) % 2 ^ 64

def fromID (id : ℕ) : Iterator ι :=
  -- the second test is `id == -1`
  if id = 0 ∨ id = 2 ^ 64 - 1 then .invalid
  else
    let id := id - 1
    let index := id &&& intMask P.poolsizebits
    if index ≥ P.poolsize then .invalid
    else if id >>> P.poolsizebits ≠ P.reincarnation (.node index) then .invalid
    else P.iterator (.node index) .forward

/-! ## RTList -/

def poolIsEmpty : Bool := P.isEmpty .freelist

def allocAppend (l : ι) : Pool ι × Iterator ι :=
  if P.poolIsEmpty then (P, P.begin (.rtlist l))
  else
    let (P, element) := P.alloc
    (P.append (.rtlist l) element.current, element)

def allocPrepend (l : ι) : Pool ι × Iterator ι :=
  if P.poolIsEmpty then (P, P.end (.rtlist l))
  else
    let (P, element) := P.alloc
    (P.prepend (.rtlist l) element.current, element)

/-- The iterator falls back to the previous element, so that a loop with it
goes on. -/
def free (itElement : Iterator ι) : Pool ι × Iterator ι :=
  let P := P.detach itElement.current
  (P.freeToPool itElement.current, { itElement with current := itElement.fallback })

def clear (l : ι) : Option (Pool ι) :=
  if P.isEmpty (.rtlist l) then some P
  else
    let first := P.next (.beginOf (.rtlist l))
    let last := P.prev (.endOf (.rtlist l))
    (P.detachRange first last).freeRangeToPool first last

/-- The pool, the iterator afterwards, and the iterator on the destination
list. -/
def moveToEndOf (it : Iterator ι) (pDstList : ι) : Pool ι × Iterator ι × Iterator ι :=
  let P := P.detach it.current
  let P := P.append (.rtlist pDstList) it.current
  (P, { it with current := it.fallback }, P.iterator it.current .forward)

def moveToBeginOf (it : Iterator ι) (pDstList : ι) : Pool ι × Iterator ι × Iterator ι :=
  let P := P.detach it.current
  let P := P.prepend (.rtlist pDstList) it.current
  (P, { it with current := it.fallback }, P.iterator it.current .forward)

/-- The destination is the element before which the element is inserted. -/
def moveBefore (it itDst : Iterator ι) : Pool ι × Iterator ι × Iterator ι :=
  let P := P.detach it.current
  let P := P.prependBefore it.current itDst.current
  (P, { it with current := it.fallback }, P.iterator it.current .forward)

end Pool

/-! ## Construction -/

namespace Pool

/-- The loop of `bitsForSize()`. -/
def countBits (bits size : ℕ) : ℕ :=
  if size > 1 then countBits (bits + 2) (size >>> 2) else bits + size
termination_by size
decreasing_by
  rw [Nat.shiftRight_eq_div_pow]
  omega

def bitsForSize (size : ℕ) : ℕ :=
  if size = 0 then 0 else countBits 0 (size - 1)

/-- `sizeof(pool_element_id_t) * 8 - poolsizebits - reservedbits`, stored in an
`uint`. -/
def reincarnationBits (poolsizebits reservedbits : ℕ) : ℕ :=
  ((64 - poolsizebits - reservedbits : ℤ) % 2 ^ 32).toNat

variable (ι) in
/-- All lists are empty and the nodes in none of them. -/
def unlinked (Elements reservedbits : ℕ) : Pool ι where
  next
    | .beginOf l => .endOf l
    | .endOf l => .endOf l
    | _ => .null
  prev
    | .beginOf l => .beginOf l
    | .endOf l => .beginOf l
    | _ => .null
  reincarnation := fun _ => 0
  poolsize := Elements
  poolsizebits := bitsForSize (Elements + 1)
  reservedbits := reservedbits
  reincarnationbits := reincarnationBits (bitsForSize (Elements + 1)) reservedbits

variable (ι) in
/-- A pool after its construction and `setPoolElementIDsReservedBits()`. -/
def create (Elements reservedbits : ℕ) : Pool ι :=
  (List.range Elements).foldl (fun P i => P.append .freelist (.node i))
    (unlinked ι Elements reservedbits)

/-! ## What is in a list -/

/-- The nodes with data from a node on. -/
def nodesFrom (P : Pool ι) : ℕ → NodeRef ι → List ℕ
  | fuel + 1, .node i => i :: nodesFrom P fuel (P.next (.node i))
  | _, _ => []

/-- The elements that a forward iteration of the list visits. -/
def elements (P : Pool ι) (l : ListId ι) : List ℕ := P.nodesFrom P.poolsize (P.next (.beginOf l))

def Allocated (P : Pool ι) (i : ℕ) : Prop := ∃ l, i ∈ P.elements (.rtlist l)

end Pool

end LinuxSampler
