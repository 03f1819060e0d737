import Refk.Lib.Assoc

/-!
# `clib/avl.c` — the AVL tree

The tree as the code keeps it: a node carries the depth that was last *stored* in it, and
every rotation decision reads stored depths and nothing else. The pointers `left`/`right`
are the constructor's children, `null` is the null pointer, and a function that would read
through a null pointer answers `none`; so "never follows a null child" is `≠ none`.

`depth` is a C `int`, modelled by `Int`: no tree that fits in memory comes near its range.
The allocator is taken not to fail, as `AVL_ALLOC` takes it.
-/

namespace Refk

namespace Avl

variable {κ δ : Type}

/-- `avl_tree_node_t *`. -/
inductive Node (κ δ : Type) where
  | null
  | node (left right : Node κ δ) (depth : Int) (key : κ) (data : δ)
  deriving DecidableEq, Repr

namespace Node

/-- The stored depth, with the `0` that `balance_factor` and `tree_depth` start from. -/
def depth : Node κ δ → Int
  | null => 0
  | node _ _ d _ _ => d

/-- Inorder entries. -/
def toList : Node κ δ → List (κ × δ)
  | null => []
  | node l r _ k x => l.toList ++ (k, x) :: r.toList

end Node

open Node

/-- `balance_factor`: `> 0` if the left subtree is deeper. -/
def balanceFactor : Node κ δ → Option Int
  | null => none
  | node l r _ _ _ => some (l.depth - r.depth)

/-- What `update_depth` stores: it starts from `1`, lets either child's depth replace that,
    and then increments — so a node without children is given depth `2`. -/
def newDepth (l r : Node κ δ) : Int :=
  let d := match l with
    | null => 1
    | node _ _ dl _ _ => dl
  let d := match r with
    | null => d
    | node _ _ dr _ _ => if d < dr then dr else d
  d + 1

def updateDepth : Node κ δ → Option (Node κ δ)
  | null => none
  | node l r _ k x => some (node l r (newDepth l r) k x)

/-- `AVL_LEFT` and `AVL_RIGHT`. -/
inductive Dir where
  | left
  | right

/-- `rotate`: the child on the far side of `dir` comes up. -/
def rotate : Node κ δ → Dir → Option (Node κ δ)
  | node l (node rl rr rd rk rx) d k x, .left => do
    let n ← updateDepth (node l rl d k x)
    updateDepth (node n rr rd rk rx)
  | node (node ll lr ld lk lx) r d k x, .right => do
    let n ← updateDepth (node lr r d k x)
    updateDepth (node ll n ld lk lx)
  | _, _ => none

def rebalance : Node κ δ → Option (Node κ δ)
  | null => none
  | node l r d k x => do
    let delta ← balanceFactor (node l r d k x)
    if delta = 2 then
      let l' ← if (← balanceFactor l) < 0 then rotate l .left else some l
      rotate (node l' r d k x) .right
    else if delta = -2 then
      let r' ← if (← balanceFactor r) > 0 then rotate r .right else some r
      rotate (node l r' d k x) .left
    else
      some (node l r d k x)

/-- The last two statements of `insert_helper`. -/
def insertTail (n : Node κ δ) : Option (Node κ δ) := do
  updateDepth (← rebalance n)

/-- `insert_helper`: the node to store back through the pointer, and the returned data. -/
def insertHelper (cmp : κ → κ → Int) (key : κ) (data : δ) :
    Node κ δ → Option (Node κ δ × Option δ)
  | null => some (node null null 1 key data, none)
  | node l r d k x =>
    if cmp key k = 0 then some (node l r d k data, some x)
    else if cmp key k < 0 then do
      let (l', ret) ← insertHelper cmp key data l
      return (← insertTail (node l' r d k x), ret)
    else do
      let (r', ret) ← insertHelper cmp key data r
      return (← insertTail (node l r' d k x), ret)

/-- `while((*y)->right) y = &(*y)->right;` followed by `*y = (*y)->left`: the key and data
    copied out of the rightmost node, and the subtree without it, depths untouched. -/
def takeMax : Node κ δ → Option (κ × δ × Node κ δ)
  | null => none
  | node l null _ k x => some (k, x, l)
  | node l (node rl rr rd rk rx) d k x => do
    let (k', x', r') ← takeMax (node rl rr rd rk rx)
    return (k', x', node l r' d k x)

/-- `remove_depth_helper`: fix the stored depths down the right spine, deepest first. -/
def removeDepthHelper : Node κ δ → Option (Node κ δ)
  | null => some null
  | node l r d k x => do
    let r' ← removeDepthHelper r
    updateDepth (node l r' d k x)

/-- The `if(*node)` at the end of `remove_helper`. -/
def removeTail : Node κ δ → Option (Node κ δ)
  | null => some null
  | node l r d k x => do rebalance (← updateDepth (node l r d k x))

/-- What `remove_helper` leaves behind: the node to store back, the returned data, and the
    keys handed to `tree->destructor`. -/
structure Removed (κ δ : Type) where
  node : Node κ δ
  ret : Option δ
  destroyed : List κ

/-- The `cmp == 0` branch of `remove_helper`, up to its tail. -/
def removeFound : Node κ δ → Node κ δ → Int → Option (Node κ δ)
  | node ll lr ld lk lx, node rl rr rd rk rx, d => do
    -- both children: the predecessor's contents are copied into the node
    let (k', x', l') ← takeMax (node ll lr ld lk lx)
    let l'' ← removeDepthHelper l'
    return node l'' (node rl rr rd rk rx) d k' x'
  | node ll lr ld lk lx, null, _ => some (node ll lr ld lk lx)
  | null, r, _ => some r

/-- `remove_helper`; `destructor` says whether the tree has a key destructor. -/
def removeHelper (cmp : κ → κ → Int) (destructor : Bool) (key : κ) :
    Node κ δ → Option (Removed κ δ)
  | null => some ⟨null, none, []⟩
  | node l r d k x =>
    if cmp key k < 0 then do
      let s ← removeHelper cmp destructor key l
      return { s with node := ← removeTail (node s.node r d k x) }
    else if cmp key k > 0 then do
      let s ← removeHelper cmp destructor key r
      return { s with node := ← removeTail (node l s.node d k x) }
    else do
      let n ← removeFound l r d
      return ⟨← removeTail n, some x, if destructor then [k] else []⟩

/-- The loop of `avl_search`. -/
def searchFrom (cmp : κ → κ → Int) (key : κ) : Node κ δ → Option δ
  | null => none
  | node l r _ k x =>
    if cmp key k = 0 then some x
    else if cmp key k < 0 then searchFrom cmp key l
    else searchFrom cmp key r

end Avl

open Avl in
/-- `avl_tree_t`; `destructor` says whether the function pointer is set. -/
structure AvlTree (κ δ : Type) where
  root : Node κ δ
  comparator : κ → κ → Int
  destructor : Bool

open Avl

variable {κ δ : Type}

def avlInitialize (comparator : κ → κ → Int) (destructor : Bool) : AvlTree κ δ :=
  { root := .null, comparator, destructor }

def avlSearch (tree : AvlTree κ δ) (key : κ) : Option δ :=
  searchFrom tree.comparator key tree.root

def avlInsert (tree : AvlTree κ δ) (key : κ) (data : δ) : Option (AvlTree κ δ × Option δ) := do
  let (n, ret) ← insertHelper tree.comparator key data tree.root
  return ({ tree with root := n }, ret)

/-- `avl_remove`; beside the returned data, the keys the destructor was called on. -/
def avlRemove (tree : AvlTree κ δ) (key : κ) : Option (AvlTree κ δ × Option δ × List κ) := do
  let s ← removeHelper tree.comparator tree.destructor key tree.root
  return ({ tree with root := s.node }, s.ret, s.destroyed)

def avlTreeDepth (tree : AvlTree κ δ) : Int := tree.root.depth

/-- `avl_ptrcmp`: keys compared as unsigned addresses. -/
def avlPtrcmp {α : Type} [LinearOrder α] (key₁ key₂ : α) : Int :=
  if key₁ < key₂ then -1 else if key₁ > key₂ then 1 else 0

end Refk
