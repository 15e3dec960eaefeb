/-
# Trees that share their nodes

`vv/vv-tree.c`, with `TREE_PTHREAD`: treaps whose nodes count the references to them.  An operation
copies the nodes on its way and leaves the others to be shared, so that a tree that somebody holds
stays what it is.

A node is a cell of a store, and a pointer its number; `none` is `NULL`.  An operation gives `none`
when an assertion fails or when it touches a cell that is free.  The pointers that `tree_split`
takes for its results are a pair of results here.  `x` and `y` are compared by linear orders;
`TREE_COUNT`, `TREE_WEIGHT`, `TREE_INCREF` and `TREE_DECREF` are not defined.

The count of a node is an `int`, which `__sync_fetch_and_add` wraps around.
-/
import MtprotoProxy.CInt
import MtprotoProxy.Store

namespace MtprotoProxy

open CLib

/-! ## The code -/

structure TreeNode (κ π : Type) where
  left : Option ℕ
  right : Option ℕ
  x : κ
  y : π
  refcnt : ℤ

abbrev TreeHeap (κ π : Type) := Store (TreeNode κ π)

namespace TreeHeap

variable {κ π : Type}

/-- `tree_alloc`: the new node is `H.size`. -/
def treeAlloc (H : TreeHeap κ π) (x : κ) (y : π) : TreeHeap κ π := H.alloc ⟨none, none, x, y, 1⟩

/-- One reference more, if there is a node. -/
def increfPtr (H : TreeHeap κ π) : Option ℕ → Option (TreeHeap κ π)
  | none => some H
  | some p => do
    let T ← H.cell p
    return H.put p (some { T with refcnt := wrap32 (T.refcnt + 1) })

def setLeft (H : TreeHeap κ π) (p : ℕ) (v : Option ℕ) : Option (TreeHeap κ π) := do
  let T ← H.cell p
  return H.put p (some { T with left := v })

def setRight (H : TreeHeap κ π) (p : ℕ) (v : Option ℕ) : Option (TreeHeap κ π) := do
  let T ← H.cell p
  return H.put p (some { T with right := v })

/-- `tree_free`.  The number bounds the depth of the recursion. -/
def treeFreeRec : ℕ → TreeHeap κ π → Option ℕ → Option (TreeHeap κ π)
  | _, H, none => some H
  | 0, _, some _ => none
  | n + 1, H, some p => do
    let T ← H.cell p
    let refcnt := wrap32 (T.refcnt - 1)
    let H := H.put p (some { T with refcnt := refcnt })
    if T.refcnt > 1 then return H
    else do
      guard (refcnt = 0)
      let T ← H.cell p
      let H ← treeFreeRec n H T.left
      let T ← H.cell p
      let H ← treeFreeRec n H T.right
      return H.put p none

def treeFree (H : TreeHeap κ π) (T : Option ℕ) : Option (TreeHeap κ π) := treeFreeRec H.size H T

/-- `tree_clone`. -/
def treeClone (H : TreeHeap κ π) (T : ℕ) : Option (TreeHeap κ π × ℕ) := do
  let N ← H.cell T
  let R := H.size
  let H := treeAlloc H N.x N.y
  let H ← increfPtr H N.left
  let H ← setLeft H R N.left
  let H ← increfPtr H N.right
  let H ← setRight H R N.right
  let H ← treeFree H (some T)
  return (H, R)

section Ordered

variable [LinearOrder κ] [LinearOrder π]

/-- `tree_split`: the memory, `*L` and `*R` after it. -/
def treeSplitRec : ℕ → TreeHeap κ π → Option ℕ → κ →
    Option (TreeHeap κ π × Option ℕ × Option ℕ)
  | _, H, none, _ => some (H, none, none)
  | 0, _, some _, _ => none
  | n + 1, H, some T, x => do
    let (H, T) ← treeClone H T
    let N ← H.cell T
    if x < N.x then do
      let (H, L, l) ← treeSplitRec n H N.left x
      let H ← setLeft H T l
      return (H, L, some T)
    else do
      let (H, r, R) ← treeSplitRec n H N.right x
      let H ← setRight H T r
      return (H, some T, R)

/-- `tree_insert`. -/
def treeInsertRec : ℕ → TreeHeap κ π → Option ℕ → κ → π → Option (TreeHeap κ π × ℕ)
  | _, H, none, x, y => some (treeAlloc H x y, H.size)
  | 0, _, some _, _, _ => none
  | n + 1, H, some T, x, y => do
    let (H, T) ← treeClone H T
    let N ← H.cell T
    if y < N.y then do
      guard (x ≠ N.x)
      if x < N.x then do
        let (H, l) ← treeInsertRec n H N.left x y
        let H ← setLeft H T (some l)
        return (H, T)
      else do
        let (H, r) ← treeInsertRec n H N.right x y
        let H ← setRight H T (some r)
        return (H, T)
    else do
      let P := H.size
      let H := treeAlloc H x y
      let (H, L, R) ← treeSplitRec (n + 1) H (some T) x
      let H ← setLeft H P L
      let H ← setRight H P R
      return (H, P)

/-- `tree_merge`. -/
def treeMergeRec : ℕ → TreeHeap κ π → Option ℕ → Option ℕ → Option (TreeHeap κ π × Option ℕ)
  | _, H, none, R => some (H, R)
  | _, H, some L, none => some (H, some L)
  | 0, _, some _, some _ => none
  | n + 1, H, some L, some R => do
    let NL ← H.cell L
    let NR ← H.cell R
    if NR.y < NL.y then do
      let (H, L) ← treeClone H L
      let N ← H.cell L
      let (H, r) ← treeMergeRec n H N.right (some R)
      let H ← setRight H L r
      return (H, some L)
    else do
      let (H, R) ← treeClone H R
      let N ← H.cell R
      let (H, l) ← treeMergeRec n H (some L) N.left
      let H ← setLeft H R l
      return (H, some R)

/-- `tree_delete`. -/
def treeDeleteRec : ℕ → TreeHeap κ π → Option ℕ → κ → Option (TreeHeap κ π × Option ℕ)
  | _, _, none, _ => none
  | 0, _, some _, _ => none
  | n + 1, H, some T, x => do
    let (H, T) ← treeClone H T
    let N ← H.cell T
    if x = N.x then do
      let (H, M) ← treeMergeRec (2 * n) H N.left N.right
      let H ← setLeft H T none
      let H ← setRight H T none
      let H ← treeFree H (some T)
      return (H, M)
    else if x < N.x then do
      let (H, l) ← treeDeleteRec n H N.left x
      let H ← setLeft H T l
      return (H, some T)
    else do
      let (H, r) ← treeDeleteRec n H N.right x
      let H ← setRight H T r
      return (H, some T)

/-- `tree_lookup`. -/
def treeLookupRec : ℕ → TreeHeap κ π → Option ℕ → κ → Option (Option ℕ)
  | _, _, none, _ => some none
  | 0, _, some _, _ => none
  | n + 1, H, some T, x => do
    let N ← H.cell T
    if x = N.x then return some T
    else treeLookupRec n H (if x < N.x then N.left else N.right) x

/-- `tree_lookup_next`, with the node `B`. -/
def treeLookupNextRec : ℕ → TreeHeap κ π → Option ℕ → Option ℕ → κ → Option (Option ℕ)
  | _, _, none, B, _ => some B
  | 0, _, some _, _, _ => none
  | n + 1, H, some T, B, x => do
    let N ← H.cell T
    if x = N.x then return some T
    else if x < N.x then treeLookupNextRec n H N.left (some T) x
    else treeLookupNextRec n H N.right B x

def treeInsert (H : TreeHeap κ π) (T : Option ℕ) (x : κ) (y : π) :
    Option (TreeHeap κ π × Option ℕ) := do
  let (H, T) ← treeInsertRec H.size H T x y
  return (H, some T)

def treeDelete (H : TreeHeap κ π) (T : Option ℕ) (x : κ) : Option (TreeHeap κ π × Option ℕ) :=
  treeDeleteRec H.size H T x

def treeLookup (H : TreeHeap κ π) (T : Option ℕ) (x : κ) : Option (Option ℕ) :=
  treeLookupRec H.size H T x

def treeLookupNext (H : TreeHeap κ π) (T : Option ℕ) (x : κ) : Option (Option ℕ) :=
  treeLookupNextRec H.size H T none x

end Ordered

/-- `incref_tree_ptr`. -/
def increfTreePtr (H : TreeHeap κ π) : Option ℕ → Option (TreeHeap κ π)
  | none => some H
  | some p => do
    let T ← H.cell p
    guard (T.refcnt > 0)
    return H.put p (some { T with refcnt := wrap32 (T.refcnt + 1) })

end TreeHeap

/-- The memory, the current tree, and the snapshots that are held.  The thread has a hazard pointer,
and a list of what is freed later. -/
structure TreeState (κ π : Type) where
  heap : TreeHeap κ π
  root : Option ℕ
  held : List (Option ℕ)
  hazard : Option ℕ
  freeLater : List ℕ

namespace TreeState

variable {κ π : Type} (S : TreeState κ π)

def empty : TreeState κ π := ⟨.empty, none, [], none, []⟩

/-- `free_tree_ptr`. -/
def freeTreePtr : Option ℕ → Option (TreeState κ π)
  | none => some S
  | some T =>
    if S.hazard = some T then some { S with freeLater := T :: S.freeLater }
    else do
      let heap ← S.heap.treeFree (some T)
      return { S with heap := heap }

/-- `get_tree_ptr`: with one thread, the pointer is still the same when it is read again. -/
def getTreePtr : Option (TreeState κ π × Option ℕ) := do
  guard (S.hazard = none)
  let R := S.root
  let S := { S with hazard := R }
  let heap ← S.heap.increfTreePtr R
  return ({ S with heap := heap, hazard := none }, R)

/-- An operation on the current tree, which is held meanwhile. -/
def treeSub (f : TreeHeap κ π → Option ℕ → Option (TreeHeap κ π × Option ℕ)) :
    Option (TreeState κ π) := do
  let TT := S.root
  let heap ← S.heap.increfPtr TT
  let (heap, T) ← f heap S.root
  freeTreePtr { S with heap := heap, root := T } TT

variable [LinearOrder κ] [LinearOrder π]

/-- `tree_insert_sub`. -/
def treeInsertSub (x : κ) (y : π) : Option (TreeState κ π) :=
  S.treeSub (fun H T => H.treeInsert T x y)

/-- `tree_delete_sub`. -/
def treeDeleteSub (x : κ) : Option (TreeState κ π) := S.treeSub (fun H T => H.treeDelete T x)

end TreeState

/-- What a thread does with the tree. -/
inductive TreeOp (κ π : Type) where
  | insert (x : κ) (y : π)
  | delete (x : κ)
  /-- the current tree is held as one more snapshot -/
  | snapshot
  /-- the snapshot `i` is freed -/
  | free (i : ℕ)

/-- An operation. -/
def TreeState.step {κ π : Type} [LinearOrder κ] [LinearOrder π] (S : TreeState κ π) :
    TreeOp κ π → Option (TreeState κ π)
  | .insert x y => S.treeInsertSub x y
  | .delete x => S.treeDeleteSub x
  | .snapshot => do
    let (S, R) ← S.getTreePtr
    return { S with held := S.held ++ [R] }
  | .free i => do
    let R ← S.held[i]?
    freeTreePtr { S with held := S.held.eraseIdx i } R

end MtprotoProxy
