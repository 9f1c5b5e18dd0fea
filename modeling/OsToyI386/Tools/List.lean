import OsToyI386.Lib.Apart
import OsToyI386.Lib.Linked

/-!
# The intrusive list

`list_t` and `list_node_t` with the operations of `tools/list.c`, on a heap that maps
node pointers to nodes and list pointers to list headers. `none` is the null pointer.
Pointers are of any two types, so the same code serves lists of every owner.
-/

namespace OsToyI386
set_option linter.unusedSectionVars false
open Lib

/-- `list_node_t`. -/
abbrev ListNode := Links

/-- `list_t`. -/
structure ListHead (ν : Type*) where
  frist : Option ν
  last : Option ν
  count : Int
  deriving DecidableEq

/-- The memory of all nodes and of all list headers. -/
@[ext]
structure Heap (ν κ : Type*) where
  node : ν → ListNode ν
  list : κ → ListHead ν

namespace Heap

variable {ν κ : Type*} [DecidableEq ν] [DecidableEq κ]

def setNode (h : Heap ν κ) (n : ν) (x : ListNode ν) : Heap ν κ :=
  { h with node := Function.update h.node n x }

def setHead (h : Heap ν κ) (l : κ) (x : ListHead ν) : Heap ν κ :=
  { h with list := Function.update h.list l x }

/-- `n->pre = p`; a write through the null pointer is left out, see `Represents`. -/
def setPre (h : Heap ν κ) (n : Option ν) (p : Option ν) : Heap ν κ :=
  match n with
  | none => h
  | some n => h.setNode n { h.node n with pre := p }

/-- `n->next = p`. -/
def setNext (h : Heap ν κ) (n : Option ν) (p : Option ν) : Heap ν κ :=
  match n with
  | none => h
  | some n => h.setNode n { h.node n with next := p }

def setFrist (h : Heap ν κ) (l : κ) (p : Option ν) : Heap ν κ :=
  h.setHead l { h.list l with frist := p }

def setLast (h : Heap ν κ) (l : κ) (p : Option ν) : Heap ν κ :=
  h.setHead l { h.list l with last := p }

def setCount (h : Heap ν κ) (l : κ) (c : Int) : Heap ν κ :=
  h.setHead l { h.list l with count := c }

@[simp] lemma setPre_list (h : Heap ν κ) (n p : Option ν) : (h.setPre n p).list = h.list := by
  cases n <;> rfl

@[simp] lemma setPre_node (h : Heap ν κ) (n p : Option ν) (m : ν) :
    (h.setPre n p).node m = if n = some m then ⟨p, (h.node m).next⟩ else h.node m := by
  cases n with
  | none => simp [setPre]
  | some n =>
    by_cases hm : m = n
    · simp [setPre, setNode, hm]
    · simp [setPre, setNode, hm, Ne.symm hm]

@[simp] lemma setNext_list (h : Heap ν κ) (n p : Option ν) : (h.setNext n p).list = h.list := by
  cases n <;> rfl

@[simp] lemma setNext_node (h : Heap ν κ) (n p : Option ν) (m : ν) :
    (h.setNext n p).node m = if n = some m then ⟨(h.node m).pre, p⟩ else h.node m := by
  cases n with
  | none => simp [setNext]
  | some n =>
    by_cases hm : m = n
    · simp [setNext, setNode, hm]
    · simp [setNext, setNode, hm, Ne.symm hm]

@[simp] lemma setFrist_node (h : Heap ν κ) (l : κ) (p : Option ν) :
    (h.setFrist l p).node = h.node := rfl

@[simp] lemma setFrist_list (h : Heap ν κ) (l k : κ) (p : Option ν) :
    (h.setFrist l p).list k = if k = l then { h.list l with frist := p } else h.list k := by
  by_cases hk : k = l <;> simp [setFrist, setHead, hk]

@[simp] lemma setLast_node (h : Heap ν κ) (l : κ) (p : Option ν) :
    (h.setLast l p).node = h.node := rfl

@[simp] lemma setLast_list (h : Heap ν κ) (l k : κ) (p : Option ν) :
    (h.setLast l p).list k = if k = l then { h.list l with last := p } else h.list k := by
  by_cases hk : k = l <;> simp [setLast, setHead, hk]

@[simp] lemma setCount_node (h : Heap ν κ) (l : κ) (c : Int) :
    (h.setCount l c).node = h.node := rfl

@[simp] lemma setCount_list (h : Heap ν κ) (l k : κ) (c : Int) :
    (h.setCount l c).list k = if k = l then { h.list l with count := c } else h.list k := by
  by_cases hk : k = l <;> simp [setCount, setHead, hk]

/-- The nodes met by walking `next` from the first one, as many as `count` says. -/
def toList (h : Heap ν κ) (l : κ) : List ν :=
  follow (fun n => (h.node n).next) (h.list l).count.toNat (h.list l).frist

end Heap

section Operations

variable {ν κ : Type*} [DecidableEq ν] [DecidableEq κ]

def listNodeInit (h : Heap ν κ) (n : ν) : Heap ν κ :=
  (h.setPre (some n) none).setNext (some n) none

def listInit (h : Heap ν κ) (l : κ) : Heap ν κ :=
  ((h.setFrist l none).setLast l none).setCount l 0

def listCount (h : Heap ν κ) (l : κ) : Int := (h.list l).count

def listFirst (h : Heap ν κ) (l : κ) : Option ν := (h.list l).frist

def listInsertFirst (h : Heap ν κ) (l : κ) (n : ν) : Heap ν κ :=
  let h := h.setNext (some n) (h.list l).frist
  let h := h.setPre (some n) none
  let h :=
    if (h.list l).count = 0 then (h.setFrist l (some n)).setLast l (some n)
    else (h.setPre (h.list l).frist (some n)).setFrist l (some n)
  h.setCount l ((h.list l).count + 1)

def listInsertLast (h : Heap ν κ) (l : κ) (n : ν) : Heap ν κ :=
  let h := h.setPre (some n) (h.list l).last
  let h := h.setNext (some n) none
  let h :=
    if (h.list l).count = 0 then (h.setFrist l (some n)).setLast l (some n)
    else (h.setNext (h.list l).last (some n)).setLast l (some n)
  h.setCount l ((h.list l).count + 1)

def listPopFirst (h : Heap ν κ) (l : κ) : Heap ν κ × Option ν :=
  if (h.list l).count = 0 then (h, none)
  else
    match (h.list l).frist with
    | none => (h, none)
    | some removeNode =>
      let h := h.setFrist l (h.node removeNode).next
      let h :=
        if (h.list l).frist = none then h.setLast l none
        else h.setPre (h.node removeNode).next none
      let h := (h.setNext (some removeNode) none).setPre (some removeNode) none
      (h.setCount l ((h.list l).count - 1), some removeNode)

def listPopLast (h : Heap ν κ) (l : κ) : Heap ν κ × Option ν :=
  if (h.list l).count = 0 then (h, none)
  else
    match (h.list l).last with
    | none => (h, none)
    | some removeNode =>
      let h := h.setLast l (h.node removeNode).pre
      let h :=
        if (h.list l).last = none then h.setFrist l none
        else h.setNext (h.node removeNode).pre none
      let h := (h.setNext (some removeNode) none).setPre (some removeNode) none
      (h.setCount l ((h.list l).count - 1), some removeNode)

/-- Nothing checks that the node is in the list. -/
def listPop (h : Heap ν κ) (l : κ) (n : ν) : Heap ν κ × Option ν :=
  let h := if (h.list l).frist = some n then h.setFrist l (h.node n).next else h
  let h := if (h.list l).last = some n then h.setLast l (h.node n).pre else h
  let h := h.setNext (h.node n).pre (h.node n).next
  let h := h.setPre (h.node n).next (h.node n).pre
  let h := (h.setNext (some n) none).setPre (some n) none
  (h.setCount l ((h.list l).count - 1), some n)

end Operations

end OsToyI386
