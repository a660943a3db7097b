import Answr.KeyOrder
import Answr.Completion
set_option autoImplicit false

/-! The nodes that the database library keeps its data in: leaves, and sorted dictionaries of
children. A change makes the nodes along its path anew. -/

namespace Answr
open Std Entries

/-- `FLeafNode` and `FChildrenNode`, with the value of their priority if it is not empty -/
inductive SnapshotNode where
  | leafNode (value : Leaf) (priority : Option Leaf)
  | childrenNode (priority : Option Leaf) (children : SortedDictionary NodeKey SnapshotNode)

abbrev Children := SortedDictionary NodeKey SnapshotNode

def priorityKey : NodeKey := .name [46,112,114,105,111,114,105,116,121]

namespace SnapshotNode

def emptyNode : SnapshotNode := .childrenNode none (.array [])

def isEmpty : SnapshotNode → Bool
  | .leafNode _ _ => false
  | .childrenNode _ children => children.count == 0

def ofPriority : Option Leaf → SnapshotNode
  | none => emptyNode
  | some value => .leafNode value none

/-- The priority that a node makes, a leaf or the empty node. -/
def asPriority : SnapshotNode → Option Leaf
  | .leafNode value _ => some value
  | .childrenNode _ _ => none

def updatePriority (aPriority : SnapshotNode) : SnapshotNode → SnapshotNode
  | .leafNode value _ => .leafNode value aPriority.asPriority
  | .childrenNode priority children =>
    if (SnapshotNode.childrenNode priority children).isEmpty then emptyNode
    else .childrenNode aPriority.asPriority children

def getImmediateChild (childName : NodeKey) : SnapshotNode → SnapshotNode
  | .leafNode _ priority => if childName = priorityKey then ofPriority priority else emptyNode
  | .childrenNode priority children =>
    if childName = priorityKey then ofPriority priority
    else (children.get compareKey childName).getD emptyNode

def getChild : List NodeKey → SnapshotNode → SnapshotNode
  | [], n => n
  | front :: _, .leafNode _ priority =>
    if front = priorityKey then ofPriority priority else emptyNode
  | front :: path, .childrenNode priority children =>
    getChild path ((SnapshotNode.childrenNode priority children).getImmediateChild front)

/-- `updateImmediateChild` of a node with children. -/
def updateChildren (childName : NodeKey) (newChildNode : SnapshotNode)
    (priority : Option Leaf) (children : Children) : Except String SnapshotNode := do
  if childName = priorityKey then
    return updatePriority newChildNode (.childrenNode priority children)
  else
    let newChildren ←
      if newChildNode.isEmpty then pure (children.removeKey compareKey childName)
      else children.insertKey compareKey childName newChildNode
    return if newChildren.count = 0 then emptyNode else .childrenNode priority newChildren

def updateImmediateChild (childName : NodeKey) (newChildNode : SnapshotNode) :
    SnapshotNode → Except String SnapshotNode
  | .childrenNode priority children => updateChildren childName newChildNode priority children
  | .leafNode value priority => do
    if childName = priorityKey then
      return updatePriority newChildNode (.leafNode value priority)
    else if newChildNode.isEmpty then return .leafNode value priority
    else
      let childrenNode ← updateChildren childName newChildNode none (.array [])
      return updatePriority (ofPriority priority) childrenNode

def updateChild : List NodeKey → SnapshotNode → SnapshotNode → Except String SnapshotNode
  | [], newChildNode, _ => .ok newChildNode
  | front :: path, newChildNode, .leafNode value priority =>
    if newChildNode.isEmpty ∧ front ≠ priorityKey then .ok (.leafNode value priority)
    else do
      let newImmediateChild ← updateChild path newChildNode emptyNode
      updateImmediateChild front newImmediateChild (.leafNode value priority)
  | front :: path, newChildNode, .childrenNode priority children => do
    let newImmediateChild ← updateChild path newChildNode
      ((SnapshotNode.childrenNode priority children).getImmediateChild front)
    updateImmediateChild front newImmediateChild (.childrenNode priority children)

/-- The names that `enumerateChildrenUsingBlock` passes to its block, in their order. -/
def childNames : SnapshotNode → List NodeKey
  | .leafNode _ _ => []
  | .childrenNode _ children =>
    (children.enumerateKeysAndObjects false (fun key _ names => (names ++ [key],false)) []).1

end SnapshotNode

end Answr
