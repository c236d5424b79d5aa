import OperatorMarkup.Tree.Basic

/-!
# Walks over a tree

The nodes of a tree are listed in preorder with their depths, and a path of
child numbers leads from the root to a node.
-/

namespace OperatorMarkup

namespace Node

/-- The nodes of some trees in preorder behind those already listed, latest
first, each tree with the depth of its root. -/
def preorderOnto (listed : List (Nat × Node)) : List (Nat × Node) → List (Nat × Node)
  | [] => listed.reverse
  | (depth, node) :: rest =>
      preorderOnto ((depth, node) :: listed)
        (node.children.map (fun child => (depth + 1, child)) ++ rest)
termination_by pending => sizeAll (pending.map Prod.snd)
decreasing_by
  simp only [List.map_append, List.map_map, Function.comp_def, List.map_id', List.map_cons,
    sizeAll_cons, sizeAll_append, size_eq node]
  omega

/-- The nodes of a tree in preorder, each with its depth. -/
def preorder (node : Node) : List (Nat × Node) :=
  preorderOnto [] [(0, node)]

/-- The child of a given number. -/
def child? (node : Node) (index : Nat) : Option Node :=
  node.children[index]?

/-- The nodes on a path from a node on, itself left out, for as long as there
are any. -/
def descend (node : Option Node) : List Nat → List (Option Node)
  | [] => []
  | index :: path =>
      let next := node.bind (·.child? index)
      next :: descend next path

end Node

end OperatorMarkup
