/-!
# Node identities

Every node of a tree has an identity, handed out in increasing order while the
tree is built. Jumps name their loop by it, and diagnostics the node they are
about.
-/

namespace CactLang

/-- The identity of a tree node. -/
structure NodeId where
  /-- How many identities were handed out before this one. -/
  index : Nat
  deriving DecidableEq, Repr, Inhabited

/-- The written form of an identity. -/
def NodeId.text (id : NodeId) : String :=
  s!"#{id.index}"

end CactLang
