namespace PluginBridge

-- The 16 flag bits of a node; bits without a meaning are kept.
structure NodeFlags where
  bits : UInt16
deriving DecidableEq, Inhabited, Repr

namespace NodeFlags

def none : NodeFlags := ⟨0⟩

def parens : NodeFlags := ⟨0x0001⟩

def parensInOperation : NodeFlags := ⟨0x0002⟩

def visible : NodeFlags := ⟨0x0004⟩

def invisible : NodeFlags := ⟨0x0008⟩

def visibilitySet : NodeFlags := ⟨0x0010⟩

def fileInfo : NodeFlags := ⟨0x0020⟩

def explicitIndex : NodeFlags := ⟨0x0040⟩

def union (a b : NodeFlags) : NodeFlags := ⟨a.bits ||| b.bits⟩

def inter (a b : NodeFlags) : NodeFlags := ⟨a.bits &&& b.bits⟩

def without (a b : NodeFlags) : NodeFlags := ⟨a.bits &&& ~~~b.bits⟩

def contains (a b : NodeFlags) : Bool := a.inter b == b

def intersects (a b : NodeFlags) : Bool := a.inter b != none

def own : NodeFlags :=
  (((parens.union parensInOperation).union visible).union invisible).union visibilitySet

def visibility (flags : NodeFlags) : Option Bool :=
  if flags.contains visibilitySet then some (flags.contains visible && !flags.contains invisible)
  else .none

def withVisibility (flags : NodeFlags) (shown : Bool) : NodeFlags :=
  (((flags.without visible).without invisible).union visibilitySet).union
    (if shown then visible else invisible)

end NodeFlags
end PluginBridge
