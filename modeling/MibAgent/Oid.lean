/-!
# Object identifiers

An object identifier (OID) is a sequence of arcs and names a node in a tree, the node below
its parent along its last arc. OIDs are ordered lexicographically, arc by arc, so an OID
comes before all OIDs of its own subtree, and those come before its next peer.
-/

namespace MibAgent

/-- A node of the object tree, given by the arcs that lead to it from the root. -/
structure Oid where
  arcs : List UInt32
deriving DecidableEq, Inhabited

namespace Oid

/-- OIDs compare lexicographically, arcs as numbers. -/
instance : Ord Oid where
  compare a b := compare a.arcs b.arcs

instance : Std.TransOrd Oid where
  eq_swap := by
    intro a b
    apply Std.OrientedCmp.eq_swap (a := a.arcs)
  isLE_trans := by
    intro a b c
    apply Std.TransCmp.isLE_trans (a := a.arcs)

instance : Std.LawfulEqOrd Oid where
  compare_self := by
    intro a
    apply Std.ReflCmp.compare_self (a := a.arcs)
  eq_of_compare := by
    intro a b h
    have harcs : a.arcs = b.arcs := Std.LawfulEqOrd.eq_of_compare (a := a.arcs) h
    cases a
    cases b
    congr 1

instance : LT Oid := ltOfOrd

instance : LE Oid := leOfOrd

/-- The root of the tree, which comes before every other OID. -/
def root : Oid := ⟨[]⟩

/-- The number of arcs. -/
def length (a : Oid) : Nat := a.arcs.length

/-- Whether `a` is the root. -/
def isRoot (a : Oid) : Bool := a.arcs.isEmpty

/-- Whether `a` lies in the subtree of `top`, which contains `top`. -/
def isBelow (a top : Oid) : Bool := top.arcs.isPrefixOf a.arcs

/-- The node below `a` along `arc`. -/
def child (a : Oid) (arc : UInt32) : Oid := ⟨a.arcs ++ [arc]⟩

/-- The node reached from `a` along the arcs of `b`. -/
def join (a b : Oid) : Oid := ⟨a.arcs ++ b.arcs⟩

/-- The node directly above `a`; the root has none. -/
def parent? (a : Oid) : Option Oid :=
  if a.arcs.isEmpty then none else some ⟨a.arcs.dropLast⟩

/-- The greatest arc. -/
def maxArc : UInt32 := 4294967295

/-- The arcs with the last arc that is not the greatest increased, and what follows it
dropped. -/
def nextPeerArcs : List UInt32 → Option (List UInt32)
  | [] => none
  | arc :: rest =>
    match nextPeerArcs rest with
    | some peer => some (arc :: peer)
    | none => if arc < maxArc then some [arc + 1] else none

/-- The first OID after the subtree of `a`. There is none when every arc of `a` is the
greatest. -/
def nextPeer? (a : Oid) : Option Oid :=
  (nextPeerArcs a.arcs).map Oid.mk

/-- The OID in dotted notation. -/
def toText (a : Oid) : String :=
  ".".intercalate (a.arcs.map fun arc => arc.toNat.repr)

end Oid

end MibAgent
