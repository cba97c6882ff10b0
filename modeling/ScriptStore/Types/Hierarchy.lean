import ScriptStore.Types.Error
import ScriptStore.Value

/-!
# The subtype relation

A kind is assignable to itself, to the kinds it was declared a subtype of, to what those are
assignable to, and to `object`. A declaration that would make two kinds assignable to each other is
refused, so the relation stays a partial order.
-/

namespace ScriptStore.Types

structure Hierarchy where
  /-- The declared pairs, subtype first. -/
  declared : List (Kind × Kind) := []
  deriving DecidableEq

namespace Hierarchy

/-- Direct supertypes of some of `ks` that are not among them. -/
def fresh (h : Hierarchy) (ks : List Kind) : List Kind :=
  (h.declared.filter fun d => ks.contains d.1 && !ks.contains d.2).map (·.2)

/-- Adds supertypes, level by level, until there are no new ones. -/
def climb (h : Hierarchy) : (fuel : Nat) → List Kind → List Kind
  | 0, ks => ks
  | fuel + 1, ks => if (h.fresh ks).isEmpty then ks else climb h fuel (ks ++ h.fresh ks)

/-- A kind and everything above it, except for `object`. Each level uses up a declaration. -/
def above (h : Hierarchy) (k : Kind) : List Kind := h.climb h.declared.length [k]

/-- Whether a value of kind `sub` may stand where `sup` is expected. -/
def assignable (h : Hierarchy) (sup sub : Kind) : Bool :=
  sup == .object || (h.above sub).contains sup

theorem subset_climb (h : Hierarchy) (fuel : Nat) (ks : List Kind) : ks ⊆ h.climb fuel ks := by
  induction fuel generalizing ks with
  | zero => exact List.Subset.refl ks
  | succ fuel ih =>
      rw [climb]
      split
      · exact List.Subset.refl ks
      · exact List.Subset.trans (List.subset_append_left ks (h.fresh ks)) (ih (ks ++ h.fresh ks))

theorem assignable_self (h : Hierarchy) (k : Kind) : h.assignable k k = true := by
  have hk : k ∈ h.above k := h.subset_climb h.declared.length [k] (List.mem_singleton_self k)
  simp [assignable, hk]

def isInstance (h : Hierarchy) (k : Kind) (v : Value) : Bool := h.assignable k v.kind

/-- Assignable one way or the other. -/
def related (h : Hierarchy) (a b : Kind) : Bool := h.assignable a b || h.assignable b a

theorem related_self (h : Hierarchy) (k : Kind) : h.related k k = true := by
  simp [related, h.assignable_self k]

theorem related_of_assignable {h : Hierarchy} {sup sub : Kind}
    (hsub : h.assignable sup sub = true) : h.related sup sub = true := by
  simp [related, hsub]

/-- Declares `sub` a direct subtype of `sup`. What holds already is not declared again. -/
def declare (h : Hierarchy) (sub sup : Kind) : Except Error Hierarchy :=
  if h.assignable sup sub then .ok h
  else if h.assignable sub sup then .error (.subtypeCycle sub sup)
  else .ok ⟨h.declared ++ [(sub, sup)]⟩

end Hierarchy

end ScriptStore.Types
