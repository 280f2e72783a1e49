-- Drafts and the lambdas that they are made for. What a draft makes is counted part by part, so
-- each rule is looked at by itself: the parts that it asks for are the ones that it counts.
import UnitAtlas.Proofs.Draft.Lambdas
import UnitAtlas.Proofs.Reading.Nodes
import UnitAtlas.Proofs.Syntax.Lambdas

namespace UnitAtlas.Reading

open Syntax Draft

/-- The shape and the code of a lambda. -/
def lambdaPart (n : Node) : UnitShape × Draft :=
  ({ name := lambdaName
     firstLine := n.label.line
     scope := .function
     parameters := (Declaration.ofList ((ofNode n).place.field? .parameters)).names },
   optional ((ofNode n).place.field? .body) fun body => body.roles.value ++ .plain .returnValue)

/-- The draft makes each of these lambdas once, and no other, if it can be assembled. -/
def Yields (d : Draft) (ns : Multiset Node) : Prop := d.Whole → d.lambdas = ns.map lambdaPart

namespace Yields

variable {first second body d : Draft} {ns ms : Multiset Node}

theorem of_none (h : d.lambdas = 0) : Yields d 0 := fun _ => h

theorem append (hfirst : Yields first ns) (hsecond : Yields second ms) :
    Yields (first ++ second) (ns + ms) := by
  rintro ⟨hwhole, hwhole'⟩
  show first.lambdas + second.lambdas = _
  rw [hfirst hwhole, hsecond hwhole', Multiset.map_add]

/-- Code without lambdas may follow. -/
theorem append_none (hfirst : Yields first ns) (hsecond : second.lambdas = 0) :
    Yields (first ++ second) ns := by
  have hboth := hfirst.append (of_none hsecond)
  rwa [add_zero] at hboth

theorem none_append (hfirst : first.lambdas = 0) (hsecond : Yields second ns) :
    Yields (first ++ second) ns := by
  have hboth := (of_none hfirst).append hsecond
  rwa [zero_add] at hboth

theorem block (h : Yields body ns) : Yields (.block body) ns := h

theorem loop (h : Yields body ns) : Yields (.loop body) ns := h

/-- A unit that is no lambda makes what its code makes. -/
theorem unit {shape : UnitShape} (hname : shape.name ≠ lambdaName) (h : Yields body ns) :
    Yields (.unit shape body) ns := by
  intro hwhole
  rw [lambdas_unit, if_neg hname, zero_add, h hwhole]

theorem all {drafts : List Draft} {parts : List (Multiset Node)}
    (h : List.Forall₂ Yields drafts parts) : Yields (all drafts) parts.sum := by
  induction h with
  | nil => exact of_none rfl
  | cons hd _ ih =>
    rw [List.sum_cons]
    exact hd.append ih

/-- The code of some nodes, one after the other. -/
theorem all_nodes {cs : List Node} {use : Reading → Draft}
    (h : ∀ c ∈ cs, Yields (use (ofNode c)) c.held) :
    Yields (Draft.all ((cs.map ofNode).map use)) (cs.map Node.held).sum := by
  apply all
  rw [List.map_map, List.forall₂_map_left_iff, List.forall₂_map_right_iff, List.forall₂_same]
  exact h

/-- A part that must be there. -/
theorem need_node {part : Option Node} {e : DraftError} {use : Reading → Draft}
    (h : ∀ c, part = some c → Yields (use (ofNode c)) ns) :
    Yields (need (part.map ofNode) e use) ns := by
  cases part with
  | none => exact fun hwhole => hwhole.elim
  | some c => exact h c rfl

/-- A part that may be missing. -/
theorem optional_node {part : Option Node} {use : Reading → Draft}
    (h : ∀ c, part = some c → Yields (use (ofNode c)) c.held) :
    Yields (optional (part.map ofNode) use) ((part.map Node.held).getD 0) := by
  cases part with
  | none => exact of_none rfl
  | some c => exact h c rfl

end Yields

/-! ## Nodes whose code makes their lambdas -/

/-- In each of the places that a node can stand in, its code makes the lambdas below it. -/
structure Counts (n : Node) : Prop where
  value : n.isExpression = true → Yields (ofNode n).roles.value n.held
  target : n.assignable = true → Yields (ofNode n).roles.target n.held
  chain : n.label.kind = .assignment → ∀ chain, (ofNode n).roles.assignment = .ok chain →
    match chain.value with
    | some value => n.givesValue = true ∧ Yields (value ++ Draft.all chain.targets) n.held
    | none => n.givesValue = false ∧ n.held = 0
  statement : n.label.kind.isStatement = true → n.isFree = true →
    Yields (ofNode n).roles.statement n.held
  suite : n.label.kind = .finallyClause ∨ n.label.kind.isOther = true ∧ n.isFree = true →
    Yields (ofNode n).roles.suite n.held

/-- The same for a node and all nodes below it. -/
inductive AllCount : Node → Prop
  | mk {n : Node} (hn : Counts n) (hfits : n.fits = true) (hplaces : n.places = true)
      (hchildren : ∀ c ∈ n.children, AllCount c) : AllCount n

namespace AllCount

variable {n : Node}

theorem counts (h : AllCount n) : Counts n := by
  cases h with
  | mk hn => exact hn

theorem fits (h : AllCount n) : n.fits = true := by
  cases h with
  | mk _ hfits => exact hfits

theorem placed (h : AllCount n) : n.Placed n.label.kind := by
  cases h with
  | mk _ _ hplaces => exact Node.placed_of_places hplaces

theorem children (h : AllCount n) : ∀ c ∈ n.children, AllCount c := by
  cases h with
  | mk _ _ _ hchildren => exact hchildren

end AllCount

end UnitAtlas.Reading
