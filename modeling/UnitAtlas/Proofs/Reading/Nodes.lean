-- What the reading of a node is made of: the readings of the children. So the parts that a rule
-- asks a place for are the readings of the parts of the node.
import UnitAtlas.Proofs.Syntax.Definitions
import UnitAtlas.Reading.Tree

namespace UnitAtlas.Reading

open Syntax

theorem place_ofNode (n : Node) : (ofNode n).place = ⟨n.label, ofNodes n.children⟩ := by
  cases n
  rw [ofNode]
  rfl

theorem roles_ofNode (n : Node) : (ofNode n).roles = rolesOf (ofNode n).place := by
  cases n
  rw [ofNode]
  rfl

@[simp] theorem label_place_ofNode (n : Node) : (ofNode n).place.label = n.label := by
  rw [place_ofNode]

@[simp] theorem label_ofNode (n : Node) : (ofNode n).label = n.label := label_place_ofNode n

@[simp] theorem kind_ofNode (n : Node) : (ofNode n).kind = n.label.kind := by
  rw [kind, label_ofNode]

@[simp] theorem line_ofNode (n : Node) : (ofNode n).line = n.label.line := by
  rw [line, label_ofNode]

@[simp] theorem text_ofNode (n : Node) : (ofNode n).text = n.label.text := by
  rw [text, label_ofNode]

theorem ofNodes_eq (cs : List Node) : ofNodes cs = cs.map ofNode := by
  induction cs with
  | nil => rfl
  | cons c cs ih => rw [ofNodes, ih, List.map_cons]

/-- Whatever is looked for among the children is found. -/
theorem filter_children_ofNode (n : Node) {q : Reading → Bool} {q' : Node → Bool}
    (hq : ∀ c, q (ofNode c) = q' c) :
    (ofNode n).place.children.filter q = (n.children.filter q').map ofNode := by
  rw [place_ofNode, ofNodes_eq, List.filter_map]
  congr 2
  funext c
  exact hq c

theorem named_ofNode (n : Node) : (ofNode n).place.named = n.named.map ofNode := by
  apply filter_children_ofNode
  intro c
  rw [label_ofNode, kind_ofNode]
  rfl

/-- Named children are told apart by their kinds. -/
theorem filter_named_ofNode (n : Node) {q : Reading → Bool} (q' : Kind → Bool)
    (hq : ∀ r, q r = q' r.kind) :
    (ofNode n).place.named.filter q = (n.named.filter fun c => q' c.label.kind).map ofNode := by
  rw [named_ofNode, List.filter_map]
  congr 2
  funext c
  exact (hq (ofNode c)).trans (congrArg q' (kind_ofNode c))

theorem fields_ofNode (n : Node) (f : Field) :
    (ofNode n).place.fields f = (n.children.filter (·.label.field == some f)).map ofNode := by
  apply filter_children_ofNode
  intro c
  rw [label_ofNode]

theorem field?_ofNode (n : Node) (f : Field) :
    (ofNode n).place.field? f = (n.child? f).map ofNode := by
  have h := congrArg List.head? (fields_ofNode n f)
  rwa [Place.fields, List.head?_filter, List.head?_map, List.head?_filter] at h

end UnitAtlas.Reading
