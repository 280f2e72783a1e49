-- What the rules for values and targets can write. They put code together from a few parts only,
-- and the one unit that they make is that of a lambda; so what holds of these parts and is kept by
-- putting them together holds of the value and the target of every node.
import UnitAtlas.Proofs.Draft.Parts
import UnitAtlas.Proofs.Draft.Shape
import UnitAtlas.Proofs.Syntax.Layout
import UnitAtlas.Reading.Tree

namespace UnitAtlas

open Syntax Draft

/-- What all values and targets share: it holds of their parts, and is kept by sequences, blocks
and the units of lambdas. Of the floats, it need only hold of those that `f` holds of. -/
structure Draft.Closed (f : UInt64 → Bool) (V : Draft → Prop) : Prop where
  skip : V .skip
  fail : ∀ e, V (.fail e)
  plain : ∀ op, op ≠ .buildClass → V (.plain op)
  counted : ∀ op n, V (.counted op n)
  literal : ∀ l, l.floatIs f = true → V (.literal l)
  access : ∀ what name, V (.access what name)
  named : ∀ op name, V (.named op name)
  jump : ∀ op depth, V (.jump op depth)
  seq : ∀ first second, V first → V second → V (first ++ second)
  block : ∀ body, V body → V (.block body)
  lambda : ∀ shape body, shape.name = Reading.lambdaName → shape.consts = [] → V body →
    V (.unit shape (body ++ .plain .returnValue))

/-! ## Floats -/

theorem Reading.floatIs_integerLiteral (f : UInt64 → Bool) (text : String) :
    (integerLiteral text).floatIs f = true := by
  unfold integerLiteral
  split <;> rfl

/-- Every float written in a tree is one that `f` holds of. -/
def Syntax.Node.floatsAre (f : UInt64 → Bool) (root : Node) : Bool :=
  root.everywhere fun n =>
    n.label.kind != .float || (Reading.floatLiteral n.label.text).floatIs f

/-- There is nothing to ask for where all floats will do. -/
theorem Syntax.Node.floatsAre_true (n : Node) : n.floatsAre (fun _ => true) = true := by
  induction n using Node.induction with
  | node n ih =>
    refine everywhere_iff.mpr ⟨?_, ih⟩
    rcases Reading.floatLiteral n.label.text <;> simp

/-! ## Readings -/

/-- It holds of the values and targets of a reading, and of all readings below it. -/
inductive Reading.Gives (V : Draft → Prop) : Reading → Prop
  | mk {p : Place Reading} {roles : Roles} (hchildren : ∀ r ∈ p.children, Reading.Gives V r)
      (hvalue : V roles.value) (htarget : V roles.target)
      (hchain : ∀ chain, roles.assignment = .ok chain →
        (∀ d ∈ chain.targets, V d) ∧ ∀ d, chain.value = some d → V d) :
      Reading.Gives V (.mk p roles)

namespace Reading

variable {f : UInt64 → Bool} {V : Draft → Prop}

/-- It holds of all readings below a place. -/
def GivesBelow (V : Draft → Prop) (p : Place Reading) : Prop := ∀ r ∈ p.children, Gives V r

namespace Gives

variable {r : Reading}

theorem place (h : Gives V r) : GivesBelow V r.place := by
  cases h with
  | mk hchildren => exact hchildren

theorem value (h : Gives V r) : V r.roles.value := by
  cases h with
  | mk _ hvalue => exact hvalue

theorem target (h : Gives V r) : V r.roles.target := by
  cases h with
  | mk _ _ htarget => exact htarget

theorem chain (h : Gives V r) {chain : AssignmentChain} (hr : r.roles.assignment = .ok chain) :
    (∀ d ∈ chain.targets, V d) ∧ ∀ d, chain.value = some d → V d := by
  cases h with
  | mk _ _ _ hchain => exact hchain chain hr

end Gives

namespace GivesBelow

variable {p : Place Reading}

theorem named (h : GivesBelow V p) : ∀ r ∈ p.named, Gives V r :=
  fun r hr => h r (List.mem_filter.mp hr).1

theorem field? (h : GivesBelow V p) {f : Field} : ∀ r, p.field? f = some r → Gives V r :=
  fun r hr => h r (List.mem_of_find?_eq_some hr)

theorem head? (h : GivesBelow V p) : ∀ r, p.named.head? = some r → Gives V r :=
  fun r hr => h.named r (List.mem_of_head? hr)

end GivesBelow

section Closed

variable (hV : Draft.Closed f V) {p : Place Reading}

include hV

theorem closed_all {drafts : List Draft} (h : ∀ d ∈ drafts, V d) : V (all drafts) := by
  induction drafts with
  | nil => exact hV.skip
  | cons d ds ih =>
    obtain ⟨hd, hds⟩ := List.forall_mem_cons.mp h
    exact hV.seq d (all ds) hd (ih hds)

theorem closed_all_map {α : Type} {xs : List α} {use : α → Draft} (h : ∀ x ∈ xs, V (use x)) :
    V (all (xs.map use)) := by
  apply closed_all hV
  intro d hd
  obtain ⟨x, hx, rfl⟩ := List.mem_map.mp hd
  exact h x hx

theorem closed_need {part : Option Reading} (hpart : ∀ r, part = some r → Gives V r)
    {e : DraftError} {use : Reading → Draft} (huse : ∀ r, Gives V r → V (use r)) :
    V (need part e use) := by
  cases part with
  | none => exact hV.fail e
  | some r => exact huse r (hpart r rfl)

theorem closed_optional {part : Option Reading} (hpart : ∀ r, part = some r → Gives V r)
    {use : Reading → Draft} (huse : ∀ r, Gives V r → V (use r)) : V (optional part use) := by
  cases part with
  | none => exact hV.skip
  | some r => exact huse r (hpart r rfl)

theorem closed_withText (e : Field) {use : String → Draft} (huse : ∀ text, V (use text)) :
    V (p.withText e use) := by
  unfold Place.withText
  cases p.field? e with
  | none => exact hV.fail _
  | some r => exact huse r.text

theorem closed_operands (hp : GivesBelow V p) : V p.operands :=
  closed_all_map hV fun r hr => (hp.named r hr).value

theorem closed_firstValue (hp : GivesBelow V p) : V (firstValue p) := by
  unfold firstValue
  split
  · rename_i r hr
    exact (hp.head? r hr).value
  · exact hV.literal .none rfl

/-! ## Parameters -/

omit hV in
/-- A default value is the value of a part of the entry. -/
theorem closed_of_parameter {r : Reading} (hr : Gives V r) {name : Option String} {d : Draft}
    (h : parameter r = .single name (some d)) : V d := by
  have hdefault : defaultParameter r = .single name (some d) → V d := by
    intro h
    rw [defaultParameter, Parameter.single.injEq, Option.map_eq_some_iff] at h
    obtain ⟨-, value, hvalue, rfl⟩ := h
    exact (hr.place.field? value hvalue).value
  unfold parameter at h
  split at h
  all_goals try exact hdefault h
  all_goals try cases h
  -- What is left is a parameter with a type, which has no default value.
  split at h
  · unfold typedParameter at h
    split at h <;> cases h
  · cases h

omit hV in
theorem closed_defaults_add {declared : Declaration} {r : Reading} (hr : Gives V r)
    (h : ∀ d ∈ declared.defaults, V d) : ∀ d ∈ (declared.add (parameter r)).defaults, V d := by
  rcases hparameter : parameter r with ⟨name, default⟩ | name | name | _ | _
  · intro d hd
    rcases List.mem_append.mp hd with hd | hd
    · exact h d hd
    · obtain rfl : default = some d := by simpa [eq_comm] using hd
      exact closed_of_parameter hr hparameter
  all_goals exact h

theorem closed_defaultValues {list : Option Reading} (h : ∀ r, list = some r → Gives V r) :
    V (Declaration.ofList list).defaultValues := by
  apply closed_all hV
  cases list with
  | none => exact nofun
  | some r =>
    have hfold : ∀ (rs : List Reading) (declared : Declaration), (∀ r ∈ rs, Gives V r) →
        (∀ d ∈ declared.defaults, V d) →
        ∀ d ∈ ((rs.map parameter).foldl Declaration.add declared).defaults, V d := by
      intro rs
      induction rs with
      | nil => exact fun _ _ hdeclared => hdeclared
      | cons r rs ih =>
        intro declared hrs hdeclared
        obtain ⟨hr, hrs⟩ := List.forall_mem_cons.mp hrs
        exact ih _ hrs (closed_defaults_add hr hdeclared)
    exact hfold _ {} (h r rfl).place.named nofun

/-! ## Expressions -/

theorem closed_attributeOf (hp : GivesBelow V p) (op : Opcode.Named) : V (attributeOf op p) := by
  apply closed_need hV hp.field?
  intro object hobject
  apply hV.seq _ _ hobject.value
  exact closed_withText hV _ fun name => hV.named op name

theorem closed_collection (hp : GivesBelow V p) (op : Opcode.Counted) : V (collection op p) :=
  hV.seq _ _ (closed_operands hV hp) (hV.counted op _)

theorem closed_booleanOperator (hp : GivesBelow V p) : V (booleanOperator p) := by
  apply closed_need hV hp.field?
  intro left hleft
  apply closed_need hV hp.field?
  intro right hright
  apply hV.seq _ _ hleft.value
  exact hV.block _ (hV.seq _ _ (hV.jump _ _) hright.value)

theorem closed_comparison (hp : GivesBelow V p) : V (comparison p) := by
  have hnamed := hp.named
  unfold comparison
  split
  · exact hV.skip
  · rename_i first rest hparts
    rw [hparts, List.forall_mem_cons] at hnamed
    apply hV.seq _ _ hnamed.1.value
    apply closed_all_map hV
    intro r hr
    exact hV.seq _ _ (hnamed.2 r hr).value (hV.counted _ _)

theorem closed_dictionaryEntry {entry : Reading} (h : Gives V entry) :
    V (dictionaryEntry entry) := by
  unfold dictionaryEntry
  split
  · apply closed_need hV h.place.field?
    intro key hkey
    apply closed_need hV h.place.field?
    intro value hvalue
    exact hV.seq _ _ (hV.seq _ _ hvalue.value hkey.value) (hV.plain _ (by decide))
  · exact h.value

theorem closed_dictionary (hp : GivesBelow V p) : V (dictionary p) := by
  apply hV.seq _ _ (hV.counted _ _)
  exact closed_all_map hV fun r hr => closed_dictionaryEntry hV (hp.named r hr)

theorem closed_conditional (hp : GivesBelow V p) : V (conditional p) := by
  have hnamed := hp.named
  unfold conditional
  split
  · rename_i body condition alternative hparts
    simp only [hparts, List.forall_mem_cons] at hnamed
    obtain ⟨hbody, hcondition, halternative, -⟩ := hnamed
    apply hV.seq _ _ hcondition.value
    apply hV.block
    refine hV.seq _ _ (hV.block _ ?_) halternative.value
    exact hV.seq _ _ (hV.seq _ _ (hV.jump _ _) hbody.value) (hV.jump _ _)
  · exact closed_operands hV hp

theorem closed_argument {r : Reading} (h : Gives V r) : V (argument r) := by
  unfold argument
  split
  · refine hV.seq _ _ ?_ h.value
    exact closed_withText hV _ fun name => hV.literal (.str name) rfl
  · exact h.value

theorem closed_callWith {arguments : Option Reading} (h : ∀ r, arguments = some r → Gives V r) :
    V (callWith arguments) := by
  cases arguments with
  | none => exact hV.counted _ _
  | some r =>
    have hr := h r rfl
    rw [callWith]
    split
    · exact hV.seq _ _ hr.value (hV.counted _ _)
    · refine hV.seq _ _ ?_ (hV.counted _ _)
      exact closed_all_map hV fun r' hr' => closed_argument hV (hr.place.named r' hr')

theorem closed_call (hp : GivesBelow V p) : V (call p) := by
  apply closed_need hV hp.field?
  intro function hfunction
  exact hV.seq _ _ hfunction.value (closed_callWith hV hp.field?)

theorem closed_lambda (hp : GivesBelow V p) : V (lambda p) := by
  apply hV.seq _ _ (closed_defaultValues hV hp.field?)
  apply closed_need hV hp.field?
  intro body hbody
  exact hV.seq _ _ (hV.lambda _ _ rfl rfl hbody.value) (hV.counted _ _)

theorem closed_value (hp : GivesBelow V p)
    (hfloat : p.kind = .float → (floatLiteral p.text).floatIs f = true) : V (value p) := by
  have hoperands := closed_operands hV hp
  have hthen : ∀ op, op ≠ .buildClass → V (p.operands ++ .plain op) := fun op hop =>
    hV.seq _ _ hoperands (hV.plain op hop)
  have hbinary : ∀ sign, V (p.operands ++ .plain (binaryOperator sign)) := by
    intro sign
    apply hthen
    unfold binaryOperator
    split <;> decide
  have hunary : ∀ sign, V (p.operands ++ .plain (unaryOperator sign)) := by
    intro sign
    apply hthen
    unfold unaryOperator
    split <;> decide
  unfold value
  split
  all_goals first
    | exact hV.literal _ rfl
    | exact hV.literal _ (floatIs_integerLiteral f _)
    | exact hV.literal _ (hfloat ‹_›)
    | exact hV.access _ _
    | exact closed_lambda hV hp
    | exact closed_call hV hp
    | exact closed_attributeOf hV hp _
    | exact closed_booleanOperator hV hp
    | exact closed_comparison hV hp
    | exact hthen _ (by decide)
    | exact hbinary _
    | exact hunary _
    | exact closed_collection hV hp _
    | exact closed_dictionary hV hp
    | exact closed_conditional hV hp
    | exact hV.seq _ _ (closed_firstValue hV hp) (hV.plain _ (by decide))
    | exact closed_optional hV hp.field? fun _ hr => hr.value
    | exact hoperands

/-! ## Targets -/

theorem closed_target (hp : GivesBelow V p) : V (target p) := by
  have hinner : V (optional p.named.head? (·.roles.target)) :=
    closed_optional hV hp.head? fun _ hr => hr.target
  have hparts : V (all (p.named.map (·.roles.target))) :=
    closed_all_map hV fun r hr => (hp.named r hr).target
  unfold target
  split
  all_goals first
    | exact hV.access _ _
    | exact hV.plain _ (by decide)
    | exact closed_attributeOf hV hp _
    | exact hV.seq _ _ (closed_operands hV hp) (hV.plain _ (by decide))
    | exact hinner
    | exact hV.seq _ _ (hV.counted _ _) hparts

theorem closed_storeOrDrop {part : Option Reading} (h : ∀ r, part = some r → Gives V r) :
    V (storeOrDrop part) := by
  cases part with
  | none => exact hV.plain _ (by decide)
  | some r => exact (h r rfl).target

omit hV in
theorem closed_assignmentChain (hp : GivesBelow V p) {chain : AssignmentChain}
    (h : assignmentChain p = .ok chain) :
    (∀ d ∈ chain.targets, V d) ∧ ∀ d, chain.value = some d → V d := by
  unfold assignmentChain at h
  split at h
  · cases h
  · rename_i left hleft
    have hleft := (hp.field? left hleft).target
    split at h
    · cases h
      exact ⟨List.forall_mem_singleton.mpr hleft, nofun⟩
    · rename_i right hright
      have hright := hp.field? right hright
      split at h
      · rcases hinner : right.roles.assignment with _ | inner
        · rw [hinner] at h
          cases h
        rw [hinner] at h
        cases h
        obtain ⟨htargets, hvalue⟩ := hright.chain hinner
        exact ⟨List.forall_mem_cons.mpr ⟨hleft, htargets⟩, hvalue⟩
      · cases h
        refine ⟨List.forall_mem_singleton.mpr hleft, ?_⟩
        rintro d hd
        cases hd
        exact hright.value

theorem closed_storeAll {targets : List Draft} (h : ∀ d ∈ targets, V d) : V (storeAll targets) := by
  fun_induction storeAll targets with
  | case1 => exact hV.skip
  | case2 last => exact h last List.mem_cons_self
  | case3 next rest _ ih =>
    obtain ⟨hnext, hrest⟩ := List.forall_mem_cons.mp h
    exact hV.seq _ _ (hV.seq _ _ (hV.plain _ (by decide)) hnext) (ih hrest)

theorem closed_assignment {r : Reading} (h : Gives V r) : V (assignment r.roles.assignment) := by
  unfold assignment
  split
  · exact hV.fail _
  · rename_i targets value hchain
    obtain ⟨htargets, hvalue⟩ := h.chain hchain
    exact hV.seq _ _ (hvalue value rfl) (closed_storeAll hV htargets)
  · exact hV.skip

theorem closed_augmentedAssignment (hp : GivesBelow V p) : V (augmentedAssignment p) := by
  apply closed_need hV hp.field?
  intro left hleft
  apply closed_need hV hp.field?
  intro right hright
  refine hV.seq _ _ (hV.seq _ _ (hV.seq _ _ hleft.value hright.value) ?_) hleft.target
  exact hV.plain _ (by decide)

/-! ## All nodes -/

theorem gives_ofNode_mk {label : Label} {children : List Node}
    (hfloat : label.kind = .float → (floatLiteral label.text).floatIs f = true)
    (hchildren : ∀ r ∈ ofNodes children, Gives V r) : Gives V (ofNode ⟨label, children⟩) := by
  have hp : GivesBelow V ⟨label, ofNodes children⟩ := hchildren
  rw [ofNode]
  exact .mk hp (closed_value hV hp hfloat) (closed_target hV hp)
    fun chain h => closed_assignmentChain hp h

end Closed

/-- A float among all nodes of a tree. -/
theorem floatIs_of_floatsAre {n : Node} (h : n.floatsAre f = true) :
    n.label.kind = .float → (floatLiteral n.label.text).floatIs f = true := by
  intro hkind
  have hhere := (Node.everywhere_iff.mp h).1
  simpa [hkind] using hhere

mutual
/-- It holds of the values and targets of all nodes. -/
theorem gives_ofNode (hV : Draft.Closed f V) : ∀ n : Node, n.floatsAre f = true → Gives V (ofNode n)
  | ⟨_, children⟩, h =>
    gives_ofNode_mk hV (floatIs_of_floatsAre h)
      (gives_ofNodes hV children (Node.everywhere_iff.mp h).2)

theorem gives_ofNodes (hV : Draft.Closed f V) :
    ∀ ns : List Node, (∀ n ∈ ns, n.floatsAre f = true) → ∀ r ∈ ofNodes ns, Gives V r
  | [], _ => by simp [ofNodes]
  | n :: ns, h => by
    obtain ⟨hn, hns⟩ := List.forall_mem_cons.mp h
    have hn := gives_ofNode hV n hn
    have hns := gives_ofNodes hV ns hns
    rw [ofNodes]
    exact List.forall_mem_cons.mpr ⟨hn, hns⟩
end

end Reading

end UnitAtlas
