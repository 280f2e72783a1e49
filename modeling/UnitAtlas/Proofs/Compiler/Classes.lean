-- Which units of a compiled source pass for classes. With what is learnt from the probe, a class is
-- recognised by the instruction that makes it, right before the store under its name; a decorator is
-- called in between, so decorated classes pass for functions. Functions never pass for classes, but
-- a lambda does when its window ends with the instruction of a class beside it.
import UnitAtlas.Calibration
import UnitAtlas.Proofs.Compiler.Spans
import UnitAtlas.Proofs.Entity.Addresses
import UnitAtlas.Proofs.Reading.ClassWindows

namespace UnitAtlas

open Syntax LineTable Opcode

/-- The kind of an entity, when a single byte tells classes: its window ends with the byte. -/
theorem Entity.StandsIn.kind_iff {e : Entity} {glue : Nat} {byte : UInt8} {parent u : CodeUnit}
    (h : e.StandsIn ⟨glue, [byte]⟩ parent u) : e.kind = .classBody ↔
      e.window.start < e.window.stop ∧ parent.info.code[e.window.stop - 1]? = some byte := by
  rw [← Classifier.glueMatches_singleton h.start_le_stop h.stop_le_length]
  rcases h.kind with ⟨hkind, hclass⟩ | ⟨hkind, hclass⟩
  · rw [EntityTree.isClass_of_extract h.window] at hclass
    exact iff_of_true hkind (Except.ok.inj hclass)
  · rw [EntityTree.isClass_of_extract h.window] at hclass
    refine iff_of_false (by rw [hkind]; decide) ?_
    rw [Except.ok.inj hclass]
    decide

namespace Compiler

/-! ## What is learnt from the probe -/

/-- The unit of the probe, of its function or of its class. -/
def probePart (name : String) (firstLine : UInt32) (code lineTable : Bytes)
    (names varNames : List String) (consts : List (Constant CodeUnit)) : CodeUnit :=
  ⟨⟨name, Calibration.probeFilename, firstLine, code, lineTable, names, varNames, 0, 0, .empty⟩,
    consts⟩

def probeFunction : CodeUnit :=
  probePart "probe" 1
    [100, 1, 0, 102, 0, 0, 100, 2, 0, 132, 0, 0, 131, 0, 0, 89, 125, 0, 0, 100, 0, 0, 83]
    [0, 1, 19, 2] [] ["Probe"]
    [.literal .none, .literal (.str "Probe"),
      .unit (probePart "Probe" 2 [101, 0, 0, 90, 1, 0, 82, 83] [6, 1]
        ["__name__", "__module__"] [] [])]

def probeUnit : CodeUnit :=
  probePart "<module>" 1 [100, 0, 0, 132, 0, 0, 90, 0, 0, 100, 1, 0, 83] [] ["probe"] []
    [.unit probeFunction, .literal .none]

set_option maxRecDepth 10000 in
theorem compile_probe {parse : Parser}
    (h : parse classProbe = Node.ofRows classProbe classProbeListing) :
    compile parse classProbe Calibration.probeFilename = .ok probeUnit := by
  rw [compile, h]
  with_unfolding_all rfl

/-- What classes are told by. -/
def probeClassifier : Classifier := ⟨Window.defaultGlue, [Plain.buildClass.byte]⟩

/-- This is learnt from any parser that knows the probe. -/
theorem classifier_of_probe {parse : Parser}
    (h : parse classProbe = Node.ofRows classProbe classProbeListing) :
    Calibration.classifier (backend parse) Window.defaultGlue Calibration.defaultSignatureLength =
      .ok probeClassifier := by
  have hcompile : (backend parse).compile (backend parse).probe Calibration.probeFilename =
      .ok probeUnit := compile_probe h
  rw [Calibration.classifier, Calibration.signature, hcompile]
  rfl

/-! ## Classes -/

/-- A class that a statement on a later line follows passes for a class exactly when it has no
decorators, unless the unit around it has tables too long for short operands, or the class is on one
line and the line table has another place there. -/
theorem a_class_is_recognised_iff_undecorated (parse : Parser) (source filename : String)
    (root : Node) (u : CodeUnit) (hparse : parse source = some root)
    (hprobe : parse classProbe = Node.ofRows classProbe classProbeListing)
    (hsource : root.isSource = true) (hordered : root.isOrdered = true)
    (h : compile parse source filename = .ok u) :
    ∃ c entities, Calibration.classifier (backend parse) Window.defaultGlue
        Calibration.defaultSignatureLength = .ok c ∧
      EntityTree.build c u = .ok entities ∧
      ∀ (a : List Nat) (d : Definition) (l : Label), root.definitionAt? a = some d →
        d.isClass = true → d.next = some l → d.line < l.line →
        ∃ b j p e breaks, u.definedAt? a = some (b ++ [j]) ∧ u.at? b = some p ∧
          EntityTree.entityAt? u entities (b ++ [j]) = some e ∧ scan p = .ok breaks ∧
          (p.info.names.length ≤ 0x10000 → p.info.varNames.length ≤ 0x10000 →
            e.lines.first < e.lines.last ∨ breaks.countP (·.line == e.lines.first) ≤ 1 →
            (e.kind = .classBody ↔ d.decorators = [])) := by
  obtain ⟨entities, hbuild⟩ := EntityTree.build_ok (c := probeClassifier) (readable_of_compile h)
  refine ⟨_, entities, classifier_of_probe hprobe, hbuild, ?_⟩
  intro a d l hd hclass hnext hline
  obtain ⟨m, p, b, j, v, hmem, hp, ha, hb, hv, hmakes⟩ :=
    (liesOn_of_compile hparse hsource hordered h).definedAt? hd
  obtain ⟨e, he, htells, hstands⟩ := EntityTree.exists_entityAt? hbuild hb hv
  obtain ⟨is, his⟩ := wellFormed_of_compile h b p hb
  obtain ⟨breaks, hscan⟩ := (readable_of_compile h b p hb).scan_ok
  refine ⟨b, j, p, e, breaks, ha, hb, he, hscan, ?_⟩
  intro hnames hvarNames hclose
  obtain ⟨span, breaks', hspan, hscan', hends⟩ := hp.ends_of_class his hmem hclass hmakes hnext
    hline hstands.window hnames hvarNames
  rw [htells.lines] at hspan
  rw [hscan] at hscan'
  cases hspan
  cases hscan'
  rw [hstands.kind_iff]
  exact hends hclose

/-! ### A class, and another one with a decorator -/

/-- `class A:`, `pass`; `@n`, `class B:`, `pass`; `n = 1`, each on a line of its own. -/
def classesTree : Node :=
  node none 0 (.other "module") "" [
    node none 0 .classDefinition "" [
      word (some .name) 0 "A",
      node (some .body) 1 .block "" [node none 1 .passStatement "" []]],
    node none 2 .decoratedDefinition "" [
      node none 2 .decorator "" [word none 2 "n"],
      node (some .definition) 3 .classDefinition "" [
        word (some .name) 3 "B",
        node (some .body) 4 .block "" [node none 4 .passStatement "" []]]],
    node none 5 .expressionStatement "" [
      node none 5 .assignment "" [
        word (some .left) 5 "n", node (some .right) 5 .integer "1" []]]]

/-- A parser that knows the probe and takes all else for one tree. -/
def probing (tree : Node) : Parser := fun source =>
  if source = classProbe then Node.ofRows classProbe classProbeListing else some tree

/-- The unit of a class of `m.py` that only passes. -/
def passingClass (name : String) (firstLine : UInt32) (line : UInt8) : CodeUnit :=
  plainUnit name firstLine [101, 0, 0, 90, 1, 0, 82, 83] [6, line] ["__name__", "__module__"] [] []

def classesUnit : CodeUnit :=
  plainUnit "<module>" 1
    [100, 0, 0, 102, 0, 0, 100, 1, 0, 132, 0, 0, 131, 0, 0, 89, 90, 0, 0,
      101, 1, 0, 100, 2, 0, 102, 0, 0, 100, 3, 0, 132, 0, 0, 131, 0, 0, 89, 131, 1, 0, 90, 2, 0,
      100, 4, 0, 90, 1, 0, 100, 5, 0, 83]
    [19, 2, 25, 3] ["A", "n", "B"] []
    [.literal (.str "A"), .unit (passingClass "A" 1 1), .literal (.str "B"),
      .unit (passingClass "B" 3 2), .literal (.int 1), .literal .none]

set_option maxRecDepth 10000 in
theorem compile_classes : compile (probing classesTree) "" "m.py" = .ok classesUnit := by
  with_unfolding_all rfl

theorem isSource_classesTree : classesTree.isSource = true := by decide +kernel

theorem isOrdered_classesTree : classesTree.isOrdered = true := by decide +kernel

theorem a_plain_class_is_recognised :
    compile (probing classesTree) "" "m.py" = .ok classesUnit ∧
      probing classesTree classProbe = Node.ofRows classProbe classProbeListing ∧
      classesTree.isSource = true ∧ classesTree.isOrdered = true ∧
      ∃ entities e, EntityTree.build probeClassifier classesUnit = .ok entities ∧
        EntityTree.entityAt? classesUnit entities [0] = some e ∧ e.kind = .classBody := by
  obtain ⟨c, entities, hclassifier, hbuild, hclasses⟩ := a_class_is_recognised_iff_undecorated
    (probing classesTree) "" "m.py" classesTree classesUnit rfl (if_pos rfl) isSource_classesTree
    isOrdered_classesTree compile_classes
  obtain ⟨b, j, p, e, breaks, ha, hb, he, -, hkind⟩ := hclasses [0] _ _ rfl rfl rfl (by decide)
  obtain ⟨rfl, rfl⟩ : b = [] ∧ j = 0 := by simpa using (List.append_eq_singleton_iff.mp
    (Option.some.inj ha).symm)
  cases hb
  rw [classifier_of_probe (if_pos rfl)] at hclassifier
  cases hclassifier
  obtain ⟨map, hmap, f, hf, hlines⟩ : ∃ map, EntityTree.build probeClassifier classesUnit =
      .ok map ∧ ∃ f, EntityTree.entityAt? classesUnit map [0] = some f ∧
        f.lines.first < f.lines.last := ⟨_, rfl, _, rfl, by decide⟩
  rw [hmap] at hbuild
  cases hbuild
  rw [List.nil_append, hf] at he
  cases he
  exact ⟨compile_classes, if_pos rfl, isSource_classesTree, isOrdered_classesTree, _, e, hmap,
    hf, (hkind (by decide) (by decide) (Or.inl hlines)).mpr rfl⟩

/-- The decorator is called behind the instruction that makes the class. -/
theorem a_decorated_class_passes_for_a_function :
    compile (probing classesTree) "" "m.py" = .ok classesUnit ∧
      classesTree.label.hasError = false ∧ classesTree.isSource = true ∧
      classesTree.isOrdered = true ∧
      (∃ d l, classesTree.definitionAt? [1] = some d ∧ d.isClass = true ∧ d.next = some l ∧
        d.line < l.line) ∧
      ∃ entities e, EntityTree.build probeClassifier classesUnit = .ok entities ∧
        EntityTree.entityAt? classesUnit entities [1] = some e ∧ e.kind = .function := by
  refine ⟨compile_classes, rfl, isSource_classesTree, isOrdered_classesTree,
    ⟨_, _, rfl, rfl, rfl, by decide⟩, _, _, rfl, rfl, rfl⟩

/-! ## Functions and lambdas -/

/-- A function does not pass for a class, unless the byte that its window ends with is in the middle
of an instruction. Apart from that, a lambda passes for a class only in a unit that defines one, and
that on the line of the lambda when there is code on this line. -/
theorem only_a_lambda_beside_a_class_passes_for_one (parse : Parser) (source filename : String)
    (root : Node) (u : CodeUnit) (hparse : parse source = some root)
    (hprobe : parse classProbe = Node.ofRows classProbe classProbeListing)
    (hsource : root.isSource = true) (hordered : root.isOrdered = true)
    (hopens : root.everywhere Node.opensLines = true)
    (h : compile parse source filename = .ok u) :
    ∃ c entities, Calibration.classifier (backend parse) Window.defaultGlue
        Calibration.defaultSignatureLength = .ok c ∧
      EntityTree.build c u = .ok entities ∧
      (∀ (a : List Nat) (d : Definition), root.definitionAt? a = some d → d.isClass = false →
        ∃ b j p is e, u.definedAt? a = some (b ++ [j]) ∧ u.at? b = some p ∧
          Bytecode.sweep p.info.code = some is ∧
          EntityTree.entityAt? u entities (b ++ [j]) = some e ∧
          (e.kind = .classBody → ∀ i ∈ is, i.start + 1 ≠ e.window.stop)) ∧
      ∀ (b : List Nat) (p v : CodeUnit) (j : Nat), u.at? b = some p → p.nested[j]? = some v →
        v.isLambda = true →
        ∃ is breaks e, Bytecode.sweep p.info.code = some is ∧ scan p = .ok breaks ∧
          EntityTree.entityAt? u entities (b ++ [j]) = some e ∧
          (e.kind = .classBody → (∃ i ∈ is, i.start + 1 = e.window.stop) →
            ∃ a d k, root.definitionAt? a = some d ∧ d.isClass = true ∧
              u.definedAt? a = some (b ++ [k]) ∧
              ((∃ i ∈ is, lineAt? breaks i.start = some e.lines.first) →
                d.line.toNat = e.lines.first)) := by
  obtain ⟨entities, hbuild⟩ := EntityTree.build_ok (c := probeClassifier) (readable_of_compile h)
  have hlies := liesOn_of_compile hparse hsource hordered h
  refine ⟨_, entities, classifier_of_probe hprobe, hbuild, ?_, ?_⟩
  · intro a d hd hfunction
    obtain ⟨m, p, b, j, v, hmem, hp, hm, ha, hb, hv, hmakes⟩ := hlies.definedAt?_keeps
      (Q := fun m => m.everywhere Node.opensLines = true)
      (fun m hm hq d hd => Node.everywhere_of_mem_definitions hm hq hd) hopens hd
    obtain ⟨e, he, htells, hstands⟩ := EntityTree.exists_entityAt? hbuild hb hv
    obtain ⟨is, his⟩ := wellFormed_of_compile h b p hb
    refine ⟨b, j, p, is, e, ha, hb, his.swept, he, fun hkind => ?_⟩
    obtain ⟨hlt, hbyte⟩ := hstands.kind_iff.mp hkind
    exact hp.ends_of_function (Node.everywhere_iff.mp hm).1 hmem hfunction hmakes hstands.window hlt
      hbyte his.swept
  · intro b p v j hb hv hlambda
    obtain ⟨e, he, htells, hstands⟩ := EntityTree.exists_entityAt? hbuild hb hv
    obtain ⟨is, his⟩ := wellFormed_of_compile h b p hb
    obtain ⟨breaks, hscan⟩ := (readable_of_compile h b p hb).scan_ok
    refine ⟨is, breaks, e, his.swept, hscan, he, ?_⟩
    rintro hkind ⟨i, hi, hstop⟩
    obtain ⟨hlt, hbyte⟩ := hstands.kind_iff.mp hkind
    rcases hlies.exists_places hb with hcode | ⟨m, hm, hplaces⟩
    · -- Nothing in the unit of a lambda makes a class.
      rw [← hstop, Nat.add_sub_cancel] at hbyte
      exact absurd hbyte (hcode.makes_no_class his.swept hi)
    · obtain ⟨d, hd, hclass, hline⟩ := hm.ends_of_lambda (List.mem_of_getElem? hv) hlambda
        hstands.window hlt hbyte his.swept hi hstop hscan
      obtain ⟨a, k, ha, hk⟩ := hplaces d hd
      refine ⟨a, d, k, ha, hclass, hk, fun hcode => ?_⟩
      rw [first_of_resolveSpan htells.lines] at hcode ⊢
      rw [hline hcode]

/-! ### A lambda among the bases of a class, a function, and a lambda behind both -/

/-- `class C(n(lambda: 0)):`, `pass`; `def f():`, `pass`; `n = lambda: 0`. -/
def basesTree : Node :=
  node none 0 (.other "module") "" [
    node none 0 .classDefinition "" [
      word (some .name) 0 "C",
      node (some .superclasses) 0 (.other "argument_list") "" [
        node none 0 .call "" [
          word (some .function) 0 "n",
          node (some .arguments) 0 (.other "argument_list") "" [
            node none 0 .lambda "" [node (some .body) 0 .integer "0" []]]]],
      node (some .body) 1 .block "" [node none 1 .passStatement "" []]],
    node none 2 .functionDefinition "" [
      word (some .name) 2 "f",
      node (some .parameters) 2 (.other "parameters") "" [],
      node (some .body) 3 .block "" [node none 3 .passStatement "" []]],
    node none 4 .expressionStatement "" [
      node none 4 .assignment "" [
        word (some .left) 4 "n",
        node (some .right) 4 .lambda "" [node (some .body) 4 .integer "0" []]]]]

/-- The unit of a lambda or of a function of `m.py` that gives back one literal. -/
def giving (name : String) (firstLine : UInt32) (lineTable : Bytes) (value : Literal) : CodeUnit :=
  plainUnit name firstLine [100, 0, 0, 83] lineTable [] [] [.literal value]

def basesUnit : CodeUnit :=
  plainUnit "<module>" 1
    [100, 0, 0, 101, 0, 0, 100, 1, 0, 132, 0, 0, 131, 1, 0, 102, 1, 0, 100, 2, 0, 132, 0, 0,
      131, 0, 0, 89, 90, 1, 0, 100, 3, 0, 132, 0, 0, 90, 2, 0, 100, 4, 0, 132, 0, 0, 90, 0, 0,
      100, 5, 0, 83]
    [31, 2, 9, 2] ["n", "C", "f"] []
    [.literal (.str "C"), .unit (giving "<lambda>" 1 [] (.int 0)), .unit (passingClass "C" 1 1),
      .unit (giving "f" 3 [0, 1] .none), .unit (giving "<lambda>" 5 [] (.int 0)), .literal .none]

set_option maxRecDepth 10000 in
theorem compile_bases : compile (probing basesTree) "" "m.py" = .ok basesUnit := by
  with_unfolding_all rfl

theorem isSource_basesTree : basesTree.isSource = true := by decide +kernel

theorem isOrdered_basesTree : basesTree.isOrdered = true := by decide +kernel

theorem opensLines_basesTree : basesTree.everywhere Node.opensLines = true := by decide +kernel

theorem a_lambda_is_beside_the_class_it_passes_for :
    compile (probing basesTree) "" "m.py" = .ok basesUnit ∧
      probing basesTree classProbe = Node.ofRows classProbe classProbeListing ∧
      basesTree.isSource = true ∧ basesTree.isOrdered = true ∧
      basesTree.everywhere Node.opensLines = true ∧
      ∃ a d k, basesTree.definitionAt? a = some d ∧ d.isClass = true ∧
        basesUnit.definedAt? a = some [k] := by
  obtain ⟨c, entities, hclassifier, hbuild, -, hlambdas⟩ :=
    only_a_lambda_beside_a_class_passes_for_one (probing basesTree) "" "m.py" basesTree basesUnit
      rfl (if_pos rfl) isSource_basesTree isOrdered_basesTree opensLines_basesTree compile_bases
  rw [classifier_of_probe (if_pos rfl)] at hclassifier
  cases hclassifier
  obtain ⟨map, hmap, f, hf, hkind, hstop⟩ : ∃ map, EntityTree.build probeClassifier basesUnit =
      .ok map ∧ ∃ f, EntityTree.entityAt? basesUnit map [0] = some f ∧ f.kind = .classBody ∧
        f.window.stop = 28 := ⟨_, rfl, _, rfl, rfl, rfl⟩
  rw [hmap] at hbuild
  cases hbuild
  obtain ⟨is, breaks, e, his, -, he, hends⟩ := hlambdas [] basesUnit _ 0 rfl rfl rfl
  rw [List.nil_append, hf] at he
  cases he
  obtain ⟨js, hjs, hends'⟩ : ∃ js, Bytecode.sweep basesUnit.info.code = some js ∧
      ∃ i ∈ js, i.start + 1 = 28 := ⟨_, rfl, by decide⟩
  rw [hjs] at his
  cases his
  rw [← hstop] at hends'
  obtain ⟨a, d, k, hd, hclass, hk, -⟩ := hends hkind hends'
  exact ⟨compile_bases, if_pos rfl, isSource_basesTree, isOrdered_basesTree, opensLines_basesTree,
    a, d, k, hd, hclass, hk⟩

/-- The lambda is on the line of the class, so both have the same window. -/
theorem a_lambda_among_bases_passes_for_a_class :
    compile (probing basesTree) "" "m.py" = .ok basesUnit ∧ basesTree.label.hasError = false ∧
      basesTree.isScript = true ∧ basesTree.isOrdered = true ∧
      basesTree.everywhere Node.opensLines = true ∧
      ∃ entities e f, EntityTree.build probeClassifier basesUnit = .ok entities ∧
        EntityTree.entityAt? basesUnit entities [0] = some e ∧ e.name = "<lambda>" ∧
        e.kind = .classBody ∧ EntityTree.entityAt? basesUnit entities [3] = some f ∧
        f.name = "<lambda>" ∧ f.kind = .function := by
  refine ⟨compile_bases, rfl, by decide +kernel, isOrdered_basesTree, opensLines_basesTree, _, _, _,
    rfl, rfl, rfl, rfl, rfl, rfl, rfl⟩

end Compiler

end UnitAtlas
