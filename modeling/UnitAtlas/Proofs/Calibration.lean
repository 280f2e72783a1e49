-- What calibration comes to. It fails at the first of its steps that cannot be done, and otherwise
-- learns a signature that the window it was taken from ends with, so the class of the probe is
-- told to be one.
import UnitAtlas.Calibration
import UnitAtlas.Proofs.Entity.Preorder

namespace UnitAtlas

/-- A window can always be cut out. -/
theorem Window.slice_of_extract {glue : Nat} {parent u : CodeUnit} {range : ByteRange}
    (h : extract glue parent u = .ok range) :
    ∃ window, range.slice? parent.info.code = some window ∧
      window.length = range.stop - range.start := by
  obtain ⟨hle, hlen⟩ := extract_within h
  refine ⟨_, if_pos ⟨hle, hlen⟩, ?_⟩
  rw [List.length_drop, List.length_take, Nat.min_eq_left hlen]

/-- A signature taken from the end of a window is found there again. -/
theorem Classifier.glueMatches_drop (glue : Nat) {len : Nat} {code window : Bytes}
    {range : ByteRange} (hslice : range.slice? code = some window) (hpos : 0 < len)
    (hlen : len ≤ window.length) :
    Classifier.glueMatches ⟨glue, window.drop (window.length - len)⟩ code range = true := by
  have hsome : window.drop (window.length - len) ≠ [] := by
    rw [List.ne_nil_iff_length_pos, List.length_drop]
    omega
  rw [glueMatches, hslice, Bool.and_eq_true, Bool.not_eq_true', List.isEmpty_eq_false_iff]
  exact ⟨hsome, List.isSuffixOf_iff_suffix.mpr (List.drop_suffix _ _)⟩

namespace Calibration

variable {backend : Backend} {glue len : Nat}

/-! ## The ways to end -/

/-- The probe compiles, `function` is the first unit in it, and `inner` the first one in that. -/
structure HasClass (backend : Backend) (function inner : CodeUnit) : Prop where
  outer : ∃ probe, backend.compile backend.probe probeFilename = .ok probe ∧
    probe.nested.head? = some function
  head : function.nested.head? = some inner

/-- Why nothing is learnt. Each reason leaves all steps before it done. -/
inductive Fails (backend : Backend) (glue len : Nat) : Fault CalibrationError → Prop where
  | empty (h : len = 0) : Fails backend glue len (.error .emptySignature)
  | uncompiled (chain : ErrorChain) (hlen : 1 ≤ len)
      (h : backend.compile backend.probe probeFilename = .error (.error chain)) :
      Fails backend glue len (.error (.compile chain.oneLine))
  | stopped (message : String) (hlen : 1 ≤ len)
      (h : backend.compile backend.probe probeFilename = .error (.panic message)) :
      Fails backend glue len (.panic message)
  | withoutFunction (probe : CodeUnit) (hlen : 1 ≤ len)
      (h : backend.compile backend.probe probeFilename = .ok probe)
      (hnone : probe.nested = []) :
      Fails backend glue len (.error (.missingProbeUnit 1))
  | withoutClass (probe function : CodeUnit) (hlen : 1 ≤ len)
      (h : backend.compile backend.probe probeFilename = .ok probe)
      (hfunction : probe.nested.head? = some function) (hnone : function.nested = []) :
      Fails backend glue len (.error (.missingProbeUnit 2))
  | unreadable (function inner : CodeUnit) (e : DecodeError) (hlen : 1 ≤ len)
      (h : HasClass backend function inner)
      (he : Window.extract glue function inner = .error e) :
      Fails backend glue len (.error (.decode e))
  | short (function inner : CodeUnit) (range : ByteRange) (hlen : 1 ≤ len)
      (h : HasClass backend function inner)
      (hrange : Window.extract glue function inner = .ok range)
      (hshort : range.stop - range.start < len) :
      Fails backend glue len (.error (.shortGlue len (range.stop - range.start)))

/-- What is learnt from the window `range` of the class in the probe: its last bytes. -/
structure Learns (backend : Backend) (glue len : Nat) (function inner : CodeUnit)
    (range : ByteRange) (c : Classifier) : Prop where
  pos : 1 ≤ len
  hasClass : HasClass backend function inner
  extract : Window.extract glue function inner = .ok range
  signature : ∃ window, range.slice? function.info.code = some window ∧ len ≤ window.length ∧
    c = ⟨glue, window.drop (window.length - len)⟩

theorem exists_learns {function inner : CodeUnit} {range : ByteRange} (hlen : 1 ≤ len)
    (h : HasClass backend function inner)
    (hrange : Window.extract glue function inner = .ok range)
    (hlong : len ≤ range.stop - range.start) :
    ∃ c, Learns backend glue len function inner range c := by
  obtain ⟨window, hslice, hwindow⟩ := Window.slice_of_extract hrange
  exact ⟨_, hlen, h, hrange, window, hslice, hwindow ▸ hlong, rfl⟩

theorem Learns.long {function inner : CodeUnit} {range : ByteRange} {c : Classifier}
    (h : Learns backend glue len function inner range c) : len ≤ range.stop - range.start := by
  obtain ⟨window, hslice, hlong, -⟩ := h.signature
  obtain ⟨window', hslice', hwindow⟩ := Window.slice_of_extract h.extract
  cases hslice.symm.trans hslice'
  exact hwindow ▸ hlong

/-- What was taken from the end of a window is recognised there. -/
theorem Learns.isClass {function inner : CodeUnit} {range : ByteRange} {c : Classifier}
    (h : Learns backend glue len function inner range c) :
    c.isClass function inner = .ok true := by
  obtain ⟨window, hslice, hlong, rfl⟩ := h.signature
  rw [EntityTree.isClass_of_extract h.extract, Classifier.glueMatches_drop glue hslice h.pos hlong]

/-- One of the reasons to fail is there, or there is something to learn. -/
theorem fails_or_learns (backend : Backend) (glue len : Nat) :
    (∃ e, Fails backend glue len e) ∨
      ∃ function inner range c, Learns backend glue len function inner range c := by
  rcases Nat.eq_zero_or_pos len with hzero | hlen
  · exact Or.inl ⟨_, .empty hzero⟩
  rcases hprobe : backend.compile backend.probe probeFilename with (chain | message) | probe
  · exact Or.inl ⟨_, .uncompiled chain hlen hprobe⟩
  · exact Or.inl ⟨_, .stopped message hlen hprobe⟩
  rcases hfunction : probe.nested.head? with _ | function
  · exact Or.inl ⟨_, .withoutFunction probe hlen hprobe (List.head?_eq_none_iff.mp hfunction)⟩
  rcases hinner : function.nested.head? with _ | inner
  · exact Or.inl ⟨_, .withoutClass probe function hlen hprobe hfunction
      (List.head?_eq_none_iff.mp hinner)⟩
  have hclass : HasClass backend function inner := ⟨⟨probe, hprobe, hfunction⟩, hinner⟩
  rcases hrange : Window.extract glue function inner with e | range
  · exact Or.inl ⟨_, .unreadable function inner e hlen hclass hrange⟩
  rcases Nat.lt_or_ge (range.stop - range.start) len with hshort | hlong
  · exact Or.inl ⟨_, .short function inner range hlen hclass hrange hshort⟩
  · exact Or.inr ⟨function, inner, range, exists_learns hlen hclass hrange hlong⟩

/-! ## The calibration ends in one of them -/

theorem classifier_of_compile {probe : CodeUnit} (hlen : 1 ≤ len)
    (h : backend.compile backend.probe probeFilename = .ok probe) :
    classifier backend glue len =
      (Fault.ofError (signatureOf glue len probe)).map (Classifier.mk glue) := by
  rw [classifier, signature, if_neg (Nat.ne_of_gt hlen), h]
  show (Fault.ofError (signatureOf glue len probe) >>= fun s => pure (Classifier.mk glue s)) = _
  rcases signatureOf glue len probe with e | s <;> rfl

/-- With a class in the probe, all hangs on the window of that class. -/
theorem classifier_of_hasClass {function inner : CodeUnit} (hlen : 1 ≤ len)
    (h : HasClass backend function inner) :
    classifier backend glue len =
      match Window.extract glue function inner with
      | .error e => .error (.error (.decode e))
      | .ok range =>
        let window := (range.slice? function.info.code).getD []
        if window.length < len then .error (.error (.shortGlue len window.length))
        else .ok ⟨glue, window.drop (window.length - len)⟩ := by
  obtain ⟨⟨probe, hprobe, hfunction⟩, hinner⟩ := h
  rw [classifier_of_compile hlen hprobe, signatureOf, hfunction]
  simp only [hinner]
  rcases Window.extract glue function inner with e | range
  · rfl
  · dsimp only [bind, Except.bind, Except.mapError]
    split <;> rfl

theorem classifier_of_learns {function inner : CodeUnit} {range : ByteRange} {c : Classifier}
    (h : Learns backend glue len function inner range c) :
    classifier backend glue len = .ok c := by
  obtain ⟨window, hslice, hlong, rfl⟩ := h.signature
  rw [classifier_of_hasClass h.pos h.hasClass, h.extract]
  simp only [hslice, Option.getD_some, if_neg (Nat.not_lt.mpr hlong)]

theorem classifier_of_fails {e : Fault CalibrationError} (h : Fails backend glue len e) :
    classifier backend glue len = .error e := by
  cases h with
  | empty h =>
    rw [classifier, signature, if_pos h]
    rfl
  | uncompiled chain hlen h =>
    rw [classifier, signature, if_neg (Nat.ne_of_gt hlen), h]
    rfl
  | stopped message hlen h =>
    rw [classifier, signature, if_neg (Nat.ne_of_gt hlen), h]
    rfl
  | withoutFunction probe hlen h hnone =>
    rw [classifier_of_compile hlen h, signatureOf, hnone]
    rfl
  | withoutClass probe function hlen h hfunction hnone =>
    rw [classifier_of_compile hlen h, signatureOf, hfunction]
    simp only [hnone]
    rfl
  | unreadable function inner e hlen h he =>
    rw [classifier_of_hasClass hlen h, he]
  | short function inner range hlen h hrange hshort =>
    obtain ⟨window, hslice, hwindow⟩ := Window.slice_of_extract hrange
    rw [← hwindow] at hshort ⊢
    rw [classifier_of_hasClass hlen h, hrange]
    simp only [hslice, Option.getD_some, if_pos hshort]

/-- Calibration learns a signature just when the probe holds a class with a window of as many bytes;
the signature is the end of this window, and the class is recognised by it. Otherwise it fails for
the first reason there is. No window is ever cut out of bounds. -/
theorem a_signature_recognises_the_class_it_was_learnt_from (backend : Backend) (glue len : Nat) :
    ((∃ c, classifier backend glue len = .ok c) ↔
        1 ≤ len ∧ ∃ function inner range, HasClass backend function inner ∧
          Window.extract glue function inner = .ok range ∧ len ≤ range.stop - range.start) ∧
      (∀ c, classifier backend glue len = .ok c → ∃ function inner range window,
        HasClass backend function inner ∧ Window.extract glue function inner = .ok range ∧
          range.slice? function.info.code = some window ∧
          c = ⟨glue, window.drop (window.length - len)⟩ ∧ c.signature.length = len ∧
          c.isClass function inner = .ok true) ∧
      (∀ e, classifier backend glue len = .error e ↔ Fails backend glue len e) ∧
      ∀ parent child range, Window.extract glue parent child = .ok range →
        ∃ window, range.slice? parent.info.code = some window ∧
          window.length = range.stop - range.start := by
  refine ⟨⟨?_, ?_⟩, ?_, fun e => ⟨?_, classifier_of_fails⟩, fun _ _ _ => Window.slice_of_extract⟩
  · rintro ⟨c, hc⟩
    rcases fails_or_learns backend glue len with ⟨e, he⟩ | ⟨function, inner, range, c', h⟩
    · rw [classifier_of_fails he] at hc
      cases hc
    · exact ⟨h.pos, function, inner, range, h.hasClass, h.extract, h.long⟩
  · rintro ⟨hlen, function, inner, range, hclass, hrange, hlong⟩
    obtain ⟨c, h⟩ := exists_learns hlen hclass hrange hlong
    exact ⟨c, classifier_of_learns h⟩
  · intro c hc
    rcases fails_or_learns backend glue len with ⟨e, he⟩ | ⟨function, inner, range, c', h⟩
    · rw [classifier_of_fails he] at hc
      cases hc
    · cases (classifier_of_learns h).symm.trans hc
      obtain ⟨window, hslice, hlong, hsignature⟩ := h.signature
      refine ⟨function, inner, range, window, h.hasClass, h.extract, hslice, hsignature, ?_,
        h.isClass⟩
      rw [hsignature, List.length_drop]
      omega
  · intro h
    rcases fails_or_learns backend glue len with ⟨e', he⟩ | ⟨function, inner, range, c, hc⟩
    · cases (classifier_of_fails he).symm.trans h
      exact he
    · rw [classifier_of_learns hc] at h
      cases h

end Calibration

end UnitAtlas
