-- Answers to single requests. Whatever happens to a request, its answer goes out as one whole
-- frame, which says that the file is missing exactly when it was not found; and what other
-- files hold makes no difference to it.
import UnitAtlas.Proofs.Entity.Preorder
import UnitAtlas.Proofs.Files.Appending
import UnitAtlas.Proofs.Wire.Codec
import UnitAtlas.Session.Service

namespace UnitAtlas

/-! ## Entities of an answer -/

/-- The map of a source is never empty: it starts with the source itself. -/
theorem EntityTree.build_ne_nil {c : Classifier} {root : CodeUnit} {entities : List Entity}
    (h : build c root = .ok entities) : entities ≠ [] := by
  obtain ⟨first, rest, rfl, -⟩ := build_eq_ok h
  exact List.cons_ne_nil _ _

theorem Source.analyze_ne_nil {backend : Backend} {c : Classifier} {fs : FileSystem}
    {path : String} {entities : List Entity} (h : analyze backend c fs path = .ok entities) :
    entities ≠ [] := by
  obtain ⟨text, -, h⟩ := Fault.bind_eq_ok.mp h
  obtain ⟨u, -, h⟩ := Fault.bind_eq_ok.mp h
  obtain ⟨built, hbuilt, h⟩ := Fault.bind_eq_ok.mp h
  cases h
  rw [Fault.rename_eq_ok] at hbuilt
  exact fun hnil => EntityTree.build_ne_nil hbuilt (List.map_eq_nil_iff.mp hnil)

namespace Response

/-! ## Frames of an answer -/

/-- The bytes are the frame of one response from the first to the last. -/
def IsFrame (frame : Bytes) : Prop := ∃ r, decode frame = some (r, frame.length)

/-- What stands on the wire for an answer: its frame, or that of a failure when it has none. -/
def written (r : Response) : Bytes :=
  match r.encode with
  | .ok frame => frame
  | .error _ => Wire.int32 (-1)

/-- What the other side makes of an answer. -/
def received (r : Response) : Response :=
  match r.encode with
  | .ok _ => r
  | .error _ => .failed

theorem received_ne (r : Response) (h : r ≠ .entities []) : r.received ≠ .entities [] := by
  unfold received
  split
  · exact h
  · exact nofun

theorem encode_received (r : Response) : r.received.encode = .ok r.written := by
  unfold received written
  split
  · assumption
  · rfl

/-- Only what is missing is received as missing. -/
theorem received_eq_missing_iff (r : Response) : r.received = .missing ↔ r = .missing := by
  unfold received
  split
  · rfl
  · rename_i e hencode
    constructor
    · exact nofun
    · rintro rfl
      cases hencode

theorem isFrame_written (r : Response) (h : r ≠ .entities []) : IsFrame r.written := by
  refine ⟨r.received, ?_⟩
  have hread := decode_append _ _ [] (received_ne r h) (encode_received r)
  rwa [List.append_nil] at hread

end Response

namespace Service

theorem tryAnswer_ne {s : Service} {files : FileSystem} {env : LookupEnv} {request : String}
    {r : Response} (h : s.tryAnswer files env request = .ok r) : r ≠ .entities [] := by
  unfold tryAnswer at h
  split at h
  · cases h
    exact nofun
  · split at h
    · rename_i entities hanalyze
      cases h
      intro hnil
      rw [Response.ofEntities, Response.entities.injEq, List.map_eq_nil_iff] at hnil
      exact Source.analyze_ne_nil hanalyze hnil
    · cases h
    · cases h

theorem answer_ne (s : Service) (files : FileSystem) (env : LookupEnv) (request : String) :
    (s.answer files env request).1 ≠ .entities [] := by
  unfold answer
  split
  · rename_i r h
    exact tryAnswer_ne h
  · exact nofun

/-- The session writes what the answer to the request is outside of a session. -/
theorem frameFor_eq_written (s : Service) (files : FileSystem) (env : LookupEnv)
    (request : String) :
    (s.frameFor files env request).1 = (s.answer files env request).1.written := by
  unfold frameFor answer
  rcases s.tryAnswer files env request with chain | r
  · rfl
  · dsimp only
    unfold Response.written
    cases r.encode <;> rfl

/-- A request is answered by one whole frame, also when its analysis fails or panics, and when
a number in the answer is too large for its field. -/
theorem isFrame_frameFor (s : Service) (files : FileSystem) (env : LookupEnv)
    (request : String) : Response.IsFrame (s.frameFor files env request).1 := by
  rw [frameFor_eq_written]
  exact Response.isFrame_written _ (answer_ne s files env request)

/-- An answer says that a file is missing exactly when the request leads to none. -/
theorem answer_eq_missing_iff (s : Service) (files : FileSystem) (env : LookupEnv)
    (request : String) :
    (s.answer files env request).1 = .missing ↔ env.resolve files request = none := by
  unfold answer tryAnswer
  rcases env.resolve files request with _ | path
  · exact ⟨fun _ => rfl, fun _ => rfl⟩
  · refine ⟨fun h => ?_, nofun⟩
    dsimp only at h
    rcases hanalyze : Source.analyze s.backend s.classifier files path with fault | entities
    · rw [hanalyze] at h
      cases fault <;> cases h
    · rw [hanalyze] at h
      cases h

end Service

namespace FileSystem.SameBut

/-! ## Files that do not matter -/

variable {hidden : Location → Prop} {before after : FileSystem}

theorem resolve_eq (h : SameBut hidden before after) (env : LookupEnv) (request : String) :
    env.resolve after request = env.resolve before request := by
  unfold LookupEnv.resolve
  rw [h.isThere_eq]

theorem apply_eq (h : SameBut hidden before after) (env : LookupEnv) (handshake : Handshake) :
    env.apply after handshake = env.apply before handshake := by
  unfold LookupEnv.apply LookupEnv.slot LookupEnv.invalid
  rw [h.isDirectory_eq]

/-- A request that leads to no hidden file is answered the same. -/
theorem frameFor_eq (h : SameBut hidden before after) (s : Service) (env : LookupEnv)
    (request : String) (hrequest : ∀ path, env.resolve before request = some path →
      ∀ spot, before.locate path = .ok spot → ¬ hidden spot) :
    s.frameFor after env request = s.frameFor before env request := by
  unfold Service.frameFor Service.tryAnswer
  rw [h.resolve_eq]
  rcases hpath : env.resolve before request with _ | path
  · rfl
  · dsimp only
    unfold Source.analyze Source.load
    rw [h.read_eq path (hrequest path hpath)]

end FileSystem.SameBut

end UnitAtlas
