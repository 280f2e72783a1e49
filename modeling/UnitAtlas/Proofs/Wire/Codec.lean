-- The laws of the wire codec. Each reader of `Wire` accepts exactly what the writer beside it
-- produces, followed by any bytes; so a frame is read back whole, and no other bytes are read
-- as that response.
import Mathlib.Data.List.Forall2
import UnitAtlas.Proofs.Text.Utf8
import UnitAtlas.Wire.Response

namespace UnitAtlas

namespace Wire

/-! ## Integers -/

theorem int32_eq (n : Int) : int32 n =
    [(n % 0x100000000).toNat.toUInt8, ((n % 0x100000000).toNat / 256).toUInt8,
      ((n % 0x100000000).toNat / 65536).toUInt8, ((n % 0x100000000).toNat / 16777216).toUInt8] := by
  simp [int32, Identity.littleEndian, List.range_succ, Nat.shiftRight_eq_div_pow]

@[simp] theorem length_int32 (n : Int) : (int32 n).length = 4 := by
  rw [int32_eq]
  rfl

/-- Four bytes are the digits of their number, the low one first. -/
theorem int32_of_bytes (a b c d : UInt8) (n : Int)
    (h : (n % 0x100000000).toNat =
      a.toNat + 256 * b.toNat + 65536 * c.toNat + 16777216 * d.toNat) :
    int32 n = [a, b, c, d] := by
  have ha := a.toNat_lt
  have hb := b.toNat_lt
  have hc := c.toNat_lt
  rw [int32_eq, h]
  simp only [List.cons.injEq, and_true]
  refine ⟨?_, ?_, ?_, ?_⟩
  all_goals
    apply UInt8.toNat_inj.mp
    rw [Nat.toUInt8, UInt8.toNat_ofNat']
    omega

theorem takeInt_int32 (n : Int) (rest : Bytes) (hlow : -0x80000000 ≤ n)
    (hhigh : n < 0x80000000) : takeInt (int32 n ++ rest) = some (n, rest) := by
  rw [int32_eq]
  simp only [takeInt, List.cons_append, List.nil_append, Nat.toUInt8,
    UInt8.toNat_ofNat', Option.some.injEq, Prod.mk.injEq, and_true]
  generalize hm : (n % 0x100000000).toNat = m
  have hdigits : m % 2 ^ 8 + 256 * (m / 256 % 2 ^ 8) + 65536 * (m / 65536 % 2 ^ 8)
      + 16777216 * (m / 16777216 % 2 ^ 8) = m := by omega
  rw [hdigits]
  have hbound : fieldBound = 0x80000000 := rfl
  split <;> omega

/-- Four bytes are read as the one integer in range that is written so. -/
theorem takeInt_eq_some_iff (bytes rest : Bytes) (n : Int) :
    takeInt bytes = some (n, rest) ↔
      -0x80000000 ≤ n ∧ n < 0x80000000 ∧ bytes = int32 n ++ rest := by
  constructor
  · intro h
    rcases bytes with _ | ⟨a, _ | ⟨b, _ | ⟨c, _ | ⟨d, tail⟩⟩⟩⟩
    case cons.cons.cons.cons =>
      simp only [takeInt, Option.some.injEq, Prod.mk.injEq] at h
      obtain ⟨hn, rfl⟩ := h
      have hfield : fieldBound = 0x80000000 := rfl
      have hbound : a.toNat + 256 * b.toNat + 65536 * c.toNat + 16777216 * d.toNat
          < 0x100000000 := by
        have ha := a.toNat_lt
        have hb := b.toNat_lt
        have hc := c.toNat_lt
        have hd := d.toNat_lt
        omega
      have hbytes := int32_of_bytes a b c d n
      generalize a.toNat + 256 * b.toNat + 65536 * c.toNat + 16777216 * d.toNat = m at *
      split at hn
      · refine ⟨by omega, by omega, ?_⟩
        rw [hbytes (by omega)]
        rfl
      · refine ⟨by omega, by omega, ?_⟩
        rw [hbytes (by omega)]
        rfl
    all_goals simp [takeInt] at h
  · rintro ⟨hlow, hhigh, rfl⟩
    exact takeInt_int32 n rest hlow hhigh

/-- A number is read exactly from its field. -/
theorem takeNat_eq_some_iff (bytes rest : Bytes) (n : Nat) :
    takeNat bytes = some (n, rest) ↔ n < fieldBound ∧ bytes = int32 n ++ rest := by
  unfold takeNat
  constructor
  · intro h
    rcases hint : takeInt bytes with _ | ⟨m, tail⟩
    · simp [hint] at h
    · obtain ⟨_, hhigh, rfl⟩ := (takeInt_eq_some_iff _ _ _).mp hint
      by_cases hm : m < 0
      · simp [hint, hm] at h
      · simp only [hint, Option.bind_eq_bind, Option.bind_some, hm, if_false, Option.some.injEq,
          Prod.mk.injEq] at h
        obtain ⟨rfl, rfl⟩ := h
        refine ⟨by unfold fieldBound; omega, ?_⟩
        rw [Int.toNat_of_nonneg (by omega)]
  · rintro ⟨hn, rfl⟩
    unfold fieldBound at hn
    rw [takeInt_int32 n rest (by omega) (by omega)]
    simp

/-! ## Texts -/

/-- A text is read exactly from its bytes. -/
theorem takeText_eq_some_iff (len : Nat) (bytes rest : Bytes) (s : String) :
    takeText len bytes = some (s, rest) ↔
      (Utf8.encode s).length = len ∧ bytes = Utf8.encode s ++ rest := by
  have hstrict : ∀ raw : Bytes, String.fromUTF8? ⟨raw.toArray⟩ = Utf8.strict? raw :=
    fun _ => rfl
  simp only [takeText, hstrict]
  constructor
  · intro h
    by_cases hshort : bytes.length < len
    · simp [hshort] at h
    · rcases htext : Utf8.strict? (bytes.take len) with _ | t
      · simp [hshort, htext] at h
      · simp only [hshort, if_false, htext, Option.pure_def, Option.bind_eq_bind,
          Option.bind_some, Option.some.injEq, Prod.mk.injEq] at h
        obtain ⟨rfl, rfl⟩ := h
        rw [Utf8.strict?_eq_some_iff] at htext
        refine ⟨?_, ?_⟩
        · rw [← htext, List.length_take]
          omega
        · rw [← htext, List.take_append_drop]
  · rintro ⟨rfl, rfl⟩
    simp [Utf8.strict?_encode]

/-! ## Entities -/

/-- Every number of the entity has a field of its own. -/
structure Writable (e : EntityFrame) : Prop where
  line : e.firstLine < fieldBound
  name : (Utf8.encode e.name).length < fieldBound
  text : (Utf8.encode e.text).length < fieldBound

/-- The bytes of a writable entity. -/
def entityBytes (e : EntityFrame) : Bytes :=
  int32 e.firstLine ++ int32 (Utf8.encode e.name).length ++ int32 (Utf8.encode e.text).length
    ++ Utf8.encode e.name ++ Utf8.encode e.text

theorem encodeEntity_eq_ok_iff (e : EntityFrame) (bytes : Bytes) :
    encodeEntity e = .ok bytes ↔ Writable e ∧ bytes = entityBytes e := by
  simp only [encodeEntity, lengthField, field]
  constructor
  · intro h
    split at h
    · split at h
      · split at h
        · cases h
          exact ⟨⟨‹_›, ‹_›, ‹_›⟩, rfl⟩
        · cases h
      · cases h
    · cases h
  · rintro ⟨⟨hline, hname, htext⟩, rfl⟩
    rw [if_pos hline, if_pos hname, if_pos htext]
    rfl

theorem takeEntity_eq_some_iff (bytes rest : Bytes) (e : EntityFrame) :
    takeEntity bytes = some (e, rest) ↔ Writable e ∧ bytes = entityBytes e ++ rest := by
  simp only [takeEntity, Option.bind_eq_bind, Option.bind_eq_some_iff, Prod.exists,
    takeNat_eq_some_iff, takeText_eq_some_iff, Option.pure_def, Option.some.injEq, Prod.mk.injEq]
  constructor
  · rintro ⟨line, _, ⟨hline, rfl⟩, _, _, ⟨hname, rfl⟩, _, _, ⟨htext, rfl⟩, name, _,
      ⟨rfl, rfl⟩, text, _, ⟨rfl, rfl⟩, rfl, rfl⟩
    refine ⟨⟨hline, hname, htext⟩, ?_⟩
    simp [entityBytes]
  · rintro ⟨⟨hline, hname, htext⟩, rfl⟩
    exact ⟨_, _, ⟨hline, by simp [entityBytes]⟩, _, _, ⟨hname, rfl⟩, _, _, ⟨htext, rfl⟩,
      _, _, ⟨rfl, rfl⟩, _, _, ⟨rfl, rfl⟩, rfl, rfl⟩

theorem encodeEntities_eq_ok_iff (es : List EntityFrame) (bytes : Bytes) :
    encodeEntities es = .ok bytes ↔
      (∀ e ∈ es, Writable e) ∧ bytes = es.flatMap entityBytes := by
  induction es generalizing bytes with
  | nil => simp [encodeEntities, pure, Except.pure, eq_comm]
  | cons e es ih =>
    simp only [encodeEntities, List.forall_mem_cons, List.flatMap_cons]
    constructor
    · intro h
      rcases hhere : encodeEntity e with _ | here
      · rw [hhere] at h
        cases h
      · rcases hlater : encodeEntities es with _ | later
        · rw [hhere, hlater] at h
          cases h
        · rw [hhere, hlater] at h
          cases h
          obtain ⟨he, rfl⟩ := (encodeEntity_eq_ok_iff _ _).mp hhere
          obtain ⟨hes, rfl⟩ := (ih _).mp hlater
          exact ⟨⟨he, hes⟩, rfl⟩
    · rintro ⟨⟨he, hes⟩, rfl⟩
      rw [(encodeEntity_eq_ok_iff e _).mpr ⟨he, rfl⟩, (ih _).mpr ⟨hes, rfl⟩]
      rfl

theorem takeEntities_eq_some_iff (count : Nat) (bytes rest : Bytes) (es : List EntityFrame) :
    takeEntities count bytes = some (es, rest) ↔
      es.length = count ∧ (∀ e ∈ es, Writable e) ∧ bytes = es.flatMap entityBytes ++ rest := by
  induction count generalizing bytes rest es with
  | zero =>
    cases es <;> simp [takeEntities]
  | succ count ih =>
    simp only [takeEntities, Option.bind_eq_bind, Option.bind_eq_some_iff, Prod.exists,
      takeEntity_eq_some_iff, ih, Option.pure_def, Option.some.injEq, Prod.mk.injEq]
    constructor
    · rintro ⟨e, _, ⟨he, rfl⟩, later, _, ⟨hlen, hlater, rfl⟩, rfl, rfl⟩
      refine ⟨by simp [hlen], by simpa using ⟨he, hlater⟩, by simp⟩
    · rintro ⟨hlen, hes, rfl⟩
      rcases es with _ | ⟨e, later⟩
      · simp at hlen
      · simp only [List.forall_mem_cons, List.length_cons, Nat.add_right_cancel_iff] at hes hlen
        exact ⟨e, _, ⟨hes.1, by simp⟩, later, _, ⟨hlen, hes.2, rfl⟩, rfl, rfl⟩

end Wire

namespace Response

open Wire

/-! ## Responses -/

theorem encode_entities_eq_ok_iff (es : List EntityFrame) (frame : Bytes) :
    (entities es).encode = .ok frame ↔ es.length < fieldBound ∧ (∀ e ∈ es, Writable e) ∧
      frame = int32 es.length ++ es.flatMap entityBytes := by
  simp only [encode, lengthField, field]
  constructor
  · intro h
    split at h
    · rename_i hlen
      rcases hbody : encodeEntities es with _ | body
      · rw [hbody] at h
        cases h
      · rw [hbody] at h
        cases h
        obtain ⟨hes, rfl⟩ := (encodeEntities_eq_ok_iff _ _).mp hbody
        exact ⟨hlen, hes, rfl⟩
    · cases h
  · rintro ⟨hlen, hes, rfl⟩
    rw [if_pos hlen, (encodeEntities_eq_ok_iff es _).mpr ⟨hes, rfl⟩]
    rfl

/-- An entity is never shorter than its three numbers, so the count that a frame starts with
never exceeds what the guard of `take` allows. -/
theorem header_le_length (es : List EntityFrame) :
    entityHeader * es.length ≤ (es.flatMap entityBytes).length := by
  induction es with
  | nil => simp
  | cons e es ih =>
    simp only [entityBytes, entityHeader, List.flatMap_cons, List.length_append, List.length_cons,
      length_int32] at ih ⊢
    omega

/-- A list of entities is taken whole: the guard lets it pass. -/
theorem take_entities (es : List EntityFrame) (rest : Bytes) (hne : es ≠ [])
    (hlen : es.length < fieldBound) (hes : ∀ e ∈ es, Writable e) :
    take (int32 es.length ++ (es.flatMap entityBytes ++ rest)) = some (.entities es, rest) := by
  have hbound : fieldBound = 0x80000000 := rfl
  have hpos : es.length ≠ 0 := fun h => hne (List.eq_nil_of_length_eq_zero h)
  have hguard : ¬ ((es.length : Int) < 0 ∨
      (es.flatMap entityBytes ++ rest).length / entityHeader < (es.length : Int).toNat) := by
    have := header_le_length es
    simp only [entityHeader, List.length_append, Int.toNat_natCast] at this ⊢
    omega
  have htaken : takeEntities (es.length : Int).toNat (es.flatMap entityBytes ++ rest)
      = some (es, rest) :=
    (takeEntities_eq_some_iff _ _ _ _).mpr ⟨by simp, hes, rfl⟩
  simp only [take, takeInt_int32 (es.length : Int) _ (by omega) (by omega),
    Option.bind_eq_bind, Option.bind_some]
  rw [if_neg (by omega), if_neg (by omega), if_neg hguard, htaken]
  rfl

/-- What is taken is told from the count alone, or is as many entities as the count says. -/
theorem take_cases {bytes rest : Bytes} {r : Response} (h : take bytes = some (r, rest)) :
    (r = .missing ∧ bytes = int32 0 ++ rest) ∨ (r = .failed ∧ bytes = int32 (-1) ++ rest) ∨
      ∃ es, r = .entities es ∧ es ≠ [] ∧ es.length < fieldBound ∧ (∀ e ∈ es, Writable e) ∧
        bytes = int32 es.length ++ (es.flatMap entityBytes ++ rest) := by
  rcases hint : takeInt bytes with _ | ⟨count, tail⟩
  · simp [take, hint] at h
  obtain ⟨_, hhigh, rfl⟩ := (takeInt_eq_some_iff _ _ _).mp hint
  simp only [take, hint, Option.bind_eq_bind, Option.bind_some] at h
  split at h
  · rename_i hzero
    cases h
    exact .inl ⟨rfl, by rw [hzero]⟩
  split at h
  · rename_i hfailed
    cases h
    exact .inr (.inl ⟨rfl, by rw [hfailed]⟩)
  split at h
  · cases h
  rename_i hzero _ hguard
  rcases hes : takeEntities count.toNat tail with _ | ⟨es, later⟩
  · simp [hes] at h
  simp only [hes, Option.bind_some, Option.pure_def, Option.some.injEq, Prod.mk.injEq] at h
  obtain ⟨rfl, rfl⟩ := h
  obtain ⟨hlen, hwritable, rfl⟩ := (takeEntities_eq_some_iff _ _ _ _).mp hes
  have hbound : fieldBound = 0x80000000 := rfl
  have hcount : (es.length : Int) = count := by omega
  refine .inr (.inr ⟨es, rfl, ?_, by omega, hwritable, by rw [hcount]⟩)
  rintro rfl
  simp at hcount
  omega

/-- What follows a frame is left over, and only a frame is taken. The empty list of entities
has the frame of a missing file, so it is never read. -/
theorem take_eq_some_iff (bytes rest : Bytes) (r : Response) :
    take bytes = some (r, rest) ↔
      r ≠ .entities [] ∧ ∃ frame, r.encode = .ok frame ∧ bytes = frame ++ rest := by
  constructor
  · intro h
    rcases take_cases h with ⟨rfl, rfl⟩ | ⟨rfl, rfl⟩ | ⟨es, rfl, hne, hlen, hes, rfl⟩
    · exact ⟨nofun, _, rfl, rfl⟩
    · exact ⟨nofun, _, rfl, rfl⟩
    · refine ⟨fun hnil => ?_, _, (encode_entities_eq_ok_iff es _).mpr ⟨hlen, hes, rfl⟩, ?_⟩
      · rw [Response.entities.injEq] at hnil
        exact hne hnil
      · rw [List.append_assoc]
  · rintro ⟨hne, frame, hframe, rfl⟩
    cases r with
    | missing =>
      cases hframe
      simp [take, takeInt_int32]
    | failed =>
      cases hframe
      simp [take, takeInt_int32]
    | entities es =>
      obtain ⟨hlen, hes, rfl⟩ := (encode_entities_eq_ok_iff _ _).mp hframe
      rw [List.append_assoc]
      exact take_entities es rest (fun hnil => hne (by rw [hnil])) hlen hes

/-- A frame is read whole, whatever follows it. -/
theorem decode_append (r : Response) (frame rest : Bytes) (hne : r ≠ .entities [])
    (hframe : r.encode = .ok frame) : decode (frame ++ rest) = some (r, frame.length) := by
  have htake := (take_eq_some_iff _ rest r).mpr ⟨hne, frame, hframe, rfl⟩
  simp [decode, htake]

/-! ## Streams of frames -/

/-- The bytes are read as these responses, one after the other, and nothing is left over. -/
inductive ReadAs : Bytes → List Response → Prop
  | nil : ReadAs [] []
  | cons {bytes : Bytes} {r : Response} {n : Nat} {rs : List Response} :
      decode bytes = some (r, n) → ReadAs (bytes.drop n) rs → ReadAs bytes (r :: rs)

theorem readAs_flatten {frames : List Bytes} {rs : List Response}
    (h : List.Forall₂ (fun frame r => r ≠ .entities [] ∧ r.encode = .ok frame) frames rs) :
    ReadAs frames.flatten rs := by
  induction h with
  | nil => exact .nil
  | @cons frame r frames rs hr _ ih =>
    obtain ⟨hne, hframe⟩ := hr
    refine .cons (decode_append r frame frames.flatten hne hframe) ?_
    rw [List.flatten_cons, List.drop_left]
    exact ih

/-- Bytes are read in one way only. -/
theorem ReadAs.unique {bytes : Bytes} {rs rs' : List Response} (h : ReadAs bytes rs)
    (h' : ReadAs bytes rs') : rs = rs' := by
  induction h generalizing rs' with
  | nil =>
    cases h' with
    | nil => rfl
    | cons hfirst _ => cases hfirst
  | cons hfirst _ ih =>
    cases h' with
    | nil => cases hfirst
    | cons hfirst' hrest' =>
      rw [hfirst, Option.some.injEq, Prod.mk.injEq] at hfirst'
      obtain ⟨rfl, rfl⟩ := hfirst'
      rw [ih hrest']

/-! ## The laws -/

/-- Decoding accepts the encodings of responses and nothing else: it gives a response and a
length exactly when the bytes start with the frame of that response and the frame is that
long. -/
theorem decoding_accepts_exactly_the_canonical_frame (bytes : Bytes) (r : Response) (n : Nat) :
    decode bytes = some (r, n) ↔
      r ≠ .entities [] ∧ n ≤ bytes.length ∧ r.encode = .ok (bytes.take n) := by
  constructor
  · intro h
    rcases htake : take bytes with _ | ⟨r', rest⟩
    · simp [decode, htake] at h
    simp only [decode, htake, Option.bind_eq_bind, Option.bind_some, Option.pure_def,
      Option.some.injEq, Prod.mk.injEq] at h
    obtain ⟨rfl, rfl⟩ := h
    obtain ⟨hne, frame, hframe, rfl⟩ := (take_eq_some_iff _ _ _).mp htake
    refine ⟨hne, by omega, ?_⟩
    rw [hframe, List.length_append, Nat.add_sub_cancel, List.take_left]
  · rintro ⟨hne, hn, hframe⟩
    have h := decode_append r (bytes.take n) (bytes.drop n) hne hframe
    rwa [List.take_append_drop, List.length_take, Nat.min_eq_left hn] at h

/-- A frame that is cut short is not read as anything. -/
theorem a_frame_cut_short_is_not_read (r : Response) (frame : Bytes) (n : Nat)
    (hframe : r.encode = .ok frame) (hn : n < frame.length) : decode (frame.take n) = none := by
  -- The empty list shares its frame with a missing file, which is read instead of it.
  obtain ⟨whole, hne, hwhole⟩ : ∃ whole : Response, whole ≠ .entities [] ∧
      whole.encode = .ok frame := by
    by_cases hr : r = .entities []
    · subst hr
      exact ⟨.missing, by simp, hframe⟩
    · exact ⟨r, hr, hframe⟩
  rcases htake : take (frame.take n) with _ | ⟨r', rest⟩
  · simp [decode, htake]
  · exfalso
    obtain ⟨hne', start, hstart, hsplit⟩ := (take_eq_some_iff _ _ _).mp htake
    have hframe' : frame = start ++ (rest ++ frame.drop n) := by
      rw [← List.append_assoc, ← hsplit, List.take_append_drop]
    have hshort := (take_eq_some_iff frame _ r').mpr ⟨hne', start, hstart, hframe'⟩
    have hlong := (take_eq_some_iff frame [] whole).mpr ⟨hne, frame, hwhole, by simp⟩
    rw [hshort, Option.some.injEq, Prod.mk.injEq] at hlong
    have hrest := congrArg List.length hlong.2
    simp only [List.length_append, List.length_drop, List.length_nil] at hrest
    omega

end Response

end UnitAtlas
