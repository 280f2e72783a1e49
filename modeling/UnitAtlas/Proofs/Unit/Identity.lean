-- What the digest of a unit binds. The bytes that are hashed can be read back: the name ends at
-- the first zero byte, the numbers and lengths have fixed widths, and the digests behind them all
-- have one size. So as long as no two of the hashed strings collide, equal digests are of units
-- with the same content, and of the same content all the way down.
import Mathlib.Algebra.Group.Nat.Defs
import Mathlib.Data.List.Forall2
import Mathlib.Data.List.Nodup
import UnitAtlas.Proofs.Text.Utf8
import UnitAtlas.Proofs.Unit.Nesting
import UnitAtlas.Unit.Identity

namespace UnitAtlas.Identity

open CodeUnit

/-! ## Numbers of a fixed width -/

@[simp] theorem length_littleEndian (count n : Nat) : (littleEndian count n).length = count := by
  rw [littleEndian, List.length_map, List.length_range]

theorem littleEndian_succ (count n : Nat) :
    littleEndian (count + 1) n = n.toUInt8 :: littleEndian count (n / 256) := by
  have hdiv : n / 256 = n >>> 8 := (Nat.shiftRight_eq_div_pow n 8).symm
  rw [littleEndian, List.range_succ_eq_map, List.map_cons, List.map_map, littleEndian, hdiv]
  refine congrArg₂ _ rfl (List.map_congr_left fun i _ => ?_)
  rw [Function.comp_apply, Nat.mul_succ, Nat.add_comm, Nat.shiftRight_add]

/-- Numbers that fit are told by their bytes. -/
theorem littleEndian_inj {count m n : Nat} (hm : m < 256 ^ count) (hn : n < 256 ^ count) :
    littleEndian count m = littleEndian count n ↔ m = n := by
  refine ⟨fun h => ?_, congrArg _⟩
  induction count generalizing m n with
  | zero => omega
  | succ count ih =>
    rw [littleEndian_succ, littleEndian_succ, List.cons.injEq] at h
    obtain ⟨hlow, hhigh⟩ := h
    have hlow : m % 256 = n % 256 := congrArg UInt8.toNat hlow
    rw [Nat.pow_succ] at hm hn
    have hhigh : m / 256 = n / 256 :=
      ih (Nat.div_lt_of_lt_mul (by omega)) (Nat.div_lt_of_lt_mul (by omega)) hhigh
    omega

/-! ## What a unit says of itself -/

/-- Two units say the same of themselves, as far as their digests go. -/
structure SameOwn (a b : UnitInfo) : Prop where
  name : a.name = b.name
  firstLine : a.firstLine = b.firstLine
  code : a.code = b.code
  lineTable : a.lineTable = b.lineTable

/-- The zero byte ends the name, and the lengths are machine words. -/
structure Delimited (info : UnitInfo) : Prop where
  name : 0 ∉ Utf8.encode info.name
  code : info.code.length < 2 ^ 64
  lineTable : info.lineTable.length < 2 ^ 64

/-- A name ends at the first zero byte. -/
theorem name_append_inj {s t : String} {rest rest' : Bytes} (hs : 0 ∉ Utf8.encode s)
    (ht : 0 ∉ Utf8.encode t) (h : Utf8.encode s ++ 0 :: rest = Utf8.encode t ++ 0 :: rest') :
    s = t ∧ rest = rest' := by
  have hsplit := congrArg (List.splitOn 0) h
  rw [List.splitOn_append_cons_self_of_not_mem hs, List.splitOn_append_cons_self_of_not_mem ht,
    List.cons.injEq] at hsplit
  have hname := Utf8.encode_inj.mp hsplit.1
  subst hname
  exact ⟨rfl, (List.cons.inj (List.append_cancel_left h)).2⟩

/-- A buffer behind its length ends where the length says. -/
theorem counted_append_inj {as bs rest rest' : Bytes} (ha : as.length < 2 ^ 64)
    (hb : bs.length < 2 ^ 64)
    (h : littleEndian 8 as.length ++ (as ++ rest) = littleEndian 8 bs.length ++ (bs ++ rest')) :
    as = bs ∧ rest = rest' := by
  obtain ⟨hlength, h⟩ := List.append_inj h (by simp only [length_littleEndian])
  exact List.append_inj h ((littleEndian_inj (by omega) (by omega)).mp hlength)

/-- What a unit says of itself can be read off the start of the bytes. -/
theorem ownBytes_append_inj {a b : UnitInfo} {rest rest' : Bytes} (ha : Delimited a)
    (hb : Delimited b) :
    ownBytes a ++ rest = ownBytes b ++ rest' ↔ SameOwn a b ∧ rest = rest' := by
  constructor
  · intro h
    simp only [ownBytes, List.append_assoc, List.cons_append] at h
    obtain ⟨hname, h⟩ := name_append_inj ha.name hb.name h
    obtain ⟨hline, h⟩ := List.append_inj h (by simp only [length_littleEndian])
    obtain ⟨hcode, h⟩ := counted_append_inj ha.code hb.code h
    obtain ⟨htable, hrest⟩ := counted_append_inj ha.lineTable hb.lineTable h
    have hline := (littleEndian_inj a.firstLine.toNat_lt b.firstLine.toNat_lt).mp hline
    exact ⟨⟨hname, UInt32.toNat_inj.mp hline, hcode, htable⟩, hrest⟩
  · rintro ⟨⟨hname, hline, hcode, htable⟩, rfl⟩
    unfold ownBytes
    rw [hname, hline, hcode, htable]

/-! ## Digests of nested units -/

/-- The byte string that is hashed for a unit. -/
def hashedBytes (hash : Bytes → Bytes) (u : CodeUnit) : Bytes :=
  ownBytes u.info ++ digestsWith hash u.consts

theorem digestWith_eq (hash : Bytes → Bytes) (u : CodeUnit) :
    digestWith hash u = hash (hashedBytes hash u) := by
  cases u
  rw [digestWith, hashedBytes]

/-- Literals leave no trace among the digests. -/
theorem digestsWith_eq (hash : Bytes → Bytes) (cs : List (Constant CodeUnit)) :
    digestsWith hash cs = ((unitsOf cs).map (digestWith hash)).flatten := by
  induction cs with
  | nil => rw [digestsWith]; rfl
  | cons c cs ih =>
    rw [digestsWith, ih]
    cases c with
    | literal l => rw [constantDigestWith, List.nil_append, unitsOf_literal]
    | unit u => rw [constantDigestWith, unitsOf_unit, List.map_cons, List.flatten_cons]

/-- Pieces of one size are told by what they are together. -/
theorem flatten_inj_of_length {size : Nat} (hsize : 0 < size) {xs ys : List Bytes}
    (hxs : ∀ x ∈ xs, x.length = size) (hys : ∀ y ∈ ys, y.length = size) :
    xs.flatten = ys.flatten ↔ xs = ys := by
  refine ⟨fun h => ?_, congrArg _⟩
  have hlengths : ∀ {zs : List Bytes}, (∀ z ∈ zs, z.length = size) →
      zs.map List.length = List.replicate zs.length size := by
    intro zs hzs
    rw [List.eq_replicate_iff, List.length_map]
    exact ⟨rfl, by simpa using hzs⟩
  have hcount : xs.length * size = ys.length * size := by
    have htotal := congrArg List.length h
    rwa [List.length_flatten, List.length_flatten, hlengths hxs, hlengths hys,
      List.sum_replicate_nat, List.sum_replicate_nat] at htotal
  rw [List.eq_iff_flatten_eq, hlengths hxs, hlengths hys, Nat.eq_of_mul_eq_mul_right hsize hcount]
  exact ⟨h, rfl⟩

/-! ## Trees with the same content -/

/-- Two units have the same name, first line, instructions and line table, and so have, pairwise
in order, the units nested in them. -/
inductive SameContent : CodeUnit → CodeUnit → Prop where
  | intro {u v : CodeUnit} (own : SameOwn u.info v.info)
      (nested : List.Forall₂ SameContent u.nested v.nested) : SameContent u v

theorem sameContent_iff {u v : CodeUnit} :
    SameContent u v ↔ SameOwn u.info v.info ∧ List.Forall₂ SameContent u.nested v.nested := by
  constructor
  · rintro ⟨own, nested⟩
    exact ⟨own, nested⟩
  · rintro ⟨own, nested⟩
    exact ⟨own, nested⟩

/-! ## What the digest binds -/

/-- Different strings have different digests, of 32 bytes each. -/
structure TellsApart (hash : Bytes → Bytes) (strings : Bytes → Prop) : Prop where
  length : ∀ s, strings s → (hash s).length = 32
  different : ∀ s t, strings s → strings t → s ≠ t → hash s ≠ hash t

theorem TellsApart.hash_inj {hash : Bytes → Bytes} {strings : Bytes → Prop}
    (h : TellsApart hash strings) {s t : Bytes} (hs : strings s) (ht : strings t) :
    hash s = hash t ↔ s = t :=
  ⟨fun heq => Classical.byContradiction fun hne => h.different s t hs ht hne heq, congrArg hash⟩

/-- The parts of a unit can be told in its bytes, and those are among the strings. -/
structure Hashed (hash : Bytes → Bytes) (strings : Bytes → Prop) (u : CodeUnit) : Prop where
  delimited : Delimited u.info
  hashed : strings (hashedBytes hash u)

section

variable {hash : Bytes → Bytes} {strings : Bytes → Prop}

/-- The digests of nested units have one size, so they are told one by one. -/
theorem digestsWith_inj (hhash : TellsApart hash strings) {u v : CodeUnit}
    (hu : ∀ w ∈ u.nested, strings (hashedBytes hash w))
    (hv : ∀ w ∈ v.nested, strings (hashedBytes hash w)) :
    digestsWith hash u.consts = digestsWith hash v.consts ↔
      List.Forall₂ (fun a b => digestWith hash a = digestWith hash b) u.nested v.nested := by
  have hsize : ∀ {w : CodeUnit}, (∀ x ∈ w.nested, strings (hashedBytes hash x)) →
      ∀ d ∈ w.nested.map (digestWith hash), d.length = 32 := by
    intro w hw d hd
    obtain ⟨x, hx, rfl⟩ := List.mem_map.mp hd
    rw [digestWith_eq]
    exact hhash.length _ (hw x hx)
  rw [digestsWith_eq, digestsWith_eq, ← nested_eq, ← nested_eq,
    flatten_inj_of_length (by omega) (hsize hu) (hsize hv), ← List.forall₂_eq_eq_eq,
    List.forall₂_map_left_iff, List.forall₂_map_right_iff]

theorem forall₂_congr_of_mem {α β : Type} {R S : α → β → Prop} {as : List α} {bs : List β}
    (h : ∀ a ∈ as, ∀ b ∈ bs, R a b ↔ S a b) : List.Forall₂ R as bs ↔ List.Forall₂ S as bs := by
  rw [List.forall₂_iff_zip, List.forall₂_iff_zip]
  refine and_congr_right fun _ => ?_
  constructor
  · intro hR a b hab
    have hmem := List.of_mem_zip hab
    exact (h a hmem.1 b hmem.2).mp (hR hab)
  · intro hS a b hab
    have hmem := List.of_mem_zip hab
    exact (h a hmem.1 b hmem.2).mpr (hS hab)

/-- Digests of units whose strings do not collide are equal just when the contents are. -/
theorem digestWith_inj (hhash : TellsApart hash strings) {u v : CodeUnit}
    (hu : u.Throughout (Hashed hash strings)) (hv : v.Throughout (Hashed hash strings)) :
    digestWith hash u = digestWith hash v ↔ SameContent u v := by
  induction u using induction generalizing v with
  | unit u ih =>
    obtain ⟨hu, hunested⟩ := throughout_iff.mp hu
    obtain ⟨hv, hvnested⟩ := throughout_iff.mp hv
    have hstrings : ∀ {w : CodeUnit}, (∀ x ∈ w.nested, x.Throughout (Hashed hash strings)) →
        ∀ x ∈ w.nested, strings (hashedBytes hash x) :=
      fun hw x hx => (throughout_iff.mp (hw x hx)).1.hashed
    calc digestWith hash u = digestWith hash v
      _ ↔ hashedBytes hash u = hashedBytes hash v := by
        rw [digestWith_eq, digestWith_eq, hhash.hash_inj hu.hashed hv.hashed]
      _ ↔ SameOwn u.info v.info ∧ digestsWith hash u.consts = digestsWith hash v.consts :=
        ownBytes_append_inj hu.delimited hv.delimited
      _ ↔ SameOwn u.info v.info ∧ List.Forall₂ SameContent u.nested v.nested := by
        rw [digestsWith_inj hhash (hstrings hunested) (hstrings hvnested),
          forall₂_congr_of_mem fun a ha b hb => ih a ha (hunested a ha) (hvnested b hb)]
      _ ↔ SameContent u v := sameContent_iff.symm

end

/-- The string is hashed for a unit or for one below it. -/
def HashedFor (hash : Bytes → Bytes) (u : CodeUnit) (s : Bytes) : Prop :=
  ∃ a w, u.at? a = some w ∧ s = hashedBytes hash w

/-- Take two trees of units without zero bytes in their names and with buffers whose lengths are
machine words, and a hash under which the strings hashed for their units do not collide. Their
digests are equal just when the trees have the same names, first lines, instructions and line
tables all the way down. -/
theorem equal_digests_are_of_the_same_content (hash : Bytes → Bytes) (u v : CodeUnit)
    (hu : u.Throughout fun w => Delimited w.info) (hv : v.Throughout fun w => Delimited w.info)
    (hhash : TellsApart hash fun s => HashedFor hash u s ∨ HashedFor hash v s) :
    digestWith hash u = digestWith hash v ↔ SameContent u v := by
  apply digestWith_inj hhash
  · exact fun a w hw => ⟨hu a w hw, Or.inl ⟨a, w, hw, rfl⟩⟩
  · exact fun a w hw => ⟨hv a w hw, Or.inr ⟨a, w, hw, rfl⟩⟩

/-! ## Two modules under SHA-256 -/

/-- Eight words of four bytes. -/
theorem length_sha256 (message : Bytes) : (Sha256.digest message).length = 32 := rfl

/-- A function at a line. -/
def functionAt (line : UInt32) : CodeUnit :=
  ⟨⟨"f", "m.py", line, [100, 0, 0, 83], [0, 1], [], ["a"], 1, 0, .empty⟩, [.literal .none]⟩

/-- The module around a function at a line. Its string fills one block of the hash. -/
def moduleAround (line : UInt32) : CodeUnit :=
  ⟨⟨"m", "m.py", 1, [83], [], ["f"], [], 0, 0, .empty⟩,
    [.unit (functionAt line), .literal .none]⟩

theorem delimited_moduleAround (line : UInt32) :
    (moduleAround line).Throughout fun w => Delimited w.info := by
  refine throughout_iff.mpr ⟨⟨(by decide : 0 ∉ Utf8.encode "m"), ?_, ?_⟩, fun v hv => ?_⟩
  · simp [moduleAround]
  · simp [moduleAround]
  · cases List.mem_singleton.mp hv
    refine throughout_iff.mpr ⟨⟨(by decide : 0 ∉ Utf8.encode "f"), ?_, ?_⟩, nofun⟩
    · simp [functionAt]
    · simp [functionAt]

theorem hashedFor_moduleAround {hash : Bytes → Bytes} {line : UInt32} {s : Bytes}
    (h : HashedFor hash (moduleAround line) s) :
    s = hashedBytes hash (moduleAround line) ∨ s = hashedBytes hash (functionAt line) := by
  obtain ⟨a, w, hw, rfl⟩ := h
  match a with
  | [] => cases hw; exact Or.inl rfl
  | [0] => cases hw; exact Or.inr rfl
  | 0 :: _ :: _ => cases hw
  | (_ + 1) :: _ => cases hw

/-- The strings hashed for two modules whose functions are at different lines. -/
def stringsOfBoth : List Bytes :=
  [hashedBytes Sha256.digest (moduleAround 2), hashedBytes Sha256.digest (functionAt 2),
    hashedBytes Sha256.digest (moduleAround 3), hashedBytes Sha256.digest (functionAt 3)]

theorem tellsApart_both : TellsApart Sha256.digest fun s =>
    HashedFor Sha256.digest (moduleAround 2) s ∨ HashedFor Sha256.digest (moduleAround 3) s where
  length s _ := length_sha256 s
  different s t hs ht hne heq := by
    -- The first bytes of the four digests differ already.
    have hheads : stringsOfBoth.map (fun s => (Sha256.digest s).head?) =
        [some 31, some 131, some 115, some 153] := by decide +kernel
    have hnodup : (stringsOfBoth.map fun s => (Sha256.digest s).head?).Nodup := by
      rw [hheads]
      decide
    have hmem : ∀ {s}, HashedFor Sha256.digest (moduleAround 2) s ∨
        HashedFor Sha256.digest (moduleAround 3) s → s ∈ stringsOfBoth := by
      intro s hs
      unfold stringsOfBoth
      rcases hs with hs | hs <;> rcases hashedFor_moduleAround hs with rfl | rfl <;> simp
    exact hne (List.inj_on_of_nodup_map hnodup (hmem hs) (hmem ht) (congrArg List.head? heq))

/-- A function that has moved changes the digest of the module around it. -/
theorem a_moved_function_changes_the_digest :
    ((moduleAround 2).Throughout fun w => Delimited w.info) ∧
      ((moduleAround 3).Throughout fun w => Delimited w.info) ∧
      (TellsApart Sha256.digest fun s => HashedFor Sha256.digest (moduleAround 2) s ∨
        HashedFor Sha256.digest (moduleAround 3) s) ∧
      digest (moduleAround 2) ≠ digest (moduleAround 3) := by
  refine ⟨delimited_moduleAround 2, delimited_moduleAround 3, tellsApart_both, fun h => ?_⟩
  have hsame := (equal_digests_are_of_the_same_content _ _ _ (delimited_moduleAround 2)
    (delimited_moduleAround 3) tellsApart_both).mp h
  obtain ⟨-, hnested⟩ := sameContent_iff.mp hsame
  obtain ⟨hfunction, -⟩ := List.forall₂_cons.mp hnested
  obtain ⟨hown, -⟩ := sameContent_iff.mp hfunction
  exact absurd hown.firstLine (by decide)

end UnitAtlas.Identity
