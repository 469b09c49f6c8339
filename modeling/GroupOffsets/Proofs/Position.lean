import Mathlib.Algebra.Ring.Int.Defs
import GroupOffsets.Position

/-!
# The offset codec

The shifts and masks of `Position.encode` and `Position.decode` in whole numbers: an offset is
`segment * 2 ^ 28 + entry`, and decoding divides.
-/

namespace GroupOffsets

namespace Position

variable {o : Offset} {p : Position}

/-! ## Bits -/

theorem toInt_shiftRight_entryBits (o : Offset) : (o >>> entryBits).toInt = o.toInt / 2 ^ 28 := by
  have hbits : entryBits.toBitVec.smod 64 = 28#64 := by decide
  rw [← Int64.toInt_toBitVec, Int64.toBitVec_shiftRight, hbits, BitVec.toInt_sshiftRight',
    Int64.toInt_toBitVec]
  simp [Int.shiftRight_eq_div_pow]

theorem toInt_and_maxEntry (o : Offset) : (o &&& maxEntry).toInt = o.toInt % 2 ^ 28 := by
  have hmask : maxEntry.toBitVec.toNat = 2 ^ 28 - 1 := by decide
  have hnat : (o &&& maxEntry).toBitVec.toNat = o.toBitVec.toNat % 2 ^ 28 := by
    rw [Int64.toBitVec_and, BitVec.toNat_and, hmask, Nat.and_two_pow_sub_one_eq_mod]
  have hlt := o.toBitVec.isLt
  rw [← Int64.toInt_toBitVec, ← Int64.toInt_toBitVec, BitVec.toInt_eq_toNat_cond,
    BitVec.toInt_eq_toNat_cond, hnat]
  split <;> split <;> omega

theorem toInt_shiftLeft_or {s e : Int64} (hs : 0 ≤ s.toInt) (hs' : s.toInt < 2 ^ 35)
    (he : 0 ≤ e.toInt) (he' : e.toInt < 2 ^ 28) :
    ((s <<< entryBits) ||| e).toInt = s.toInt * 2 ^ 28 + e.toInt := by
  have hbits : entryBits.toBitVec.smod 64 = 28#64 := by decide
  have hsnat : s.toInt = s.toBitVec.toNat := by
    rw [← Int64.toInt_toBitVec, BitVec.toInt_eq_toNat_cond] at hs ⊢
    have hlt := s.toBitVec.isLt
    split at hs <;> split <;> omega
  have henat : e.toInt = e.toBitVec.toNat := by
    rw [← Int64.toInt_toBitVec, BitVec.toInt_eq_toNat_cond] at he ⊢
    have hlt := e.toBitVec.isLt
    split at he <;> split <;> omega
  rw [hsnat] at hs' ⊢
  rw [henat] at he' ⊢
  have hor : ((s <<< entryBits) ||| e).toBitVec.toNat =
      s.toBitVec.toNat * 2 ^ 28 + e.toBitVec.toNat := by
    rw [Int64.toBitVec_or, Int64.toBitVec_shiftLeft, hbits, BitVec.toNat_or]
    have hshift : (s.toBitVec <<< 28#64).toNat = s.toBitVec.toNat <<< 28 := by
      simp [BitVec.toNat_shiftLeft, Nat.shiftLeft_eq]
      omega
    rw [hshift, ← Nat.shiftLeft_add_eq_or_of_lt (by omega), Nat.shiftLeft_eq]
  rw [← Int64.toInt_toBitVec, BitVec.toInt_eq_toNat_cond, hor]
  split <;> omega

/-! ## Round trip -/

theorem toInt_maxEntry : maxEntry.toInt = 2 ^ 28 - 1 := by decide

theorem toInt_maxSegment : maxSegment.toInt = 2 ^ 35 - 1 := by decide

theorem decode_of_nonneg (h : 0 ≤ o) : decode o = .ok ⟨o >>> entryBits, o &&& maxEntry⟩ := by
  rw [decode, if_neg (Int64.not_lt.mpr h)]

theorem nonneg_of_decode (h : decode o = .ok p) : 0 ≤ o := by
  rw [decode] at h
  split at h
  · cases h
  · exact Int64.not_lt.mp ‹_›

theorem encode_of_bounds (he : 0 ≤ p.entry.toInt) (he' : p.entry.toInt < 2 ^ 28)
    (hs : 0 ≤ p.segment.toInt) (hs' : p.segment.toInt < 2 ^ 35)
    (ho : o.toInt = p.segment.toInt * 2 ^ 28 + p.entry.toInt) : encode p = .ok o := by
  have hzero : (0 : Int64).toInt = 0 := by decide
  have heq : (p.segment <<< entryBits) ||| p.entry = o :=
    Int64.toInt_inj.mp ((toInt_shiftLeft_or hs hs' he he').trans ho.symm)
  rw [encode, if_neg, if_neg, heq]
  · rw [Int64.lt_iff_toInt_lt, Int64.lt_iff_toInt_lt, toInt_maxSegment, hzero]
    omega
  · rw [Int64.lt_iff_toInt_lt, Int64.lt_iff_toInt_lt, toInt_maxEntry, hzero]
    omega

/-- Every offset that stands for a position is the offset of that position. -/
theorem encode_of_decode (h : decode o = .ok p) : encode p = .ok o := by
  by_cases ho : o < 0
  · rw [decode, if_pos ho] at h
    cases h
  · have hnonneg : 0 ≤ o.toInt := by simpa using Int64.le_iff_toInt_le.mp (Int64.not_lt.mp ho)
    have hlt : o.toInt < 2 ^ 63 := o.toInt_lt
    rw [decode, if_neg ho] at h
    cases h
    refine encode_of_bounds ?_ ?_ ?_ ?_ ?_
    all_goals
      simp only [toInt_and_maxEntry, toInt_shiftRight_entryBits]
      omega

/-! ## Positions and offsets are one order -/

/-- Both parts of a position fit into an offset. -/
def Encodable (p : Position) : Prop :=
  (0 ≤ p.entry.toInt ∧ p.entry.toInt < 2 ^ 28) ∧ 0 ≤ p.segment.toInt ∧ p.segment.toInt < 2 ^ 35

instance : Decidable p.Encodable := inferInstanceAs (Decidable (_ ∧ _))

/-- The checks of `encode` are those of the two widths. -/
theorem encode_eq (p : Position) : (p.Encodable ∧
      p.encode = .ok ((p.segment <<< entryBits) ||| p.entry)) ∨
    ¬ p.Encodable ∧ ∃ e, p.encode = .error e := by
  have hzero : (0 : Int64).toInt = 0 := by decide
  rw [encode, Encodable]
  simp only [Int64.lt_iff_toInt_lt, toInt_maxEntry, toInt_maxSegment, hzero]
  split
  · exact .inr ⟨by omega, _, rfl⟩
  · split
    · exact .inr ⟨by omega, _, rfl⟩
    · exact .inl ⟨by omega, rfl⟩

theorem encode_toOption : p.encode.toOption = some o ↔ p.encode = .ok o := by
  cases p.encode <;> simp [Except.toOption]

theorem encodable_of_encode (h : p.encode = .ok o) :
    p.Encodable ∧ o = (p.segment <<< entryBits) ||| p.entry := by
  rcases p.encode_eq with ⟨hfits, hok⟩ | ⟨-, e, herror⟩
  · exact ⟨hfits, Except.ok.inj (h.symm.trans hok)⟩
  · cases h.symm.trans herror

/-- No bit of one part gets into the other, or into the sign. -/
theorem toInt_of_encode (h : p.encode = .ok o) :
    o.toInt = p.segment.toInt * 2 ^ 28 + p.entry.toInt := by
  obtain ⟨⟨⟨he, he'⟩, hs, hs'⟩, rfl⟩ := encodable_of_encode h
  exact toInt_shiftLeft_or hs hs' he he'

theorem nonneg_of_encode (h : p.encode = .ok o) : 0 ≤ o := by
  obtain ⟨⟨⟨he, -⟩, hs, -⟩, -⟩ := encodable_of_encode h
  have hzero : (0 : Int64).toInt = 0 := by decide
  rw [Int64.le_iff_toInt_le, hzero, toInt_of_encode h]
  omega

/-- Decoding an offset by division gives the parts back. -/
theorem decode_of_encode (h : p.encode = .ok o) : decode o = .ok p := by
  obtain ⟨⟨⟨he, he'⟩, -⟩, -⟩ := encodable_of_encode h
  have ho := toInt_of_encode h
  have hsegment : o >>> entryBits = p.segment := by
    rw [← Int64.toInt_inj, toInt_shiftRight_entryBits]
    omega
  have hentry : o &&& maxEntry = p.entry := by
    rw [← Int64.toInt_inj, toInt_and_maxEntry]
    omega
  rw [decode_of_nonneg (nonneg_of_encode h), hsegment, hentry]

theorem decode_of_neg (h : o < 0) : ∃ e, decode o = .error e := ⟨_, if_pos h⟩

/-- Segments come first in the order of positions. -/
theorem lt_iff {q : Position} :
    p < q ↔ p.segment < q.segment ∨ p.segment = q.segment ∧ p.entry < q.entry := by
  have hlt : p < q ↔ (compare p.segment q.segment).then (compare p.entry q.entry) = .lt := Iff.rfl
  rw [hlt, Ordering.then_eq_lt, Std.compare_eq_lt, Std.LawfulEqCmp.compare_eq_iff_eq,
    Std.compare_eq_lt]

instance : Std.IsLinearOrder Position := .of_ord

instance : Std.LawfulOrderLT Position where
  lt_iff p q := by
    change compare p q = .lt ↔ (compare p q).isLE ∧ ¬(compare q p).isLE
    have hswap : compare q p = (compare p q).swap := Std.OrientedCmp.eq_swap
    rw [hswap]
    cases compare p q <;> simp

theorem le_max_left {q : Position} : p ≤ p.max q := by
  rw [max]
  split
  · exact Std.le_of_lt ‹_›
  · exact Std.le_refl p

theorem le_max_right {q : Position} : q ≤ p.max q := by
  rw [max]
  split
  · exact Std.le_refl q
  · exact Std.not_lt.mp ‹_›

theorem min_le_right {q : Position} : p.min q ≤ q := by
  rw [min]
  split
  · exact Std.le_refl q
  · exact Std.not_lt.mp ‹_›

theorem min_eq_left {q : Position} (h : p ≤ q) : p.min q = p := by
  rw [min, if_neg]
  exact Std.not_lt.mpr h

theorem le_min {q r : Position} (h : r ≤ p) (h' : r ≤ q) : r ≤ p.min q := by
  rw [min]
  split
  · exact h'
  · exact h

/-- With bounded entries a sum of segment and entry is ordered by segment first. -/
theorem offset_lt_iff {q : Position} {r : Offset} (hp : p.encode = .ok o) (hq : q.encode = .ok r) :
    o < r ↔ p < q := by
  obtain ⟨⟨hpe, -⟩, -⟩ := encodable_of_encode hp
  obtain ⟨⟨hqe, -⟩, -⟩ := encodable_of_encode hq
  rw [lt_iff, Int64.lt_iff_toInt_lt, Int64.lt_iff_toInt_lt, Int64.lt_iff_toInt_lt,
    ← Int64.toInt_inj, toInt_of_encode hp, toInt_of_encode hq]
  omega

theorem offset_le_of_le {q : Position} {r : Offset} (hp : p.encode = .ok o) (hq : q.encode = .ok r)
    (h : p ≤ q) : o ≤ r :=
  Int64.not_lt.mp fun hlt ↦ Std.not_lt.mpr h ((offset_lt_iff hq hp).mp hlt)

/-- The codec is an isomorphism of orders.  The positions that have an offset are those of which
both parts fit, the offsets that stand for a position are those that are not negative, coding goes
back and forth between the two without loss, and offsets are ordered as their positions are: by
segment, and inside a segment by entry. -/
theorem codec_isomorphism :
    (∀ p : Position, (∃ o, p.encode = .ok o) ↔
      (0 ≤ p.entry.toInt ∧ p.entry.toInt < 2 ^ 28) ∧
        0 ≤ p.segment.toInt ∧ p.segment.toInt < 2 ^ 35) ∧
    (∀ (p : Position) (o : Offset), p.encode = .ok o →
      o = (p.segment <<< (28 : Int64)) ||| p.entry ∧
        o.toInt = p.segment.toInt * 2 ^ 28 + p.entry.toInt ∧ decode o = .ok p) ∧
    (∀ o : Offset, (∃ p : Position, p.encode = .ok o) ↔ 0 ≤ o) ∧
    (∀ o : Offset, 0 ≤ o → ∃ p, decode o = .ok p ∧ p.encode = .ok o) ∧
    (∀ o : Offset, o < 0 → ∃ e, decode o = .error e) ∧
    (∀ (p q : Position) (o r : Offset), p.encode = .ok o → q.encode = .ok r → (o < r ↔ p < q)) ∧
    ∀ p q : Position,
      p < q ↔ p.segment < q.segment ∨ p.segment = q.segment ∧ p.entry < q.entry := by
  have honto : ∀ o : Offset, 0 ≤ o → ∃ p, decode o = .ok p ∧ p.encode = .ok o := by
    intro o ho
    have hdecode := decode_of_nonneg ho
    exact ⟨_, hdecode, encode_of_decode hdecode⟩
  refine ⟨fun p ↦ ⟨?_, fun hfits ↦ ?_⟩, fun p o h ↦ ?_, fun o ↦ ⟨?_, fun ho ↦ ?_⟩, honto,
    fun o ↦ decode_of_neg, fun p q o r ↦ offset_lt_iff, fun p q ↦ lt_iff⟩
  · rintro ⟨o, h⟩
    exact (encodable_of_encode h).1
  · rcases p.encode_eq with ⟨-, hok⟩ | ⟨hnot, -⟩
    · exact ⟨_, hok⟩
    · exact absurd hfits hnot
  · exact ⟨(encodable_of_encode h).2, toInt_of_encode h, decode_of_encode h⟩
  · rintro ⟨p, h⟩
    exact nonneg_of_encode h
  · obtain ⟨p, -, h⟩ := honto o ho
    exact ⟨p, h⟩

/-- The last entry of a segment comes right before the first one of the next segment. -/
theorem next_segment_follows :
    encode ⟨3, 268435455⟩ = .ok 1073741823 ∧ encode ⟨4, 0⟩ = .ok 1073741824 ∧
      decode 1073741823 = .ok ⟨3, 268435455⟩ ∧ (⟨3, 268435455⟩ : Position) < ⟨4, 0⟩ := by
  have hlast : encode ⟨3, 268435455⟩ = .ok 1073741823 := by decide
  have hfirst : encode ⟨4, 0⟩ = .ok 1073741824 := by decide
  obtain ⟨-, hback, -, -, -, horder, -⟩ := codec_isomorphism
  exact ⟨hlast, hfirst, (hback _ _ hlast).2.2, (horder _ _ _ _ hlast hfirst).mp (by decide)⟩

end Position

end GroupOffsets
