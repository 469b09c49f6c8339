import GroupOffsets.Proofs.Text.Fields

/-!
# Partitions in writing

Which texts name a partition of a topic, and which partitions are read back from their own texts.
The topic ends at the last dash, so it may contain dashes itself; but the sign of a negative
partition is a dash too, and is taken for that one.
-/

namespace GroupOffsets

namespace Numeral

variable {cs : List Char} {i : Int}

/-- Decimal digits, at least one, that stand for a number; a plus sign may be in front of them. -/
def Counts (cs : List Char) (n : Nat) : Prop :=
  ∃ sign ds, (sign = [] ∨ sign = ['+']) ∧ ds ≠ [] ∧ (∀ d ∈ ds, d < 10) ∧
    cs = sign ++ ds.map digitChar ∧ placeValue 0 ds = n

/-- Without a minus sign, a numeral counts. -/
theorem denotes_iff_counts (hsign : '-' ∉ cs) : Denotes cs i ↔ ∃ n, Counts cs n ∧ i = n := by
  constructor
  · intro h
    cases h with
    | plain hne hdecimal => exact ⟨_, ⟨[], _, .inl rfl, hne, hdecimal, rfl, rfl⟩, rfl⟩
    | plus hne hdecimal => exact ⟨_, ⟨['+'], _, .inr rfl, hne, hdecimal, rfl, rfl⟩, rfl⟩
    | minus => exact absurd List.mem_cons_self hsign
  · rintro ⟨_, ⟨sign, ds, rfl | rfl, hne, hdecimal, rfl, rfl⟩, rfl⟩
    · exact .plain hne hdecimal
    · exact .plus hne hdecimal

end Numeral

namespace TopicPartition

variable {s : String} {tp : TopicPartition} {topic : String} {n : Nat}

/-- The last dash of a text stands between a topic and a number that is not beyond the largest
partition. -/
def Divides (s topic : String) (n : Nat) : Prop :=
  ∃ after, s.toList = topic.toList ++ '-' :: after ∧ '-' ∉ after ∧ Numeral.Counts after n ∧
    n ≤ 2147483647

theorem ofText_eq_ok_iff_divides :
    ofText s = .ok tp ↔ ∃ n : Nat, Divides s tp.topic n ∧ tp.partition.toInt = n := by
  rw [ofText_eq_ok]
  constructor
  · rintro ⟨after, hs, hlast, hdenotes⟩
    obtain ⟨n, hcounts, hn⟩ := (Numeral.denotes_iff_counts hlast).mp hdenotes
    have hlt : tp.partition.toInt < 2147483648 := tp.partition.toInt_lt
    exact ⟨n, ⟨after, hs, hlast, hcounts, by omega⟩, hn⟩
  · rintro ⟨n, ⟨after, hs, hlast, hcounts, -⟩, hn⟩
    exact ⟨after, hs, hlast, (Numeral.denotes_iff_counts hlast).mpr ⟨n, hcounts, hn⟩⟩

/-- Every number that a text may end in is that of a partition. -/
theorem ofText_of_divides (h : Divides s topic n) : ofText s = .ok ⟨topic, .ofNat n⟩ := by
  obtain ⟨-, -, -, -, hle⟩ := id h
  exact ofText_eq_ok_iff_divides.mpr ⟨n, h, Int32.toInt_ofNat_of_lt (by omega)⟩

/-- **Partitions in writing.**  A text can be read if it has a dash, and behind the last one decimal
digits, at least one and maybe behind a plus sign, for a number that is not beyond the largest
partition.  What stands in front of that dash is the topic then, and the number is the partition,
which therefore is not negative.  The text of a partition of any topic is read as that partition if
it is not negative, and only then. -/
theorem last_dash_divides :
    (∀ s, (∃ tp, ofText s = .ok tp) ↔ ∃ topic n, Divides s topic n) ∧
    (∀ s tp, ofText s = .ok tp ↔ ∃ n : Nat, Divides s tp.topic n ∧ tp.partition.toInt = n) ∧
    ∀ topic partition,
      ofText (text ⟨topic, partition⟩) = .ok ⟨topic, partition⟩ ↔ 0 ≤ partition := by
  refine ⟨fun s ↦ ⟨?_, ?_⟩, fun s tp ↦ ofText_eq_ok_iff_divides, fun topic partition ↦ ⟨?_, ?_⟩⟩
  · rintro ⟨tp, h⟩
    obtain ⟨n, hdivides, -⟩ := ofText_eq_ok_iff_divides.mp h
    exact ⟨tp.topic, n, hdivides⟩
  · rintro ⟨topic, n, hdivides⟩
    exact ⟨_, ofText_of_divides hdivides⟩
  · exact nonneg_of_ofText
  · exact fun h ↦ ofText_text h

/-- The sign of a negative partition goes to the topic. -/
example : (ofText (text ⟨"t", -5⟩)).toOption = some ⟨"t-", 5⟩ := by decide +kernel

end TopicPartition

end GroupOffsets
