import GroupOffsets.Text.Numeral
import GroupOffsets.Text.Blank

/-!
# Numeral round trip

What `Numeral.print` writes, `Numeral.read` reads, if the number is in range.  A numeral consists
of digits behind an optional minus sign, so it can be told apart from whatever stands around it.
-/

namespace GroupOffsets

namespace Numeral

variable {bound below above n d : Nat} {beyond : Fault} {c : Char} {cs : List Char} {i : Int}

/-! ## Digits -/

theorem digit?_digitChar (h : d < 10) : digit? (digitChar d) = some d := by
  have hall : ∀ d : Fin 10, digit? (digitChar d.val) = some d.val := by decide
  exact hall ⟨d, h⟩

theorem digit?_isSome_of_mem (h : c ∈ digits n) : (digit? c).isSome := by
  fun_induction digits n with
  | case1 n hn =>
      rw [List.mem_singleton.mp h, digit?_digitChar hn]
      rfl
  | case2 n hn ih =>
      rcases List.mem_append.mp h with h | h
      · exact ih h
      · rw [List.mem_singleton.mp h, digit?_digitChar (Nat.mod_lt _ (by decide))]
        rfl

theorem digits_ne_nil : digits n ≠ [] := by
  rw [digits]
  split <;> simp

/-- A character that is no digit and no sign stands in no numeral. -/
theorem not_mem_print (hdigit : digit? c = none) (hsign : c ≠ '-') : c ∉ print i := by
  have hdigits : ∀ n, c ∉ digits n := by
    intro n h
    have hsome := digit?_isSome_of_mem h
    rw [hdigit] at hsome
    cases hsome
  cases i with
  | ofNat n => exact hdigits n
  | negSucc n => simp [print, hsign, hdigits]

theorem isBlank_eq_false_of_digit (h : (digit? c).isSome) : Text.isBlank c = false := by
  have hrange : '0' ≤ c ∧ c ≤ '9' := by
    apply Decidable.byContradiction
    intro hc
    simp [digit?, hc] at h
  have hlow : 48 ≤ c.toNat := hrange.1
  have hhigh : c.toNat ≤ 57 := hrange.2
  simp [Text.isBlank]
  omega

theorem isBlank_eq_false_of_mem_print (h : c ∈ print i) : Text.isBlank c = false := by
  cases i with
  | ofNat n => exact isBlank_eq_false_of_digit (digit?_isSome_of_mem h)
  | negSucc n =>
      rcases List.mem_cons.mp h with rfl | h
      · decide
      · exact isBlank_eq_false_of_digit (digit?_isSome_of_mem h)

/-! ## Reading -/

theorem magnitude_append (cs' : List Char) : magnitude bound beyond n (cs ++ cs') =
    (magnitude bound beyond n cs).bind fun m ↦ magnitude bound beyond m cs' := by
  induction cs generalizing n with
  | nil => rfl
  | cons c cs ih =>
      rw [List.cons_append, magnitude, magnitude]
      split
      · rfl
      · split
        · rfl
        · exact ih

theorem magnitude_digitChar (hd : d < 10) (h : n * 10 + d ≤ bound) :
    magnitude bound beyond n [digitChar d] = .ok (n * 10 + d) := by
  simp [magnitude, digit?_digitChar hd, Nat.not_lt.mpr h]

theorem magnitude_digits (h : n ≤ bound) : magnitude bound beyond 0 (digits n) = .ok n := by
  fun_induction digits n with
  | case1 n hn =>
      rw [magnitude_digitChar hn (by omega), Nat.zero_mul, Nat.zero_add]
  | case2 n hn ih =>
      have hdiv : n / 10 * 10 + n % 10 = n := Nat.div_add_mod' n 10
      rw [magnitude_append, ih (by omega)]
      simp only [Except.bind]
      rw [magnitude_digitChar (Nat.mod_lt _ (by decide)) (by omega), hdiv]

/-- Without a sign in front, a numeral is read as its digits. -/
theorem read_of_digit (h : (digit? c).isSome) : read below above (c :: cs) =
    (magnitude above .tooLarge 0 (c :: cs)).map Int.ofNat := by
  have hplus : c ≠ '+' := by
    rintro rfl
    cases h
  have hminus : c ≠ '-' := by
    rintro rfl
    cases h
  rw [read] <;> simp [hplus, hminus]

theorem read_minus (hne : cs ≠ []) : read below above ('-' :: cs) =
    (magnitude below .tooSmall 0 cs).map fun n ↦ -Int.ofNat n := by
  cases cs with
  | nil => exact absurd rfl hne
  | cons c cs => rfl

theorem read_print (hlow : -(below : Int) ≤ i) (hhigh : i ≤ above) :
    read below above (print i) = .ok i := by
  cases i with
  | ofNat n =>
      have hn : n ≤ above := Int.ofNat_le.mp hhigh
      have hread : read below above (digits n) =
          (magnitude above .tooLarge 0 (digits n)).map Int.ofNat := by
        cases hd : digits n with
        | nil => exact absurd hd digits_ne_nil
        | cons c cs => exact read_of_digit (digit?_isSome_of_mem (n := n) (by simp [hd]))
      rw [print, hread, magnitude_digits hn]
      rfl
  | negSucc n =>
      have hn : n + 1 ≤ below := by omega
      rw [print, read_minus digits_ne_nil, magnitude_digits hn]
      rfl

theorem readInt32_print (x : Int32) : readInt32 (print x.toInt) = .ok x := by
  rw [readInt32, read_print (by exact x.le_toInt) (by exact Int.le_of_lt_add_one x.toInt_lt)]
  simp [Except.map]

theorem readInt64_print (x : Int64) : readInt64 (print x.toInt) = .ok x := by
  rw [readInt64, read_print (by exact x.le_toInt) (by exact Int.le_of_lt_add_one x.toInt_lt)]
  simp [Except.map]

/-! ## What numerals denote -/

/-- The number that decimal digits stand for, behind those of `n`. -/
def placeValue (n : Nat) (ds : List Nat) : Nat := ds.foldl (fun n d ↦ n * 10 + d) n

/-- A text denotes a whole number: at least one decimal digit, behind a sign or none. -/
inductive Denotes : List Char → Int → Prop
  | plain {ds : List Nat} (nonempty : ds ≠ []) (decimal : ∀ d ∈ ds, d < 10) :
      Denotes (ds.map digitChar) (placeValue 0 ds)
  | plus {ds : List Nat} (nonempty : ds ≠ []) (decimal : ∀ d ∈ ds, d < 10) :
      Denotes ('+' :: ds.map digitChar) (placeValue 0 ds)
  | minus {ds : List Nat} (nonempty : ds ≠ []) (decimal : ∀ d ∈ ds, d < 10) :
      Denotes ('-' :: ds.map digitChar) (-(placeValue 0 ds))

/-- Without a minus sign, what a text denotes is not negative. -/
theorem Denotes.nonneg (h : Denotes cs i) (hsign : '-' ∉ cs) : 0 ≤ i := by
  cases h with
  | plain => exact Int.natCast_nonneg _
  | plus => exact Int.natCast_nonneg _
  | minus => exact absurd List.mem_cons_self hsign

theorem digit?_eq_some : digit? c = some d ↔ d < 10 ∧ c = digitChar d := by
  constructor
  · intro h
    rw [digit?] at h
    split at h
    · rename_i hrange
      have hlow : 48 ≤ c.toNat := hrange.1
      have hhigh : c.toNat ≤ 57 := hrange.2
      have hzero : '0'.toNat = 48 := rfl
      cases h
      refine ⟨by omega, ?_⟩
      rw [digitChar, hzero, Nat.add_sub_cancel' hlow, Char.ofNat_toNat]
    · cases h
  · rintro ⟨hd, rfl⟩
    exact digit?_digitChar hd

theorem le_placeValue (n : Nat) (ds : List Nat) : n ≤ placeValue n ds := by
  induction ds generalizing n with
  | nil => exact Nat.le_refl _
  | cons d ds ih => exact Nat.le_trans (by omega) (ih (n * 10 + d))

/-- Digits are read up to the end if the number that they stand for is within the bound. -/
theorem magnitude_eq_ok {m : Nat} (hn : n ≤ bound) : magnitude bound beyond n cs = .ok m ↔
    ∃ ds : List Nat, (∀ d ∈ ds, d < 10) ∧ cs = ds.map digitChar ∧ placeValue n ds = m ∧
      m ≤ bound := by
  induction cs generalizing n with
  | nil =>
      constructor
      · intro h
        cases h
        exact ⟨[], by simp, rfl, rfl, hn⟩
      · rintro ⟨ds, -, hds, rfl, -⟩
        rw [List.map_eq_nil_iff.mp hds.symm]
        rfl
  | cons c cs ih =>
      rw [magnitude]
      constructor
      · intro h
        split at h
        · cases h
        · rename_i d hd
          split at h
          · cases h
          · rename_i hle
            obtain ⟨hten, rfl⟩ := digit?_eq_some.mp hd
            obtain ⟨ds, hds, rfl, hm⟩ := (ih (Nat.not_lt.mp hle)).mp h
            exact ⟨d :: ds, by simpa [hten] using hds, rfl, hm⟩
      · rintro ⟨ds, hds, hcs, hm, hbound⟩
        cases ds with
        | nil => cases hcs
        | cons d ds =>
            cases hcs
            obtain ⟨hten, htail⟩ := List.forall_mem_cons.mp hds
            have hle : n * 10 + d ≤ bound :=
              Nat.le_trans (Nat.le_trans (le_placeValue _ ds) (Nat.le_of_eq hm)) hbound
            rw [digit?_digitChar hten]
            simp only [Nat.not_lt.mpr hle, if_false]
            exact (ih hle).mpr ⟨ds, htail, rfl, hm, hbound⟩

theorem map_eq_ok {α β ε : Type} {x : Except ε α} {f : α → β} {b : β} :
    x.map f = .ok b ↔ ∃ a, x = .ok a ∧ f a = b := by
  cases x <;> simp [Except.map]

/-- Numerals in range are read, and nothing else is. -/
theorem read_eq_ok :
    read below above cs = .ok i ↔ Denotes cs i ∧ -(below : Int) ≤ i ∧ i ≤ above := by
  constructor
  · intro h
    have hplain : ∀ {cs : List Char}, cs ≠ [] →
        (magnitude above .tooLarge 0 cs).map Int.ofNat = .ok i →
        ∃ ds : List Nat, ds ≠ [] ∧ (∀ d ∈ ds, d < 10) ∧ cs = ds.map digitChar ∧
          (placeValue 0 ds : Int) = i ∧ -(below : Int) ≤ i ∧ i ≤ above := by
      intro cs hne hread
      obtain ⟨m, hm, rfl⟩ := map_eq_ok.mp hread
      obtain ⟨ds, hds, rfl, rfl, hle⟩ := (magnitude_eq_ok (Nat.zero_le _)).mp hm
      refine ⟨ds, by simpa using hne, hds, rfl, rfl, ?_, Int.ofNat_le.mpr hle⟩
      exact Int.le_trans (Int.neg_nonpos_of_nonneg (Int.natCast_nonneg _)) (Int.natCast_nonneg _)
    rw [read.eq_def] at h
    split at h
    · cases h
    · cases h
    · cases h
    · rename_i hne
      obtain ⟨ds, hds, hdecimal, rfl, rfl, hrange⟩ := hplain (by simpa using hne) h
      exact ⟨.plus hds hdecimal, hrange⟩
    · rename_i hne
      obtain ⟨m, hm, rfl⟩ := map_eq_ok.mp h
      obtain ⟨ds, hdecimal, rfl, rfl, hle⟩ := (magnitude_eq_ok (Nat.zero_le _)).mp hm
      refine ⟨.minus (by simpa using hne) hdecimal, ?_, ?_⟩
      · exact Int.neg_le_neg (Int.ofNat_le.mpr hle)
      · exact Int.le_trans (Int.neg_nonpos_of_nonneg (Int.natCast_nonneg _)) (Int.natCast_nonneg _)
    · rename_i hne _ _ _ _
      obtain ⟨ds, hds, hdecimal, rfl, rfl, hrange⟩ := hplain (by simpa using hne) h
      exact ⟨.plain hds hdecimal, hrange⟩
  · rintro ⟨hdenotes, hlow, hhigh⟩
    cases hdenotes with
    | @plain ds hne hdecimal =>
        have hm : magnitude above .tooLarge 0 (ds.map digitChar) = .ok (placeValue 0 ds) :=
          (magnitude_eq_ok (Nat.zero_le _)).mpr ⟨ds, hdecimal, rfl, rfl, Int.ofNat_le.mp hhigh⟩
        obtain ⟨d, ds, rfl⟩ := List.exists_cons_of_ne_nil hne
        have hd : (digit? (digitChar d)).isSome := by
          rw [digit?_digitChar (hdecimal d (List.mem_cons_self ..))]
          rfl
        rw [List.map_cons, read_of_digit hd, ← List.map_cons, hm]
        rfl
    | @plus ds hne hdecimal =>
        have hm : magnitude above .tooLarge 0 (ds.map digitChar) = .ok (placeValue 0 ds) :=
          (magnitude_eq_ok (Nat.zero_le _)).mpr ⟨ds, hdecimal, rfl, rfl, Int.ofNat_le.mp hhigh⟩
        obtain ⟨d, ds, rfl⟩ := List.exists_cons_of_ne_nil hne
        rw [read, hm]
        · rfl
        · simp
    | @minus ds hne hdecimal =>
        have hle : placeValue 0 ds ≤ below := by omega
        have hm : magnitude below .tooSmall 0 (ds.map digitChar) = .ok (placeValue 0 ds) :=
          (magnitude_eq_ok (Nat.zero_le _)).mpr ⟨ds, hdecimal, rfl, rfl, hle⟩
        rw [read_minus (by simpa using hne), hm]
        rfl

/-- What is read into a type of whole numbers is the number in it that the text denotes. -/
theorem map_read_eq_ok {α : Type} {ofInt : Int → α} {toInt : α → Int} {x : α}
    (hof : ∀ x, ofInt (toInt x) = x)
    (hto : ∀ i, -(below : Int) ≤ i → i ≤ above → toInt (ofInt i) = i)
    (hlow : -(below : Int) ≤ toInt x) (hhigh : toInt x ≤ above) :
    (read below above cs).map ofInt = .ok x ↔ Denotes cs (toInt x) := by
  rw [map_eq_ok]
  constructor
  · rintro ⟨i, hread, rfl⟩
    obtain ⟨hdenotes, hi, hi'⟩ := read_eq_ok.mp hread
    rwa [hto i hi hi']
  · exact fun hdenotes ↦ ⟨toInt x, read_eq_ok.mpr ⟨hdenotes, hlow, hhigh⟩, hof x⟩

theorem readInt8_eq_ok {x : Int8} : readInt8 cs = .ok x ↔ Denotes cs x.toInt :=
  map_read_eq_ok (fun _ ↦ Int8.ofInt_toInt _) (fun i hi hi' ↦ Int8.toInt_ofInt_of_le hi (by omega))
    x.le_toInt (Int.le_of_lt_add_one x.toInt_lt)

theorem readInt32_eq_ok {x : Int32} : readInt32 cs = .ok x ↔ Denotes cs x.toInt :=
  map_read_eq_ok (fun _ ↦ Int32.ofInt_toInt _)
    (fun i hi hi' ↦ Int32.toInt_ofInt_of_le hi (by omega)) x.le_toInt
    (Int.le_of_lt_add_one x.toInt_lt)

theorem readInt64_eq_ok {x : Int64} : readInt64 cs = .ok x ↔ Denotes cs x.toInt :=
  map_read_eq_ok (fun _ ↦ Int64.ofInt_toInt _)
    (fun i hi hi' ↦ Int64.toInt_ofInt_of_le hi (by omega)) x.le_toInt
    (Int.le_of_lt_add_one x.toInt_lt)

end Numeral

end GroupOffsets
