import GroupOffsets.Text.Utf8

/-!
# UTF-8 round trip

What `Utf8.encode` writes, `Utf8.decode` reads, and it reads nothing else.  A character takes up to
four bytes: the first one says how many follow and narrows the range of the next, so that overlong
forms and surrogates are no characters.
-/

namespace GroupOffsets

namespace Utf8

variable {n m : Nat} {s : Begun} {c : Char} {cs : List Char} {bs : List UInt8}

/-! ## Bytes -/

theorem ofNat_lt (hn : n < 256) (b : UInt8) : UInt8.ofNat n < b ↔ n < b.toNat := by
  rw [UInt8.lt_iff_toNat_lt, UInt8.toNat_ofNat_of_lt' hn]

theorem ofNat_eq (hn : n < 256) (b : UInt8) : UInt8.ofNat n = b ↔ n = b.toNat := by
  rw [← UInt8.toNat_inj, UInt8.toNat_ofNat_of_lt' hn]

theorem lead_one (h : n < 0x80) : lead (UInt8.ofNat n) = some (.inl (Char.ofNat n)) := by
  have hn : n < 256 := by omega
  simp only [lead, ofNat_lt hn, UInt8.toNat_ofNat_of_lt' hn]
  rw [if_pos (by simpa using h)]

theorem lead_two (h : 0xC2 ≤ n) (h' : n < 0xE0) :
    lead (UInt8.ofNat n) = some (.inr ⟨1, n - 0xC0, 1, 0x80, 0xBF⟩) := by
  have hn : n < 256 := by omega
  simp only [lead, ofNat_lt hn, UInt8.toNat_ofNat_of_lt' hn]
  rw [if_neg (by simp; omega), if_neg (by simp; omega), if_pos (by simpa using h')]

theorem lead_three (h : 0xE0 ≤ n) (h' : n < 0xF0) : lead (UInt8.ofNat n) =
    some (.inr ⟨1, n - 0xE0, 2, if n = 0xE0 then 0xA0 else 0x80,
      if n = 0xED then 0x9F else 0xBF⟩) := by
  have hn : n < 256 := by omega
  simp only [lead, ofNat_lt hn, ofNat_eq hn, UInt8.toNat_ofNat_of_lt' hn]
  rw [if_neg (by simp; omega), if_neg (by simp; omega), if_neg (by simp; omega)]
  by_cases hE0 : n = 0xE0
  · simp [hE0]
  · by_cases hED : n = 0xED
    · simp [hED]
    · simp [hE0, hED, h']

theorem lead_four (h : 0xF0 ≤ n) (h' : n ≤ 0xF4) : lead (UInt8.ofNat n) =
    some (.inr ⟨1, n - 0xF0, 3, if n = 0xF0 then 0x90 else 0x80,
      if n = 0xF4 then 0x8F else 0xBF⟩) := by
  have hn : n < 256 := by omega
  simp only [lead, ofNat_lt hn, ofNat_eq hn, UInt8.toNat_ofNat_of_lt' hn]
  rw [if_neg (by simp; omega), if_neg (by simp; omega), if_neg (by simp; omega),
    if_neg (by simp; omega), if_neg (by simp; omega), if_neg (by simp; omega)]
  by_cases hF0 : n = 0xF0
  · simp [hF0]
  · by_cases hF4 : n = 0xF4
    · simp [hF4]
    · have hlt : n < 0xF4 := by omega
      simp [hF0, hF4, hlt]

/-- A byte in range goes on with what was begun. -/
theorem feed_of_mem (hm : m < 64) (hlow : s.low.toNat ≤ m + 0x80)
    (hhigh : m + 0x80 ≤ s.high.toNat) :
    feed (some s) (UInt8.ofNat (m + 0x80)) =
      if s.missing ≤ 1 then ([.char (Char.ofNat (s.value * 64 + m))], none)
      else ([], some ⟨s.taken + 1, s.value * 64 + m, s.missing - 1, 0x80, 0xBF⟩) := by
  have hn : m + 0x80 < 256 := by omega
  have hrange : s.low ≤ UInt8.ofNat (m + 0x80) ∧ UInt8.ofNat (m + 0x80) ≤ s.high := by
    simp only [UInt8.le_iff_toNat_le, UInt8.toNat_ofNat_of_lt' hn]
    exact ⟨hlow, hhigh⟩
  simp only [feed, if_pos hrange, UInt8.toNat_ofNat_of_lt' hn, Nat.add_sub_cancel]

/-! ## Characters -/

theorem unitsFrom_cons (s : Option Begun) (b : UInt8) (bs : List UInt8) :
    unitsFrom s (b :: bs) = (feed s b).1 ++ unitsFrom (feed s b).2 bs := rfl

/-- The bytes that are missing after the first one, each with six bits of the character. -/
theorem unitsFrom_last (hm : m < 64) (hmissing : s.missing = 1) (hlow : s.low.toNat ≤ m + 0x80)
    (hhigh : m + 0x80 ≤ s.high.toNat) (hc : s.value * 64 + m = c.toNat) :
    unitsFrom (some s) (UInt8.ofNat (m + 0x80) :: bs) = .char c :: unitsFrom none bs := by
  rw [unitsFrom_cons, feed_of_mem hm hlow hhigh, if_pos (by omega), hc, Char.ofNat_toNat]
  rfl

theorem unitsFrom_next (hm : m < 64) (hmissing : 1 < s.missing) (hlow : s.low.toNat ≤ m + 0x80)
    (hhigh : m + 0x80 ≤ s.high.toNat) :
    unitsFrom (some s) (UInt8.ofNat (m + 0x80) :: bs) =
      unitsFrom (some ⟨s.taken + 1, s.value * 64 + m, s.missing - 1, 0x80, 0xBF⟩) bs := by
  rw [unitsFrom_cons, feed_of_mem hm hlow hhigh, if_neg (by omega)]
  rfl

theorem unitsFrom_lead (h : lead (UInt8.ofNat n) = some (.inr s)) :
    unitsFrom none (UInt8.ofNat n :: bs) = unitsFrom (some s) bs := by
  simp only [unitsFrom_cons, feed, opening, h, List.nil_append]

/-- The bytes of a character are one unit. -/
theorem unitsFrom_encodeChar (c : Char) (bs : List UInt8) :
    unitsFrom none (String.utf8EncodeChar c ++ bs) = .char c :: unitsFrom none bs := by
  have hvalid : c.toNat < 0xD800 ∨ 0xDFFF < c.toNat ∧ c.toNat < 0x110000 := c.valid
  have hval : c.val.toNat = c.toNat := rfl
  simp only [String.utf8EncodeChar, hval]
  split
  · rename_i h1
    simp [unitsFrom_cons, feed, opening, lead_one (Nat.lt_succ_of_le h1)]
  · split
    · rename_i h1 h2
      rw [List.cons_append, unitsFrom_lead (lead_two (by omega) (by omega))]
      refine unitsFrom_last (by omega) rfl ?_ ?_ ?_
      · simp
      · simp; omega
      · dsimp only; omega
    · split
      · rename_i h1 h2 h3
        rw [List.cons_append, unitsFrom_lead (lead_three (by omega) (by omega)), List.cons_append,
          unitsFrom_next (by omega) (by simp)]
        · refine unitsFrom_last (by omega) rfl (by simp) (by simp; omega) ?_
          dsimp only; omega
        · dsimp only
          split
          · simp; omega
          · simp
        · dsimp only
          split
          · simp; omega
          · simp; omega
      · rename_i h1 h2 h3
        rw [List.cons_append, unitsFrom_lead (lead_four (by omega) (by omega)), List.cons_append,
          unitsFrom_next (by omega) (by simp), List.cons_append,
          unitsFrom_next (by omega) (by simp)]
        · refine unitsFrom_last (by omega) rfl (by simp) (by simp; omega) ?_
          dsimp only; omega
        · simp
        · simp; omega
        · dsimp only
          split
          · simp; omega
          · simp
        · dsimp only
          split
          · simp; omega
          · simp; omega

/-- A byte below 0x80 is a character by itself. -/
theorem toNat_of_mem_encodeChar {b : UInt8} (hb : b.toNat < 0x80)
    (h : b ∈ String.utf8EncodeChar c) : c.toNat = b.toNat := by
  have hval : c.val.toNat = c.toNat := rfl
  have htrail : ∀ {m}, 0x80 ≤ m → m < 256 → b ≠ UInt8.ofNat m := by
    rintro m hm hm' rfl
    rw [UInt8.toNat_ofNat_of_lt' hm'] at hb
    omega
  simp only [String.utf8EncodeChar, hval] at h
  split at h
  · rename_i h1
    have hn : c.toNat < 256 := by omega
    rw [List.mem_singleton.mp h, UInt8.toNat_ofNat_of_lt' hn]
  · refine absurd h ?_
    split
    · simp only [List.mem_cons, List.not_mem_nil, or_false, not_or]
      exact ⟨htrail (by omega) (by omega), htrail (by omega) (by omega)⟩
    · split
      · simp only [List.mem_cons, List.not_mem_nil, or_false, not_or]
        exact ⟨htrail (by omega) (by omega), htrail (by omega) (by omega),
          htrail (by omega) (by omega)⟩
      · simp only [List.mem_cons, List.not_mem_nil, or_false, not_or]
        exact ⟨htrail (by omega) (by omega), htrail (by omega) (by omega),
          htrail (by omega) (by omega), htrail (by omega) (by omega)⟩

/-! ## Texts -/

@[simp] theorem encode_cons : encode (c :: cs) = String.utf8EncodeChar c ++ encode cs := rfl

theorem encode_append (cs' : List Char) : encode (cs ++ cs') = encode cs ++ encode cs' := by
  simp [encode]

theorem newline_not_mem_encode (h : '\n' ∉ cs) : 10 ∉ encode cs := by
  intro hmem
  obtain ⟨c, hc, hb⟩ := List.mem_flatMap.mp hmem
  have hn : c.toNat = '\n'.toNat := toNat_of_mem_encodeChar (by decide) hb
  exact h (Char.toNat_inj.mp hn ▸ hc)

theorem units_encode (cs : List Char) : units (encode cs) = cs.map .char := by
  rw [units]
  induction cs with
  | nil => rfl
  | cons c cs ih => rw [encode_cons, unitsFrom_encodeChar, ih, List.map_cons]

theorem read_chars (cs : List Char) (index : Nat) : read index (cs.map .char) = .ok cs := by
  induction cs generalizing index with
  | nil => rfl
  | cons c cs ih =>
      rw [List.map_cons, read, ih]
      rfl

/-- Every text is read back from its bytes. -/
theorem decode_encode (cs : List Char) : decode (encode cs) = .ok cs := by
  rw [decode, units_encode, read_chars]

/-! ## Bytes that are a text -/

variable {v i : Nat}

theorem read_char_eq_ok {us : List Unit} : read i (.char c :: us) = .ok cs ↔
    ∃ cs', read (i + c.utf8Size) us = .ok cs' ∧ cs = c :: cs' := by
  rw [read]
  cases read (i + c.utf8Size) us <;> simp [Except.map, eq_comm]

/-- What was begun goes on with a byte in range, or the bytes are no text. -/
theorem read_begun (hlow : 0x80 ≤ s.low.toNat) (hhigh : s.high.toNat ≤ 0xBF)
    (h : read i (unitsFrom (some s) bs) = .ok cs) : ∃ m bs', m < 64 ∧
      bs = UInt8.ofNat (m + 0x80) :: bs' ∧ s.low.toNat ≤ m + 0x80 ∧ m + 0x80 ≤ s.high.toNat ∧
      (s.missing ≤ 1 → ∃ j cs', read j (unitsFrom none bs') = .ok cs' ∧
        cs = Char.ofNat (s.value * 64 + m) :: cs') ∧
      (1 < s.missing → read i (unitsFrom
        (some ⟨s.taken + 1, s.value * 64 + m, s.missing - 1, 0x80, 0xBF⟩) bs') = .ok cs) := by
  cases bs with
  | nil => cases h
  | cons b bs =>
      rw [unitsFrom_cons] at h
      by_cases hb : s.low ≤ b ∧ b ≤ s.high
      · have hb' := hb
        simp only [UInt8.le_iff_toNat_le] at hb'
        have hm : b.toNat - 0x80 < 64 := by omega
        have hback : b.toNat - 0x80 + 0x80 = b.toNat := by omega
        refine ⟨b.toNat - 0x80, bs, hm, by rw [hback, UInt8.ofNat_toNat], by omega, by omega, ?_,
          ?_⟩
        · intro hlast
          simp only [feed, if_pos hb, if_pos hlast, List.singleton_append] at h
          obtain ⟨cs', hread, rfl⟩ := read_char_eq_ok.mp h
          exact ⟨_, cs', hread, rfl⟩
        · intro hmore
          simpa only [feed, if_pos hb, if_neg (Nat.not_le.mpr hmore), List.nil_append] using h
      · simp only [feed, if_neg hb, List.cons_append] at h
        cases h

theorem val_ofNat (h : v < 0xD800 ∨ 0xDFFF < v ∧ v < 0x110000) : (Char.ofNat v).val.toNat = v := by
  rw [Char.ofNat, dif_pos h]
  rfl

/-! ### Characters from their bits -/

section

variable {m₁ m₂ m₃ : Nat}

theorem encodeChar_one (h : n < 0x80) : String.utf8EncodeChar (Char.ofNat n) = [UInt8.ofNat n] := by
  simp only [String.utf8EncodeChar, val_ofNat (v := n) (by omega)]
  rw [if_pos (by omega)]

theorem encodeChar_two (h : 0xC2 ≤ n) (h' : n < 0xE0) (h₁ : m₁ < 64) :
    String.utf8EncodeChar (Char.ofNat ((n - 0xC0) * 64 + m₁)) =
      [UInt8.ofNat n, UInt8.ofNat (m₁ + 0x80)] := by
  have hlead : ((n - 0xC0) * 64 + m₁) / 64 % 32 + 192 = n := by omega
  have hlast : ((n - 0xC0) * 64 + m₁) % 64 = m₁ := by omega
  simp only [String.utf8EncodeChar, val_ofNat (v := (n - 0xC0) * 64 + m₁) (by omega)]
  rw [if_neg (by omega), if_pos (by omega), hlead, hlast]

theorem encodeChar_three (h : 0xE0 ≤ n) (h' : n < 0xF0) (h₁ : m₁ < 64) (h₂ : m₂ < 64)
    (hlow : n = 0xE0 → 0x20 ≤ m₁) (hhigh : n = 0xED → m₁ < 0x20) :
    String.utf8EncodeChar (Char.ofNat (((n - 0xE0) * 64 + m₁) * 64 + m₂)) =
      [UInt8.ofNat n, UInt8.ofNat (m₁ + 0x80), UInt8.ofNat (m₂ + 0x80)] := by
  have hlead : (((n - 0xE0) * 64 + m₁) * 64 + m₂) / 4096 % 16 + 224 = n := by omega
  have hnext : (((n - 0xE0) * 64 + m₁) * 64 + m₂) / 64 % 64 = m₁ := by omega
  have hlast : (((n - 0xE0) * 64 + m₁) * 64 + m₂) % 64 = m₂ := by omega
  simp only [String.utf8EncodeChar, val_ofNat (v := ((n - 0xE0) * 64 + m₁) * 64 + m₂) (by omega)]
  rw [if_neg (by omega), if_neg (by omega), if_pos (by omega), hlead, hnext, hlast]

theorem encodeChar_four (h : 0xF0 ≤ n) (h' : n ≤ 0xF4) (h₁ : m₁ < 64) (h₂ : m₂ < 64) (h₃ : m₃ < 64)
    (hlow : n = 0xF0 → 0x10 ≤ m₁) (hhigh : n = 0xF4 → m₁ < 0x10) :
    String.utf8EncodeChar (Char.ofNat ((((n - 0xF0) * 64 + m₁) * 64 + m₂) * 64 + m₃)) =
      [UInt8.ofNat n, UInt8.ofNat (m₁ + 0x80), UInt8.ofNat (m₂ + 0x80),
        UInt8.ofNat (m₃ + 0x80)] := by
  have hlead : ((((n - 0xF0) * 64 + m₁) * 64 + m₂) * 64 + m₃) / 262144 % 8 + 240 = n := by omega
  have hnext : ((((n - 0xF0) * 64 + m₁) * 64 + m₂) * 64 + m₃) / 4096 % 64 = m₁ := by omega
  have hthird : ((((n - 0xF0) * 64 + m₁) * 64 + m₂) * 64 + m₃) / 64 % 64 = m₂ := by omega
  have hlast : ((((n - 0xF0) * 64 + m₁) * 64 + m₂) * 64 + m₃) % 64 = m₃ := by omega
  simp only [String.utf8EncodeChar,
    val_ofNat (v := (((n - 0xF0) * 64 + m₁) * 64 + m₂) * 64 + m₃) (by omega)]
  rw [if_neg (by omega), if_neg (by omega), if_neg (by omega), hlead, hnext, hthird, hlast]

end

/-- What a byte begins: nothing, a character by itself, or one of up to four bytes. -/
theorem lead_cases (hn : n < 256) : lead (UInt8.ofNat n) = none ∨
    n < 0x80 ∧ lead (UInt8.ofNat n) = some (.inl (Char.ofNat n)) ∨
    (0xC2 ≤ n ∧ n < 0xE0) ∧ lead (UInt8.ofNat n) = some (.inr ⟨1, n - 0xC0, 1, 0x80, 0xBF⟩) ∨
    (0xE0 ≤ n ∧ n < 0xF0) ∧ lead (UInt8.ofNat n) = some (.inr ⟨1, n - 0xE0, 2,
      if n = 0xE0 then 0xA0 else 0x80, if n = 0xED then 0x9F else 0xBF⟩) ∨
    (0xF0 ≤ n ∧ n ≤ 0xF4) ∧ lead (UInt8.ofNat n) = some (.inr ⟨1, n - 0xF0, 3,
      if n = 0xF0 then 0x90 else 0x80, if n = 0xF4 then 0x8F else 0xBF⟩) := by
  by_cases h1 : n < 0x80
  · exact .inr (.inl ⟨h1, lead_one h1⟩)
  by_cases h2 : 0xC2 ≤ n
  · by_cases h3 : n < 0xE0
    · exact .inr (.inr (.inl ⟨⟨h2, h3⟩, lead_two h2 h3⟩))
    by_cases h4 : n < 0xF0
    · exact .inr (.inr (.inr (.inl ⟨⟨by omega, h4⟩, lead_three (by omega) h4⟩)))
    by_cases h5 : n ≤ 0xF4
    · exact .inr (.inr (.inr (.inr ⟨⟨by omega, h5⟩, lead_four (by omega) h5⟩)))
    · refine .inl ?_
      simp only [lead, ofNat_lt hn, ofNat_eq hn]
      rw [if_neg (by simp; omega), if_neg (by simp; omega), if_neg (by simp; omega),
        if_neg (by simp; omega), if_neg (by simp; omega), if_neg (by simp; omega),
        if_neg (by simp; omega), if_neg (by simp; omega), if_neg (by simp; omega)]
  · refine .inl ?_
    simp only [lead, ofNat_lt hn]
    rw [if_neg (by simp; omega), if_pos (by simp; omega)]

/-- Bytes that are read as a text are the bytes of that text. -/
theorem encode_of_read (h : read i (unitsFrom none bs) = .ok cs) : encode cs = bs := by
  induction hlength : bs.length using Nat.strongRecOn generalizing i bs cs with
  | ind len ih =>
      subst hlength
      cases bs with
      | nil =>
          cases h
          rfl
      | cons b bs =>
          obtain ⟨n, hn, rfl⟩ : ∃ n, n < 256 ∧ b = UInt8.ofNat n :=
            ⟨b.toNat, b.toNat_lt, UInt8.ofNat_toNat.symm⟩
          rw [unitsFrom_cons] at h
          obtain hlead | ⟨hone, hlead⟩ | ⟨⟨h2, h2'⟩, hlead⟩ | ⟨⟨h3, h3'⟩, hlead⟩ |
              ⟨⟨h4, h4'⟩, hlead⟩ :=
            lead_cases hn
          all_goals simp only [feed, opening, hlead, List.singleton_append, List.nil_append] at h
          · cases h
          · obtain ⟨cs', hread, rfl⟩ := read_char_eq_ok.mp h
            rw [encode_cons, encodeChar_one hone, ih bs.length (by simp) hread rfl]
            rfl
          · obtain ⟨m₁, bs, h₁, rfl, -, -, hlast, -⟩ := read_begun (by simp) (by simp) h
            obtain ⟨j, cs', hread, rfl⟩ := hlast (Nat.le_refl _)
            rw [encode_cons, ih bs.length (by simp only [List.length_cons]; omega) hread rfl,
              encodeChar_two h2 h2' h₁]
            rfl
          · obtain ⟨m₁, bs, h₁, rfl, hlow, hhigh, -, hmore⟩ :=
              read_begun (by dsimp only; split <;> simp) (by dsimp only; split <;> simp) h
            obtain ⟨m₂, bs, h₂, rfl, -, -, hlast, -⟩ :=
              read_begun (by simp) (by simp) (hmore (by simp))
            obtain ⟨j, cs', hread, rfl⟩ := hlast (Nat.le_refl _)
            have hlow' : n = 0xE0 → 0x20 ≤ m₁ := by
              rintro rfl
              simpa using hlow
            have hhigh' : n = 0xED → m₁ < 0x20 := by
              rintro rfl
              simp at hhigh
              omega
            rw [encode_cons, ih bs.length (by simp only [List.length_cons]; omega) hread rfl,
              encodeChar_three h3 h3' h₁ h₂ hlow' hhigh']
            rfl
          · obtain ⟨m₁, bs, h₁, rfl, hlow, hhigh, -, hmore⟩ :=
              read_begun (by dsimp only; split <;> simp) (by dsimp only; split <;> simp) h
            obtain ⟨m₂, bs, h₂, rfl, -, -, -, hmore'⟩ :=
              read_begun (by simp) (by simp) (hmore (by simp))
            obtain ⟨m₃, bs, h₃, rfl, -, -, hlast, -⟩ :=
              read_begun (by simp) (by simp) (hmore' (by simp))
            obtain ⟨j, cs', hread, rfl⟩ := hlast (Nat.le_refl _)
            have hlow' : n = 0xF0 → 0x10 ≤ m₁ := by
              rintro rfl
              simpa using hlow
            have hhigh' : n = 0xF4 → m₁ < 0x10 := by
              rintro rfl
              simp at hhigh
              omega
            rw [encode_cons, ih bs.length (by simp only [List.length_cons]; omega) hread rfl,
              encodeChar_four h4 h4' h₁ h₂ h₃ hlow' hhigh']
            rfl

/-- Bytes are a text if they are the bytes of one. -/
theorem decode_eq_ok : decode bs = .ok cs ↔ bs = encode cs :=
  ⟨fun h ↦ (encode_of_read h).symm, fun h ↦ h ▸ decode_encode cs⟩

end Utf8

end GroupOffsets
