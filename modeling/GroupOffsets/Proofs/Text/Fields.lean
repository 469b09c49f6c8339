import GroupOffsets.Checkpoint
import GroupOffsets.Proofs.Text.Numeral

/-!
# Taking texts apart

Fields between blanks, lines that end with a newline, and what stands around a separator: a text
that was put together from parts falls into the same parts, if the parts do not contain what
separates them.
-/

namespace GroupOffsets

variable {word rest cs before after : List Char} {b c sep : Char}

/-! ## Fields -/

namespace Text

theorem fields_cons_of_blank (hb : isBlank b = true) : fields (b :: cs) = fields cs := by
  cases cs with
  | nil => simp [fields, hb]
  | cons d cs => simp [fields, hb]

/-- A stretch without blanks is the first field, if a blank follows. -/
theorem fields_append (hne : word ≠ []) (hword : ∀ c ∈ word, isBlank c = false)
    (hb : isBlank b = true) : fields (word ++ b :: rest) = word :: fields rest := by
  induction word with
  | nil => exact absurd rfl hne
  | cons c word ih =>
      have hc : isBlank c = false := hword c (List.mem_cons_self ..)
      cases word with
      | nil => simp [fields, hc, hb, fields_cons_of_blank]
      | cons d word =>
          have hd : isBlank d = false := hword d (by simp)
          have hrest := ih (List.cons_ne_nil _ _) fun x hx ↦ hword x (List.mem_cons_of_mem _ hx)
          rw [List.cons_append] at hrest
          rw [List.cons_append, List.cons_append, fields]
          simp only [hc, hd, hrest, Bool.false_eq_true, if_false]

/-- The fields of a text: stretches without blanks, with blanks between them and maybe around
them. -/
inductive AreFields : List Char → List (List Char) → Prop
  | blank {gap : List Char} (gap_blank : ∀ c ∈ gap, isBlank c = true) : AreFields gap []
  | field {gap word rest : List Char} {fs : List (List Char)}
      (gap_blank : ∀ c ∈ gap, isBlank c = true) (nonempty : word ≠ [])
      (solid : ∀ c ∈ word, isBlank c = false)
      (ends : ∀ c, rest.head? = some c → isBlank c = true) (others : AreFields rest fs) :
      AreFields (gap ++ (word ++ rest)) (word :: fs)

/-- A text that begins with a field. -/
theorem AreFields.first {fs : List (List Char)} (hne : word ≠ [])
    (hsolid : ∀ c ∈ word, isBlank c = false) (hends : ∀ c, rest.head? = some c → isBlank c = true)
    (others : AreFields rest fs) : AreFields (word ++ rest) (word :: fs) :=
  @AreFields.field [] word rest fs (fun _ h ↦ by cases h) hne hsolid hends others

theorem AreFields.cons_blank {fs : List (List Char)} (hb : isBlank b = true)
    (h : AreFields cs fs) : AreFields (b :: cs) fs := by
  cases h with
  | blank hgap => exact .blank (List.forall_mem_cons.mpr ⟨hb, hgap⟩)
  | field hgap hne hsolid hends others =>
      exact .field (List.forall_mem_cons.mpr ⟨hb, hgap⟩) hne hsolid hends others

/-- A character that is no blank belongs to the first field, if no blank follows. -/
theorem AreFields.cons_solid {d : Char} {fs : List (List Char)} (hc : isBlank c = false)
    (hd : isBlank d = false) (h : AreFields (d :: cs) fs) :
    ∃ word rest, fs = word :: rest ∧ AreFields (c :: d :: cs) ((c :: word) :: rest) := by
  generalize htext : d :: cs = text at h
  cases h with
  | blank hgap =>
      subst htext
      exact absurd ((hgap d (List.mem_cons_self ..)).symm.trans hd) (by decide)
  | @field gap word rest fs hgap hne hsolid hends others =>
      cases gap with
      | nil =>
          rw [List.nil_append]
          exact ⟨word, fs, rfl, .first (List.cons_ne_nil _ _)
            (List.forall_mem_cons.mpr ⟨hc, hsolid⟩) hends others⟩
      | cons b gap =>
          cases htext
          exact absurd ((hgap d (List.mem_cons_self ..)).symm.trans hd) (by decide)

theorem areFields_fields (cs : List Char) : AreFields cs (fields cs) := by
  fun_induction fields cs with
  | case1 => exact .blank (by simp)
  | case2 c hc => exact .blank (by simpa using hc)
  | case3 c hc =>
      have hlast : AreFields [] [] := .blank (by simp)
      exact .first (List.cons_ne_nil c []) (by simpa using hc) (by simp) hlast
  | case4 c d cs hc ih => exact ih.cons_blank hc
  | case5 c d cs hc hd ih =>
      exact .first (List.cons_ne_nil c []) (by simpa using hc) (by simpa using hd) ih
  | case6 c d cs hc hd hnone ih =>
      obtain ⟨word, rest, hfs, -⟩ := (hnone ▸ ih).cons_solid (Bool.eq_false_iff.mpr hc)
        (Bool.eq_false_iff.mpr hd)
      cases hfs
  | case7 c d cs hc hd word rest hsome ih =>
      obtain ⟨word', rest', hfs, hfields⟩ := (hsome ▸ ih).cons_solid (Bool.eq_false_iff.mpr hc)
        (Bool.eq_false_iff.mpr hd)
      cases hfs
      exact hfields

theorem fields_of_blank (h : ∀ c ∈ cs, isBlank c = true) : fields cs = [] := by
  induction cs with
  | nil => rfl
  | cons c cs ih =>
      obtain ⟨hc, hcs⟩ := List.forall_mem_cons.mp h
      rw [fields_cons_of_blank hc, ih hcs]

theorem fields_blank_append {gap : List Char} (h : ∀ c ∈ gap, isBlank c = true) :
    fields (gap ++ cs) = fields cs := by
  induction gap with
  | nil => rfl
  | cons c gap ih =>
      obtain ⟨hc, hgap⟩ := List.forall_mem_cons.mp h
      rw [List.cons_append, fields_cons_of_blank hc, ih hgap]

theorem fields_of_solid (hne : word ≠ []) (hword : ∀ c ∈ word, isBlank c = false) :
    fields word = [word] := by
  induction word with
  | nil => exact absurd rfl hne
  | cons c word ih =>
      obtain ⟨hc, htail⟩ := List.forall_mem_cons.mp hword
      cases word with
      | nil => simp [fields, hc]
      | cons d word =>
          have hd : isBlank d = false := htail d (List.mem_cons_self ..)
          rw [fields, ih (List.cons_ne_nil _ _) htail]
          simp only [hc, hd, Bool.false_eq_true, if_false]

theorem AreFields.solid {fs : List (List Char)} (h : AreFields cs fs) (hword : word ∈ fs) :
    word ≠ [] ∧ ∀ c ∈ word, isBlank c = false := by
  induction h with
  | blank => cases hword
  | field _ hne hsolid _ _ ih =>
      rcases List.mem_cons.mp hword with rfl | hmem
      · exact ⟨hne, hsolid⟩
      · exact ih hmem

/-- A text has only one way to fall into fields. -/
theorem fields_eq_iff {fs : List (List Char)} : fields cs = fs ↔ AreFields cs fs := by
  constructor
  · rintro rfl
    exact areFields_fields cs
  · intro h
    induction h with
    | blank hgap => exact fields_of_blank hgap
    | @field gap word rest fs hgap hne hsolid hends _ ih =>
        rw [fields_blank_append hgap]
        cases rest with
        | nil =>
            rw [List.append_nil, fields_of_solid hne hsolid, ← ih]
            rfl
        | cons b rest =>
            have hb : isBlank b = true := hends b rfl
            rw [fields_append hne hsolid hb, ← fields_cons_of_blank hb, ih]

/-! ## Trimming -/

theorem dropWhile_blank_append {gap : List Char} (hgap : ∀ c ∈ gap, isBlank c = true)
    (hends : ∀ c, cs.head? = some c → isBlank c = false) :
    (gap ++ cs).dropWhile isBlank = cs := by
  rw [List.dropWhile_append_of_pos hgap]
  cases cs with
  | nil => rfl
  | cons c cs => rw [List.dropWhile_cons_of_neg (by simp [hends c rfl])]

/-- A stretch without blanks is left when the text is trimmed that has it between blanks. -/
theorem trim_append {gap gap' : List Char} (hgap : ∀ c ∈ gap, isBlank c = true)
    (hgap' : ∀ c ∈ gap', isBlank c = true) (hne : word ≠ [])
    (hword : ∀ c ∈ word, isBlank c = false) : trim (gap ++ word ++ gap') = word := by
  have hfirst : ∀ c, (word ++ gap').head? = some c → isBlank c = false := by
    obtain ⟨c, word, rfl⟩ := List.exists_cons_of_ne_nil hne
    simpa using hword c (List.mem_cons_self ..)
  have hlast : ∀ c, word.reverse.head? = some c → isBlank c = false := fun c hc ↦
    hword c (List.mem_reverse.mp (List.mem_of_mem_head? hc))
  rw [trim, List.append_assoc, dropWhile_blank_append hgap hfirst, List.reverse_append,
    dropWhile_blank_append (fun c hc ↦ hgap' c (List.mem_reverse.mp hc)) hlast,
    List.reverse_reverse]

/-- What stands in front of what is left when the first blanks are dropped. -/
theorem exists_dropWhile (cs : List Char) :
    ∃ gap, (∀ c ∈ gap, isBlank c = true) ∧ cs = gap ++ cs.dropWhile isBlank :=
  ⟨cs.takeWhile isBlank, fun _ hc ↦ List.all_eq_true.mp List.all_takeWhile _ hc,
    List.takeWhile_append_dropWhile.symm⟩

/-- A text is what is left of it when it is trimmed, with blanks around. -/
theorem exists_trim (cs : List Char) : ∃ gap gap', (∀ c ∈ gap, isBlank c = true) ∧
    (∀ c ∈ gap', isBlank c = true) ∧ cs = gap ++ trim cs ++ gap' := by
  obtain ⟨gap, hgap, hcs⟩ := exists_dropWhile cs
  obtain ⟨gap', hgap', hrest⟩ := exists_dropWhile (cs.dropWhile isBlank).reverse
  refine ⟨gap, gap'.reverse, hgap, fun c hc ↦ hgap' c (List.mem_reverse.mp hc), ?_⟩
  rw [List.append_assoc, trim, ← List.reverse_append, ← hrest, List.reverse_reverse]
  exact hcs

end Text

/-! ## Separators -/

namespace TopicPartition

theorem splitLast_eq_none : splitLast sep cs = none ↔ sep ∉ cs := by
  induction cs with
  | nil => simp [splitLast]
  | cons c cs ih =>
      rw [splitLast]
      split
      · rename_i before after h
        have hmem : sep ∈ cs := Decidable.byContradiction fun hn ↦ by
          rw [ih.mpr hn] at h
          cases h
        simp [hmem]
      · rename_i h
        have hn : sep ∉ cs := ih.mp h
        by_cases hc : c = sep
        · simp [hc]
        · simp [hc, hn, Ne.symm hc]

/-- The last separator is the one behind which there is no other. -/
theorem splitLast_eq_some :
    splitLast sep cs = some (before, after) ↔ cs = before ++ sep :: after ∧ sep ∉ after := by
  induction cs generalizing before after with
  | nil => simp [splitLast]
  | cons c cs ih =>
      rw [splitLast]
      split
      · rename_i before' after' h
        obtain ⟨rfl, hn⟩ := ih.mp h
        constructor
        · intro heq
          cases heq
          exact ⟨rfl, hn⟩
        · rintro ⟨heq, hn'⟩
          cases before with
          | nil =>
              obtain ⟨-, rfl⟩ := List.cons.inj heq
              simp at hn'
          | cons d before =>
              obtain ⟨rfl, htail⟩ := List.cons.inj heq
              have hsplit := ih.mpr ⟨htail, hn'⟩
              rw [h] at hsplit
              cases hsplit
              rfl
      · rename_i h
        have hcs : sep ∉ cs := splitLast_eq_none.mp h
        constructor
        · intro heq
          split at heq
          · rename_i hc
            cases heq
            exact ⟨hc ▸ rfl, hcs⟩
          · cases heq
        · rintro ⟨heq, hn⟩
          cases before with
          | nil =>
              obtain ⟨rfl, rfl⟩ := List.cons.inj heq
              simp
          | cons d before =>
              obtain ⟨-, rfl⟩ := List.cons.inj heq
              simp at hcs

variable {tp : TopicPartition} {s : String}

theorem toList_text (tp : TopicPartition) :
    tp.text.toList = tp.topic.toList ++ '-' :: Numeral.print tp.partition.toInt := by
  simp [text, Numeral.text]

theorem not_minus_mem_print {i : Int} (h : 0 ≤ i) : '-' ∉ Numeral.print i := by
  obtain ⟨n, rfl⟩ := Int.eq_ofNat_of_zero_le h
  intro hmem
  have hdigit := Numeral.digit?_isSome_of_mem hmem
  cases hdigit

/-- What is read has its topic in front of the last dash, and behind it a numeral for the
partition. -/
theorem ofText_eq_ok : ofText s = .ok tp ↔ ∃ numeral, s.toList = tp.topic.toList ++ '-' :: numeral ∧
    '-' ∉ numeral ∧ Numeral.Denotes numeral tp.partition.toInt := by
  constructor
  · intro h
    rw [ofText] at h
    split at h
    · cases h
    · rename_i topic numeral hsplit
      obtain ⟨hs, hlast⟩ := splitLast_eq_some.mp hsplit
      split at h
      · cases h
      · rename_i p hread
        cases h
        exact ⟨numeral, by rw [String.toList_ofList, hs], hlast, Numeral.readInt32_eq_ok.mp hread⟩
  · rintro ⟨numeral, hs, hlast, hdenotes⟩
    rw [ofText, splitLast_eq_some.mpr ⟨hs, hlast⟩]
    simp only [Numeral.readInt32_eq_ok.mpr hdenotes, String.ofList_toList]

/-- A partition that is not negative is read back from its text. -/
theorem ofText_text (h : 0 ≤ tp.partition) : ofText tp.text = .ok tp := by
  have hminus : '-' ∉ Numeral.print tp.partition.toInt :=
    not_minus_mem_print (by simpa using Int32.le_iff_toInt_le.mp h)
  exact ofText_eq_ok.mpr
    ⟨_, toList_text tp, hminus, Numeral.readInt32_eq_ok.mp (Numeral.readInt32_print _)⟩

/-- The topic of a partition that was read stands in front of a dash. -/
theorem topic_of_ofText (h : ofText s = .ok tp) :
    ∃ numeral, s.toList = tp.topic.toList ++ '-' :: numeral := by
  obtain ⟨numeral, hs, -⟩ := ofText_eq_ok.mp h
  exact ⟨numeral, hs⟩

/-- A partition that was read is not negative: the last dash is no part of its numeral. -/
theorem nonneg_of_ofText (h : ofText s = .ok tp) : 0 ≤ tp.partition := by
  obtain ⟨numeral, -, hlast, hdenotes⟩ := ofText_eq_ok.mp h
  exact Int32.le_iff_toInt_le.mpr (hdenotes.nonneg hlast)

end TopicPartition

namespace Checkpoint

theorem splitColon_append (h : ':' ∉ before) :
    splitColon (before ++ ':' :: after) = some (before, after) := by
  induction before with
  | nil => simp [splitColon]
  | cons c before ih =>
      obtain ⟨hc, hbefore⟩ := by simpa using h
      rw [List.cons_append, splitColon, if_neg (Ne.symm hc), ih hbefore]
      rfl

theorem splitColon_eq_none : splitColon cs = none ↔ ':' ∉ cs := by
  induction cs with
  | nil => simp [splitColon]
  | cons c cs ih =>
      rw [splitColon]
      split
      · rename_i hc
        simp [hc]
      · rename_i hc
        rw [Option.map_eq_none_iff, ih]
        simp [Ne.symm hc]

/-- The first colon is the one in front of which there is no other. -/
theorem splitColon_eq_some :
    splitColon cs = some (before, after) ↔ cs = before ++ ':' :: after ∧ ':' ∉ before := by
  constructor
  · intro h
    have hmem : ':' ∈ cs := Decidable.byContradiction fun hn ↦ by
      rw [splitColon_eq_none.mpr hn] at h
      cases h
    obtain ⟨before', after', rfl, hbefore⟩ := List.eq_append_cons_of_mem hmem
    rw [splitColon_append hbefore] at h
    cases h
    exact ⟨rfl, hbefore⟩
  · rintro ⟨rfl, h⟩
    exact splitColon_append h

variable {l bs : List UInt8}

/-- What ends with the only newline in it is the first line. -/
theorem lines_append (h : 10 ∉ l) : lines (l ++ 10 :: bs) = (l ++ [10]) :: lines bs := by
  induction l with
  | nil => simp [lines]
  | cons b l ih =>
      obtain ⟨hb, hl⟩ := by simpa using h
      rw [List.cons_append, lines, if_neg (Ne.symm hb), ih hl]
      rfl

/-- The lines of a file: each ends with the only newline in it, and the last one may also end with
the file. -/
inductive AreLines : List UInt8 → List (List UInt8) → Prop
  | none : AreLines [] []
  | last {l : List UInt8} (nonempty : l ≠ []) (unbroken : 10 ∉ l) : AreLines l [l]
  | line {l bs : List UInt8} {ls : List (List UInt8)} (unbroken : 10 ∉ l)
      (others : AreLines bs ls) : AreLines (l ++ 10 :: bs) ((l ++ [10]) :: ls)

theorem lines_of_unbroken (hne : l ≠ []) (h : 10 ∉ l) : lines l = [l] := by
  induction l with
  | nil => exact absurd rfl hne
  | cons b l ih =>
      obtain ⟨hb, hl⟩ := by simpa using h
      rw [lines, if_neg (Ne.symm hb)]
      cases l with
      | nil => rfl
      | cons c l => rw [ih (List.cons_ne_nil _ _) hl]

theorem areLines_lines (bs : List UInt8) : AreLines bs (lines bs) := by
  fun_induction lines bs with
  | case1 => exact .none
  | case2 bs ih => exact @AreLines.line [] _ _ (by simp) ih
  | case3 b bs hb hnone ih =>
      rw [hnone] at ih
      cases ih
      exact .last (List.cons_ne_nil _ _) (by simpa using Ne.symm hb)
  | case4 b bs hb l ls hsome ih =>
      rw [hsome] at ih
      cases ih with
      | last _ hl => exact .last (List.cons_ne_nil _ _) (by simpa using ⟨Ne.symm hb, hl⟩)
      | @line l _ _ hl others =>
          exact @AreLines.line (b :: l) _ _ (by simpa using ⟨Ne.symm hb, hl⟩) others

/-- A file has only one way to fall into lines. -/
theorem lines_eq_iff {ls : List (List UInt8)} : lines bs = ls ↔ AreLines bs ls := by
  constructor
  · rintro rfl
    exact areLines_lines bs
  · intro h
    induction h with
    | none => rfl
    | last hne hl => exact lines_of_unbroken hne hl
    | line hl _ ih => rw [lines_append hl, ih]

end Checkpoint

end GroupOffsets
