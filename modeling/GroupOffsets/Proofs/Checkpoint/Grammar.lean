import Mathlib.Data.List.Forall2
import GroupOffsets.Proofs.Checkpoint

/-!
# The grammar of a checkpoint

Which files are checkpoints, what each of them lists, and what is wrong with any other file.  The
grammar says how the bytes are put together, the flaws say what a reader of them runs into first;
every line has one or the other, and reading finds out which.
-/

namespace GroupOffsets

namespace Checkpoint

/-! ## The first line -/

/-- The first line of a file, which is empty if the file is, and the lines behind it. -/
inductive Opens : List UInt8 → List UInt8 → List (List UInt8) → Prop
  | empty : Opens [] [] []
  | lines {file first : List UInt8} {rest : List (List UInt8)} (h : AreLines file (first :: rest)) :
      Opens file first rest

/-- A text with blanks around, or none. -/
inductive Padded : List Char → List Char → Prop
  | intro {gap word gap' : List Char} (before : ∀ c ∈ gap, Text.isBlank c = true)
      (after : ∀ c ∈ gap', Text.isBlank c = true) : Padded (gap ++ word ++ gap') word

/-- A line that opens a checkpoint has the number one and nothing else. -/
inductive IsHeader : List UInt8 → Prop
  | intro {cs numeral : List Char} (padded : Padded cs numeral)
      (denotes : Numeral.Denotes numeral 1) : IsHeader (Utf8.encode cs)

/-- What is wrong with a first line that opens no checkpoint. -/
inductive HeaderFlaw : List UInt8 → Failure → Prop
  | text {l : List UInt8} {fault : Utf8.Fault} (h : Utf8.decode l = .error fault) :
      HeaderFlaw l (.io fault.message)
  | numeral {cs : List Char} {fault : Numeral.Fault}
      (h : Numeral.readInt8 (Text.trim cs) = .error fault) :
      HeaderFlaw (Utf8.encode cs) (.numeral fault)
  | version {cs numeral : List Char} {v : Int8} (padded : Padded cs numeral)
      (denotes : Numeral.Denotes numeral v.toInt) (other : v ≠ 1) :
      HeaderFlaw (Utf8.encode cs)
        (.invalidValue ("cursor checkpoint version " ++ Numeral.text v.toInt ++ ", expected 1"))

/-! ## The other lines -/

/-- A field that names a partition has its number behind the last dash. -/
inductive Names : List Char → TopicPartition → Prop
  | intro {topic numeral : List Char} {partition : Int32} (last : '-' ∉ numeral)
      (denotes : Numeral.Denotes numeral partition.toInt) :
      Names (topic ++ '-' :: numeral) ⟨String.ofList topic, partition⟩

/-- A field that is a position has its two numbers around the first colon. -/
inductive Places : List Char → Position → Prop
  | intro {segment entry : List Char} {p : Position} (first : ':' ∉ segment)
      (segment_denotes : Numeral.Denotes segment p.segment.toInt)
      (entry_denotes : Numeral.Denotes entry p.entry.toInt) :
      Places (segment ++ ':' :: entry) p

/-- A line that says where a cursor stands. -/
inductive IsEntry : List UInt8 → CursorKey × Position → Prop
  | intro {cs group name position : List Char} {on : TopicPartition} {p : Position}
      (fields : Text.AreFields cs [group, name, position]) (names : Names name on)
      (places : Places position p) : IsEntry (Utf8.encode cs) (⟨String.ofList group, on⟩, p)

/-- What is wrong with a line, if everything in front of that is as it should be. -/
inductive Flaw : List UInt8 → Failure → Prop
  | text {l : List UInt8} {fault : Utf8.Fault} (h : Utf8.decode l = .error fault) :
      Flaw l (.io fault.message)
  | count {cs : List Char} {fs : List (List Char)} (fields : Text.AreFields cs fs)
      (other : fs.length ≠ 3) :
      Flaw (Utf8.encode cs) (.invalidValue ("cursor checkpoint line " ++
        String.ofList (Text.quoted cs)))
  | dash {cs group name position : List Char} (fields : Text.AreFields cs [group, name, position])
      (missing : '-' ∉ name) :
      Flaw (Utf8.encode cs) (.invalidValue ("topic partition name " ++ String.ofList name))
  | partition {cs group topic numeral position : List Char} {fault : Numeral.Fault}
      (fields : Text.AreFields cs [group, topic ++ '-' :: numeral, position]) (last : '-' ∉ numeral)
      (h : Numeral.readInt32 numeral = .error fault) : Flaw (Utf8.encode cs) (.numeral fault)
  | colon {cs group name position : List Char} {on : TopicPartition}
      (fields : Text.AreFields cs [group, name, position]) (names : Names name on)
      (missing : ':' ∉ position) :
      Flaw (Utf8.encode cs) (.invalidValue ("cursor checkpoint line " ++
        String.ofList (Text.quoted cs)))
  | segment {cs group name segment entry : List Char} {on : TopicPartition}
      {fault : Numeral.Fault}
      (fields : Text.AreFields cs [group, name, segment ++ ':' :: entry]) (names : Names name on)
      (first : ':' ∉ segment) (h : Numeral.readInt64 segment = .error fault) :
      Flaw (Utf8.encode cs) (.numeral fault)
  | entry {cs group name segment entry : List Char} {on : TopicPartition} {x : Int64}
      {fault : Numeral.Fault}
      (fields : Text.AreFields cs [group, name, segment ++ ':' :: entry]) (names : Names name on)
      (first : ':' ∉ segment) (denotes : Numeral.Denotes segment x.toInt)
      (h : Numeral.readInt64 entry = .error fault) : Flaw (Utf8.encode cs) (.numeral fault)

/-! ## The whole file -/

/-- A file that is a checkpoint. -/
def IsCheckpoint (file : List UInt8) : Prop :=
  ∃ first rest, Opens file first rest ∧ IsHeader first ∧ ∀ l ∈ rest, ∃ c, IsEntry l c

/-- The last of some entries that is for a cursor. -/
def IsLast (cs : List (CursorKey × Position)) (k : CursorKey) (p : Position) : Prop :=
  ∃ before after, cs = before ++ (k, p) :: after ∧ ∀ c ∈ after, c.1 ≠ k

/-- What a checkpoint lists: every cursor stands where the last line for it says. -/
def Lists (file : List UInt8) (points : CursorPoints) : Prop :=
  ∃ first rest cs, Opens file first rest ∧ IsHeader first ∧ List.Forall₂ IsEntry rest cs ∧
    ∀ k p, points[k]? = some p ↔ IsLast cs k p

/-- What is wrong with a file that is no checkpoint: the flaw of the first line that has one. -/
inductive Fails : List UInt8 → Failure → Prop
  | header {file first : List UInt8} {rest : List (List UInt8)} {e : Failure}
      (opens : Opens file first rest) (flaw : HeaderFlaw first e) : Fails file e
  | entry {file first l : List UInt8} {good after : List (List UInt8)} {e : Failure}
      (opens : Opens file first (good ++ l :: after))
      (header : IsHeader first) (entries : ∀ g ∈ good, ∃ c, IsEntry g c) (flaw : Flaw l e) :
      Fails file e

variable {file first l : List UInt8} {rest : List (List UInt8)} {c : CursorKey × Position}
  {k : CursorKey} {p : Position} {points acc : CursorPoints} {e : Failure} {fault : Numeral.Fault}

/-! ## Numbers and blanks -/

theorem isSolid_of_denotes {numeral : List Char} {i : Int} (h : Numeral.Denotes numeral i) :
    numeral ≠ [] ∧ ∀ c ∈ numeral, Text.isBlank c = false := by
  have hdigits : ∀ ds : List Nat, (∀ d ∈ ds, d < 10) →
      ∀ c ∈ ds.map Numeral.digitChar, Text.isBlank c = false := by
    intro ds hds c hc
    obtain ⟨d, hd, rfl⟩ := List.mem_map.mp hc
    exact Numeral.isBlank_eq_false_of_digit (by simp [Numeral.digit?_digitChar (hds d hd)])
  cases h with
  | plain hne hds => exact ⟨by simpa using hne, hdigits _ hds⟩
  | plus hne hds => exact ⟨by simp, List.forall_mem_cons.mpr ⟨by decide, hdigits _ hds⟩⟩
  | minus hne hds => exact ⟨by simp, List.forall_mem_cons.mpr ⟨by decide, hdigits _ hds⟩⟩

theorem padded_trim (cs : List Char) : Padded cs (Text.trim cs) := by
  obtain ⟨gap, gap', hgap, hgap', hcs⟩ := Text.exists_trim cs
  have hpadded : Padded (gap ++ Text.trim cs ++ gap') (Text.trim cs) := .intro hgap hgap'
  rwa [← hcs] at hpadded

/-- The only numeral in a text between blanks is what is left of the text when it is trimmed. -/
theorem Padded.trim_eq {cs numeral : List Char} {i : Int} (h : Padded cs numeral)
    (hdenotes : Numeral.Denotes numeral i) : Text.trim cs = numeral := by
  obtain ⟨hne, hsolid⟩ := isSolid_of_denotes hdenotes
  cases h with
  | intro hgap hgap' => exact Text.trim_append hgap hgap' hne hsolid

/-! ## What reading makes of a line -/

/-- A computation does what a description says, if the description covers every case. -/
theorem iff_of_cover {α : Type} {x : Attempt α} {good : α → Prop} {bad : Failure → Prop}
    (hgood : ∀ a, good a → x = .ok a) (hbad : ∀ e, bad e → x = .error e)
    (hcover : (∃ a, good a) ∨ ∃ e, bad e) :
    (∀ a, x = .ok a ↔ good a) ∧ ∀ e, x = .error e ↔ bad e := by
  rcases hcover with ⟨a, ha⟩ | ⟨e, he⟩
  · have hx := hgood a ha
    refine ⟨fun b ↦ ⟨fun h ↦ ?_, hgood b⟩, fun e ↦ ⟨fun h ↦ ?_, hbad e⟩⟩
    · cases hx.symm.trans h
      exact ha
    · cases hx.symm.trans h
  · have hx := hbad e he
    refine ⟨fun b ↦ ⟨fun h ↦ ?_, hgood b⟩, fun e' ↦ ⟨fun h ↦ ?_, hbad e'⟩⟩
    · cases hx.symm.trans h
    · cases hx.symm.trans h
      exact he

theorem decode_error {fault : Utf8.Fault} (h : Utf8.decode l = .error fault) :
    decode l = .error (.io fault.message) := by
  rw [decode, h]
  rfl

theorem number_ok {α : Type} {r : Except Numeral.Fault α} {a : α} (h : r = .ok a) :
    number r = .ok a := by
  rw [h]
  rfl

theorem number_error {α : Type} {r : Except Numeral.Fault α} (h : r = .error fault) :
    number r = .error (.numeral fault) := by
  rw [h]
  rfl

theorem text_or_fault (l : List UInt8) :
    (∃ cs, l = Utf8.encode cs) ∨ ∃ fault, Utf8.decode l = .error fault := by
  cases h : Utf8.decode l with
  | ok cs => exact .inl ⟨cs, Utf8.decode_eq_ok.mp h⟩
  | error fault => exact .inr ⟨fault, rfl⟩

theorem number_or_fault {α : Type} (r : Except Numeral.Fault α) :
    (∃ x, r = .ok x) ∨ ∃ fault, r = .error fault := by
  cases r with
  | ok x => exact .inl ⟨x, rfl⟩
  | error fault => exact .inr ⟨fault, rfl⟩

theorem text_version : Numeral.text version.toInt = "1" := by
  have hprint : Numeral.print version.toInt ++ ['\n'] = ['1'] ++ ['\n'] := header_eq
  rw [Numeral.text, List.append_cancel_right hprint]

theorem readHeader_of_isHeader (h : IsHeader l) : (decode l >>= readHeader) = .ok () := by
  cases h with
  | @intro cs numeral hpadded hdenotes =>
      have hread : Numeral.readInt8 numeral = .ok version := Numeral.readInt8_eq_ok.mpr hdenotes
      rw [decode_encode]
      simp only [bind, Except.bind, readHeader, hpadded.trim_eq hdenotes, number_ok hread, if_true]

theorem readHeader_of_flaw (h : HeaderFlaw l e) : (decode l >>= readHeader) = .error e := by
  cases h with
  | text hfault => rw [decode_error hfault]; rfl
  | @numeral fault cs hfault =>
      rw [decode_encode]
      simp only [bind, Except.bind, readHeader, number_error hfault]
  | @version cs numeral v hpadded hdenotes hother =>
      have hread : Numeral.readInt8 numeral = .ok v := Numeral.readInt8_eq_ok.mpr hdenotes
      have hne : v ≠ version := hother
      rw [decode_encode]
      simp only [bind, Except.bind, readHeader, hpadded.trim_eq hdenotes, number_ok hread, hne,
        if_false, text_version]
      rw [String.append_assoc]
      rfl

theorem header_or_flaw (l : List UInt8) : IsHeader l ∨ ∃ e, HeaderFlaw l e := by
  obtain ⟨cs, rfl⟩ | ⟨fault, hfault⟩ := text_or_fault l
  · obtain ⟨v, hv⟩ | ⟨fault, hfault⟩ := number_or_fault (Numeral.readInt8 (Text.trim cs))
    · have hdenotes := Numeral.readInt8_eq_ok.mp hv
      by_cases hone : v = 1
      · subst hone
        exact .inl (.intro (padded_trim cs) hdenotes)
      · exact .inr ⟨_, .version (padded_trim cs) hdenotes hone⟩
    · exact .inr ⟨_, .numeral hfault⟩
  · exact .inr ⟨_, .text hfault⟩

theorem ofText_of_names {name : List Char} {on : TopicPartition} (h : Names name on) :
    TopicPartition.ofText (String.ofList name) = .ok on := by
  cases h with
  | @intro topic numeral partition hlast hdenotes =>
      exact TopicPartition.ofText_eq_ok.mpr
        ⟨numeral, by rw [String.toList_ofList, String.toList_ofList], hlast, hdenotes⟩

theorem readLine_of_isEntry (h : IsEntry l c) : (decode l >>= readLine) = .ok c := by
  cases h with
  | @intro cs group name position on p hfields hnames hplaces =>
      cases hplaces with
      | @intro segment entry p hfirst hsegment hentry =>
          rw [decode_encode]
          simp only [bind, Except.bind, readLine, Text.fields_eq_iff.mpr hfields,
            ofText_of_names hnames, splitColon_append hfirst, Option.elim,
            number_ok (Numeral.readInt64_eq_ok.mpr hsegment),
            number_ok (Numeral.readInt64_eq_ok.mpr hentry)]

theorem readLine_of_count {cs : List Char} {fs : List (List Char)} (hfields : Text.AreFields cs fs)
    (hother : fs.length ≠ 3) : readLine cs = .error (malformed cs) := by
  have hfs : Text.fields cs = fs := Text.fields_eq_iff.mpr hfields
  rw [readLine]
  split
  · rename_i hthree
    rw [← hfs, hthree] at hother
    exact absurd rfl hother
  · rfl

theorem readLine_of_flaw (h : Flaw l e) : (decode l >>= readLine) = .error e := by
  cases h with
  | text hfault =>
      rw [decode_error hfault]
      rfl
  | count hfields hother =>
      rw [decode_encode]
      exact readLine_of_count hfields hother
  | dash hfields hmissing =>
      rw [decode_encode]
      simp only [bind, Except.bind, readLine, Text.fields_eq_iff.mpr hfields, TopicPartition.ofText,
        String.toList_ofList, TopicPartition.splitLast_eq_none.mpr hmissing]
  | partition hfields hlast hfault =>
      rw [decode_encode]
      simp only [bind, Except.bind, readLine, Text.fields_eq_iff.mpr hfields, TopicPartition.ofText,
        String.toList_ofList, TopicPartition.splitLast_eq_some.mpr ⟨rfl, hlast⟩, hfault]
  | colon hfields hnames hmissing =>
      rw [decode_encode]
      simp only [bind, Except.bind, readLine, Text.fields_eq_iff.mpr hfields,
        ofText_of_names hnames, splitColon_eq_none.mpr hmissing, Option.elim]
      rfl
  | segment hfields hnames hfirst hfault =>
      rw [decode_encode]
      simp only [bind, Except.bind, readLine, Text.fields_eq_iff.mpr hfields,
        ofText_of_names hnames, splitColon_append hfirst, Option.elim, number_error hfault]
  | entry hfields hnames hfirst hsegment hfault =>
      rw [decode_encode]
      simp only [bind, Except.bind, readLine, Text.fields_eq_iff.mpr hfields,
        ofText_of_names hnames, splitColon_append hfirst, Option.elim,
        number_ok (Numeral.readInt64_eq_ok.mpr hsegment), number_error hfault]

theorem names_or_flaw {cs group name position : List Char}
    (hfields : Text.AreFields cs [group, name, position]) :
    (∃ on, Names name on) ∨ ∃ e, Flaw (Utf8.encode cs) e := by
  cases hsplit : TopicPartition.splitLast '-' name with
  | none => exact .inr ⟨_, .dash hfields (TopicPartition.splitLast_eq_none.mp hsplit)⟩
  | some parts =>
      obtain ⟨topic, numeral⟩ := parts
      obtain ⟨rfl, hlast⟩ := TopicPartition.splitLast_eq_some.mp hsplit
      obtain ⟨x, hx⟩ | ⟨fault, hfault⟩ := number_or_fault (Numeral.readInt32 numeral)
      · exact .inl ⟨_, .intro hlast (Numeral.readInt32_eq_ok.mp hx)⟩
      · exact .inr ⟨_, .partition hfields hlast hfault⟩

theorem places_or_flaw {cs group name position : List Char} {on : TopicPartition}
    (hfields : Text.AreFields cs [group, name, position]) (hnames : Names name on) :
    (∃ p, Places position p) ∨ ∃ e, Flaw (Utf8.encode cs) e := by
  cases hsplit : splitColon position with
  | none => exact .inr ⟨_, .colon hfields hnames (splitColon_eq_none.mp hsplit)⟩
  | some parts =>
      obtain ⟨segment, entry⟩ := parts
      obtain ⟨rfl, hfirst⟩ := splitColon_eq_some.mp hsplit
      obtain ⟨x, hx⟩ | ⟨fault, hfault⟩ := number_or_fault (Numeral.readInt64 segment)
      · have hsegment := Numeral.readInt64_eq_ok.mp hx
        obtain ⟨y, hy⟩ | ⟨fault, hfault⟩ := number_or_fault (Numeral.readInt64 entry)
        · have hentry := Numeral.readInt64_eq_ok.mp hy
          exact .inl ⟨⟨x, y⟩, .intro hfirst hsegment hentry⟩
        · exact .inr ⟨_, .entry hfields hnames hfirst hsegment hfault⟩
      · exact .inr ⟨_, .segment hfields hnames hfirst hfault⟩

/-- Every line says where a cursor stands, or there is something wrong with it. -/
theorem entry_or_flaw (l : List UInt8) : (∃ c, IsEntry l c) ∨ ∃ e, Flaw l e := by
  obtain ⟨cs, rfl⟩ | ⟨fault, hfault⟩ := text_or_fault l
  · have hfields := Text.areFields_fields cs
    by_cases hcount : (Text.fields cs).length = 3
    · obtain ⟨group, name, position, hthree⟩ := List.length_eq_three.mp hcount
      rw [hthree] at hfields
      obtain ⟨on, hnames⟩ | hflaw := names_or_flaw hfields
      · obtain ⟨p, hplaces⟩ | hflaw := places_or_flaw hfields hnames
        · exact .inl ⟨_, .intro hfields hnames hplaces⟩
        · exact .inr hflaw
      · exact .inr hflaw
    · exact .inr ⟨_, .count hfields hcount⟩
  · exact .inr ⟨_, .text hfault⟩

/-! ## What reading makes of a file -/

theorem readLines_cons (l : List UInt8) (rest : List (List UInt8)) : readLines acc (l :: rest) =
    (decode l >>= readLine) >>= fun c ↦ readLines (acc.insert c.1 c.2) rest := by
  rw [readLines]
  cases decode l <;> rfl

theorem readLines_of_entries {cs : List (CursorKey × Position)} (h : List.Forall₂ IsEntry rest cs) :
    readLines acc rest = .ok (acc.insertMany cs) := by
  induction h generalizing acc with
  | nil => rfl
  | cons hentry _ ih =>
      rw [readLines_cons, readLine_of_isEntry hentry, Std.ExtTreeMap.insertMany_cons]
      exact ih

/-- Of the lines behind the first flaw nothing is seen. -/
theorem readLines_of_flaw {good after : List (List UInt8)} (hgood : ∀ g ∈ good, ∃ c, IsEntry g c)
    (h : Flaw l e) : readLines acc (good ++ l :: after) = .error e := by
  induction good generalizing acc with
  | nil =>
      rw [List.nil_append, readLines_cons, readLine_of_flaw h]
      rfl
  | cons g good ih =>
      obtain ⟨⟨c, hc⟩, htail⟩ := List.forall_mem_cons.mp hgood
      rw [List.cons_append, readLines_cons, readLine_of_isEntry hc]
      exact ih htail

theorem exists_of_entries {cs : List (CursorKey × Position)} (h : List.Forall₂ IsEntry rest cs) :
    ∀ l ∈ rest, ∃ c, IsEntry l c := by
  induction h with
  | nil => simp
  | cons hc _ ih => exact List.forall_mem_cons.mpr ⟨⟨_, hc⟩, ih⟩

theorem entries_or_flaw (rest : List (List UInt8)) : (∃ cs, List.Forall₂ IsEntry rest cs) ∨
    ∃ good l after e, rest = good ++ l :: after ∧ (∀ g ∈ good, ∃ c, IsEntry g c) ∧ Flaw l e := by
  induction rest with
  | nil => exact .inl ⟨[], .nil⟩
  | cons l rest ih =>
      obtain ⟨c, hc⟩ | ⟨e, he⟩ := entry_or_flaw l
      · obtain ⟨cs, hcs⟩ | ⟨good, l', after, e, rfl, hgood, he⟩ := ih
        · exact .inl ⟨c :: cs, .cons hc hcs⟩
        · exact .inr ⟨l :: good, l', after, e, rfl, List.forall_mem_cons.mpr ⟨⟨c, hc⟩, hgood⟩, he⟩
      · exact .inr ⟨[], l, rest, e, rfl, by simp, he⟩

theorem isLast_cons {cs : List (CursorKey × Position)} : IsLast (c :: cs) k p ↔
    IsLast cs k p ∨ c = (k, p) ∧ ∀ d ∈ cs, d.1 ≠ k := by
  constructor
  · rintro ⟨before, after, heq, hafter⟩
    cases before with
    | nil =>
        obtain ⟨rfl, rfl⟩ := List.cons.inj heq
        exact .inr ⟨rfl, hafter⟩
    | cons d before =>
        obtain ⟨-, rfl⟩ := List.cons.inj heq
        exact .inl ⟨before, after, rfl, hafter⟩
  · rintro (⟨before, after, rfl, hafter⟩ | ⟨rfl, hcs⟩)
    · exact ⟨c :: before, after, rfl, hafter⟩
    · exact ⟨[], cs, rfl, hcs⟩

/-- Entries that are added one after the other leave the last one of each cursor. -/
theorem getElem?_insertMany {cs : List (CursorKey × Position)} :
    (acc.insertMany cs)[k]? = some p ↔
      IsLast cs k p ∨ (∀ c ∈ cs, c.1 ≠ k) ∧ acc[k]? = some p := by
  induction cs generalizing acc with
  | nil => simp [IsLast]
  | cons c cs ih =>
      rw [Std.ExtTreeMap.insertMany_cons, ih, isLast_cons, List.forall_mem_cons, or_assoc]
      refine or_congr_right ?_
      rw [Std.ExtTreeMap.getElem?_insert]
      by_cases hk : c.1 = k
      · subst hk
        simp [Prod.ext_iff, and_comm]
      · have hne : c ≠ (k, p) := fun h ↦ hk (h ▸ rfl)
        simp [hk, hne]

theorem opens_lines (file : List UInt8) : ∃ first rest, Opens file first rest := by
  cases h : lines file with
  | nil =>
      cases lines_eq_iff.mp h
      exact ⟨[], [], .empty⟩
  | cons first rest => exact ⟨first, rest, .lines (lines_eq_iff.mp h)⟩

theorem load_eq (h : Opens file first rest) :
    load (some file) = (decode first >>= readHeader) >>= fun _ ↦ readLines ∅ rest := by
  cases h with
  | empty => rfl
  | lines h =>
      rw [load, read, lines_eq_iff.mpr h]
      dsimp only
      cases decode first <;> rfl

theorem load_of_lists (h : Lists file points) : load (some file) = .ok points := by
  obtain ⟨first, rest, cs, hopens, hheader, hentries, hpoints⟩ := h
  have hmany : (∅ : CursorPoints).insertMany cs = points := by
    refine Std.ExtTreeMap.ext_getElem? fun k ↦ Option.ext fun p ↦ ?_
    rw [getElem?_insertMany, hpoints]
    simp
  rw [load_eq hopens, readHeader_of_isHeader hheader, ← hmany]
  exact readLines_of_entries hentries

theorem load_of_fails (h : Fails file e) : load (some file) = .error e := by
  cases h with
  | header hopens hflaw =>
      rw [load_eq hopens, readHeader_of_flaw hflaw]
      rfl
  | entry hopens hheader hentries hflaw =>
      rw [load_eq hopens, readHeader_of_isHeader hheader]
      exact readLines_of_flaw hentries hflaw

theorem lists_or_fails (file : List UInt8) : (∃ points, Lists file points) ∨ ∃ e, Fails file e := by
  obtain ⟨first, rest, hopens⟩ := opens_lines file
  obtain hheader | ⟨e, hflaw⟩ := header_or_flaw first
  · obtain ⟨cs, hcs⟩ | ⟨good, l, after, e, rfl, hgood, hflaw⟩ := entries_or_flaw rest
    · refine .inl ⟨(∅ : CursorPoints).insertMany cs, first, rest, cs, hopens, hheader, hcs, ?_⟩
      simp [getElem?_insertMany]
    · exact .inr ⟨e, .entry hopens hheader hgood hflaw⟩
  · exact .inr ⟨e, .header hopens hflaw⟩

theorem isCheckpoint_iff : IsCheckpoint file ↔ ∃ points, Lists file points := by
  constructor
  · rintro ⟨first, rest, hopens, hheader, hentries⟩
    obtain ⟨cs, hcs⟩ | ⟨good, l, after, e, rfl, -, hflaw⟩ := entries_or_flaw rest
    · refine ⟨(∅ : CursorPoints).insertMany cs, first, rest, cs, hopens, hheader, hcs, ?_⟩
      simp [getElem?_insertMany]
    · obtain ⟨c, hc⟩ := hentries l (by simp)
      cases (readLine_of_isEntry hc).symm.trans (readLine_of_flaw hflaw)
  · rintro ⟨points, first, rest, cs, hopens, hheader, hentries, -⟩
    exact ⟨first, rest, hopens, hheader, exists_of_entries hentries⟩

/-- A file is read if it is a checkpoint, and gives what that lists; of any other file the first
flaw is reported. -/
theorem load_follows_grammar (file : List UInt8) :
    ((∃ points, load (some file) = .ok points) ↔ IsCheckpoint file) ∧
      (∀ points, load (some file) = .ok points ↔ Lists file points) ∧
      ∀ e, load (some file) = .error e ↔ Fails file e := by
  obtain ⟨hok, herror⟩ := iff_of_cover (x := load (some file)) (fun _ ↦ load_of_lists)
    (fun _ ↦ load_of_fails) (lists_or_fails file)
  refine ⟨?_, hok, herror⟩
  rw [isCheckpoint_iff]
  exact exists_congr hok

end Checkpoint

end GroupOffsets
