import Mathlib.Data.List.TakeWhile
import Mos6502.Proofs.Documents
import Mos6502.Snapshot.Format

/-!
# Documented formats

`Format.Documented` lists what is relied on of the library that keeps states: which document stands
for a number or a truth value, how byte strings and records are put together from their parts, and
how the flags are written as a text of names with bars between them. The format in use is such a
one (`json_documented`). What is said there of the parts is enough for byte strings
(`Documented.bytes?_eq_some_iff`), and for sets of flags, as their names have neither bars nor
blanks in them and are found again between the bars (`Documented.flags?_flags`).
-/

namespace Mos6502

namespace Document

/-! ## What documents are read as -/

theorem nat?_eq_some_iff {bound n : Nat} {d : Document} :
    d.nat? bound = some n ↔ d = ofNat n ∧ n ≤ bound := by
  unfold nat?
  split
  next k =>
    rw [Option.ite_none_right_eq_some, Option.some_inj]
    constructor
    · rintro ⟨hle, rfl⟩
      exact ⟨rfl, hle⟩
    · rintro ⟨heq, hle⟩
      cases heq
      exact ⟨hle, rfl⟩
  next hother =>
    refine iff_of_false nofun fun ⟨heq, _⟩ => hother n heq

theorem bool?_eq_some_iff {d : Document} {b : Bool} : d.bool? = some b ↔ d = .bool b := by
  cases d <;> simp [bool?]

theorem text?_eq_some_iff {d : Document} {s : String} : d.text? = some s ↔ d = .text s := by
  cases d <;> simp [text?]

end Document

/-! ## Flags by name -/

namespace Text

theorem trimBlanks_cons {c : Char} (h : isBlank c) (cs : List Char) :
    trimBlanks (c :: cs) = trimBlanks cs := by
  rw [trimBlanks, List.dropWhile_cons_of_pos h, ← trimBlanks]

theorem trimBlanks_eq_self {cs : List Char} (h : ∀ c ∈ cs, isBlank c = false) :
    trimBlanks cs = cs := by
  have hreverse : ∀ c ∈ cs.reverse, isBlank c = false := fun c hc => h c (List.mem_reverse.mp hc)
  rw [trimBlanks, dropWhile_eq_self h, dropWhile_eq_self hreverse, List.reverse_reverse]

/-- Trimming takes back the space before a separator. -/
theorem trimBlanks_append_space {cs : List Char} (h : ∀ c ∈ cs, isBlank c = false) :
    trimBlanks (cs ++ [' ']) = cs := by
  have hreverse : ∀ c ∈ cs.reverse, isBlank c = false := fun c hc => h c (List.mem_reverse.mp hc)
  have hspace : [' '].dropWhile isBlank = [] := rfl
  rw [trimBlanks, List.dropWhile_append, dropWhile_eq_self h, hspace]
  split
  next hnil => rw [List.isEmpty_iff.mp hnil]; rfl
  next =>
    rw [List.reverse_append, List.reverse_singleton, List.singleton_append,
      List.dropWhile_cons_of_pos (by decide), dropWhile_eq_self hreverse, List.reverse_reverse]

/-- A space in front belongs to the first part. -/
theorem map_trimBlanks_splitOn_space {separator : Char} (hseparator : separator ≠ ' ')
    (cs : List Char) : (splitOn separator (' ' :: cs)).map trimBlanks =
      (splitOn separator cs).map trimBlanks := by
  rw [splitOn, if_neg hseparator.symm]
  split
  next part parts hparts => 
    rw [hparts, List.map_cons, List.map_cons, trimBlanks_cons (by decide)]
  next hnil => exact absurd hnil (splitOn_ne_nil separator cs)

theorem trimBlanks_ne_nil {c : Char} (h : isBlank c = false) (rest : List Char) :
    trimBlanks (c :: rest) ≠ [] := by
  have hblank : ¬ isBlank c := by simp [h]
  rw [trimBlanks, List.dropWhile_cons_of_neg hblank, Ne, List.reverse_eq_nil_iff,
    List.dropWhile_eq_nil_iff]
  exact fun hall => hblank (hall c (List.mem_reverse.mpr List.mem_cons_self))

/-- Nothing but blanks is left out altogether. -/
theorem isBlank_of_trimBlanks_eq_nil {cs : List Char} (h : trimBlanks cs = []) :
    ∀ c ∈ cs, isBlank c := by
  induction cs with
  | nil => nofun
  | cons c rest ih =>
    cases hc : isBlank c with
    | true => exact List.forall_mem_cons.mpr ⟨hc, ih (trimBlanks_cons hc rest ▸ h)⟩
    | false => exact absurd h (trimBlanks_ne_nil hc rest)

/-- Words without bars and blanks are found again between the bars. -/
theorem map_trimBlanks_splitOn_join {words : List String} (hne : words ≠ [])
    (hbar : ∀ w ∈ words, '|' ∉ w.toList)
    (hblank : ∀ w ∈ words, ∀ c ∈ w.toList, isBlank c = false) :
    (splitOn '|' (join " | " words).toList).map trimBlanks = words.map String.toList := by
  induction words with
  | nil => exact absurd rfl hne
  | cons w rest ih =>
    obtain ⟨hw, hrest⟩ := List.forall_mem_cons.mp hbar
    obtain ⟨hw', hrest'⟩ := List.forall_mem_cons.mp hblank
    cases rest with
    | nil =>
      have hjoin : join " | " [w] = w := String.intercalate_singleton
      rw [hjoin, splitOn_of_not_mem hw, List.map_singleton, trimBlanks_eq_self hw',
        List.map_singleton]
    | cons w₂ rest =>
      have hjoin : (join " | " (w :: w₂ :: rest)).toList =
          (w.toList ++ [' ']) ++ '|' :: ' ' :: (join " | " (w₂ :: rest)).toList := by
        simp [join]
      have hfront : '|' ∉ w.toList ++ [' '] := by simpa using hw
      rw [hjoin, splitOn_append hfront, List.map_cons, trimBlanks_append_space hw',
        map_trimBlanks_splitOn_space (by decide), ih (List.cons_ne_nil _ _) hrest hrest',
        List.map_cons (l := w₂ :: rest)]

end Text

namespace Status

theorem ext_get {s t : Status} (h : ∀ flag, s.get flag = t.get flag) : s = t := by
  cases s
  cases t
  congr
  · exact h .carry
  · exact h .zero
  · exact h .irqDisable
  · exact h .decimal
  · exact h .breakBit
  · exact h .unused
  · exact h .overflow
  · exact h .negative

theorem get_union (s t : Status) (flag : Flag) :
    (s.union t).get flag = (s.get flag || t.get flag) := by
  cases flag <;> rfl

theorem get_only (flag other : Flag) : (only flag).get other = decide (other = flag) := by
  cases flag <;> cases other <;> rfl

theorem get_foldl_union (flags : List Flag) (s : Status) (flag : Flag) :
    ((flags.map only).foldl union s).get flag ↔ s.get flag ∨ flag ∈ flags := by
  induction flags generalizing s with
  | nil => simp
  | cons first rest ih =>
    rw [List.map_cons, List.foldl_cons, ih, get_union, get_only, Bool.or_eq_true,
      decide_eq_true_iff, or_assoc, List.mem_cons]

/-- A set of flags is made of its flags. -/
theorem foldl_union_eq (s : Status) : ((Flag.all.filter s.get).map only).foldl union {} = s := by
  refine ext_get fun flag => Bool.eq_iff_iff.mpr ?_
  have hclear : get {} flag = false := by cases flag <;> rfl
  have hall : flag ∈ Flag.all := by cases flag <;> decide
  rw [get_foldl_union, hclear, List.mem_filter, and_iff_right hall]
  exact or_iff_right Bool.false_ne_true

/-- The name of a flag is read as this flag. -/
theorem readPart?_name (flag : Flag) : readPart? flag.name.toList = some (only flag) := by
  cases flag <;> decide

/-- No name holds the separator. -/
theorem bar_not_mem_name (flag : Flag) : '|' ∉ flag.name.toList := by
  cases flag <;> decide

theorem isBlank_of_mem_name {flag : Flag} {c : Char} (h : c ∈ flag.name.toList) :
    Text.isBlank c = false := by
  have hall : flag.name.toList.all fun c => !Text.isBlank c := by cases flag <;> decide
  simpa using List.all_eq_true.mp hall c h

/-- A name starts with a visible character. -/
theorem exists_name_eq (flag : Flag) :
    ∃ c rest, flag.name.toList = c :: rest ∧ Text.isBlank c = false := by
  cases flag <;> exact ⟨_, _, rfl, by decide⟩

/-- No name stands between the bars of a blank text. -/
theorem trimBlanks_ne_nil_of_names {text : String} {flags : List Flag}
    (h : (Text.splitOn '|' text.toList).map Text.trimBlanks =
      flags.map fun flag => flag.name.toList) :
    Text.trimBlanks text.toList ≠ [] := by
  intro hblank
  have hbar : '|' ∉ text.toList := fun hmem =>
    absurd (Text.isBlank_of_trimBlanks_eq_nil hblank _ hmem) (by decide)
  rw [Text.splitOn_of_not_mem hbar, List.map_singleton, hblank] at h
  obtain ⟨flag, -, hflag⟩ : ∃ flag ∈ flags, flag.name.toList = [] :=
    List.mem_map.mp (h ▸ List.mem_singleton_self [])
  obtain ⟨c, rest, hname, -⟩ := exists_name_eq flag
  exact List.cons_ne_nil c rest (hname ▸ hflag)

/-- Names between bars are read as the flags of these names. -/
theorem read?_of_names {text : String} {flags : List Flag}
    (h : (Text.splitOn '|' text.toList).map Text.trimBlanks =
      flags.map fun flag => flag.name.toList) :
    read? text = some ((flags.map only).foldl union {}) := by
  have hnonempty : ¬ (Text.trimBlanks text.toList).isEmpty := by
    rw [List.isEmpty_iff]
    exact trimBlanks_ne_nil_of_names h
  have hread : (readPart? ∘ fun flag : Flag => flag.name.toList) = fun flag => pure (only flag) :=
    funext readPart?_name
  rw [read?, if_neg hnonempty, ← Function.comp_def readPart?, ← List.mapM_map, h, List.mapM_map,
    hread, List.mapM_pure]
  rfl

/-- The names of a set that is not empty are what stands between the bars. -/
theorem map_trimBlanks_splitOn_write {s : Status} (h : s.names ≠ []) :
    (Text.splitOn '|' (Text.join " | " s.names).toList).map Text.trimBlanks =
      (Flag.all.filter s.get).map fun flag => flag.name.toList := by
  have hbar : ∀ w ∈ s.names, '|' ∉ w.toList :=
    List.forall_mem_map.mpr fun flag _ => bar_not_mem_name flag
  have hblank : ∀ w ∈ s.names, ∀ c ∈ w.toList, Text.isBlank c = false :=
    List.forall_mem_map.mpr fun _ _ _ => isBlank_of_mem_name
  rw [Text.map_trimBlanks_splitOn_join h hbar hblank, names, List.map_map]
  rfl

end Status

namespace Format

/-! ## What is documented -/

/-- The documented behaviour of a format. -/
structure Documented (format : Format) : Prop where
  /-- A number is written without places. -/
  number_eq : ∀ n, format.number n = .ofNat n
  /-- Nothing is read as a number but one that does not exceed the bound of its type. -/
  number?_eq_some_iff : ∀ bound given n,
    format.number? bound given = some n ↔ given = some (.ofNat n) ∧ n ≤ bound
  bool_eq : ∀ b, format.bool b = .bool b
  bool?_eq_some_iff : ∀ given b, format.bool? given = some b ↔ given = some (.bool b)
  /-- A byte string is a list of bytes. -/
  bytes_eq : ∀ bytes, format.bytes bytes = .list (bytes.toList.map format.byte)
  /-- A list is read item by item, and fails with the first item that is no byte. -/
  bytes?_list : ∀ items, format.bytes? (some (.list items)) =
    (items.mapM fun item => format.byte? (some item)).map List.toArray
  list_of_bytes? : ∀ given bytes, format.bytes? given = some bytes →
    ∃ items, given = some (.list items)
  optional_none : format.optional none = .null
  optional_some : ∀ bytes, format.optional (some bytes) = format.bytes bytes
  /-- What may be absent may be missing. -/
  optional?_missing : format.optional? none = some none
  optional?_null : format.optional? (some .null) = some none
  optional?_some : ∀ d, d ≠ .null →
    format.optional? (some d) = (format.bytes? (some d)).map some
  /-- Flags are written by name in bit order, with bars between the names. -/
  flags_eq : ∀ s, format.flags s = .text (Text.join " | " s.names)
  /-- A text of blanks has no flags in it. -/
  flags?_blank : ∀ text, Text.trimBlanks text.toList = [] →
    format.flags? (some (.text text)) = some {}
  /-- Names between bars, with or without blanks around them, are the flags of these names. -/
  flags?_names : ∀ text (flags : List Flag),
    (Text.splitOn '|' text.toList).map Text.trimBlanks =
      flags.map (fun flag => flag.name.toList) →
    format.flags? (some (.text text)) = some ((flags.map Status.only).foldl Status.union {})
  text_of_flags? : ∀ given s, format.flags? given = some s → ∃ text, given = some (.text text)
  record_eq : ∀ fields, format.record fields = .record fields
  /-- Each key that is asked for is taken from a record once at most, in any order and whatever
  other keys there are; a list has the values in their order and no others. -/
  fields?_eq_some_iff : ∀ keys given values, format.fields? keys given = some values ↔
    ∃ d, given = some d ∧ d.Gives keys values
  /-- A variant stands behind its name, -/
  tagged_eq : ∀ name d, format.tagged name d = .record [(name, d)]
  /-- and its name must be the only key. -/
  tagged?_eq_some_iff : ∀ names d name body, format.tagged? names d = some (name, body) ↔
    d = .record [(name, body)] ∧ name ∈ names

namespace Documented

variable {format : Format} (documented : format.Documented)
include documented

theorem byte_eq (v : UInt8) : format.byte v = .ofNat v.toNat := documented.number_eq _

theorem word_eq (v : UInt16) : format.word v = .ofNat v.toNat := documented.number_eq _

/-- A byte is read from its own number only. -/
theorem byte?_eq_some_iff {given : Option Document} {v : UInt8} :
    format.byte? given = some v ↔ given = some (.ofNat v.toNat) := by
  rw [byte?, Option.map_eq_some_iff]
  constructor
  · rintro ⟨n, hn, rfl⟩
    obtain ⟨rfl, hle⟩ := (documented.number?_eq_some_iff _ _ _).mp hn
    rw [UInt8.toNat_ofNat_of_lt' (Nat.lt_succ_of_le hle)]
  · rintro rfl
    exact ⟨_, (documented.number?_eq_some_iff _ _ _).mpr ⟨rfl, Nat.le_of_lt_succ v.toNat_lt⟩,
      UInt8.ofNat_toNat⟩

theorem word?_eq_some_iff {given : Option Document} {v : UInt16} :
    format.word? given = some v ↔ given = some (.ofNat v.toNat) := by
  rw [word?, Option.map_eq_some_iff]
  constructor
  · rintro ⟨n, hn, rfl⟩
    obtain ⟨rfl, hle⟩ := (documented.number?_eq_some_iff _ _ _).mp hn
    rw [UInt16.toNat_ofNat_of_lt' (Nat.lt_succ_of_le hle)]
  · rintro rfl
    exact ⟨_, (documented.number?_eq_some_iff _ _ _).mpr ⟨rfl, Nat.le_of_lt_succ v.toNat_lt⟩,
      UInt16.ofNat_toNat⟩

theorem byte?_ofNat (v : UInt8) : format.byte? (some (.ofNat v.toNat)) = some v :=
  documented.byte?_eq_some_iff.mpr rfl

theorem word?_ofNat (v : UInt16) : format.word? (some (.ofNat v.toNat)) = some v :=
  documented.word?_eq_some_iff.mpr rfl

theorem bool?_bool (b : Bool) : format.bool? (some (.bool b)) = some b :=
  (documented.bool?_eq_some_iff _ _).mpr rfl

theorem bytes_eq_ofBytes (bytes : Array UInt8) : format.bytes bytes = .ofBytes bytes := by
  rw [documented.bytes_eq, Document.ofBytes]
  exact congrArg _ (List.map_congr_left fun v _ => documented.byte_eq v)

/-- The items of a list are read as these bytes. -/
theorem mapM_byte?_eq_some_iff {items : List Document} {bytes : List UInt8} :
    (items.mapM fun item => format.byte? (some item)) = some bytes ↔
      items = bytes.map fun v => .ofNat v.toNat := by
  simp only [mapM_eq_some_iff_forall₂, documented.byte?_eq_some_iff, Option.some_inj]
  rw [← List.forall₂_map_right_iff (R := Eq), List.forall₂_eq_eq_eq]

theorem bytes?_eq_some_iff {given : Option Document} {bytes : Array UInt8} :
    format.bytes? given = some bytes ↔ given = some (.ofBytes bytes) := by
  constructor
  · intro h
    obtain ⟨items, rfl⟩ := documented.list_of_bytes? _ _ h
    rw [documented.bytes?_list, Option.map_eq_some_iff] at h
    obtain ⟨values, hvalues, rfl⟩ := h
    rw [documented.mapM_byte?_eq_some_iff.mp hvalues, Document.ofBytes]
  · rintro rfl
    rw [Document.ofBytes, documented.bytes?_list, documented.mapM_byte?_eq_some_iff.mpr rfl,
      Option.map_some, Array.toArray_toList]

theorem bytes?_ofBytes (bytes : Array UInt8) :
    format.bytes? (some (.ofBytes bytes)) = some bytes :=
  documented.bytes?_eq_some_iff.mpr rfl

theorem optional_eq (cartRam : Option (Array UInt8)) :
    format.optional cartRam = .ofOptional cartRam := by
  cases cartRam with
  | none => exact documented.optional_none
  | some bytes => rw [documented.optional_some, documented.bytes_eq_ofBytes, Document.ofOptional]

/-- Optional bytes may be left out, which is read as their absence. -/
theorem optional?_eq_some_iff {given : Option Document} {cartRam : Option (Array UInt8)} :
    format.optional? given = some cartRam ↔
      given = some (.ofOptional cartRam) ∨ given = none ∧ cartRam = none := by
  cases given with
  | none => simp [documented.optional?_missing, eq_comm]
  | some d =>
    by_cases hnull : d = .null
    · subst hnull
      cases cartRam <;> simp [documented.optional?_null, Document.ofOptional, Document.ofBytes]
    · rw [documented.optional?_some d hnull, Option.map_eq_some_iff]
      cases cartRam <;> simp [documented.bytes?_eq_some_iff, Document.ofOptional, hnull]

theorem fields?_some_iff {keys : List String} {d : Document} {values : List (Option Document)} :
    format.fields? keys (some d) = some values ↔ d.Gives keys values := by
  simp [documented.fields?_eq_some_iff]

theorem tagged?_record {names : List String} {name : String} (h : name ∈ names)
    (body : Document) : format.tagged? names (.record [(name, body)]) = some (name, body) :=
  (documented.tagged?_eq_some_iff _ _ _ _).mpr ⟨rfl, h⟩

/-- A written set of flags is read back. The empty one is no word between bars but a blank text. -/
theorem flags?_flags (s : Status) : format.flags? (some (format.flags s)) = some s := by
  rw [documented.flags_eq]
  by_cases hnames : s.names = []
  · have hempty : s = {} := by
      rw [← s.foldl_union_eq, List.map_eq_nil_iff.mp hnames]
      rfl
    rw [hnames, documented.flags?_blank _ rfl, hempty]
  · rw [documented.flags?_names _ _ (Status.map_trimBlanks_splitOn_write hnames),
      s.foldl_union_eq]

end Documented

theorem json_documented : json.Documented where
  number_eq _ := rfl
  number?_eq_some_iff bound given n := by
    cases given <;> simp [json, Document.nat?_eq_some_iff]
  bool_eq _ := rfl
  bool?_eq_some_iff given b := by
    cases given <;> simp [json, Document.bool?_eq_some_iff]
  bytes_eq _ := rfl
  bytes?_list _ := rfl
  list_of_bytes? given bytes h := by
    obtain ⟨d, rfl, h⟩ := Option.bind_eq_some_iff.mp h
    cases d with
    | list items => exact ⟨items, rfl⟩
    | _ => cases h
  optional_none := rfl
  optional_some _ := rfl
  optional?_missing := rfl
  optional?_null := rfl
  optional?_some d hnull := by
    cases d with
    | null => exact absurd rfl hnull
    | _ => rfl
  flags_eq _ := rfl
  flags?_blank _ h := if_pos (List.isEmpty_iff.mpr h)
  flags?_names _ _ h := Status.read?_of_names h
  text_of_flags? given s h := by
    obtain ⟨d, rfl, h⟩ := Option.bind_eq_some_iff.mp h
    obtain ⟨text, htext, -⟩ := Option.bind_eq_some_iff.mp h
    exact ⟨text, congrArg some (Document.text?_eq_some_iff.mp htext)⟩
  record_eq _ := rfl
  fields?_eq_some_iff keys given values := by
    simp only [json, Option.bind_eq_some_iff, Document.values?_eq_some_iff]
  tagged_eq _ _ := rfl
  tagged?_eq_some_iff names d name body := by
    unfold json
    dsimp only
    split
    next name' body' =>
      rw [Option.ite_none_right_eq_some]
      constructor
      · rintro ⟨hmem, ⟨⟩⟩
        exact ⟨rfl, hmem⟩
      · rintro ⟨⟨⟩, hmem⟩
        exact ⟨hmem, rfl⟩
    next hother => exact iff_of_false nofun fun ⟨heq, _⟩ => hother name body heq

end Format

end Mos6502
