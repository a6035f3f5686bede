import Mos6502.Proofs.Formats
import Mos6502.Snapshot.Board
import Mos6502.Snapshot.Registers

/-!
# Written states are read back

`GivenBy` says which documents are read at all, and as what. Together a written state is read back
however it was rearranged, and nothing is read that leaves a value open or gives it twice, or that
has one out of its range (`written_states_are_read_back`). The format in which states are kept is
any one that does what is documented.
-/

namespace Mos6502

variable {format : Format}

/-! ## Register files -/

namespace Registers

/-- The document gives all registers, each one a number that fits, and the flags by name. -/
def GivenBy (format : Format) (d : Document) (r : Registers) : Prop :=
  ∃ flags, d.Gives keys [some (.ofNat r.a.toNat), some (.ofNat r.x.toNat),
    some (.ofNat r.y.toNat), some (.ofNat r.sp.toNat), some (.ofNat r.pc.toNat),
    some (.text flags)] ∧ format.flags? (some (.text flags)) = some r.status

/-- Registers are read from the documents that give them, and from no others. -/
theorem read?_eq_some_iff (documented : format.Documented) {d : Document} {r : Registers} :
    read? format d = some r ↔ r.GivenBy format d := by
  constructor
  · intro h
    obtain ⟨values, hvalues, h⟩ := Option.bind_eq_some_iff.mp h
    have hgives := documented.fields?_some_iff.mp hvalues
    split at h
    next =>
      simp only [Option.bind_eq_bind, Option.bind_eq_some_iff, documented.byte?_eq_some_iff,
        documented.word?_eq_some_iff] at h
      obtain ⟨a, rfl, x, rfl, y, rfl, sp, rfl, pc, rfl, status, hstatus, ⟨⟩⟩ := h
      obtain ⟨flags, rfl⟩ := documented.text_of_flags? _ _ hstatus
      exact ⟨flags, hgives, hstatus⟩
    next => cases h
  · rintro ⟨flags, hgives, hstatus⟩
    have hvalues := documented.fields?_some_iff.mpr hgives
    simp [read?, hvalues, hstatus, documented.byte?_ofNat,
      documented.word?_ofNat]

/-- Registers are given by what was written for them, in any order of its fields. -/
theorem givenBy_of_rearranged (documented : format.Documented) {d : Document} {r : Registers}
    (h : (r.write format).Rearranged d) : r.GivenBy format d := by
  have hflags := documented.flags?_flags r.status
  simp only [write, documented.record_eq, documented.byte_eq, documented.word_eq,
    documented.flags_eq] at h hflags
  exact ⟨_, h.gives (by simp) (by simp), hflags⟩

end Registers

/-! ## Snapshots -/

namespace BankConfig

def GivenBy (c : BankConfig) (d : Document) : Prop :=
  d.Gives keys [some (.ofNat c.mirroring.toNat), some (.ofNat c.prgMode.toNat),
    some (.ofNat c.chrMode.toNat), some (.ofNat c.chrBank0.toNat), some (.ofNat c.chrBank1.toNat),
    some (.ofNat c.prgBank.toNat), some (.bool c.hasRam), some (.ofNat c.shift.toNat),
    some (.ofNat c.shiftCount.toNat)]

/-- Bank registers are read from the documents that give them, and from no others. -/
theorem read?_eq_some_iff (documented : format.Documented) {given : Option Document}
    {c : BankConfig} : read? format given = some c ↔ ∃ d, given = some d ∧ c.GivenBy d := by
  constructor
  · intro hread
    obtain ⟨values, hvalues, h⟩ := Option.bind_eq_some_iff.mp hread
    obtain ⟨d, rfl, hgives⟩ := (documented.fields?_eq_some_iff _ _ _).mp hvalues
    split at h
    next =>
      simp only [Option.bind_eq_bind, Option.bind_eq_some_iff, documented.byte?_eq_some_iff,
        documented.bool?_eq_some_iff] at h
      obtain ⟨mirroring, rfl, prgMode, rfl, chrMode, rfl, chrBank0, rfl, chrBank1, rfl,
        prgBank, rfl, hasRam, rfl, shift, rfl, shiftCount, rfl, ⟨⟩⟩ := h
      exact ⟨d, rfl, hgives⟩
    next => cases h
  · rintro ⟨d, rfl, hgives⟩
    have hvalues := documented.fields?_some_iff.mpr hgives
    simp [read?, hvalues, documented.byte?_ofNat,
      documented.bool?_bool]

theorem givenBy_of_rearranged (documented : format.Documented) {d : Document} {c : BankConfig}
    (h : (c.write format).Rearranged d) : c.GivenBy d := by
  simp only [write, documented.record_eq, documented.byte_eq, documented.bool_eq] at h
  exact h.gives (by simp) (by simp)

end BankConfig

namespace Snapshot

/-- The document gives all memory and bank registers behind the name of the board. Only the
cartridge RAM of a board without banks may be missing, and then it is absent. -/
def GivenBy (d : Document) : Snapshot → Prop
  | nrom ram cartRam => ∃ body given, d = .record [("Nrom", body)] ∧
      body.Gives ["ram", "cart_ram"] [some (.ofBytes ram), given] ∧
      (given = some (.ofOptional cartRam) ∨ given = none ∧ cartRam = none)
  | mmc1 banks ram cartRam => ∃ body config, d = .record [("Mmc1", body)] ∧
      body.Gives ["config", "ram", "cart_ram"]
        [some config, some (.ofBytes ram), some (.ofBytes cartRam)] ∧ banks.GivenBy config
  | flat memory => ∃ body, d = .record [("FullRw", body)] ∧
      body.Gives ["memory"] [some (.ofBytes memory)]

section Read

variable (documented : format.Documented)
include documented

theorem givenBy_of_readNrom? {body : Document} {s : Snapshot}
    (h : readNrom? format body = some s) : s.GivenBy (.record [("Nrom", body)]) := by
  obtain ⟨values, hvalues, h⟩ := Option.bind_eq_some_iff.mp h
  have hgives := documented.fields?_some_iff.mp hvalues
  split at h
  next =>
    simp only [Option.bind_eq_bind, Option.bind_eq_some_iff, documented.bytes?_eq_some_iff,
      documented.optional?_eq_some_iff] at h
    obtain ⟨ram, rfl, cartRam, hcartRam, ⟨⟩⟩ := h
    exact ⟨body, _, rfl, hgives, hcartRam⟩
  next => cases h

theorem givenBy_of_readMmc1? {body : Document} {s : Snapshot}
    (h : readMmc1? format body = some s) : s.GivenBy (.record [("Mmc1", body)]) := by
  obtain ⟨values, hvalues, h⟩ := Option.bind_eq_some_iff.mp h
  have hgives := documented.fields?_some_iff.mp hvalues
  split at h
  next =>
    simp only [Option.bind_eq_bind, Option.bind_eq_some_iff, documented.bytes?_eq_some_iff,
      BankConfig.read?_eq_some_iff documented] at h
    obtain ⟨banks, ⟨config, rfl, hbanks⟩, ram, rfl, cartRam, rfl, ⟨⟩⟩ := h
    exact ⟨body, config, rfl, hgives, hbanks⟩
  next => cases h

theorem givenBy_of_readFlat? {body : Document} {s : Snapshot}
    (h : readFlat? format body = some s) : s.GivenBy (.record [("FullRw", body)]) := by
  obtain ⟨values, hvalues, h⟩ := Option.bind_eq_some_iff.mp h
  have hgives := documented.fields?_some_iff.mp hvalues
  split at h
  next =>
    simp only [Option.bind_eq_bind, Option.bind_eq_some_iff, documented.bytes?_eq_some_iff] at h
    obtain ⟨memory, rfl, ⟨⟩⟩ := h
    exact ⟨body, rfl, hgives⟩
  next => cases h

/-- A snapshot is read from the documents that give it: one field with the name of the board, around
the state. -/
theorem read?_eq_some_iff {d : Document} {s : Snapshot} :
    read? format d = some s ↔ s.GivenBy d := by
  constructor
  · intro hread
    obtain ⟨⟨name, body⟩, htagged, h⟩ := Option.bind_eq_some_iff.mp hread
    obtain ⟨rfl, hname⟩ := (documented.tagged?_eq_some_iff _ _ _ _).mp htagged
    dsimp only at h
    split_ifs at h with hnrom hmmc1
    · exact hnrom ▸ givenBy_of_readNrom? documented h
    · exact hmmc1 ▸ givenBy_of_readMmc1? documented h
    · obtain rfl : name = "FullRw" := by simpa [names, hnrom, hmmc1] using hname
      exact givenBy_of_readFlat? documented h
  · intro h
    cases s with
    | nrom ram cartRam =>
      obtain ⟨body, given, rfl, hgives, hgiven⟩ := h
      have htagged := documented.tagged?_record (show "Nrom" ∈ names by decide) body
      have hvalues := documented.fields?_some_iff.mpr hgives
      simp [read?, readNrom?, htagged, hvalues, documented.bytes?_ofBytes,
        documented.optional?_eq_some_iff.mpr hgiven]
    | mmc1 banks ram cartRam =>
      obtain ⟨body, config, rfl, hgives, hconfig⟩ := h
      have htagged := documented.tagged?_record (show "Mmc1" ∈ names by decide) body
      have hvalues := documented.fields?_some_iff.mpr hgives
      simp [read?, readMmc1?, htagged, hvalues, documented.bytes?_ofBytes,
        (BankConfig.read?_eq_some_iff documented).mpr ⟨config, rfl, hconfig⟩]
    | flat memory =>
      obtain ⟨body, rfl, hgives⟩ := h
      have htagged := documented.tagged?_record (show "FullRw" ∈ names by decide) body
      have hvalues := documented.fields?_some_iff.mpr hgives
      simp [read?, readFlat?, htagged, hvalues, documented.bytes?_ofBytes]

/-- A written snapshot may be rearranged behind the name of its board. -/
theorem givenBy_of_rearranged (s : Snapshot) :
    ∃ name body, s.write format = .record [(name, body)] ∧
      ∀ body', body.Rearranged body' → s.GivenBy (.record [(name, body')]) := by
  cases s with
  | nrom ram cartRam =>
    refine ⟨_, _, documented.tagged_eq _ _, fun body' h => ?_⟩
    simp only [documented.record_eq, documented.bytes_eq_ofBytes, documented.optional_eq] at h
    exact ⟨body', _, rfl, h.gives (by simp) (by simp), .inl rfl⟩
  | mmc1 banks ram cartRam =>
    refine ⟨_, _, documented.tagged_eq _ _, fun body' h => ?_⟩
    simp only [documented.record_eq, documented.bytes_eq_ofBytes] at h
    obtain ⟨values, hgives, hrearranged⟩ := h.exists_values (by simp)
    simp only [List.map_cons, List.map_nil, List.forall₂_cons_left_iff,
      List.forall₂_nil_left_iff] at hrearranged
    obtain ⟨config, -, hconfig, ⟨ram', -, hram, ⟨cartRam', -, hcartRam, rfl, rfl⟩, rfl⟩, rfl⟩ :=
      hrearranged
    rw [hram.eq_of_isPlain trivial, hcartRam.eq_of_isPlain trivial] at hgives
    exact ⟨body', config, rfl, hgives, BankConfig.givenBy_of_rearranged documented hconfig⟩
  | flat memory =>
    refine ⟨_, _, documented.tagged_eq _ _, fun body' h => ?_⟩
    simp only [documented.record_eq, documented.bytes_eq_ofBytes] at h
    exact ⟨body', rfl, h.gives (by simp) (by simp)⟩

end Read

end Snapshot

/-- Written snapshots and register files are read back, and also if there are other orders and more
keys in their records; the name of the board stands alone. Nothing is read but what gives all values
of the state that is read, each of them once and in its range; only the cartridge RAM of a board
without banks may be missing. -/
theorem written_states_are_read_back (documented : format.Documented) :
    (∀ s : Snapshot, ∃ name body, s.write format = .record [(name, body)] ∧
      ∀ body', body.Rearranged body' → Snapshot.read? format (.record [(name, body')]) = some s) ∧
    (∀ (r : Registers) (d : Document), (r.write format).Rearranged d →
      Registers.read? format d = some r) ∧
    (∀ (d : Document) (s : Snapshot), Snapshot.read? format d = some s ↔ s.GivenBy d) ∧
    ∀ (d : Document) (r : Registers), Registers.read? format d = some r ↔ r.GivenBy format d := by
  refine ⟨fun s => ?_, fun r d h => ?_, fun d s => Snapshot.read?_eq_some_iff documented,
    fun d r => Registers.read?_eq_some_iff documented⟩
  · obtain ⟨name, body, hwrite, hgiven⟩ := s.givenBy_of_rearranged documented
    exact ⟨name, body, hwrite, fun body' h =>
      (Snapshot.read?_eq_some_iff documented).mpr (hgiven body' h)⟩
  · exact (Registers.read?_eq_some_iff documented).mpr
      (Registers.givenBy_of_rearranged documented h)

/-- In the format in use, bank registers with one more key, and the parts of their snapshot from
back to front. -/
theorem written_states_are_read_back_mmc1 :
    let config : List (String × Document) := [
      ("mirroring", .ofNat 0), ("prg_bank_mode", .ofNat 3), ("chr_bank_mode", .ofNat 0),
      ("chr_bank0", .ofNat 0), ("chr_bank1", .ofNat 0), ("prg_bank", .ofNat 0),
      ("has_ram", .bool true), ("shift", .ofNat 0), ("shift_count", .ofNat 0)]
    Format.json.Documented ∧
      Snapshot.read? .json (.record [("Mmc1", .record [("cart_ram", .ofBytes #[]),
        ("ram", .ofBytes #[1, 2]), ("config", .record (("note", .null) :: config))])]) =
          some (.mmc1 (.powerOn true) #[1, 2] #[]) := by
  intro config
  obtain ⟨hsnapshots, -⟩ := written_states_are_read_back Format.json_documented
  obtain ⟨name, body, hwrite, hread⟩ := hsnapshots (.mmc1 (.powerOn true) #[1, 2] #[])
  obtain ⟨rfl, rfl⟩ : name = "Mmc1" ∧ body = .record [("config", .record config),
      ("ram", .ofBytes #[1, 2]), ("cart_ram", .ofBytes #[])] := by
    cases hwrite
    exact ⟨rfl, rfl⟩
  have hadd : Document.Edit (.record config) (.record (("note", .null) :: config)) :=
    .add .null (by simp [config])
  have hwithin := @Document.Edit.within [] [("ram", .ofBytes #[1, 2]), ("cart_ram", .ofBytes #[])]
    "config" _ _ hadd
  exact ⟨Format.json_documented,
    hread _ ((Relation.ReflTransGen.single hwithin).tail (.reorder (List.reverse_perm _).symm))⟩

/-- A key that is given twice is refused, although its first value would do. -/
example : Registers.read? .json (.record [("a", .ofNat 1), ("x", .ofNat 0), ("y", .ofNat 0),
    ("sp", .ofNat 0), ("pc", .ofNat 0), ("status", .text ""), ("a", .ofNat 300)]) = none := by
  rfl

end Mos6502
