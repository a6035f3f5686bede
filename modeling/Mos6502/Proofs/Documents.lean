import Mathlib.Data.List.Forall2
import Mathlib.Data.List.Nodup
import Mathlib.Logic.Relation
import Mos6502.Document

/-!
# Rearranged documents

The order of the keys in a record means nothing, and a reader asks only for the keys that it knows.
`Gives` says what a document has under such keys, each of which may occur only once. `Rearranged` is
what may become of a document on its way, and each value is still found under its key, rearranged
itself (`RefinedBy.edit`, `Rearranged.exists_values`).
-/

namespace Mos6502

/-- A pass that may find nothing at an element. -/
theorem mapM_eq_some_iff_forall₂ {α β : Type} {f : α → Option β} {l : List α} {bs : List β} :
    l.mapM f = some bs ↔ List.Forall₂ (fun a b => f a = some b) l bs := by
  induction l generalizing bs with
  | nil =>
    rw [List.mapM_nil, List.forall₂_nil_left_iff]
    exact ⟨fun h => (Option.some.inj h).symm, fun h => congrArg some h.symm⟩
  | cons a rest ih =>
    simp only [List.mapM_cons, Option.bind_eq_bind, Option.bind_eq_some_iff,
      List.forall₂_cons_left_iff, ih]
    constructor
    · rintro ⟨b, hb, bs', hbs', ⟨⟩⟩
      exact ⟨b, bs', hb, hbs', rfl⟩
    · rintro ⟨b, bs', hb, hbs', rfl⟩
      exact ⟨b, hb, bs', hbs', rfl⟩

namespace Document

/-! ## Values by key -/

section Under

variable {fields : List (String × Document)} {key : String} {d : Document}

theorem under_cons_self (key : String) (d : Document) (fields : List (String × Document)) :
    under ((key, d) :: fields) key = d :: under fields key := by
  simp [under]

theorem under_cons_of_ne {other : String} (h : other ≠ key) :
    under ((other, d) :: fields) key = under fields key := by
  simp [under, h]

theorem under_append (front back : List (String × Document)) (key : String) :
    under (front ++ back) key = under front key ++ under back key :=
  List.filterMap_append

theorem mem_under_iff : d ∈ under fields key ↔ (key, d) ∈ fields := by
  rw [under, List.mem_filterMap]
  constructor
  · rintro ⟨⟨other, d'⟩, hmem, heq⟩
    obtain ⟨rfl, ⟨⟩⟩ := Option.ite_none_right_eq_some.mp heq
    exact hmem
  · exact fun hmem => ⟨_, hmem, if_pos rfl⟩

/-- Where the keys differ, nothing else is under the key of a field. -/
theorem under_of_mem (hkeys : (fields.map Prod.fst).Nodup) (h : (key, d) ∈ fields) :
    under fields key = [d] := by
  obtain ⟨front, back, rfl⟩ := List.append_of_mem h
  rw [List.map_append, List.map_cons, List.nodup_middle, ← List.map_append,
    List.nodup_cons] at hkeys
  have hnone : under (front ++ back) key = [] :=
    List.eq_nil_iff_forall_not_mem.mpr fun d' hd' =>
      hkeys.1 (List.mem_map.mpr ⟨_, mem_under_iff.mp hd', rfl⟩)
  obtain ⟨hfront, hback⟩ := List.append_eq_nil_iff.mp (under_append front back key ▸ hnone)
  rw [under_append, under_cons_self, hfront, hback, List.nil_append]

/-- A key may be absent or given once, and a field that is given twice is refused. -/
theorem field?_eq_some_iff {given : Option Document} :
    field? fields key = some given ↔ under fields key = given.toList := by
  unfold field?
  cases given <;> split <;> simp_all

end Under

/-- The document has these values under the keys: as a record in which none of the keys occurs
twice, or as the list of the values. -/
def Gives (keys : List String) (values : List (Option Document)) : Document → Prop
  | record fields => List.Forall₂ (fun key value => under fields key = value.toList) keys values
  | list items => items.map some = values ∧ items.length = keys.length
  | null | bool _ | number _ _ | text _ => False

/-- Reading fields by their keys succeeds on the documents that give them, in any order and with any
others besides. -/
theorem values?_eq_some_iff {keys : List String} {values : List (Option Document)} {d : Document} :
    d.values? keys = some values ↔ d.Gives keys values := by
  cases d with
  | record fields => simp only [values?, Gives, mapM_eq_some_iff_forall₂, field?_eq_some_iff]
  | list items => rw [values?, Gives, Option.ite_none_right_eq_some, Option.some_inj, and_comm]
  | _ => simp [values?, Gives]

/-! ## Rearranged documents -/

/-- One change that a reader of records should not notice: fields in another order, a field under a
key that the record does not have, or such a change inside of a field. -/
inductive Edit : Document → Document → Prop where
  | reorder {fields fields' : List (String × Document)} (h : fields.Perm fields') :
      Edit (record fields) (record fields')
  | add {fields : List (String × Document)} {key : String} (d : Document)
      (h : key ∉ fields.map Prod.fst) : Edit (record fields) (record ((key, d) :: fields))
  | within {front back : List (String × Document)} {key : String} {d d' : Document}
      (h : Edit d d') :
      Edit (record (front ++ (key, d) :: back)) (record (front ++ (key, d') :: back))

/-- The second document is the first one after such changes. -/
def Rearranged : Document → Document → Prop := Relation.ReflTransGen Edit

/-- The document is no record. -/
def IsPlain : Document → Prop
  | record _ => False
  | null | bool _ | number _ _ | text _ | list _ => True

@[simp]
theorem isPlain_ofNat (n : Nat) : (ofNat n).IsPlain := trivial

@[simp]
theorem isPlain_bool (b : Bool) : (bool b).IsPlain := trivial

@[simp]
theorem isPlain_text (s : String) : (text s).IsPlain := trivial

@[simp]
theorem isPlain_ofBytes (bytes : Array UInt8) : (ofBytes bytes).IsPlain := trivial

@[simp]
theorem isPlain_ofOptional (cartRam : Option (Array UInt8)) : (ofOptional cartRam).IsPlain := by
  cases cartRam <;> trivial

/-- There is nothing to rearrange but records. -/
theorem Rearranged.eq_of_isPlain {d d' : Document} (h : d.Rearranged d') (hd : d.IsPlain) :
    d' = d := by
  induction h with
  | refl => rfl
  | tail _ hedit ih =>
    subst ih
    cases hedit <;> cases hd

/-- The document is a record with each of these fields in it, rearranged, and nothing else under
their keys. -/
def RefinedBy (fields : List (String × Document)) (d : Document) : Prop :=
  ∃ fields', d = record fields' ∧
    ∀ key v, (key, v) ∈ fields → ∃ v', under fields' key = [v'] ∧ v.Rearranged v'

namespace RefinedBy

variable {fields : List (String × Document)} {d d' : Document}

/-- A field that no key asks for can be put in, and two fields can change places. -/
theorem edit (h : RefinedBy fields d) (hedit : Edit d d') : RefinedBy fields d' := by
  obtain ⟨fields', rfl, hfields⟩ := h
  cases hedit with
  | @reorder _ fields'' hperm =>
    refine ⟨fields'', rfl, fun key v hmem => ?_⟩
    obtain ⟨v', hv', hrearranged⟩ := hfields key v hmem
    have hunder : (under fields' key).Perm (under fields'' key) := hperm.filterMap _
    exact ⟨v', List.perm_singleton.mp (hv' ▸ hunder.symm), hrearranged⟩
  | @add _ other d hnew =>
    refine ⟨_, rfl, fun key v hmem => ?_⟩
    obtain ⟨v', hv', hrearranged⟩ := hfields key v hmem
    have hkey : (key, v') ∈ fields' := mem_under_iff.mp (hv' ▸ List.mem_singleton_self v')
    have hne : other ≠ key := fun heq => hnew (heq ▸ List.mem_map_of_mem hkey)
    exact ⟨v', by rw [under_cons_of_ne hne, hv'], hrearranged⟩
  | @within front back inner d₁ d₂ hedit =>
    refine ⟨_, rfl, fun key v hmem => ?_⟩
    obtain ⟨v', hv', hrearranged⟩ := hfields key v hmem
    rw [under_append] at hv'
    -- The value that changes is the one under `inner`, and it is alone there.
    by_cases hkey : inner = key
    · subst hkey
      rw [under_cons_self, List.append_eq_singleton_iff] at hv'
      obtain ⟨hfront, hback⟩ | ⟨-, habsurd⟩ := hv'
      · obtain ⟨rfl, hrest⟩ := List.cons.inj hback
        refine ⟨d₂, ?_, hrearranged.tail hedit⟩
        rw [under_append, under_cons_self, hfront, hrest, List.nil_append]
      · cases habsurd
    · rw [under_cons_of_ne hkey] at hv'
      exact ⟨v', by rw [under_append, under_cons_of_ne hkey, hv'], hrearranged⟩

theorem of_rearranged (hkeys : (fields.map Prod.fst).Nodup) (h : (record fields).Rearranged d) :
    RefinedBy fields d := by
  induction h with
  | refl => exact ⟨fields, rfl, fun key v hmem => ⟨v, under_of_mem hkeys hmem, .refl⟩⟩
  | tail _ hedit ih => exact ih.edit hedit

end RefinedBy

/-- A rearranged record has the values of the record under its keys, each one rearranged. -/
theorem Rearranged.exists_values {fields : List (String × Document)} {d : Document}
    (h : (record fields).Rearranged d) (hkeys : (fields.map Prod.fst).Nodup) :
    ∃ values, d.Gives (fields.map Prod.fst) (values.map some) ∧
      List.Forall₂ Rearranged (fields.map Prod.snd) values := by
  obtain ⟨fields', rfl, hfields⟩ := RefinedBy.of_rearranged hkeys h
  clear h hkeys
  induction fields with
  | nil => exact ⟨[], .nil, .nil⟩
  | cons field rest ih =>
    obtain ⟨v, hunder, hrearranged⟩ := hfields field.1 field.2 List.mem_cons_self
    obtain ⟨values, hvalues, hrest⟩ := ih fun key v h => hfields key v (List.mem_cons_of_mem _ h)
    exact ⟨v :: values, .cons hunder hvalues, .cons hrearranged hrest⟩

/-- Plain documents have nothing to rearrange, and neither have their lists. -/
theorem Rearranged.eq_of_forall₂ {ds ds' : List Document} (h : List.Forall₂ Rearranged ds ds')
    (hplain : ∀ d ∈ ds, d.IsPlain) : ds' = ds := by
  induction h with
  | nil => rfl
  | cons hfirst hrest ih =>
    obtain ⟨hd, hds⟩ := List.forall_mem_cons.mp hplain
    rw [hfirst.eq_of_isPlain hd, ih hds]

/-- Values that are no records are just the same. -/
theorem Rearranged.gives {fields : List (String × Document)} {d : Document}
    (h : (record fields).Rearranged d) (hkeys : (fields.map Prod.fst).Nodup)
    (hplain : ∀ field ∈ fields, field.2.IsPlain) :
    d.Gives (fields.map Prod.fst) (fields.map fun field => some field.2) := by
  obtain ⟨values, hvalues, hrearranged⟩ := h.exists_values hkeys
  rw [eq_of_forall₂ hrearranged (List.forall_mem_map.mpr hplain), List.map_map] at hvalues
  exact hvalues

end Document

end Mos6502
