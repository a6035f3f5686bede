import Mathlib.Data.List.DropRight
import Mathlib.Order.Bounds.Defs
import Mos6502.Proofs.Marking

/-!
# What the code/data log puts out

The bytes of a log are those of its marks: as many as the highest marked offset needs, and each the
union of all that was marked at its offset since the log was last cleared. Whatever a log puts out
goes to a writer in pieces and is then flushed, but a writer that runs full cannot tell how it was
cut, nor whether it held some of it back: it has accepted the output as far as its room went, and
the answer is an error exactly if that was not all (`Sink.Emits.receives`).
-/

namespace Mos6502

/-! ## Writers that run full -/

namespace Sink

/-- A writer without a bound receives the output. Every other receives it as far as its room goes,
and writing succeeds if the output fits; one that has failed has no room left. All of this is the
same with every buffer. -/
structure Receives (write : EStateM Unit Sink Unit) (output : List UInt8) : Prop where
  unbounded : ∀ capacity accepted,
    write { room := none, accepted, capacity } =
      .ok () { room := none, accepted := accepted ++ output, capacity }
  succeeds : ∀ room capacity accepted,
    Succeeds (write { room := some room, accepted, capacity }) ↔ output.length ≤ room
  accepted : ∀ room capacity accepted,
    (finalState (write { room := some room, accepted, capacity })).accepted =
      accepted ++ output.take (min room output.length)
  spent : ∀ room capacity accepted s,
    write { room := some room, accepted, capacity } = .error () s → s.room = some 0

/-- What was written so far, in the buffer or behind it. -/
def stream (s : Sink) : List UInt8 := s.accepted ++ s.held

/-- How many bytes are accepted in all. -/
def limit? (s : Sink) : Option Nat := s.room.map (s.accepted.length + ·)

/-- A writer that has accepted just as much of the output as its limit allows. -/
structure CutOff (s : Sink) (limit : Nat) (output : List UInt8) : Prop where
  short : limit < output.length
  accepted : s.accepted = output.take limit
  spent : s.room = some 0

/-- Output that was cut off stays so, however much was to follow. -/
theorem CutOff.append {s : Sink} {limit : Nat} {output : List UInt8}
    (h : s.CutOff limit output) (more : List UInt8) : s.CutOff limit (output ++ more) where
  short := Nat.lt_of_lt_of_le h.short (by rw [List.length_append]; exact Nat.le_add_right _ _)
  accepted := by rw [h.accepted, List.take_append_of_le_length h.short.le]
  spent := h.spent

/-- An action on `s` has ended with the bytes accepted, all else being as it was, or because of the
limit. -/
def Accepts (s : Sink) (bytes : List UInt8) : EStateM.Result Unit Sink Unit → Prop
  | .ok _ t => t = { s with room := t.room, accepted := s.accepted ++ bytes } ∧
      t.limit? = s.limit?
  | .error _ t => ∃ limit, s.limit? = some limit ∧ t.CutOff limit (s.accepted ++ bytes)

/-- A piece is taken whole, or the sink is full. -/
theorem accepts_pass (s : Sink) (bytes : List UInt8) : s.Accepts bytes (pass bytes s) := by
  unfold pass
  cases hroom : s.room with
  | none => exact ⟨rfl, by simp [limit?, hroom]⟩
  | some room =>
    dsimp only
    by_cases hfits : bytes.length ≤ room
    · rw [if_pos hfits, List.take_of_length_le hfits]
      refine ⟨rfl, ?_⟩
      simp only [limit?, hroom, Option.map_some, List.length_append, Option.some.injEq]
      omega
    · rw [if_neg hfits]
      refine ⟨s.accepted.length + room, by rw [limit?, hroom]; rfl, ?_, ?_, ?_⟩
      · rw [List.length_append]
        omega
      · exact (List.take_length_add_append room).symm
      · exact congrArg some (Nat.sub_eq_zero_of_le (Nat.le_of_not_le hfits))

/-- A flush passes on what is held, and leaves nothing. -/
theorem accepts_flush (s : Sink) : Accepts { s with held := [] } s.held (flush s) := by
  have hpass := s.accepts_pass s.held
  unfold flush
  cases h : pass s.held s with
  | ok u t =>
    rw [h] at hpass
    obtain ⟨ht, hlimit⟩ := hpass
    refine ⟨?_, hlimit⟩
    dsimp only
    rw [ht]
  | error e t =>
    rw [h] at hpass
    obtain ⟨limit, hlimit, hshort, haccepted, hspent⟩ := hpass
    exact ⟨limit, hlimit, hshort, haccepted, hspent⟩

/-- An action on `s` puts the output behind what was written before, or it fails because of the
limit. -/
def EmitsAt (s : Sink) (act : EStateM Unit Sink Unit) (output : List UInt8) : Prop :=
  match act s with
  | .ok _ t => t.stream = s.stream ++ output ∧ t.limit? = s.limit? ∧ t.capacity = s.capacity ∧
      t.held.length ≤ t.capacity
  | .error _ t => ∃ limit, s.limit? = some limit ∧ t.CutOff limit (s.stream ++ output)

def Emits (act : EStateM Unit Sink Unit) (output : List UInt8) : Prop :=
  ∀ s : Sink, s.held.length ≤ s.capacity → s.EmitsAt act output

theorem EmitsAt.bind {s : Sink} {act next : EStateM Unit Sink Unit} {output more : List UInt8}
    (h : s.EmitsAt act output) (k : ∀ t, act s = .ok () t → t.EmitsAt next more) :
    s.EmitsAt (act >>= fun _ => next) (output ++ more) := by
  unfold EmitsAt at h
  cases hact : act s with
  | error e t =>
    rw [hact] at h
    obtain ⟨limit, hlimit, hcut⟩ := h
    rw [EmitsAt, bind_of_error hact]
    exact ⟨limit, hlimit, List.append_assoc .. ▸ hcut.append more⟩
  | ok u t =>
    rw [hact] at h
    obtain ⟨hstream, hlimit, hcapacity, -⟩ := h
    have hnext := k t hact
    rw [EmitsAt, hstream, hlimit, hcapacity, List.append_assoc] at hnext
    rwa [EmitsAt, bind_of_ok hact]

theorem Emits.bind {act next : EStateM Unit Sink Unit} {output more : List UInt8}
    (h : Emits act output) (k : Emits next more) :
    Emits (act >>= fun _ => next) (output ++ more) := by
  intro s hs
  have hact := h s hs
  refine hact.bind fun t hok => k t ?_
  rw [EmitsAt, hok] at hact
  exact hact.2.2.2

theorem emitsAt_flush (s : Sink) : s.EmitsAt flush [] := by
  have hflush := accepts_flush s
  unfold EmitsAt
  cases h : flush s with
  | ok u t =>
    rw [h] at hflush
    obtain ⟨ht, hlimit⟩ := hflush
    refine ⟨?_, hlimit, ?_, ?_⟩ <;> rw [ht]
    · rfl
    · exact Nat.zero_le _
  | error e t =>
    rw [h] at hflush
    rwa [List.append_nil]

/-- Once there is space for a piece, or nothing in the buffer, the piece can be put. -/
theorem emitsAt_put {s : Sink} {piece : List UInt8} (hs : s.held.length ≤ s.capacity)
    (hspace : s.held = [] ∨ s.held.length + piece.length ≤ s.capacity) :
    s.EmitsAt (put piece) piece := by
  unfold EmitsAt put
  split_ifs with hlarge
  · -- There is nothing in the buffer that the piece could overtake.
    have hheld : s.held = [] := by
      rcases hspace with hnil | hfits
      · exact hnil
      · exact List.eq_nil_of_length_eq_zero (by omega)
    have hpass := s.accepts_pass piece
    cases h : pass piece s with
    | ok u t =>
      rw [h] at hpass
      obtain ⟨ht, hlimit⟩ := hpass
      refine ⟨?_, hlimit, ?_, ?_⟩ <;> rw [ht]
      · simp [stream, hheld]
      · exact hs
    | error e t =>
      rw [h] at hpass
      rwa [stream, hheld, List.append_nil]
  · refine ⟨(List.append_assoc ..).symm, rfl, rfl, ?_⟩
    rw [List.length_append]
    rcases hspace with hnil | hfits
    · rw [hnil, List.length_nil, Nat.zero_add]
      exact Nat.le_of_not_le hlarge
    · exact hfits

theorem emits_write (piece : List UInt8) : Emits (write piece) piece := by
  intro s hs
  have hreserve : s.EmitsAt (reserve piece.length) [] := by
    unfold EmitsAt reserve
    split_ifs
    · exact emitsAt_flush s
    · exact ⟨(List.append_nil _).symm, rfl, rfl, hs⟩
  have hput : ∀ t, reserve piece.length s = .ok () t → t.EmitsAt (put piece) piece := by
    intro t hok
    unfold reserve at hok
    split_ifs at hok with hfull
    · have hflush := accepts_flush s
      rw [hok] at hflush
      have hheld : t.held = [] := by rw [hflush.1]
      exact emitsAt_put (by rw [hheld]; exact Nat.zero_le _) (.inl hheld)
    · cases hok
      exact emitsAt_put hs (.inr (by omega))
  exact hreserve.bind hput

/-- Pieces are written as if they had been one. -/
theorem emits_writeAll (pieces : List (List UInt8)) : Emits (writeAll pieces) pieces.flatten := by
  induction pieces with
  | nil => exact fun s hs => ⟨(List.append_nil _).symm, rfl, rfl, hs⟩
  | cons piece rest ih => exact (emits_write piece).bind ih

/-- What was written is accepted with the flush, if not before. -/
theorem Emits.accepts {act : EStateM Unit Sink Unit} {output : List UInt8} (h : Emits act output)
    (s : Sink) (hs : s.held = []) : s.Accepts output ((act >>= fun _ => flush) s) := by
  have hstart : s.stream = s.accepted := by rw [stream, hs, List.append_nil]
  have hact := h s (by rw [hs]; exact Nat.zero_le _)
  unfold EmitsAt at hact
  rw [hstart] at hact
  cases hwritten : act s with
  | error e t =>
    rw [hwritten] at hact
    rwa [bind_of_error hwritten]
  | ok u t =>
    rw [hwritten] at hact
    obtain ⟨hstream, hlimit, hcapacity, -⟩ := hact
    have hflush := accepts_flush t
    rw [bind_of_ok hwritten]
    cases hflushed : flush t with
    | ok u t' =>
      rw [hflushed] at hflush
      refine ⟨?_, hflush.2.trans hlimit⟩
      rw [← hstream, ← hcapacity, hs]
      exact hflush.1
    | error e t' =>
      rw [hflushed] at hflush
      rwa [Accepts, ← hstream, ← hlimit]

/-- With a bound, it depends on the room whether that succeeds and how much is accepted. -/
theorem Accepts.bounded {room capacity : Nat} {accepted output : List UInt8}
    {result : EStateM.Result Unit Sink Unit}
    (h : Accepts { room := some room, accepted, capacity } output result) :
    (Succeeds result ↔ output.length ≤ room) ∧
      (finalState result).accepted = accepted ++ output.take (min room output.length) ∧
      ∀ s, result = .error () s → s.room = some 0 := by
  rw [← List.take_eq_take_min]
  cases result with
  | ok u t =>
    obtain ⟨ht, hlimit⟩ := h
    have haccepted : t.accepted = accepted ++ output := by rw [ht]
    obtain ⟨left, -, hleft⟩ := Option.map_eq_some_iff.mp hlimit
    rw [haccepted, List.length_append] at hleft
    -- What is accepted counts against the limit, so it has fitted.
    have hfits : output.length ≤ room := by
      change _ = accepted.length + room at hleft
      omega
    refine ⟨iff_of_true ⟨u, t, rfl⟩ hfits, ?_, nofun⟩
    rw [List.take_of_length_le hfits]
    exact haccepted
  | error e t =>
    obtain ⟨limit, hlimit, hshort, haccepted, hspent⟩ := h
    cases hlimit
    rw [List.length_append] at hshort
    have hfull : ¬ output.length ≤ room := fun hfits =>
      Nat.not_lt.mpr (Nat.add_le_add_left hfits _) hshort
    refine ⟨iff_of_false nofun hfull, ?_, ?_⟩
    · exact haccepted.trans (List.take_length_add_append room)
    · rintro s ⟨⟩
      exact hspent

/-- Once the sink was flushed as well, it has received all of the output or has said that it did
not. -/
theorem Emits.receives {act : EStateM Unit Sink Unit} {output : List UInt8}
    (h : Emits act output) : Receives (act >>= fun _ => flush) output where
  unbounded capacity accepted := by
    have hends := h.accepts { room := none, accepted, capacity } rfl
    cases hact : (act >>= fun _ => flush) { room := none, accepted, capacity } with
    | ok u t =>
      rw [hact] at hends
      obtain ⟨ht, hlimit⟩ := hends
      rw [ht, Option.map_eq_none_iff.mp hlimit]
    | error e t =>
      rw [hact] at hends
      obtain ⟨limit, hlimit, -⟩ := hends
      cases hlimit
  succeeds room capacity accepted :=
    (h.accepts { room := some room, accepted, capacity } rfl).bounded.1
  accepted room capacity accepted :=
    (h.accepts { room := some room, accepted, capacity } rfl).bounded.2.1
  spent room capacity accepted :=
    (h.accepts { room := some room, accepted, capacity } rfl).bounded.2.2

/-- A byte that fits into the buffer, but not into the room behind it, is refused by the flush. -/
example :
    let full : Sink := { room := some 0, capacity := 16 }
    Succeeds (write [7] full) ∧ ¬ Succeeds ((write [7] >>= fun _ => flush) full) := by
  decide

end Sink

/-! ## Texts as bytes -/

namespace Text

theorem toList_loop (bytes : ByteArray) (i : Nat) (front : List UInt8) :
    ByteArray.toList.loop bytes i front = front.reverse ++ bytes.data.toList.drop i := by
  induction i, front using ByteArray.toList.loop.induct bytes with
  | case1 i front hlt ih =>
    have hbyte : bytes.get! i = bytes.data.toList[i] := getElem!_pos bytes.data i hlt
    rw [ByteArray.toList.loop, if_pos hlt, ih, List.drop_eq_getElem_cons hlt, ← hbyte,
      List.reverse_cons, List.append_assoc]
    rfl
  | case2 i front hge =>
    rw [ByteArray.toList.loop, if_neg hge, List.drop_eq_nil_of_le (Nat.not_lt.mp hge),
      List.append_nil]

theorem toList_append (bytes more : ByteArray) :
    (bytes ++ more).toList = bytes.toList ++ more.toList := by
  simp only [ByteArray.toList, toList_loop, List.reverse_nil, List.nil_append, List.drop_zero,
    ByteArray.toList_data_append]

/-- Texts one behind the other are written as one text. -/
theorem flatten_toUTF8 (texts : List String) :
    (texts.map fun text => text.toUTF8.toList).flatten = (String.join texts).toUTF8.toList := by
  induction texts with
  | nil => exact ByteArray.toList_empty.symm
  | cons text rest ih =>
    rw [List.map_cons, List.flatten_cons, ih, String.join_cons, ← toList_append]
    rfl

end Text

/-! ## Edits of a log -/

namespace CodeDataLog

inductive Edit where
  | mark (offset : Nat) (u : Usage)
  | visit (offset : Nat) (line : String)
  | clear

namespace Edit

def apply : Edit → CodeDataLog → CodeDataLog
  | mark offset u, log => log.mark offset u
  | visit offset line, log => log.visit offset line
  | clear, _ => .empty

def isClear : Edit → Bool
  | clear => true
  | _ => false

/-- What the edit marks the offset with. -/
def usage? (offset : Nat) : Edit → Option Usage
  | mark marked u => if marked = offset then some u else none
  | _ => none

end Edit

def after (edits : List Edit) : CodeDataLog := edits.foldl (fun log x => x.apply log) .empty

/-- The edits behind the last one that cleared the log. -/
def sinceClear (edits : List Edit) : List Edit := edits.rtakeWhile fun x => !x.isClear

/-- What the offset was marked with since the log was last cleared, one mark behind the other. -/
def marksAt (edits : List Edit) (offset : Nat) : List Usage :=
  (sinceClear edits).filterMap (·.usage? offset)

def IsMarked (edits : List Edit) (offset : Nat) : Prop :=
  ∃ u, Edit.mark offset u ∈ sinceClear edits

def unionByte (us : List Usage) : UInt8 := us.foldl (fun byte u => byte ||| u.bits) 0

/-- Marks on the same byte are gathered bit by bit. -/
theorem unionByte_eq (us : List Usage) : unionByte us = (us.foldl Usage.union {}).bits :=
  List.foldl_hom Usage.bits fun _ _ => rfl

variable {edits : List Edit}

theorem after_concat (edits : List Edit) (x : Edit) :
    after (edits ++ [x]) = x.apply (after edits) :=
  List.foldl_concat ..

/-- Edits other than clearing add to what has happened since. -/
theorem sinceClear_concat {x : Edit} (h : x.isClear = false) :
    sinceClear (edits ++ [x]) = sinceClear edits ++ [x] :=
  List.rtakeWhile_concat_pos _ _ _ (by rw [h]; rfl)

theorem sinceClear_clear : sinceClear (edits ++ [.clear]) = [] :=
  List.rtakeWhile_concat_neg _ _ _ (by decide)

/-- The log has just the marked offsets. -/
theorem mem_uses_of_edits (edits : List Edit) (offset : Nat) :
    offset ∈ (after edits).uses ↔ IsMarked edits offset := by
  induction edits using List.reverseRecOn with
  | nil => simp [after, IsMarked, sinceClear, empty]
  | append_singleton edits x ih =>
    rw [after_concat]
    cases x with
    | mark marked u =>
      rw [IsMarked, sinceClear_concat rfl, Edit.apply, mark, Std.TreeMap.mem_insert, ih,
        compare_eq_iff_eq, or_comm]
      simp [IsMarked, exists_or, eq_comm]
    | visit _ line =>
      rw [IsMarked, sinceClear_concat rfl, Edit.apply, visit]
      simpa [IsMarked] using ih
    | clear =>
      rw [IsMarked, sinceClear_clear]
      simp [Edit.apply, empty]

/-- The flags of a byte are the union of the marks it got. -/
theorem usage_of_edits (edits : List Edit) (offset : Nat) :
    (after edits).usage offset = (marksAt edits offset).foldl Usage.union {} := by
  induction edits using List.reverseRecOn with
  | nil => exact Std.TreeMap.getD_emptyc
  | append_singleton edits x ih =>
    rw [after_concat]
    cases x with
    | mark marked u =>
      rw [marksAt, sinceClear_concat rfl, Edit.apply, usage_mark, ih, List.filterMap_append]
      by_cases h : marked = offset <;> simp [marksAt, Edit.usage?, h]
    | visit _ line =>
      rw [marksAt, sinceClear_concat rfl, List.filterMap_append]
      exact ih.trans (congrArg (List.foldl Usage.union {}) (List.append_nil _).symm)
    | clear =>
      rw [marksAt, sinceClear_clear]
      exact Std.TreeMap.getD_emptyc

/-- The bytes of a log reach up to the last offset that the log has. -/
theorem toBytes_cases (log : CodeDataLog) :
    (∀ offset, offset ∉ log.uses) ∧ log.toBytes = [] ∨
      ∃ last, IsGreatest {offset | offset ∈ log.uses} last ∧
        log.toBytes = (List.range (last + 1)).map fun offset => (log.usage offset).bits := by
  cases hlast : log.uses.maxKey? with
  | none =>
    have hempty := Std.TreeMap.maxKey?_eq_none_iff.mp hlast
    exact .inl ⟨fun offset => Std.TreeMap.not_mem_of_isEmpty hempty, by rw [toBytes, hlast]⟩
  | some last =>
    obtain ⟨hmem, hle⟩ := Std.TreeMap.maxKey?_eq_some_iff_mem_and_forall.mp hlast
    exact .inr ⟨last, ⟨hmem, fun offset hoffset => Nat.isLE_compare.mp (hle offset hoffset)⟩,
      by rw [toBytes, hlast]⟩

theorem receives_write (log : CodeDataLog) : Sink.Receives log.write log.toBytes :=
  (Sink.emits_write log.toBytes).receives

theorem receives_writeListing (log : CodeDataLog) :
    Sink.Receives log.writeListing log.listing.toUTF8.toList := by
  have hemits := Sink.emits_writeAll
    ((log.visited.flatMap linePieces).map fun piece => piece.toUTF8.toList)
  rw [Text.flatten_toUTF8] at hemits
  exact hemits.receives

/-- Without a mark since it was last cleared, a log has no bytes. Otherwise the last is that of the
highest marked offset, and each is the union of what its offset was marked with, which is nothing
for an offset without a mark. The bytes and the listing, written to a writer that runs full and
flushed, are cut off where its room ends, and writing them succeeds if they fit. -/
theorem output_follows_edits (edits : List Edit) :
    let log := after edits
    ((∀ offset, ¬IsMarked edits offset) ∧ log.toBytes = [] ∨
      ∃ last, IsGreatest {offset | IsMarked edits offset} last ∧
        log.toBytes.length = last + 1 ∧
        ∀ offset ≤ last, log.toBytes[offset]? = some (unionByte (marksAt edits offset))) ∧
    Sink.Receives log.write log.toBytes ∧
    Sink.Receives log.writeListing log.listing.toUTF8.toList := by
  intro log
  refine ⟨?_, log.receives_write, log.receives_writeListing⟩
  simp only [← mem_uses_of_edits]
  refine log.toBytes_cases.imp_right fun ⟨last, hgreatest, hbytes⟩ => ⟨last, hgreatest, ?_, ?_⟩
  · rw [hbytes, List.length_map, List.length_range]
  · intro offset hle
    rw [hbytes, List.getElem?_map, List.getElem?_range (Nat.lt_succ_of_le hle), Option.map_some,
      usage_of_edits, unionByte_eq]

/-- An offset that was marked twice, one that was passed over and one that was marked before the log
was cleared. -/
example : (after [.mark 7 .executed, .clear, .mark 2 .executed, .visit 9 "", .mark 2 .loaded,
    .mark 0 .loaded]).toBytes = [2, 0, 3] := by
  cbv

end CodeDataLog

end Mos6502
