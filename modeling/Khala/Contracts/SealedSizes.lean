import Khala.Contracts.ImportedSealing
import Khala.Contracts.JsonSize

/-! The size of a chunk's encoding is what its sealing counts, record by record. -/

namespace Khala.Import

open Js Decode

/-- The UTF-8 size of a text, as its encoding has it. -/
def byteLength (text : Text) : Nat := (encodeUtf8 text).length

/-- The bytes of paired text and of what follows add up. -/
theorem byteLength_append {before : Text} (paired : Paired before) (after : Text) :
    byteLength (before ++ after) = byteLength before + byteLength after := by
  -- No code point reaches from the first text into the second.
  rw [byteLength, encodeUtf8, codePoints_append paired, List.flatMap_append, List.length_append]
  rfl

/-- Punctuation takes one byte. -/
theorem byteLength_cons {u : CodeUnit} (ascii : u.toNat < 0x80) (after : Text) :
    byteLength (u :: after) = 1 + byteLength after := by
  have single : isSurrogate u = false := by
    simp only [isSurrogate, Bool.and_eq_false_iff, decide_eq_false_iff_not, UInt16.le_iff_toNat_le,
      UInt16.toNat_ofNat]
    omega
  rw [← List.singleton_append, byteLength_append (.unit single .nil)]
  congr 1
  rw [byteLength, encodeUtf8, show codePoints [u] = [[u]] from rfl, List.flatMap_singleton,
    utf8Point, if_pos ascii]
  rfl

/-- One more item adds its text, and the comma before it unless it is the first. -/
theorem byteLength_items (items : List Json) (item : Json) :
    byteLength (stringifyItems (items ++ [item]))
    = byteLength (stringifyItems items) + (if items = [] then 0 else 1) + byteLength
      (stringify item) := by
  -- After the first item every other brings a comma.
  have more : ∀ items : List Json, byteLength (stringifyMoreItems (items ++ [item]))
      = byteLength (stringifyMoreItems items) + 1 + byteLength (stringify item) := by
    intro items
    induction items with
    | nil =>
      simp only [List.nil_append, stringifyMoreItems]
      rw [byteLength_cons (by decide), List.append_nil]
      simp [byteLength, encodeUtf8, codePoints]
    | cons first rest ih =>
      rw [List.cons_append, stringifyMoreItems, byteLength_cons (by decide),
        byteLength_append (paired_stringify first), ih,
        stringifyMoreItems, byteLength_cons (by decide), byteLength_append (paired_stringify first)]
      omega
  cases items with
  | nil => simp [stringifyItems, stringifyMoreItems, byteLength, encodeUtf8, codePoints]
  | cons first rest =>
    rw [List.cons_append, stringifyItems, byteLength_append (paired_stringify first), more,
      stringifyItems,
      byteLength_append (paired_stringify first), if_neg (List.cons_ne_nil _ _)]
    omega

/-- Three items and an array. -/
private theorem stringify_nested (a b c : Json) (items : List Json) :
    stringify (.array [a, b, c, .array items])
    = 91 :: (stringify a ++ 44 ::
      (stringify b ++ 44 :: (stringify c ++ 44 :: 91 :: (stringifyItems items ++ [93, 93])))) := by
  rw [stringify, stringifyItems.eq_def]
  simp only [stringifyMoreItems, List.append_nil]
  rw [stringify.eq_def (.array items)]
  simp

/-- The records of a chunk are the last that its encoding holds. -/
theorem length_chunk (archiveId : Text) (index : Number) : ∃ around, ∀ records,
    (encodeImportedHistoryChunk ⟨archiveId, index, records⟩).length
      = around + byteLength (stringifyItems (records.map chunkRecordTuple)) := by
  -- All of the encoding but the list of records is the same for every list.
  refine ⟨byteLength (stringify (.string IMPORTED_CHUNK_ENCODING_V1)) + byteLength
    (stringify (.string archiveId))
    + byteLength (stringify (.number index)) + 7, fun records => ?_⟩
  change byteLength (stringify (.array [_, _, _, .array (records.map chunkRecordTuple)])) = _
  have ends : byteLength [93, 93] = 2 := by decide
  rw [stringify_nested, byteLength_cons (by decide), byteLength_append (paired_stringify _),
    byteLength_cons (by decide),
    byteLength_append (paired_stringify _), byteLength_cons (by decide),
      byteLength_append (paired_stringify _),
    byteLength_cons (by decide), byteLength_cons (by decide),
      byteLength_append (paired_stringifyItems _), ends]
  dsimp only
  omega

/-- One more record adds its tuple to the encoding, and the comma before it unless it is the first.
-/
theorem length_chunk_concat (archiveId : Text) (index : Number)
    (records : List ImportedHistoryRecord) (record : ImportedHistoryRecord) :
    (encodeImportedHistoryChunk ⟨archiveId, index, records ++ [record]⟩).length
      = (encodeImportedHistoryChunk ⟨archiveId, index, records⟩).length + (if records = []
        then 0 else 1)
        + (jsonBytes (chunkRecordTuple record)).length := by
  -- Only the list of records grows, by one tuple.
  obtain ⟨around, size⟩ := length_chunk archiveId index
  have empty : records.map chunkRecordTuple = [] ↔ records = [] := List.map_eq_nil_iff
  rw [size, size, List.map_append, List.map_singleton, byteLength_items, if_congr empty rfl rfl]
  change _ = _ + byteLength (stringify (chunkRecordTuple record))
  omega

end Khala.Import
