import Litevirt.Lib.Utf8
import Litevirt.Sync.Cell

/-!
# What a row digest sees

`encodeRowCellsV2` of `internal/corrosion/sync.go` gives equal bytes exactly to rows whose columns
hold the same.  A row that was decoded from a JSON dump has the digest of the stored one unless a
text is not valid UTF-8: `encoding/json` replaces its stray bytes.
-/

namespace Litevirt.Sync

open Litevirt.Lib Litevirt.Hlc List

/-- The text or blob of a cell, if it has one, is valid UTF-8. -/
def Cell.validText : Cell → Bool
  | .text s => Utf8.valid 0 s
  | .blob s => Utf8.valid 0 s
  | _ => true

variable [GoValues]

theorem cellValue_jsonRoundTrip (recodes : ∀ s, GoValues.recoded s = Utf8.repair 0 s) {cell : Cell}
    (small : ∀ n, cell = .int n → n.toInt.natAbs < 2 ^ 53) :
    cellValue (jsonRoundTrip cell) = cellValue cell ↔ cell.validText = true := by
  have repaired (s : Bytes) : (if s.all (· < 128) then s else GoValues.recoded s) = s ↔
      Utf8.valid 0 s = true := by
    split
    · rename_i ascii
      simp [Utf8.valid_of_ascii ascii]
    · rw [recodes, Utf8.repair_eq_self_iff]
  cases cell with
  | null | float x => simp [jsonRoundTrip, Cell.validText]
  | int n =>
    rw [jsonRoundTrip, if_pos (small n rfl)]
    simp [cellValue, canonicalCellValue, Cell.validText]
  | text s | blob s =>
    simp only [jsonRoundTrip, cellValue, canonicalCellValue, Option.some.injEq, Cell.validText]
    exact repaired s

/-- The encodings of two rows are equal exactly when their columns hold the same, and that of a
row decoded from a dump equals that of the stored one exactly when its texts are valid UTF-8. -/
theorem digest_sees_content (recodes : ∀ s, GoValues.recoded s = Utf8.repair 0 s) :
    (∀ cols cols' vals vals' bytes bytes', encodeRowCellsV2 cols vals = some bytes →
      encodeRowCellsV2 cols' vals' = some bytes' →
        (bytes = bytes' ↔ ∀ held, held ∈ content cols vals ↔ held ∈ content cols' vals')) ∧
    ∀ cols vals bytes, encodeRowCellsV2 cols vals = some bytes →
      (∀ n, .int n ∈ vals → n.toInt.natAbs < 2 ^ 53) →
        (encodeRowCellsV2 cols (vals.map jsonRoundTrip) = some bytes ↔
          ∀ cell ∈ vals, cell.validText = true) := by
  refine ⟨fun _ _ _ _ _ _ => encodeRowCellsV2_inj, fun cols vals bytes encoded small => ?_⟩
  refine .trans ?_ (forall₂_congr fun cell member => cellValue_jsonRoundTrip recodes
    fun n isInt => small n (isInt ▸ member))
  obtain ⟨length, distinct, rfl⟩ := encodeRowCellsV2_eq_some.mp encoded
  have sorted : (cols.zip (vals.map jsonRoundTrip)).insertionSort NameLE =
      ((cols.zip vals).insertionSort NameLE).map (Prod.map id jsonRoundTrip) := by
    rw [zip_map_right]
    exact (map_insertionSort NameLE NameLE (Prod.map id jsonRoundTrip) _
      fun _ _ _ _ => Iff.rfl).symm
  have each : (∀ cell ∈ (cols.zip vals).map Prod.snd,
      cellValue (jsonRoundTrip cell) = cellValue cell) ↔ _ := forall_mem_map
  rw [map_snd_zip length.ge] at each
  rw [encodeRowCellsV2_eq_some, sorted, flatMap_encodePair_inj, map_map, each]
  simp [length, distinct, entry]

omit [GoValues] in
/-- Strings go through `encoding/json`; no value needs the formats that are not written out. -/
@[reducible] def jsonValues : GoValues := ⟨fun _ => [], fun _ => [], fun _ => 0, Utf8.repair 0⟩

end Litevirt.Sync

namespace Litevirt.Sync

open Litevirt.Lib Litevirt.Hlc

def accented : List Cell := [.text [0xC3, 0xA9], .int 7]

theorem digest_sees_accent :
    @encodeRowCellsV2 jsonValues [bytes "holder", bytes "epoch"]
        (accented.map (@jsonRoundTrip jsonValues)) =
      some (bytes "5:epoch=V1:76:holder=V2:" ++ [0xC3, 0xA9]) :=
  ((@digest_sees_content jsonValues fun _ => rfl).2 [bytes "holder", bytes "epoch"] accented _
    (by decide +kernel) (by simp [accented])).mpr (by decide +kernel)

/-- A stray byte is replaced on the way through JSON. -/
theorem stray_byte_changes_digest :
    @encodeRowCellsV2 jsonValues [bytes "holder"] [.text [0xFF]] =
        some (bytes "6:holder=V1:" ++ [0xFF]) ∧
      @encodeRowCellsV2 jsonValues [bytes "holder"]
          ([.text [0xFF]].map (@jsonRoundTrip jsonValues)) =
        some (bytes "6:holder=V3:" ++ [0xEF, 0xBF, 0xBD]) := by
  decide +kernel

end Litevirt.Sync
