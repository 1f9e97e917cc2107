import Litevirt.Hlc.Timestamp
import Litevirt.Lib.PrefixCode

/-!
# Audit rows and their content hash

A row of `audit_log` and what its content hash covers
(`internal/corrosion/audit.go`): the previous hash and eight named fields, each
before a NUL byte.  The bytes give the row back as long as no field holds a NUL,
so the writer keeps NULs out of every row.
-/

namespace Litevirt.Audit

open Litevirt.Hlc Litevirt.Lib List

structure AuditRecord where
  id : Bytes
  timestamp : Bytes
  username : Bytes
  hostName : Bytes
  action : Bytes
  target : Bytes
  detail : Bytes
  result : Bytes
  prevHash : Bytes
  contentHash : Bytes
  keyID : Bytes
  signature : Bytes
  seq : Int
  deriving DecidableEq, Repr

/-- A digit of `hex.EncodeToString`. -/
def isHex (byte : UInt8) : Bool :=
  (decide (48 ≤ byte) && decide (byte ≤ 57)) || (decide (97 ≤ byte) && decide (byte ≤ 102))

class RowHash where
  hexSum : Bytes → Bytes
  hex : ∀ text, ∀ byte ∈ hexSum text, isHex byte = true
  nonempty : ∀ text, hexSum text ≠ []

/-- `auditFieldNames`, in hash order. -/
def auditFieldNames : List Bytes :=
  [bytes "id", bytes "timestamp", bytes "username", bytes "host_name", bytes "action",
    bytes "target", bytes "detail", bytes "result"]

def auditFieldValues (r : AuditRecord) : List Bytes :=
  [r.id, r.timestamp, r.username, r.hostName, r.action, r.target, r.detail, r.result]

/-- What is written before the NULs: the previous hash, and each name before its value. -/
def canonicalWords (r : AuditRecord) : List Bytes :=
  r.prevHash ::
    (auditFieldNames.zip (auditFieldValues r)).flatMap fun (name, value) => [name, value]

def auditCanonical (r : AuditRecord) : Bytes := (canonicalWords r).flatMap (· ++ [0])

def hashAuditRow [RowHash] (r : AuditRecord) : Bytes := RowHash.hexSum (auditCanonical r)

/-- `auditRecordNULField`: the first hashed input that contains a NUL byte. -/
def auditRecordNULField (r : AuditRecord) : Option Bytes :=
  if 0 ∈ r.prevHash then some (bytes "prev_hash")
  else ((auditFieldNames.zip (auditFieldValues r)).find? fun (_, value) => 0 ∈ value).map Prod.fst

/-- The fields of the row, and its previous hash, are free of NULs. -/
def NulFree (r : AuditRecord) : Prop := auditRecordNULField r = none

instance (r : AuditRecord) : Decidable (NulFree r) := inferInstanceAs (Decidable (_ = _))

theorem nulFree_iff {r : AuditRecord} :
    NulFree r ↔ 0 ∉ r.prevHash ∧ ∀ value ∈ auditFieldValues r, 0 ∉ value := by
  unfold NulFree auditRecordNULField
  split
  · rename_i present
    simp [present]
  · rename_i absent
    simp [absent, auditFieldNames, auditFieldValues]

/-- The row as the hash sees it: equal canonical bytes, equal hashed fields. -/
structure SameContent (r other : AuditRecord) : Prop where
  prevHash : r.prevHash = other.prevHash
  values : auditFieldValues r = auditFieldValues other

theorem auditFieldNames_clean : ∀ name ∈ auditFieldNames, 0 ∉ name := by decide +kernel

theorem canonicalWords_clean {r : AuditRecord} (clean : NulFree r) :
    ∀ word ∈ canonicalWords r, 0 ∉ word := by
  obtain ⟨prev, values⟩ := nulFree_iff.mp clean
  refine forall_mem_cons.mpr ⟨prev, fun word member => ?_⟩
  obtain ⟨⟨name, value⟩, pair, among⟩ := mem_flatMap.mp member
  obtain ⟨isName, isValue⟩ := of_mem_zip pair
  rcases mem_pair.mp among with rfl | rfl
  · exact auditFieldNames_clean word isName
  · exact values word isValue

/-- The canonical bytes of a row without NULs are those of no other content, NULs or not. -/
theorem sameContent_of_canonical {r other : AuditRecord} (clean : NulFree r)
    (same : auditCanonical r = auditCanonical other) : SameContent r other := by
  have lengths : (canonicalWords r).length = (canonicalWords other).length := rfl
  have words : canonicalWords r = canonicalWords other :=
    terminated_inj lengths (canonicalWords_clean clean) same
  simp only [canonicalWords, auditFieldNames, auditFieldValues, zip_cons_cons,
    flatMap_cons, cons_append, nil_append, List.cons.injEq, true_and] at words
  obtain ⟨prev, id, timestamp, username, host, action, target, detail, result, -⟩ := words
  refine ⟨prev, ?_⟩
  simp only [auditFieldValues, id, timestamp, username, host, action, target, detail, result]

/-- `auditNULReplacement`: U+2400. -/
def auditNULReplacement : Bytes := [0xE2, 0x90, 0x80]

/-- `strings.ReplaceAll` of NUL. -/
def escapeNUL (text : Bytes) : Bytes :=
  text.flatMap fun byte => if byte = 0 then auditNULReplacement else [byte]

/-- `guardAuditNUL`: the free texts are escaped, and a NUL anywhere else is refused; the error
names the field. -/
def guardAuditNUL (r : AuditRecord) : Except Bytes AuditRecord :=
  let escaped := { r with
    username := escapeNUL r.username, target := escapeNUL r.target, detail := escapeNUL r.detail }
  match auditRecordNULField escaped with
  | some field => .error field
  | none => .ok escaped

/-- A row that passes the guard is free of NULs, and the guard rewrites the free texts only. -/
theorem guardAuditNUL_ok {r guarded : AuditRecord} (passed : guardAuditNUL r = .ok guarded) :
    NulFree guarded ∧ guarded.id = r.id ∧ guarded.hostName = r.hostName ∧
      guarded.prevHash = r.prevHash ∧ guarded.seq = r.seq := by
  unfold guardAuditNUL at passed
  simp only at passed
  split at passed
  · cases passed
  · rename_i clean
    cases passed
    exact ⟨clean, rfl, rfl, rfl, rfl⟩

def lowerByte (byte : UInt8) : UInt8 := if 65 ≤ byte ∧ byte ≤ 90 then byte + 32 else byte

/-- `strings.EqualFold` against a hex text: only the letters `a` to `f` fold, and to ASCII. -/
def equalFold (text other : Bytes) : Bool := text.map lowerByte = other.map lowerByte

theorem equalFold_self (text : Bytes) : equalFold text text = true := by simp [equalFold]

theorem lowerByte_of_isHex {byte : UInt8} (hex : isHex byte = true) : lowerByte byte = byte := by
  unfold lowerByte
  rw [if_neg]
  simp only [isHex, Bool.or_eq_true, Bool.and_eq_true, decide_eq_true_eq,
    UInt8.le_iff_toNat_le] at *
  simp only [UInt8.reduceToNat] at *
  omega

theorem map_lowerByte_of_isHex {text : Bytes} (hex : ∀ byte ∈ text, isHex byte = true) :
    text.map lowerByte = text :=
  (map_congr_left fun byte member => lowerByte_of_isHex (hex byte member)).trans (map_id _)

section Hash

variable [RowHash]

theorem hexSum_eq_of_equalFold {text other : Bytes}
    (fold : equalFold (RowHash.hexSum text) (RowHash.hexSum other) = true) :
    RowHash.hexSum text = RowHash.hexSum other := by
  simpa only [equalFold, map_lowerByte_of_isHex (RowHash.hex _), decide_eq_true_eq] using fold

end Hash

end Litevirt.Audit
