import ScopeScript.Digest
import ScopeScript.Text.Bytes
import ScopeScript.Vault.Basic

/-!
# Snapshots of the scope store

A snapshot describes all live records by their path, the names they bind and the paths of the
scopes they own, ordered by path; records with equal paths stay in the order of their slots. The
fingerprint is a digest of the snapshot.
-/

namespace ScopeScript

/-- A live record as it is shown. -/
structure RecordInfo where
  path : String
  names : List String
  owned : List String
  deriving DecidableEq, Repr, Inhabited

namespace RecordInfo

/-- Texts in double quotes, separated by commas, in brackets. -/
private def listText (texts : List String) : String :=
  "[" ++ ",".intercalate (texts.map fun text => "\"" ++ text ++ "\"") ++ "]"

/-- The form of a record that goes into the fingerprint. -/
def text (info : RecordInfo) : String :=
  "\x7bNames:" ++ listText info.names ++ ",Owned:" ++ listText info.owned ++ ",Path:\"" ++
    info.path ++ "\"\x7d"

end RecordInfo

namespace Vault

/-- Describe a record. -/
def describe (vault : Vault) (record : Record) : RecordInfo where
  path := record.path
  names := record.table.names
  owned := record.owned.map vault.path

/-- All live records, ordered by path. -/
def snapshot (vault : Vault) : List RecordInfo :=
  (vault.slots.toList.filterMap fun slot => slot.record?.map vault.describe).mergeSort
    fun left right => Table.textLE left.path right.path

/-- The text whose digest is the fingerprint. -/
def fingerprintText (infos : List RecordInfo) : String :=
  "\x7bRecords:[" ++ ",".intercalate (infos.map RecordInfo.text) ++ "]\x7d"

/-- A digest of the live records. -/
def fingerprint (vault : Vault) : String :=
  "v1_" ++ Digest.md5 (Text.bytes (fingerprintText vault.snapshot))

end Vault

end ScopeScript
