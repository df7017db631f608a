import PaimonCore.Common.FieldsComparator
import PaimonCore.Library.ChangeLog

/-!
# Data files and manifest entries

`DataFileMeta` with the fields that the commit, compaction, scan and expiration code
reads.
-/

namespace PaimonCore.Manifest

open PaimonCore.Fields

inductive FileSource where
  | append
  | compact
  deriving DecidableEq, Repr

/-- `SimpleStats`: the statistics of the columns, a null count may be unknown. -/
structure SimpleStats where
  minValues : BinaryRow := []
  maxValues : BinaryRow := []
  nullCounts : List (Option Int) := []
  deriving DecidableEq, Repr

structure DataFileMeta where
  fileName : String
  fileSize : Int := 0
  rowCount : Nat := 0
  minKey : BinaryRow := []
  maxKey : BinaryRow := []
  minSequenceNumber : Int := 0
  maxSequenceNumber : Int := 0
  level : Int := 0
  extraFiles : List String := []
  deleteRowCount : Option Int := none
  fileSource : Option FileSource := none
  externalPath : Option String := none
  firstRowId : Option Int := none
  writeCols : Option (List String) := none
  keyStats : SimpleStats := {}
  valueStats : SimpleStats := {}
  valueStatsCols : Option (List String) := none
  schemaId : Int := 0
  embeddedIndex : Option (List (Fin 256)) := none
  creationTime : Int := 0
  deriving DecidableEq, Repr

def DataFileMeta.copyWithoutStats (file : DataFileMeta) : DataFileMeta :=
  { file with valueStats := {}, valueStatsCols := some [] }

/-- `DataFileMeta::Upgrade`: the same file at a higher level. -/
def DataFileMeta.upgrade (file : DataFileMeta) (newLevel : Int) : Except String DataFileMeta :=
  if newLevel ≤ file.level then
    .error ("new level " ++ toString newLevel ++ " should be greater than current level " ++
      toString file.level)
  else .ok { file with level := newLevel }

abbrev FileKind := ChangeLog.Change

structure ManifestEntry where
  kind : FileKind
  partition : BinaryRow := []
  bucket : Int := 0
  totalBuckets : Int := 0
  file : DataFileMeta
  deriving DecidableEq, Repr

structure Identifier where
  partition : BinaryRow
  bucket : Int
  level : Int
  fileName : String
  externalPath : Option String
  deriving DecidableEq, Repr

def ManifestEntry.createIdentifier (entry : ManifestEntry) : Identifier where
  partition := entry.partition
  bucket := entry.bucket
  level := entry.file.level
  fileName := entry.file.fileName
  externalPath := entry.file.externalPath

/-- A row is printed by its fields; the source prints its hash code. -/
def rowToString (row : BinaryRow) : String := "BinaryRow@" ++ reprStr row

def Identifier.toString (identifier : Identifier) : String :=
  "\x7b" ++ rowToString identifier.partition ++ ", " ++ ToString.toString identifier.bucket ++
    ", " ++ ToString.toString identifier.level ++ ", " ++ identifier.fileName ++ ", " ++
    identifier.externalPath.getD "null" ++ "\x7d"

end PaimonCore.Manifest
