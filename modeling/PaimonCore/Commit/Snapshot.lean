import PaimonCore.Manifest.ManifestFile

/-!
# Snapshots

The fields of a snapshot file that commits and expiration read. Manifest lists and
index manifests are named like manifests, by the uuid and the count of the path
factory that made the name.
-/

namespace PaimonCore.Commit

open Manifest

inductive CommitKind where
  | append
  | compact
  | overwrite
  | analyze
  deriving DecidableEq, Repr

structure Snapshot where
  id : Int
  baseManifestList : PathName
  deltaManifestList : PathName
  changelogManifestList : Option PathName := none
  indexManifest : Option PathName := none
  commitUser : String := ""
  commitIdentifier : Int := 0
  commitKind : CommitKind := .append
  nextRowId : Option Int := none
  deriving DecidableEq, Repr

def firstSnapshotId : Int := 1

end PaimonCore.Commit
