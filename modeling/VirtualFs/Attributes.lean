import VirtualFs.Error
import VirtualFs.Mode
import VirtualFs.Time

namespace VirtualFs

/-- The attributes of one node. The modification time is never before the creation time and never
goes back. -/
structure Attributes where
  /-- Creation time. -/
  ctime : Time
  /-- Last modification time. -/
  mtime : Time
  /-- Size in bytes, of regular files only. -/
  size : Nat
  mode : FileMode
  uid : Nat
  gid : Nat
  owner : String
  group : String
  inode : Nat
  /-- Empty when unknown. -/
  mimeType : String
  deriving Repr, DecidableEq

namespace Attributes

/-- Attributes of a node created at `now`. -/
def createdAt (now : Time) (mode : FileMode) (inode : Nat) : Attributes where
  ctime := now
  mtime := now
  size := 0
  mode := mode
  uid := 0
  gid := 0
  owner := ""
  group := ""
  inode := inode
  mimeType := ""

/-- Moves the modification time forward. The current value is accepted again, an earlier one is
refused and nothing changes. -/
def setMtime (attrs : Attributes) (mtime : Time) : Except FsError Attributes :=
  if mtime < attrs.ctime then .error .mtimeBeforeCtime
  else if mtime < attrs.mtime then .error .mtimeRegression
  else .ok { attrs with mtime := mtime }

/-- Attributes to be, with times that may still be open. -/
structure Draft where
  ctime : Option Time
  mtime : Option Time
  size : Nat
  mode : FileMode
  uid : Nat
  gid : Nat
  owner : String
  group : String
  inode : Nat
  mimeType : String
  deriving Repr, DecidableEq

/-- A draft with everything open, zero or empty. -/
def Draft.empty : Draft where
  ctime := none
  mtime := none
  size := 0
  mode := ⟨0⟩
  uid := 0
  gid := 0
  owner := ""
  group := ""
  inode := 0
  mimeType := ""

/-- The attributes of a draft: an open creation time is `now`, an open modification time is the
creation time. -/
def Draft.build (draft : Draft) (now : Time) : Except FsError Attributes :=
  let ctime := draft.ctime.getD now
  let mtime := draft.mtime.getD ctime
  if mtime < ctime then .error .mtimeBeforeCtime
  else
    .ok {
      ctime := ctime
      mtime := mtime
      size := draft.size
      mode := draft.mode
      uid := draft.uid
      gid := draft.gid
      owner := draft.owner
      group := draft.group
      inode := draft.inode
      mimeType := draft.mimeType }

end Attributes

end VirtualFs
