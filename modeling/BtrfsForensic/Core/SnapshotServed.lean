import BtrfsForensic.Core.SnapshotContent

namespace BtrfsForensic

/-! A mounted image that stores a snapshot answers every request as the snapshot. -/

/-! ## Requests -/

def Dentry.listed (dentry : Dentry) : VfsDirEntry := VfsDirEntry.ofEntry dentry.entry

section Serving

variable {crates : Crates} {fs : BtrfsFs} {image : Bytes} {snapshot : Snapshot}
  {encoding : Encoding}

/-! ## Paths -/

section Content

variable {object : Object}

variable (opened : BtrfsFs.ofImage crates image = .ok fs)
  (stored : fs.leaf.leafItems.Perm (snapshot.items encoding))

include opened stored

end Content

/-- A mounted image whose leaf stores a snapshot, in whatever order, and which holds its
content. -/
structure Mounts (crates : Crates) (image : Bytes) (fs : BtrfsFs) (encoding : Encoding)
    (snapshot : Snapshot) : Prop where
  opened : BtrfsFs.ofImage crates image = .ok fs
  stored : fs.leaf.leafItems.Perm (snapshot.items encoding)
  bounded : fs.image.length < usizeMax
  backed : snapshot.Backed crates fs.image fs.map fs.sb.sectorsize

end Serving

end BtrfsForensic
