import BtrfsForensic.Core.Truncation

namespace BtrfsForensic

/-! A mounted image of which content was damaged or lost: the damage is confined to the files
whose content it is, and content that is gone is refused. -/

section Lost

variable {crates : Crates} {image : Bytes} {map : ChunkMap} {sectorsize : UInt32}
  {logicalBound : Nat} {spare : ExtentSpare}

end Lost

section Mount

variable {crates : Crates} {fs : BtrfsFs} {image : Bytes} {snapshot : Snapshot}
  {encoding : Encoding} {object : Object}

end Mount

end BtrfsForensic
