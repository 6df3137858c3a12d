import BtrfsForensic.Core.Bytes

namespace BtrfsForensic

/-! The `sys_chunk_array` bootstrap: disk keys, stripes and the packed chunk
entries of the superblock. -/

abbrev sysChunkArrayOffset : Nat := 0x32b
abbrev diskKeySize : Nat := 17
abbrev chunkHeaderSize : Nat := 48
abbrev stripeSize : Nat := 32
abbrev chunkItemKey : UInt8 := 228

structure DiskKey where
  objectid : UInt64
  keyType : UInt8
  offset : UInt64
  deriving DecidableEq

def DiskKey.parse (data : Bytes) (off : Nat) : DiskKey where
  objectid := leU64 data off
  keyType := u8At data (off + 8)
  offset := leU64 data (off + 9)

structure Stripe where
  devid : UInt64
  offset : UInt64
  devUuid : List.Vector UInt8 16
  deriving DecidableEq

def Stripe.parse (data : Bytes) (off : Nat) : Stripe where
  devid := leU64 data off
  offset := leU64 data (off + 8)
  devUuid := u8Array data (off + 16) 16

/-- A chunk entry of the `sys_chunk_array`; `key.offset` is its logical
start. -/
structure SysChunk where
  key : DiskKey
  length : UInt64
  owner : UInt64
  stripeLen : UInt64
  chunkType : UInt64
  numStripes : UInt16
  subStripes : UInt16
  stripes : List Stripe
  deriving DecidableEq

namespace SysChunk

/-- The physical offset of `logical` on the first stripe. -/
def logicalToPhysical (chunk : SysChunk) (logical : UInt64) : Option UInt64 := do
  let start := chunk.key.offset
  let stop ← checkedAdd start chunk.length
  if logical < start ∨ stop ≤ logical then
    none
  else
    let stripe ← chunk.stripes.head?
    checkedAdd stripe.offset (logical - start)

/-- The entries from position `p` on. Every entry takes at least 65 bytes, so
`fuel` above `stop` is never spent. -/
def parseArrayLoop (block : Bytes) (stop : Nat) :
    (fuel p : Nat) → List SysChunk
  | 0, _ => []
  | fuel + 1, p =>
      let keyEnd := saturatingAdd p diskKeySize
      let hdrEnd := saturatingAdd keyEnd chunkHeaderSize
      if stop < hdrEnd then
        []
      else
        let numStripes := leU16 block (keyEnd + 44)
        let stripesStart := saturatingAdd keyEnd chunkHeaderSize
        let stripesEnd := saturatingAdd stripesStart
          (saturatingMul numStripes.toNat stripeSize)
        if stop < stripesEnd then
          []
        else
          { key := DiskKey.parse block p
            length := leU64 block keyEnd
            owner := leU64 block (keyEnd + 8)
            stripeLen := leU64 block (keyEnd + 16)
            chunkType := leU64 block (keyEnd + 24)
            numStripes := numStripes
            subStripes := leU16 block (keyEnd + 46)
            stripes := (List.range numStripes.toNat).map fun index =>
              Stripe.parse block (stripesStart + index * stripeSize) } ::
            parseArrayLoop block stop fuel stripesEnd

def parseArray (block : Bytes) (arrayOff : Nat) (arraySize : UInt32) :
    List SysChunk :=
  let declaredEnd := saturatingAdd arrayOff arraySize.toNat
  let stop := min declaredEnd block.length
  parseArrayLoop block stop (stop + 1) arrayOff

end SysChunk

end BtrfsForensic
