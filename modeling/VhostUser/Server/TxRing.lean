import VhostUser.Server.State

/-!
Contract: the transmit path of the server (`process_desc`,
`process_avail_vring`, `avail_handler_server`).

`process_desc` walks a descriptor chain, copies its buffers into a stack buffer
of `ETH_PACKET_SIZE` bytes, writes the used entry and hands the packet to
`avail_handler_server`. Its length arithmetic is that of `uint32_t`, compared
with a `size_t`, and the payload length is a `size_t` difference. The walk has
no bound of its own: `chainFuel` exceeds the number of distinct loop states
(16-bit index, accumulated length below `ETH_PACKET_SIZE`), so running out of
it means that the loop repeats a state and never ends.

`main` registers both handlers of the vring table before the first iteration
and nothing clears them, so the branches for a missing handler are not taken.
-/

namespace VhostUser.Server

def chainFuel : Nat := 65536 * (ethPacketSize + 1)

/-- The copy loop of `process_desc` at descriptor `i`, with `len` bytes of
`buf` filled. -/
def gather (server : VHostUser) (table : UInt64) :
    Nat → UInt32 → UInt32 → List UInt8 → Except Fault (UInt32 × List UInt8)
  | 0, _, _, _ => .error .hang
  | fuel + 1, i, len, buf =>
    if server.mem.mapped table then
      let desc := server.mem.desc table i.toNat
      let cur := mapGuestAddr server.memory desc.addr
      if (len + desc.len).toNat < ethPacketSize then
        -- the sum may have wrapped: the copy itself is of the full length
        if ethPacketSize < len.toNat + desc.len.toNat then .error .outOfBounds
        else
          match server.mem.readBytes cur desc.len.toNat with
          | none => .error .badAddress
          | some data =>
            if desc.flags &&& descFNext ≠ 0 then
              gather server table fuel desc.next.toUInt32 (len + desc.len) (buf ++ data)
            else .ok (len + desc.len, buf ++ data)
      else .ok (len, buf)
    else .error .badAddress

def availHandlerServer (packet : List UInt8) (size : UInt64) : ServerM Unit := do
  if bufferSizeMax < size.toNat then throw .outOfBounds
  modify fun server =>
    { server with buffer := packet, bufferSize := size.toUInt32 }.observe (.received packet)

def usedRingSet (used : VringUsed) (slot : Nat) (elem : VringUsedElem) : VringUsed :=
  { used with ring := Function.update used.ring slot elem }

def processDesc (index : Fin 2) (aIdx : UInt32) : ServerM Int := do
  let server ← get
  let ring := server.vring index
  if ring.num = 0 then throw .divByZero
  let uIdx : UInt16 := (ring.lastUsedIdx.toUInt32 % ring.num).toUInt16
  deref ring.avail
  let dIdx := (server.mem.avail ring.avail).ring aIdx.toNat
  match gather server ring.desc chainFuel dIdx.toUInt32 0 [] with
  | .error fault => throw fault
  | .ok (len, buf) =>
    if len = 0 then return -1
    deref ring.used
    modify fun server => server.setUsed ring.used
      (usedRingSet (server.mem.used ring.used) uIdx.toNat ⟨dIdx.toUInt32, len⟩)
    availHandlerServer (buf.drop netHdrSize) (len.toUInt64 - netHdrSize.toUInt64)
    return 0

def advanceRing (server : VHostUser) (index : Fin 2) : VHostUser :=
  let ring := server.vring index
  (server.setRing index { ring with
    lastAvailIdx := ring.lastAvailIdx + 1, lastUsedIdx := ring.lastUsedIdx + 1 }).observe
    (.processed index ring.lastAvailIdx)

def availLoop (index : Fin 2) (num : UInt32) : Nat → UInt16 → UInt32 → ServerM UInt32
  | 0, _, _ => throw .hang
  | fuel + 1, aIdx, count => do
      let server ← get
      let ring := server.vring index
      if ring.lastAvailIdx = (server.mem.avail ring.avail).idx then return count
      let _ ← processDesc index aIdx.toUInt32
      modify fun server => advanceRing server index
      availLoop index num fuel ((aIdx.toUInt32 + 1) % num).toUInt16 (count + 1)

/-- `process_avail_vring`. The loop ends when a 16-bit counter reaches a fixed
value, so `2^16` rounds are enough. -/
def processAvailVring (index : Fin 2) : ServerM UInt32 := do
  let server ← get
  let ring := server.vring index
  set (server.observe (.entered .processAvailVring index ring server.memory))
  if ring.num = 0 then throw .divByZero
  let aIdx : UInt16 := (ring.lastAvailIdx.toUInt32 % ring.num).toUInt16
  deref ring.avail
  let count ← availLoop index ring.num 65536 aIdx 0
  deref ring.used
  modify fun server => server.setUsed ring.used
    { server.mem.used ring.used with idx := (server.vring index).lastUsedIdx }
  return count

end VhostUser.Server
