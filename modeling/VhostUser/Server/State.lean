import Mathlib.Data.List.FinRange
import Mathlib.Logic.Function.Basic

/-!
Contract: the state of the vhost-user server (`vhost_user.c`, `vhost_user.h`,
`vring.h`) and the ways its C code can stop.

Owns:
- the server's structures under the source's field names;
- the memory the server shares with the guest, as the server sees it, and the translation of
  addresses into it;
- the state-passing monad of the server's handlers.

The descriptor table, the avail ring and the used ring of a vring are separate
objects reached through their three base pointers; packet buffers are bytes.
A pointer is usable exactly when a live mapping backs it.
-/

namespace VhostUser.Server

/-- How a handler can fail to return. -/
inductive Fault where
  /-- A failed `assert`. -/
  | assertion
  /-- A remainder by a ring size of zero. -/
  | divByZero
  /-- An access through a pointer that no mapping backs. -/
  | badAddress
  /-- An access outside one of the program's own arrays. -/
  | outOfBounds
  /-- A loop that never reaches its exit. -/
  | hang
deriving DecidableEq, Repr

/-! ### Rings (`vring.h`) -/

structure VringDesc where
  addr : UInt64
  len : UInt32
  flags : UInt16
  next : UInt16
deriving DecidableEq, Repr

def descFNext : UInt16 := 1

structure VringAvail where
  idx : UInt16
  ring : Nat → UInt16

structure VringUsedElem where
  id : UInt32
  len : UInt32
deriving DecidableEq, Repr

structure VringUsed where
  idx : UInt16
  ring : Nat → VringUsedElem

structure Vring where
  kickfd : Int
  callfd : Int
  desc : UInt64
  avail : UInt64
  used : UInt64
  num : UInt32
  lastAvailIdx : UInt16
  lastUsedIdx : UInt16
deriving DecidableEq, Repr

def rxIdx : Fin 2 := 0

def txIdx : Fin 2 := 1

def ethPacketSize : Nat := 1518

def netHdrSize : Nat := 10

def bufferSizeMax : Nat := netHdrSize + ethPacketSize

/-! ### Shared memory -/

/-- What the server's pointers denote. `byte` is `none` where nothing is mapped; the rings are
found under their base pointers. -/
structure GuestMem where
  desc : UInt64 → Nat → VringDesc
  avail : UInt64 → VringAvail
  used : UInt64 → VringUsed
  byte : UInt64 → Option UInt8

namespace GuestMem

def mapped (mem : GuestMem) (pointer : UInt64) : Bool :=
  (mem.byte pointer).isSome

def readBytes (mem : GuestMem) (pointer : UInt64) : Nat → Option (List UInt8)
  | 0 => some []
  | count + 1 =>
    match mem.byte pointer, readBytes mem (pointer + 1) count with
    | some head, some tail => some (head :: tail)
    | _, _ => none

def writeBytes (mem : GuestMem) (pointer : UInt64) : List UInt8 → Option GuestMem
  | [] => some mem
  | head :: tail =>
    if mem.mapped pointer then
      writeBytes { mem with byte := Function.update mem.byte pointer (some head) }
        (pointer + 1) tail
    else none

def setDesc (mem : GuestMem) (base : UInt64) (index : Nat) (value : VringDesc) : GuestMem :=
  let table := Function.update (mem.desc base) index value
  { mem with desc := Function.update mem.desc base table }

def setAvail (mem : GuestMem) (base : UInt64) (value : VringAvail) : GuestMem :=
  { mem with avail := Function.update mem.avail base value }

def setUsed (mem : GuestMem) (base : UInt64) (value : VringUsed) : GuestMem :=
  { mem with used := Function.update mem.used base value }

theorem readBytes_length {mem : GuestMem} {pointer : UInt64} {count : Nat}
    {data : List UInt8} (found : mem.readBytes pointer count = some data) :
    data.length = count := by
  induction count generalizing pointer data with
  | zero =>
    simp only [readBytes, Option.some.injEq] at found
    simp [← found]
  | succ count ih =>
    simp only [readBytes] at found
    split at found
    · rename_i head tail _ tailFound
      simp only [Option.some.injEq] at found
      simp [← found, ih tailFound]
    · simp at found

section

variable (mem : GuestMem) (base : UInt64)
include mem base

@[simp] theorem setDesc_avail (index : Nat) (value : VringDesc) :
    (mem.setDesc base index value).avail = mem.avail := rfl

@[simp] theorem setDesc_mapped (index : Nat) (value : VringDesc)
    (pointer : UInt64) : (mem.setDesc base index value).mapped pointer = mem.mapped pointer := rfl

@[simp] theorem setUsed_desc (value : VringUsed) : (mem.setUsed base value).desc = mem.desc := rfl

@[simp] theorem setUsed_avail (value : VringUsed) :
    (mem.setUsed base value).avail = mem.avail := rfl

@[simp] theorem setUsed_byte (value : VringUsed) : (mem.setUsed base value).byte = mem.byte := rfl

@[simp] theorem setUsed_used_same (value : VringUsed) :
    (mem.setUsed base value).used base = value := by
  simp [setUsed]

end

def unmapped : GuestMem where
  desc := fun _ _ => ⟨0, 0, 0, 0⟩
  avail := fun _ => ⟨0, fun _ => 0⟩
  used := fun _ => ⟨0, fun _ => ⟨0, 0⟩⟩
  byte := fun _ => none

end GuestMem

/-! ### Memory table and descriptors lists (`vhost_user.h`) -/

structure VHostUserLocalMemoryRegion where
  guestPhysAddr : UInt64
  memorySize : UInt64
  userspaceAddr : UInt64
  mmapAddr : UInt64
deriving DecidableEq, Repr

abbrev memoryMaxNregions : Nat := 8

structure VHostUserLocalMemory where
  nregions : UInt32
  regions : Fin memoryMaxNregions → VHostUserLocalMemoryRegion

/-- The functions the server registers in its descriptor list. -/
inductive FdHandler where
  | acceptSockServer
  | receiveSockServer
  | kickServer
deriving DecidableEq, Repr

structure FdNode where
  fd : Int
  handler : Option FdHandler
deriving DecidableEq, Repr

def fdListSize : Nat := 10

structure FdList where
  readFds : Fin fdListSize → FdNode
  writeFds : Fin fdListSize → FdNode

/-! ### The server -/

/-- The functions that work on a vring. -/
inductive RingFunction where
  | processAvailVring
  | putVring
  | putRxVring
deriving DecidableEq, Repr

/-- What an observer of a run sees. These entries are ghost state: nothing in
the server reads them. -/
inductive Observation where
  /-- `function` was entered on `ring` while `memory` was installed. -/
  | entered (function : RingFunction) (index : Fin 2) (ring : Vring)
      (memory : VHostUserLocalMemory)
  /-- The avail entry at `position` of ring `index` was processed. -/
  | processed (index : Fin 2) (position : UInt16)
  | received (packet : List UInt8)
  /-- `put_vring` placed this packet on ring `index`. -/
  | placed (index : Fin 2) (packet : List UInt8)

/-- `struct VHostUser`, the memory it shares with the guest, `g_send_lock` and
the observations made so far, oldest first. -/
structure VHostUser where
  memory : VHostUserLocalMemory
  vring : Fin 2 → Vring
  isPolling : Bool
  buffer : List UInt8
  bufferSize : UInt32
  fdList : FdList
  gSendLock : Bool
  mem : GuestMem
  trace : List Observation

/-- The server as `main` sets it up, with the list that `init_fd_list` leaves. -/
def VHostUser.fresh (mem : GuestMem) : VHostUser where
  memory := ⟨0, fun _ => ⟨0, 0, 0, 0⟩⟩
  vring := fun _ => ⟨-1, -1, 0, 0, 0, 0, 0, 0⟩
  isPolling := false
  buffer := []
  bufferSize := 0
  fdList := ⟨fun _ => ⟨-1, none⟩, fun _ => ⟨-1, none⟩⟩
  gSendLock := false
  mem := mem
  trace := []

/-- Handlers run on the server state and either return or fault in it. -/
abbrev ServerM := EStateM Fault VHostUser

variable {server : VHostUser}

namespace VHostUser

def setRing (server : VHostUser) (index : Fin 2) (ring : Vring) : VHostUser :=
  { server with vring := Function.update server.vring index ring }

def setUsed (server : VHostUser) (base : UInt64) (used : VringUsed) : VHostUser :=
  { server with mem := server.mem.setUsed base used }

def observe (server : VHostUser) (entry : Observation) : VHostUser :=
  { server with trace := server.trace ++ [entry] }

@[simp] theorem setRing_same (server : VHostUser) (index : Fin 2) (ring : Vring) :
    (server.setRing index ring).vring index = ring := by
  simp [setRing]

theorem setRing_other (server : VHostUser) {index other : Fin 2} (ring : Vring)
    (different : other ≠ index) :
    (server.setRing index ring).vring other = server.vring other := by
  simp [setRing, different]

theorem setRing_view {γ : Type} (view : Vring → γ) {index : Fin 2} {ring : Vring}
    (same : view ring = view (server.vring index)) (other : Fin 2) :
    view ((server.setRing index ring).vring other) = view (server.vring other) := by
  by_cases here : other = index
  · rw [here, setRing_same, same]
  · rw [setRing_other server ring here]

@[simp] theorem setRing_mem (server : VHostUser) (index : Fin 2) (ring : Vring) :
    (server.setRing index ring).mem = server.mem := rfl

@[simp] theorem setRing_memory (server : VHostUser) (index : Fin 2) (ring : Vring) :
    (server.setRing index ring).memory = server.memory := rfl

end VHostUser

variable {α : Type}

@[simp] theorem ServerM.run_throw (fault : Fault) (server : VHostUser) :
    EStateM.run (throw fault : ServerM α) server = .error fault server := rfl

def assertThat (condition : Bool) : ServerM Unit :=
  if condition then pure () else throw .assertion

@[simp] theorem assertThat_true : assertThat true = pure () := rfl

/-- Use a pointer: it must be backed by a mapping. -/
def deref (pointer : UInt64) : ServerM Unit := do
  if (← get).mem.mapped pointer then pure () else throw .badAddress

theorem deref_run {pointer : UInt64} (mapped : server.mem.mapped pointer = true) :
    (deref pointer).run server = .ok () server := by
  simp [deref, mapped]

theorem run_deref_bind (pointer : UInt64) (rest : Unit → ServerM α) (server : VHostUser) :
    (deref pointer >>= rest).run server =
      if server.mem.mapped pointer then (rest ()).run server else .error .badAddress server := by
  by_cases mapped : server.mem.mapped pointer = true <;> simp [deref, mapped]

theorem run_bind_ok {β : Type} {first : ServerM α} {rest : α → ServerM β} {middle : VHostUser}
    {value : α} (done : first.run server = .ok value middle) :
    (first >>= rest).run server = (rest value).run middle := by
  rw [EStateM.run_bind, done]

theorem bind_ok {β : Type} {first : ServerM α} {rest : α → ServerM β} {after : VHostUser}
    {result : β} (returned : (first >>= rest).run server = .ok result after) :
    ∃ value middle, first.run server = .ok value middle ∧
      (rest value).run middle = .ok result after := by
  rw [EStateM.run_bind] at returned
  split at returned
  · rename_i value middle done
    exact ⟨value, middle, done, returned⟩
  · simp at returned

/-! ### Address translation

Both functions scan the installed regions in order and stop at the first one that contains the
address; the result is 0 when none does. -/

def VHostUserLocalMemory.active (memory : VHostUserLocalMemory) : List VHostUserLocalMemoryRegion :=
  ((List.finRange memoryMaxNregions).take memory.nregions.toNat).map memory.regions

def regionHas (base size addr : UInt64) : Bool :=
  base ≤ addr && addr < base + size

/-- The common scan of `_map_user_addr` and `_map_guest_addr`. -/
def mapAddr (base : VHostUserLocalMemoryRegion → UInt64)
    (regions : List VHostUserLocalMemoryRegion) (addr : UInt64) : UInt64 :=
  match regions.find? fun region => regionHas (base region) region.memorySize addr with
  | some region => region.mmapAddr + addr - base region
  | none => 0

def mapUserAddr (memory : VHostUserLocalMemory) (addr : UInt64) : UInt64 :=
  mapAddr VHostUserLocalMemoryRegion.userspaceAddr memory.active addr

/-- `_map_guest_addr`, which `map_handler` calls on the server's table. -/
def mapGuestAddr (memory : VHostUserLocalMemory) (addr : UInt64) : UInt64 :=
  mapAddr VHostUserLocalMemoryRegion.guestPhysAddr memory.active addr

theorem mapAddr_of_find {base : VHostUserLocalMemoryRegion → UInt64}
    {regions : List VHostUserLocalMemoryRegion} {addr : UInt64}
    {region : VHostUserLocalMemoryRegion}
    (found : regions.find? (fun region =>
      regionHas (base region) region.memorySize addr) = some region) :
    mapAddr base regions addr = region.mmapAddr + addr - base region := by
  simp [mapAddr, found]

end VhostUser.Server
