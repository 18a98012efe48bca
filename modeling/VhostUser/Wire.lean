import VhostUser.Lib.ByteImage

/-!
Contract: the vhost-user message as both programs lay it out
(`VHostUserMsg` in `vhost_user.h`, `VhostUserMsg` in `vhost-backend.c`).

The two declarations agree field by field. The structure is packed: a header of
request, flags and payload size, then a union whose largest member is the
memory table. Fields of different union members overlap; which of them a
program writes or reads is its own business.
-/

namespace VhostUser.Wire

open VhostUser.Lib.ByteImage (ByteField)

/-- `VHostUserRequest` / `VhostUserRequest`, without `VHOST_USER_NONE`. -/
inductive Request where
  | getFeatures
  | setFeatures
  | setOwner
  | resetOwner
  | setMemTable
  | setLogBase
  | setLogFd
  | setVringNum
  | setVringAddr
  | setVringBase
  | getVringBase
  | setVringKick
  | setVringCall
  | setVringErr
  | netSetBackend
  | echo
deriving DecidableEq, Repr

def requests : List Request :=
  [.getFeatures, .setFeatures, .setOwner, .resetOwner, .setMemTable, .setLogBase, .setLogFd,
    .setVringNum, .setVringAddr, .setVringBase, .getVringBase, .setVringKick, .setVringCall,
    .setVringErr, .netSetBackend, .echo]

def Request.code (request : Request) : Nat :=
  requests.idxOf request + 1

/-- The constant with a given value; `none` for `VHOST_USER_NONE` and from `VHOST_USER_MAX` on. -/
def Request.ofCode? : Nat → Option Request
  | 0 => none
  | code + 1 => requests[code]?

@[simp] theorem Request.ofCode?_code (request : Request) :
    Request.ofCode? request.code = some request := by
  cases request <;> rfl

theorem Request.exists_code {code : Nat} (below : code < 17) (nonzero : code ≠ 0) :
    ∃ request : Request, code = request.code := by
  have all : ∀ code < 17, code ≠ 0 → ∃ request ∈ requests, code = request.code := by decide
  obtain ⟨request, -, named⟩ := all code below nonzero
  exact ⟨request, named⟩

theorem Request.ofCode?_eq_none {code : Nat} (beyond : 17 ≤ code) :
    Request.ofCode? code = none := by
  cases code with
  | zero => rfl
  | succ code =>
    apply List.getElem?_eq_none
    change 16 ≤ code
    omega

theorem Request.code_lt (request : Request) : request.code < 17 := by
  cases request <;> decide

/-! ### Fields -/

def request : ByteField := ⟨0, 4⟩
def flags : ByteField := ⟨4, 4⟩
def size : ByteField := ⟨8, 4⟩

def hdrSize : Nat := 12

def msgSize : Nat := 212

def u64 : ByteField := ⟨12, 8⟩
def fd : ByteField := ⟨12, 4⟩

def stateIndex : ByteField := ⟨12, 4⟩
def stateNum : ByteField := ⟨16, 4⟩

def addrIndex : ByteField := ⟨12, 4⟩
def addrFlags : ByteField := ⟨16, 4⟩
def addrDescUserAddr : ByteField := ⟨20, 8⟩
def addrUsedUserAddr : ByteField := ⟨28, 8⟩
def addrAvailUserAddr : ByteField := ⟨36, 8⟩
def addrLogGuestAddr : ByteField := ⟨44, 8⟩

def fileIndex : ByteField := ⟨12, 4⟩
def fileFd : ByteField := ⟨16, 4⟩

def memoryNregions : ByteField := ⟨12, 4⟩
def regionGuestPhysAddr (idx : Nat) : ByteField := ⟨20 + 24 * idx, 8⟩
def regionMemorySize (idx : Nat) : ByteField := ⟨28 + 24 * idx, 8⟩
def regionUserspaceAddr (idx : Nat) : ByteField := ⟨36 + 24 * idx, 8⟩

/-- `VHOST_USER_VRING_IDX_MASK` keeps the low byte of a value. -/
def vringIdx (value : Nat) : Nat := value % 256

/-- Bit 8 of a value, `VHOST_USER_VRING_NOFD_MASK`. -/
def vringNoFd (value : Nat) : Bool := value.testBit 8

theorem u64_eq_file (image : VhostUser.Lib.ByteImage) :
    u64.get image = fileIndex.get image + 2 ^ 32 * fileFd.get image := by
  exact VhostUser.Lib.ByteImage.getLE_add image 12 4 4

end VhostUser.Wire
