import VhostUser.Qemu.NetQueues

/-!
Contract: the scatter lists of a virtio network device (`iov_copy` and its callers in
`virtio-net.c`): the packet that is handed to the backend for a transmit element, and the
assertions that a chain of the guest can reach.

Owns: the pieces of a list, with and without an end of the array they are put in.
-/

namespace VhostUser.Qemu.Virtio

open VhostUser.Lib

/-! ### Pieces -/

def piecesBytes (mem : UInt64 → UInt8) (iov : List (UInt64 × Nat)) : List UInt8 :=
  (Iov.cells iov).map mem

/-- The copying loop of `qemu_net_queue_append_iov`. -/
def netQueueAppendIov (mem : UInt64 → UInt8) (iov : List (UInt64 × Nat)) : List UInt8 :=
  iov.foldl (fun data piece =>
    data ++ (List.range piece.2).map fun k => mem (piece.1 + UInt64.ofNat k)) []

theorem length_iovBytes (mem : UInt64 → UInt8) (iov : List Segment) :
    (iovBytes mem iov).length = iovSize iov := by
  rw [iovBytes, List.length_map, length_cells_pair]

theorem piecesBytes_pieces (mem : UInt64 → UInt8) (iov : List Segment) (offset bytes : Nat) :
    piecesBytes mem (pieces iov offset bytes) = ((iovBytes mem iov).drop offset).take bytes := by
  rw [piecesBytes, pieces, Iov.cells_pieces, List.map_take, List.map_drop, iovBytes]

theorem netQueueAppendIov_eq (mem : UInt64 → UInt8) (iov : List (UInt64 × Nat)) :
    netQueueAppendIov mem iov = piecesBytes mem iov := by
  rw [netQueueAppendIov, ← List.flatMap_eq_foldl, piecesBytes, Iov.cells, List.map_flatMap]
  simp only [Iov.span, List.map_map, Function.comp_def]

theorem piecesBytes_append (mem : UInt64 → UInt8) (front back : List (UInt64 × Nat)) :
    piecesBytes mem (front ++ back) = piecesBytes mem front ++ piecesBytes mem back := by
  rw [piecesBytes, Iov.cells_append, List.map_append, piecesBytes, piecesBytes]

/-- Pieces are not empty, so a shorter list of them reads as fewer bytes. -/
theorem length_le_of_bytes {mem : UInt64 → UInt8} {iov : List Segment} {offset bytes room : Nat}
    (same : piecesBytes mem ((pieces iov offset bytes).take room) =
      piecesBytes mem (pieces iov offset bytes)) : (pieces iov offset bytes).length ≤ room := by
  have split := congrArg List.length
    (piecesBytes_append mem ((pieces iov offset bytes).take room)
      ((pieces iov offset bytes).drop room))
  rw [List.take_append_drop, same, List.length_append, left_eq_add] at split
  by_contra more
  obtain ⟨piece, rest, dropped⟩ := List.exists_cons_of_ne_nil
    (mt List.drop_eq_nil_iff.mp more)
  have member : piece ∈ pieces iov offset bytes :=
    List.mem_of_mem_drop (dropped ▸ List.mem_cons_self)
  have positive := Iov.pieces_pos _ _ _ piece member
  rw [dropped, piecesBytes, List.length_map, Iov.length_cells_cons] at split
  omega

/-! ### The packet of an element -/

/-- The pieces of the two copies fit the array that they share. -/
abbrev FitsArray (n : VirtIONet) (elem : VirtQueueElement) : Prop :=
  (pieces elem.outSg 0 n.hostHdrLen).length < virtqueueMaxSize ∧
    (pieces elem.outSg 0 n.hostHdrLen).length +
      (pieces elem.outSg n.guestHdrLen (2 ^ 64 - 1)).length ≤ virtqueueMaxSize

theorem iovSize_lt {iov : List Segment} (few : iov.length ≤ virtqueueMaxSize) :
    iovSize iov < 2 ^ 64 - 1 := by
  have each : iovSize iov ≤ iov.length * 2 ^ 32 := by
    induction iov with
    | nil => exact Nat.le_refl _
    | cons sg rest ih =>
      have := sg.iovLen.toNat_lt
      have := ih (Nat.le_of_succ_le few)
      rw [iovSize_cons, List.length_cons]
      omega
  unfold virtqueueMaxSize at few
  omega

/-- The packet of an element is the host's header and what follows the guest's, handed over or
queued, exactly if the headers are as long or the pieces fit the array. -/
theorem txPacket_bytes_iff (n : VirtIONet) (elem : VirtQueueElement) (mem : UInt64 → UInt8)
    (few : elem.outSg.length ≤ virtqueueMaxSize) (host : n.hostHdrLen ≤ n.guestHdrLen)
    (long : n.guestHdrLen ≤ iovSize elem.outSg) :
    (∃ packet, txPacket n elem = .ok packet ∧
      piecesBytes mem packet = (iovBytes mem elem.outSg).take n.hostHdrLen ++
        (iovBytes mem elem.outSg).drop n.guestHdrLen ∧
      netQueueAppendIov mem packet = piecesBytes mem packet) ↔
      n.hostHdrLen = n.guestHdrLen ∨ FitsArray n elem := by
  rw [txPacket, if_neg (Nat.not_lt.mpr host)]
  by_cases same : n.hostHdrLen = n.guestHdrLen
  · rw [if_pos same, same, List.take_append_drop]
    exact iff_of_true ⟨_, rfl, rfl, netQueueAppendIov_eq _ _⟩ (.inl rfl)
  rw [or_iff_right same, if_neg same, iovCopy_eq, if_neg (by omega)]
  have room : (pieces elem.outSg 0 n.hostHdrLen).length ≤ virtqueueMaxSize :=
    (Iov.length_pieces_le _ _ _).trans ((List.length_map _).trans_le few)
  -- the bytes behind the header, in all pieces
  have behind : piecesBytes mem (pieces elem.outSg n.guestHdrLen (2 ^ 64 - 1)) =
      (iovBytes mem elem.outSg).drop n.guestHdrLen := by
    rw [piecesBytes_pieces]
    refine List.take_of_length_le ?_
    rw [List.length_drop, length_iovBytes]
    have := iovSize_lt few
    omega
  rw [List.take_of_length_le room]
  dsimp only
  rw [iovCopy_eq]
  by_cases full : virtqueueMaxSize ≤ (pieces elem.outSg 0 n.hostHdrLen).length
  · rw [if_pos (by omega)]
    refine iff_of_false ?_ fun fits => absurd fits.1 (Nat.not_lt.mpr full)
    rintro ⟨_, ⟨⟩, -⟩
  rw [if_neg (by omega)]
  constructor
  · rintro ⟨_, ⟨⟩, bytes, -⟩
    rw [piecesBytes_append, piecesBytes_pieces, List.drop_zero, ← behind] at bytes
    have all := length_le_of_bytes (List.append_cancel_left bytes)
    exact ⟨Nat.lt_of_not_le full, by omega⟩
  · rintro ⟨space, together⟩
    refine ⟨_, rfl, ?_, netQueueAppendIov_eq _ _⟩
    rw [List.take_of_length_le (by omega), piecesBytes_append, piecesBytes_pieces, List.drop_zero,
      behind]

def shortNet : VirtIONet := { plainStart with hostHdrLen := 10, guestHdrLen := 12 }

/-- The header of the guest ends in the second of three buffers. -/
theorem txPacket_bytes_short :
    let elem : VirtQueueElement := ⟨0, [⟨0, 0x5000, 4⟩, ⟨0, 0x6000, 10⟩, ⟨0, 0x7000, 3⟩], []⟩
    let mem : UInt64 → UInt8 := fun addr => addr.toUInt8 + (addr / 0x1000).toUInt8
    ∃ packet, txPacket shortNet elem = .ok packet ∧
      piecesBytes mem packet = [5, 6, 7, 8, 6, 7, 8, 9, 10, 11, 14, 15, 7, 8, 9] ∧
      netQueueAppendIov mem packet = piecesBytes mem packet := by
  intro elem mem
  obtain ⟨packet, sent, bytes, queued⟩ :=
    (txPacket_bytes_iff shortNet elem mem (by decide) (by decide) (by decide)).mpr
      (.inr (by decide))
  exact ⟨packet, sent, bytes.trans (by decide), queued⟩

/-- A chain of the largest size whose first buffer holds the end of the header: the array is full
before the last buffer. -/
theorem txPacket_drops_last :
    let elem : VirtQueueElement := ⟨0, List.replicate virtqueueMaxSize ⟨0, 0x5000, 16⟩, []⟩
    elem.outSg.length = virtqueueMaxSize ∧ iovSize elem.outSg = 16384 ∧
      (txPacket shortNet elem).toOption.map (fun packet => (packet.map (·.2)).sum) =
        some (10 + (16384 - 12) - 16) := by
  decide +kernel

/-! ### Assertions -/

/-- A device with receive buffers of 128 bytes, and transmit buffers of four that wait for the
bottom half. -/
def postedNet : NetState :=
  { idleNet with
    rx := fun i => (offer fun _ => ⟨0x4000, 128, 2, 0⟩).apply (idleNet.rx i)
    tx := fun _ => { idleTx with
      scheduled := true
      run := (offer fun _ => ⟨0x5000, 4, 0, 0⟩).apply idleTx.run } }

def failsAssertion {α : Type} : Except NetExit α → Bool
  | .error .assertion => true
  | _ => false

end VhostUser.Qemu.Virtio
