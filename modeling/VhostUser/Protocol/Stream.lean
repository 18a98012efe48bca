import VhostUser.Qemu.Backend
import VhostUser.Server.Handlers

/-!
Contract: the requests QEMU sends against the messages the server dispatches.

Every request is one `sendmsg` of `VHOST_USER_HDR_SIZE + size` bytes on a stream
socket, and QEMU does not wait for an answer. The server makes one `recvmsg` of
`sizeof(VHostUserMsg)` bytes per readable event and dispatches the buffer, so
what it dispatches depends on where the stream is cut.

A descriptor is named by the number it has at the sender; the receiver gets its
own number for the same open file.
-/

namespace VhostUser.Protocol

open VhostUser.Lib VhostUser.Wire VhostUser.Qemu VhostUser.Server
open VhostUser.Lib.ByteImage (overlay slice)

/-- A frame of `vhost_user_call` or `vhost_user_echo`. -/
def IsRequest (frame : Frame) : Prop :=
  (∃ control blocks stale call, vhostUserCall control blocks stale call = .sent frame) ∨
    ∃ control stale, vhostUserEcho control stale = .sent frame

/-- The messages `receive_sock_server` passes on, one for each `recvmsg`. Its buffer holds `stale
n` before the `n`-th one. -/
def dispatched (stale : Nat → VHostUserLocalMsg) (chunks : List Frame) : List VHostUserLocalMsg :=
  chunks.zipIdx.map fun (chunk, turn) =>
    vhostUserReceive (.data chunk.data chunk.rights) (stale turn)

/-- A dispatched message as a request: the header, the announced payload and the descriptors. -/
def requestOf (msg : VHostUserLocalMsg) : Frame where
  data := slice msg.request 0 (hdrSize + size.get msg.request)
  rights := ((List.finRange memoryMaxNregions).take msg.fdNum).map msg.fds

/-- The server dispatches exactly the requests, whatever its buffer held. -/
def DispatchesSent (sent chunks : List Frame) : Prop :=
  ∀ stale, (dispatched stale chunks).map requestOf = sent

/-! ### Whole frames -/

variable {frame : Frame}

theorem isRequest_frame (isRequest : IsRequest frame) :
    ∃ request payload stale, payload.WellFormed ∧ frame = frameOf request payload stale := by
  rcases isRequest with ⟨control, blocks, stale, call, sent⟩ | ⟨control, stale, sent⟩
  · obtain ⟨payload, wellFormed, rfl⟩ := vhostUserCall_sent sent
    exact ⟨_, payload, stale, wellFormed, rfl⟩
  unfold vhostUserEcho at sent
  split at sent
  · simp at sent
  · cases sent
    exact ⟨_, _, stale, empty_wellFormed, rfl⟩

theorem isRequest_length_le (isRequest : IsRequest frame) : frame.data.length ≤ msgSize := by
  obtain ⟨request, payload, stale, wellFormed, rfl⟩ := isRequest_frame isRequest
  have := wellFormed.size_le
  rw [frameOf_length]
  unfold hdrSize msgSize
  omega

theorem isRequest_rights_le (isRequest : IsRequest frame) :
    frame.rights.length ≤ memoryMaxNregions := by
  obtain ⟨request, payload, stale, wellFormed, rfl⟩ := isRequest_frame isRequest
  exact wellFormed.fds_le

theorem rights_received {fds : List Int} (small : fds.length ≤ memoryMaxNregions)
    (data : List UInt8) (stale : VHostUserLocalMsg) :
    (requestOf (vhostUserReceive (.data data fds) stale)).rights = fds := by
  apply List.ext_getElem
  · simpa [requestOf, vhostUserReceive] using small
  · intro index leftBelow rightBelow
    simp [requestOf, vhostUserReceive, rightBelow]

/-- A frame that is read in one piece is dispatched as it was sent. -/
theorem requestOf_received (isRequest : IsRequest frame) (stale : VHostUserLocalMsg) :
    requestOf (vhostUserReceive (.data frame.data frame.rights) stale) = frame := by
  have rights := rights_received (isRequest_rights_le isRequest) frame.data stale
  obtain ⟨request, payload, sendBuffer, wellFormed, rfl⟩ := isRequest_frame isRequest
  have announced : size.get (overlay (frameOf request payload sendBuffer).data stale.request) =
      payload.size := by
    refine frameOf_header wellFormed.apart (by simp) ?_ (by decide)
    have := wellFormed.size_le
    simp only [size]
    omega
  have data : (requestOf (vhostUserReceive
      (.data (frameOf request payload sendBuffer).data payload.fds) stale)).data =
      (frameOf request payload sendBuffer).data := by
    simp only [requestOf, vhostUserReceive, announced]
    rw [← frameOf_length]
    exact ByteImage.slice_overlay _ _
  exact congrArg₂ Transfer.mk data rights

/-! ### Short reads -/

/-- A read that ends inside a frame is dispatched with whatever byte the buffer
held there. -/
theorem length_le_of_dispatched {chunk : Frame}
    (dispatches : ∀ stale, requestOf (vhostUserReceive (.data chunk.data chunk.rights) stale) =
      frame) : frame.data.length ≤ chunk.data.length := by
  by_contra short
  have below : chunk.data.length < frame.data.length := by omega
  set other := frame.data[chunk.data.length] + 1 with otherDef
  have data := congrArg Transfer.data (dispatches ⟨fun _ => other, 0, fun _ => 0⟩)
  have byte := congrArg (fun bytes => bytes[chunk.data.length]?) data
  simp only [requestOf, vhostUserReceive, List.getElem?_eq_getElem below] at byte
  obtain ⟨inside, read⟩ := List.getElem?_eq_some_iff.mp byte
  rw [ByteImage.slice_getElem, Nat.zero_add, ByteImage.overlay_above _ le_rfl] at read
  exact absurd read (by rw [otherDef]; simp)

theorem dispatched_getElem {chunks : List Frame} (stale : Nat → VHostUserLocalMsg) {turn : Nat}
    (below : turn < chunks.length) :
    (dispatched stale chunks)[turn]? =
      some (vhostUserReceive (.data chunks[turn].data chunks[turn].rights) (stale turn)) := by
  simp [dispatched, below]

/-- The server dispatches the requests exactly when every read returns one whole send. -/
theorem dispatchesSent_iff {sent chunks : List Frame} (requests : ∀ frame ∈ sent, IsRequest frame)
    (segmented : Segmentation msgSize (sent.map Transfer.pending) chunks) :
    DispatchesSent sent chunks ↔ chunks = sent := by
  constructor
  · intro dispatches
    have lengths : chunks.length = sent.length := by
      simpa [dispatched] using congrArg List.length (dispatches fun _ => .zero)
    have single : ∀ turn (inChunks : turn < chunks.length) (inSent : turn < sent.length) stale,
        requestOf (vhostUserReceive (.data chunks[turn].data chunks[turn].rights) stale) =
          sent[turn] := by
      intro turn inChunks inSent stale
      have here := congrArg (fun frames => frames[turn]?) (dispatches fun _ => stale)
      simpa [dispatched_getElem _ inChunks, inSent] using here
    have shorter : List.Forall₂ (fun piece other => piece.length ≤ other.length)
        (sent.map Transfer.data) (chunks.map Transfer.data) := by
      rw [List.forall₂_iff_get]
      refine ⟨by simp [lengths], fun turn inSent inChunks => ?_⟩
      simp only [List.length_map] at inSent inChunks
      simpa using length_le_of_dispatched (single turn inChunks inSent)
    have stream : (sent.map Transfer.data).flatten = (chunks.map Transfer.data).flatten := by
      rw [segmented.data_eq, List.map_map]
      rfl
    have sameData := eq_of_flatten_eq shorter stream
    have rightsLe : ∀ chunk ∈ chunks, chunk.rights.length ≤ memoryMaxNregions := by
      refine segmented.rights_le ?_
      rw [List.forall_mem_map]
      exact fun frame member => isRequest_rights_le (requests frame member)
    apply List.ext_getElem lengths
    intro turn inChunks inSent
    have data : chunks[turn].data = sent[turn].data := by
      have here := congrArg (fun pieces => pieces[turn]?) sameData
      simpa [inChunks, inSent, eq_comm] using here
    have rights : chunks[turn].rights = sent[turn].rights := by
      rw [← single turn inChunks inSent .zero]
      exact (rights_received (rightsLe _ (List.getElem_mem inChunks)) _ _).symm
    exact congrArg₂ Transfer.mk data rights
  · rintro rfl stale
    apply List.ext_getElem
    · simp [dispatched]
    · intro turn leftBelow rightBelow
      simp only [dispatched, List.getElem_map, List.getElem_zipIdx]
      exact requestOf_received (requests _ (List.getElem_mem rightBelow)) _

/-! ### The start of a connection -/

/-- `vhost_user_init` ends with an echo and `vhost_dev_init` goes on with
`VHOST_SET_OWNER`. -/
def openingFrames : List Frame :=
  [frameOf .echo ⟨[], 0, []⟩ fun _ => 0, frameOf .setOwner ⟨[], 0, []⟩ fun _ => 0]

theorem openingFrames_isRequest : ∀ frame ∈ openingFrames, IsRequest frame := by
  simp only [openingFrames, List.forall_mem_cons]
  exact ⟨.inr ⟨3, _, rfl⟩, .inl ⟨3, [], _, .setOwner, rfl⟩, by simp⟩

/-- A server that reads after each of the two sends dispatches both. -/
theorem dispatchesSent_opening : DispatchesSent openingFrames openingFrames :=
  (dispatchesSent_iff openingFrames_isRequest (segmentation_self fun frame member =>
    isRequest_length_le (openingFrames_isRequest frame member))).mpr rfl

/-- A server that reads after both sends dispatches the echo only. -/
theorem dispatchesSent_fails_on_joined_opening :
    let joined := openingFrames.flatMap Transfer.data
    Segmentation msgSize (openingFrames.map Transfer.pending) [⟨joined, []⟩] ∧
      ¬ DispatchesSent openingFrames [⟨joined, []⟩] := by
  refine ⟨?_, fun dispatches => ?_⟩
  · exact .recv (.join rfl rfl (.whole (by decide)) (by decide)) .done
  · have lengths := congrArg List.length (dispatches fun _ => .zero)
    exact absurd lengths (by decide)

end VhostUser.Protocol
