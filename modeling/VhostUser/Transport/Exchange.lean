import VhostUser.Lib.HexText

/-!
Contract: how the two ends of the RDMA transport tell each other where they are
(`set_local_ib_connection` and `tcp_exch_ib_connection_info` in `vhost_user_transport.c`), and what
`qp_change_state_rtr` then uses.

Each end writes its record as text into a buffer of 45 bytes and parses the 45 bytes it reads with
`sscanf`. The results of `write`, `read` and `malloc` are parameters, and so are the bytes that
stand behind the buffer: `sscanf` reads on until it finds a terminator. An `int` of the record is
held as its bit pattern, which is what `%x` prints and reads.

Owns: that the text of a record fits the buffer and is read back; for which answers a returned
record can be used.
-/

namespace VhostUser.Transport

open VhostUser.Lib.HexText

structure IbConnection where
  lid : UInt32
  qpn : UInt32
  psn : UInt32
  rkey : UInt32
  vaddr : UInt64
deriving DecidableEq, Repr

/-- A record with the widths that libibverbs gives its fields. -/
structure LocalConnection extends IbConnection where
  lid_lt : lid.toNat < 2 ^ 16
  qpn_lt : qpn.toNat < 2 ^ 24
  psn_lt : psn.toNat < 2 ^ 24

/-- `set_local_ib_connection`, from the port's identifier, the number of the queue pair, `lrand48`,
the key of the memory region and the buffer. -/
def setLocalIbConnection (lid : UInt16) (qpNum : UInt32) (random : UInt32) (rkey : UInt32)
    (buf : UInt64) (size : UInt32) (qpNum_lt : qpNum.toNat < 2 ^ 24) : LocalConnection where
  lid := lid.toUInt32
  qpn := qpNum
  psn := random &&& 0xffffff
  rkey := rkey
  vaddr := buf + size.toUInt64
  lid_lt := by
    rw [UInt16.toNat_toUInt32]
    exact lid.toNat_lt
  qpn_lt := qpNum_lt
  psn_lt := by
    rw [UInt32.toNat_and]
    exact Nat.lt_succ_of_le Nat.and_le_right

/-- `sizeof("0000:000000:000000:00000000:0000000000000000")`. -/
def msgSize : Nat := 45

/-- The text that `sprintf` writes with `"%04x:%06x:%06x:%08x:%016Lx"`; 58 is the colon. -/
def connectionText (conn : IbConnection) : List UInt8 :=
  printHex 4 conn.lid.toNat ++ 58 :: (printHex 6 conn.qpn.toNat ++ 58 ::
    (printHex 6 conn.psn.toNat ++ 58 :: (printHex 8 conn.rkey.toNat ++ 58 ::
      printHex 16 conn.vaddr.toNat)))

/-- The characters of a string, up to its terminator. -/
def cString (bytes : List UInt8) : List UInt8 := bytes.takeWhile fun byte => byte ≠ 0

/-- The numbers that `sscanf` converts with a format of `count` fields `%x` between colons. -/
def scanFields : Nat → List UInt8 → List Scanned
  | 0, _ => []
  | count + 1, text =>
    match scanHex text with
    | some (item, 58 :: rest) => item :: scanFields count rest
    | some (item, _) => [item]
    | none => []

def connectionOf (lid qpn psn rkey vaddr : Scanned) : IbConnection where
  lid := .ofNat (lid.word 32)
  qpn := .ofNat (qpn.word 32)
  psn := .ofNat (psn.word 32)
  rkey := .ofNat (rkey.word 32)
  vaddr := .ofNat (vaddr.word 64)

/-- The record that `sscanf` fills with `"%x:%x:%x:%x:%Lx"`, if it converts all five fields. -/
def connectionFields (text : List UInt8) : Option IbConnection :=
  match scanFields 5 text with
  | [lid, qpn, psn, rkey, vaddr] => some (connectionOf lid qpn psn rkey vaddr)
  | _ => none

/-! ### The text of a record -/

theorem endsNumber_colon (rest : List UInt8) : EndsNumber (58 :: rest) := by
  intro byte tail same
  rw [← (List.cons.inj same).1]
  decide

theorem endsNumber_nil : EndsNumber [] := by
  intro byte tail same
  cases same

variable {width : Nat}

theorem scanFields_colon {count : Nat} (positive : 0 < width) (value : Nat) (rest : List UInt8) :
    scanFields (count + 1) (printHex width value ++ 58 :: rest) =
      ⟨false, paddedDigits width value⟩ :: scanFields count rest := by
  rw [scanFields, scanHex_printHex positive value (endsNumber_colon rest)]
  rfl

theorem scanFields_last (positive : 0 < width) (value : Nat) :
    scanFields 1 (printHex width value) = [⟨false, paddedDigits width value⟩] := by
  have scanned := scanHex_printHex positive value endsNumber_nil
  rw [List.append_nil] at scanned
  rw [scanFields, scanned]

theorem printHex_ne_zero {value : Nat} {byte : UInt8} (member : byte ∈ printHex width value) :
    byte ≠ 0 := by
  obtain ⟨digit, listed, rfl⟩ := List.mem_map.mp member
  have all : ∀ digit < 16, digitByte digit ≠ 0 := by decide
  exact all digit (paddedDigits_lt listed)

variable {conn : IbConnection}

theorem connectionText_ne_zero {byte : UInt8} (member : byte ∈ connectionText conn) : byte ≠ 0 := by
  have colon : (58 : UInt8) ≠ 0 := by decide
  simp only [connectionText, List.mem_append, List.mem_cons] at member
  rcases member with lid | rfl | qpn | rfl | psn | rfl | rkey | rfl | vaddr
  · exact printHex_ne_zero lid
  · exact colon
  · exact printHex_ne_zero qpn
  · exact colon
  · exact printHex_ne_zero psn
  · exact colon
  · exact printHex_ne_zero rkey
  · exact colon
  · exact printHex_ne_zero vaddr

variable {text : List UInt8}

theorem cString_terminated (nonzero : ∀ byte ∈ text, byte ≠ 0) (rest : List UInt8) :
    cString (text ++ 0 :: rest) = text := by
  unfold cString
  rw [List.takeWhile_append_of_pos (by simpa using nonzero)]
  simp

theorem connectionText_length (conn : LocalConnection) :
    (connectionText conn.toIbConnection).length = 44 := by
  have lid := length_printHex (show conn.lid.toNat < 16 ^ 4 from conn.lid_lt)
  have qpn := length_printHex (show conn.qpn.toNat < 16 ^ 6 from conn.qpn_lt)
  have psn := length_printHex (show conn.psn.toNat < 16 ^ 6 from conn.psn_lt)
  have rkey := length_printHex (show conn.rkey.toNat < 16 ^ 8 from conn.rkey.toNat_lt)
  have vaddr := length_printHex (show conn.vaddr.toNat < 16 ^ 16 from conn.vaddr.toNat_lt)
  simp only [connectionText, List.length_append, List.length_cons, lid, qpn, psn, rkey, vaddr]

theorem connectionFields_text (conn : IbConnection) :
    connectionFields (connectionText conn) = some conn := by
  have items : scanFields 5 (connectionText conn) =
      [⟨false, paddedDigits 4 conn.lid.toNat⟩, ⟨false, paddedDigits 6 conn.qpn.toNat⟩,
        ⟨false, paddedDigits 6 conn.psn.toNat⟩, ⟨false, paddedDigits 8 conn.rkey.toNat⟩,
        ⟨false, paddedDigits 16 conn.vaddr.toNat⟩] := by
    rw [connectionText, scanFields_colon (by decide), scanFields_colon (by decide),
      scanFields_colon (by decide), scanFields_colon (by decide), scanFields_last (by decide)]
  rw [connectionFields, items]
  simp only [connectionOf, word_paddedDigits (show 32 ≤ 64 by decide) conn.lid.toNat_lt,
    word_paddedDigits (show 32 ≤ 64 by decide) conn.qpn.toNat_lt,
    word_paddedDigits (show 32 ≤ 64 by decide) conn.psn.toNat_lt,
    word_paddedDigits (show 32 ≤ 64 by decide) conn.rkey.toNat_lt,
    word_paddedDigits (le_refl 64) conn.vaddr.toNat_lt, UInt32.ofNat_toNat, UInt64.ofNat_toNat]

/-- The text of a record with the widths of libibverbs fills the buffer with its terminator, and
the peer's `sscanf` recovers the record. -/
theorem connectionText_roundTrip (conn : LocalConnection) :
    (connectionText conn.toIbConnection ++ [0]).length = msgSize ∧
      connectionFields (cString (connectionText conn.toIbConnection ++ [0])) =
        some conn.toIbConnection := by
  constructor
  · rw [List.length_append, connectionText_length]
    rfl
  · rw [cString_terminated (fun byte member => connectionText_ne_zero member)]
    exact connectionFields_text conn.toIbConnection

/-! ### The exchange -/

/-- A record in memory from `malloc`; `none` is what nothing was stored into. -/
structure RemoteRecord where
  lid : Option UInt32
  qpn : Option UInt32
  psn : Option UInt32
  rkey : Option UInt32
  vaddr : Option UInt64
deriving DecidableEq, Repr

def IbConnection.stored (conn : IbConnection) : RemoteRecord :=
  ⟨some conn.lid, some conn.qpn, some conn.psn, some conn.rkey, some conn.vaddr⟩

/-- What `sscanf` stores for the numbers it converted. -/
def storeFields (items : List Scanned) : RemoteRecord where
  lid := items[0]?.map fun item => .ofNat (item.word 32)
  qpn := items[1]?.map fun item => .ofNat (item.word 32)
  psn := items[2]?.map fun item => .ofNat (item.word 32)
  rkey := items[3]?.map fun item => .ofNat (item.word 32)
  vaddr := items[4]?.map fun item => .ofNat (item.word 64)

/-- What `data->remote_connection` points to. -/
inductive RemoteConnection where
  | null
  | live (record : RemoteRecord)
  | freed
deriving DecidableEq, Repr

/-- What the kernel, the peer and the allocator do. `answer` is the buffer after a read of its
whole size, `behind` the memory behind it. -/
structure ExchangeInput where
  written : Int
  readCount : Int
  answer : Fin msgSize → UInt8
  behind : List UInt8
  allocated : Bool

def ExchangeInput.bytes (input : ExchangeInput) : List UInt8 := List.ofFn input.answer

inductive ExchangeResult where
  /-- `TEST_Z` ends the process. -/
  | exited
  | returned (code : Int) (remote : RemoteConnection)
deriving DecidableEq, Repr

/-- `tcp_exch_ib_connection_info`, once the local text is in the buffer. The old record is only
freed if its pointer is null. -/
def tcpExchIbConnectionInfo (input : ExchangeInput) (remote : RemoteConnection) : ExchangeResult :=
  if input.written ≠ msgSize then .returned (-1) remote
  else if input.readCount ≠ msgSize then .returned (-1) remote
  else if input.allocated = false then .exited
  else
    let items := scanFields 5 (cString (input.bytes ++ input.behind))
    -- the failed parse is reported on the console only
    if items.length ≠ 5 then .returned 0 .freed
    else .returned 0 (.live (storeFields items))

inductive RtrFault where
  | nullPointer
  | useAfterFree
  | uninitialised
deriving DecidableEq, Repr

/-- `dest_qp_num`, `rq_psn` and `dlid` of the attributes. -/
structure RtrAttr where
  destQpNum : UInt32
  rqPsn : UInt32
  dlid : UInt16
deriving DecidableEq, Repr

/-- What `qp_change_state_rtr` takes from the remote record. -/
def qpChangeStateRtr : RemoteConnection → Except RtrFault RtrAttr
  | .null => .error .nullPointer
  | .freed => .error .useAfterFree
  | .live record =>
    match record.qpn, record.psn, record.lid with
    | some qpn, some psn, some lid => .ok ⟨qpn, psn, lid.toUInt16⟩
    | _, _, _ => .error .uninitialised

/-- `handle_rdma_transport_receive` goes on only after a result of zero (`TEST_NZ`). -/
def afterExchange : ExchangeResult → Option (Except RtrFault RtrAttr)
  | .returned 0 remote => some (qpChangeStateRtr remote)
  | _ => none

structure ExchangeSound (input : ExchangeInput) (remote : RemoteConnection) : Prop where
  complete : ∀ after, tcpExchIbConnectionInfo input remote = .returned 0 after →
    ∃ conn, connectionFields (cString input.bytes) = some conn ∧ after = .live conn.stored
  refuses : input.written ≠ msgSize ∨ input.readCount ≠ msgSize ∨
      connectionFields (cString input.bytes) = none →
    ∀ code after, tcpExchIbConnectionInfo input remote = .returned code after → code ≠ 0
  usable : ∀ outcome, afterExchange (tcpExchIbConnectionInfo input remote) = some outcome →
    ∃ attr, outcome = .ok attr

/-- The answer holds five fields, and what stands behind the buffer does not change them. -/
def AnswerParses (input : ExchangeInput) : Prop :=
  ∃ conn, connectionFields (cString input.bytes) = some conn ∧
    connectionFields (cString (input.bytes ++ input.behind)) = some conn

section Exchange

variable {input : ExchangeInput} {remote : RemoteConnection}

theorem connectionFields_eq_some_iff :
    connectionFields text = some conn ↔
      (scanFields 5 text).length = 5 ∧ storeFields (scanFields 5 text) = conn.stored := by
  unfold connectionFields
  rcases scanFields 5 text with
    _ | ⟨lid, _ | ⟨qpn, _ | ⟨psn, _ | ⟨rkey, _ | ⟨vaddr, _ | ⟨more, rest⟩⟩⟩⟩⟩⟩
  case cons.cons.cons.cons.cons.nil =>
    cases conn
    simp [storeFields, connectionOf, IbConnection.stored]
  all_goals simp

theorem connectionFields_eq_none_iff :
    connectionFields text = none ↔ (scanFields 5 text).length ≠ 5 := by
  unfold connectionFields
  rcases scanFields 5 text with
    _ | ⟨lid, _ | ⟨qpn, _ | ⟨psn, _ | ⟨rkey, _ | ⟨vaddr, _ | ⟨more, rest⟩⟩⟩⟩⟩⟩
  all_goals simp

theorem IbConnection.stored_injective : Function.Injective IbConnection.stored := by
  intro first second same
  cases first
  cases second
  simpa [IbConnection.stored] using same

theorem tcpExch_refused (short : input.written ≠ msgSize ∨ input.readCount ≠ msgSize) :
    tcpExchIbConnectionInfo input remote = .returned (-1) remote := by
  unfold tcpExchIbConnectionInfo
  by_cases written : input.written ≠ msgSize
  · rw [if_pos written]
  · rw [if_neg written, if_pos (short.resolve_left written)]

section Answered

variable (written : input.written = msgSize) (readCount : input.readCount = msgSize)

include written readCount

theorem tcpExch_exited (allocated : input.allocated = false) :
    tcpExchIbConnectionInfo input remote = .exited := by
  unfold tcpExchIbConnectionInfo
  rw [if_neg (not_not.mpr written), if_neg (not_not.mpr readCount), if_pos allocated]

theorem tcpExch_parsed (allocated : input.allocated = true)
    (parsed : connectionFields (cString (input.bytes ++ input.behind)) = some conn) :
    tcpExchIbConnectionInfo input remote = .returned 0 (.live conn.stored) := by
  obtain ⟨five, stored⟩ := connectionFields_eq_some_iff.mp parsed
  unfold tcpExchIbConnectionInfo
  rw [if_neg (not_not.mpr written), if_neg (not_not.mpr readCount), if_neg (by simp [allocated])]
  rw [if_neg (not_not.mpr five), stored]

theorem tcpExch_unparsed (allocated : input.allocated = true)
    (unparsed : connectionFields (cString (input.bytes ++ input.behind)) = none) :
    tcpExchIbConnectionInfo input remote = .returned 0 .freed := by
  unfold tcpExchIbConnectionInfo
  rw [if_neg (not_not.mpr written), if_neg (not_not.mpr readCount), if_neg (by simp [allocated])]
  rw [if_pos (connectionFields_eq_none_iff.mp unparsed)]

end Answered

theorem qpChangeStateRtr_stored (conn : IbConnection) :
    qpChangeStateRtr (.live conn.stored) = .ok ⟨conn.qpn, conn.psn, conn.lid.toUInt16⟩ := rfl

/-- A sound exchange of whole messages has parsed the answer, and nothing but the answer. -/
theorem ExchangeSound.answerParses (sound : ExchangeSound input remote)
    (written : input.written = msgSize) (readCount : input.readCount = msgSize)
    (allocated : input.allocated = true) : AnswerParses input := by
  rcases found : connectionFields (cString (input.bytes ++ input.behind)) with _ | conn
  · -- the record is freed, and the result is zero all the same
    have result : tcpExchIbConnectionInfo input remote = .returned 0 .freed :=
      tcpExch_unparsed written readCount allocated found
    obtain ⟨conn, _, live⟩ := sound.complete _ result
    cases live
  · have result : tcpExchIbConnectionInfo input remote = .returned 0 (.live conn.stored) :=
      tcpExch_parsed written readCount allocated found
    obtain ⟨answered, parsed, live⟩ := sound.complete _ result
    have same : conn = answered := IbConnection.stored_injective (RemoteConnection.live.inj live)
    exact ⟨conn, same ▸ parsed, found⟩

theorem exchangeSound_of_refused
    (short : input.written ≠ msgSize ∨ input.readCount ≠ msgSize) :
    ExchangeSound input remote := by
  have result : tcpExchIbConnectionInfo input remote = .returned (-1) remote :=
    tcpExch_refused short
  constructor
  · intro after returned
    rw [result] at returned
    cases returned
  · intro _ code after returned
    rw [result] at returned
    cases returned
    decide
  · intro outcome ran
    rw [result] at ran
    cases ran

theorem exchangeSound_of_exited (exited : tcpExchIbConnectionInfo input remote = .exited) :
    ExchangeSound input remote := by
  constructor
  · intro after returned
    rw [exited] at returned
    cases returned
  · intro _ code after returned
    rw [exited] at returned
    cases returned
  · intro outcome ran
    rw [exited] at ran
    cases ran

theorem AnswerParses.exchangeSound (parses : AnswerParses input)
    (written : input.written = msgSize) (readCount : input.readCount = msgSize)
    (allocated : input.allocated = true) : ExchangeSound input remote := by
  obtain ⟨conn, parsed, whole⟩ := parses
  have result : tcpExchIbConnectionInfo input remote = .returned 0 (.live conn.stored) :=
    tcpExch_parsed written readCount allocated whole
  constructor
  · intro after returned
    rw [result] at returned
    cases returned
    exact ⟨conn, parsed, rfl⟩
  · intro failed
    rcases failed with short | short | unparsed
    · exact absurd written short
    · exact absurd readCount short
    · rw [parsed] at unparsed
      cases unparsed
  · intro outcome ran
    rw [result] at ran
    cases ran
    exact ⟨_, qpChangeStateRtr_stored conn⟩

/-- A result of zero means a live and complete record exactly when no whole message was exchanged,
no memory was left, or the answer holds the five fields within its 45 bytes. -/
theorem tcpExchIbConnectionInfo_sound_iff (input : ExchangeInput) (remote : RemoteConnection) :
    ExchangeSound input remote ↔
      input.written ≠ msgSize ∨ input.readCount ≠ msgSize ∨ input.allocated = false ∨
        AnswerParses input := by
  by_cases written : input.written = msgSize
  · by_cases readCount : input.readCount = msgSize
    · rcases allocated : input.allocated with _ | _
      · simp [exchangeSound_of_exited (tcpExch_exited written readCount allocated)]
      constructor
      · intro sound
        exact .inr (.inr (.inr (sound.answerParses written readCount allocated)))
      · intro condition
        have parses : AnswerParses input := by
          rcases condition with short | short | missing | parses
          · exact absurd written short
          · exact absurd readCount short
          · cases missing
          · exact parses
        exact parses.exchangeSound written readCount allocated
    · simp [readCount, exchangeSound_of_refused (.inr readCount)]
  · simp [written, exchangeSound_of_refused (.inl written)]

end Exchange

def repeatedAnswer (byte : UInt8) : ExchangeInput where
  written := 45
  readCount := 45
  answer := fun _ => byte
  behind := []
  allocated := true

/-- A peer that answers with zero bytes: the result is zero, the record is freed, and
`qp_change_state_rtr` reads it. -/
theorem tcpExchIbConnectionInfo_freed :
    ¬ ExchangeSound (repeatedAnswer 0) .null ∧
      tcpExchIbConnectionInfo (repeatedAnswer 0) .null = .returned 0 .freed ∧
      afterExchange (tcpExchIbConnectionInfo (repeatedAnswer 0) .null) =
        some (.error .useAfterFree) := by
  have result : tcpExchIbConnectionInfo (repeatedAnswer 0) .null = .returned 0 .freed := by
    decide +kernel
  refine ⟨?_, result, ?_⟩
  · intro sound
    obtain ⟨conn, _, live⟩ := sound.complete _ result
    cases live
  · rw [result]
    rfl

end VhostUser.Transport
