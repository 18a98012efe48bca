import Mathlib.Data.List.Basic
import Mathlib.Logic.Function.Basic

/-!
Contract: the functions on scatter lists (`util/iov.c`), as operations on the string of bytes that
a list stands for.

A list is flattened to the addresses of its bytes, so that elements may be empty or overlap. No
counter of the loops exceeds a count that the function is given, so they do not wrap.

Owns: the slice of the flattened list that each function acts on, and when its assertion fails.
-/

namespace VhostUser.Qemu.Iov

/-- `iov_base` and `iov_len`. -/
abbrev Iovec := UInt64 × Nat

def span (base : UInt64) (len : Nat) : List UInt64 :=
  (List.range len).map fun k => base + UInt64.ofNat k

/-- The flattened list. -/
def cells (iov : List Iovec) : List UInt64 := iov.flatMap fun e => span e.1 e.2

/-! ### The functions -/

/-- The loop of `iov_from_buf`, `iov_to_buf` and `iov_memset`, whose action is `act`, `done` bytes
into the buffer. -/
def iovLoop {σ : Type} (act : Nat → List UInt64 → σ → σ) (bytes : Nat) :
    List Iovec → Nat → Nat → σ → Option (Nat × σ)
  | [], offset, done, state => if offset = 0 then some (done, state) else none
  | (base, iovLen) :: rest, offset, done, state =>
    if offset = 0 ∧ bytes ≤ done then some (done, state)
    else if offset < iovLen then
      let len := min (iovLen - offset) (bytes - done)
      iovLoop act bytes rest 0 (done + len)
        (act done (span (base + UInt64.ofNat offset) len) state)
    else iovLoop act bytes rest (offset - iovLen) done state

/-- Bytes stored to addresses, as far as there are both. -/
def writeCells : List UInt64 → List UInt8 → (UInt64 → UInt8) → UInt64 → UInt8
  | addr :: rest, byte :: data, mem => writeCells rest data (Function.update mem addr byte)
  | _, _, mem => mem

def fillCells (cells : List UInt64) (fillc : UInt8) (mem : UInt64 → UInt8) : UInt64 → UInt8 :=
  cells.foldl (fun mem addr => Function.update mem addr fillc) mem

def iovFromBuf (iov : List Iovec) (offset : Nat) (buf : List UInt8) (bytes : Nat) :
    (UInt64 → UInt8) → Option (Nat × (UInt64 → UInt8)) :=
  iovLoop (fun done cells mem => writeCells cells (buf.drop done) mem) bytes iov offset 0

/-- `iov_to_buf`, with what it leaves in an empty buffer. -/
def iovToBuf (iov : List Iovec) (offset bytes : Nat) (mem : UInt64 → UInt8) :
    Option (Nat × List UInt8) :=
  iovLoop (fun _ cells buf => buf ++ cells.map mem) bytes iov offset 0 []

def iovMemset (iov : List Iovec) (offset : Nat) (fillc : UInt8) (bytes : Nat) :
    (UInt64 → UInt8) → Option (Nat × (UInt64 → UInt8)) :=
  iovLoop (fun _ cells mem => fillCells cells fillc mem) bytes iov offset 0

/-- `iov_copy` into an array of `room` elements. -/
def iovCopy : Nat → List Iovec → Nat → Nat → Option (List Iovec)
  | _, [], offset, _ => if offset = 0 then some [] else none
  | room, (base, iovLen) :: rest, offset, bytes =>
    if room = 0 ∨ bytes = 0 then if offset = 0 then some [] else none
    else if iovLen ≤ offset then iovCopy room rest (offset - iovLen) bytes
    else
      let len := min bytes (iovLen - offset)
      (iovCopy (room - 1) rest 0 (bytes - len)).map ((base + UInt64.ofNat offset, len) :: ·)

/-- `iov_copy` into an array without end. -/
def pieces : List Iovec → Nat → Nat → List Iovec
  | [], _, _ => []
  | (base, iovLen) :: rest, offset, bytes =>
    if bytes = 0 then []
    else if iovLen ≤ offset then pieces rest (offset - iovLen) bytes
    else
      let len := min bytes (iovLen - offset)
      (base + UInt64.ofNat offset, len) :: pieces rest 0 (bytes - len)

/-- `iov_discard_front`: the elements that it passes, those from `*iov` on, and the return
value. -/
def iovDiscardFront : List Iovec → Nat → List Iovec × List Iovec × Nat
  | [], _ => ([], [], 0)
  | (base, iovLen) :: rest, bytes =>
    if bytes < iovLen then ([], (base + UInt64.ofNat bytes, iovLen - bytes) :: rest, bytes)
    else
      let (passed, left, total) := iovDiscardFront rest (bytes - iovLen)
      ((base, iovLen) :: passed, left, iovLen + total)

/-- The loop of `iov_discard_back`, on the elements from the last one on. -/
def discardLast : List Iovec → Nat → List Iovec × Nat
  | [], _ => ([], 0)
  | (base, iovLen) :: rest, bytes =>
    if bytes < iovLen then ((base, iovLen - bytes) :: rest, bytes)
    else
      let (left, total) := discardLast rest (bytes - iovLen)
      (left, iovLen + total)

def iovDiscardBack (iov : List Iovec) (bytes : Nat) : List Iovec × Nat :=
  let (left, total) := discardLast iov.reverse bytes
  (left.reverse, total)

/-! ### Slices -/

@[simp]
theorem length_span (base : UInt64) (len : Nat) : (span base len).length = len := by
  simp [span]

theorem span_drop (base : UInt64) (len count : Nat) :
    (span base len).drop count = span (base + UInt64.ofNat count) (len - count) := by
  apply List.ext_getElem
  · simp
  · intro k _ _
    simp [span, UInt64.ofNat_add, UInt64.add_assoc]

theorem span_take (base : UInt64) (len count : Nat) :
    (span base len).take count = span base (min count len) := by
  simp [span, ← List.map_take, List.take_range]

theorem cells_cons (base : UInt64) (len : Nat) (rest : List Iovec) :
    cells ((base, len) :: rest) = span base len ++ cells rest := rfl

theorem cells_append (front back : List Iovec) :
    cells (front ++ back) = cells front ++ cells back := List.flatMap_append

theorem cells_concat (front : List Iovec) (base : UInt64) (len : Nat) :
    cells (front ++ [(base, len)]) = cells front ++ span base len := by
  rw [cells_append, cells_cons]
  exact congrArg _ (List.append_nil _)

theorem length_cells_cons (base : UInt64) (len : Nat) (rest : List Iovec) :
    (cells ((base, len) :: rest)).length = len + (cells rest).length := by
  rw [cells_cons, List.length_append, length_span]

variable {base : UInt64} {len offset : Nat}

theorem slice_inside (rest : List Iovec) (bytes : Nat) (inside : offset < len) :
    ((cells ((base, len) :: rest)).drop offset).take bytes =
      span (base + UInt64.ofNat offset) (min bytes (len - offset)) ++
        (cells rest).take (bytes - (len - offset)) := by
  rw [cells_cons, List.drop_append_of_le_length (by simp; omega), List.take_append, span_drop,
    span_take, length_span]

theorem drop_behind (rest : List Iovec) (behind : len ≤ offset) :
    (cells ((base, len) :: rest)).drop offset = (cells rest).drop (offset - len) := by
  rw [cells_cons, List.drop_append, List.drop_of_length_le (by simpa), List.nil_append, length_span]

theorem iovLoop_eq {σ : Type} {act : Nat → List UInt64 → σ → σ} {bytes : Nat}
    (idle : ∀ done state, act done [] state = state)
    (append : ∀ done front back state,
      act done (front ++ back) state = act (done + front.length) back (act done front state))
    (iov : List Iovec) (offset done : Nat) (state : σ) :
    iovLoop act bytes iov offset done state =
      if (cells iov).length < offset then none
      else some (done + (((cells iov).drop offset).take (bytes - done)).length,
        act done (((cells iov).drop offset).take (bytes - done)) state) := by
  induction iov generalizing offset done state with
  | nil =>
    rw [iovLoop]
    by_cases front : offset = 0
    · simp [cells, front, idle]
    · rw [if_neg front, if_pos (by simpa [cells] using Nat.pos_of_ne_zero front)]
  | cons e rest ih =>
    obtain ⟨base, len⟩ := e
    rw [iovLoop, length_cells_cons]
    split
    next finished =>
      obtain ⟨rfl, full⟩ := finished
      simp [Nat.sub_eq_zero_of_le full, idle]
    split
    next inside =>
      have left : bytes - (done + min (len - offset) (bytes - done)) =
          bytes - done - (len - offset) := by omega
      rw [ih, if_neg (Nat.not_lt_zero _), if_neg (by omega), slice_inside _ _ inside, append,
        left, List.length_append, length_span, List.drop_zero, Nat.add_assoc, Nat.min_comm]
    next behind =>
      rw [drop_behind _ (Nat.le_of_not_lt behind), ih]
      exact if_congr (by omega) rfl rfl

theorem writeCells_append (front back : List UInt64) (data : List UInt8) (mem : UInt64 → UInt8) :
    writeCells (front ++ back) data mem =
      writeCells back (data.drop front.length) (writeCells front data mem) := by
  induction front generalizing data mem with
  | nil => cases data <;> cases back <;> rfl
  | cons addr front ih =>
    cases data with
    | nil => cases back <;> rfl
    | cons byte data => exact ih data _

theorem cells_pieces (iov : List Iovec) (offset bytes : Nat) :
    cells (pieces iov offset bytes) = ((cells iov).drop offset).take bytes := by
  induction iov generalizing offset bytes with
  | nil => simp [pieces, cells]
  | cons e rest ih =>
    rw [pieces]
    split
    next none => simp [none, cells]
    split
    next behind => rw [ih, drop_behind _ behind]
    next inside =>
      rw [slice_inside _ _ (Nat.lt_of_not_le inside), cells_cons, ih, List.drop_zero]
      congr 2
      omega

theorem length_pieces_le (iov : List Iovec) (offset bytes : Nat) :
    (pieces iov offset bytes).length ≤ iov.length := by
  induction iov generalizing offset bytes with
  | nil => exact Nat.le_refl _
  | cons e rest ih =>
    rw [pieces]
    split
    · exact Nat.zero_le _
    split
    · exact Nat.le_succ_of_le (ih _ _)
    · exact Nat.succ_le_succ (ih _ _)

theorem pieces_pos (iov : List Iovec) (offset bytes : Nat) :
    ∀ piece ∈ pieces iov offset bytes, 0 < piece.2 := by
  induction iov generalizing offset bytes with
  | nil => exact List.forall_mem_nil _
  | cons e rest ih =>
    rw [pieces]
    split
    · exact List.forall_mem_nil _
    split
    · exact ih _ _
    · exact List.forall_mem_cons.mpr ⟨by dsimp only; omega, ih _ _⟩

theorem iovCopy_eq (room : Nat) (iov : List Iovec) (offset bytes : Nat) :
    iovCopy room iov offset bytes =
      if (cells iov).length < offset ∨ offset ≠ 0 ∧ (room = 0 ∨ bytes = 0) then none
      else some ((pieces iov offset bytes).take room) := by
  induction iov generalizing room offset bytes with
  | nil =>
    by_cases front : offset = 0
    · simp [iovCopy, pieces, cells, front]
    · rw [iovCopy, if_neg front, if_pos (.inl (Nat.pos_of_ne_zero front))]
  | cons e rest ih =>
    rw [iovCopy, pieces, length_cells_cons]
    by_cases stops : room = 0 ∨ bytes = 0
    · rw [if_pos stops]
      by_cases front : offset = 0
      · rw [if_pos front, if_neg (by omega)]
        rcases stops with full | done
        · rw [full, List.take_zero]
        · rw [if_pos done, List.take_nil]
      · rw [if_neg front, if_pos (.inr ⟨front, stops⟩)]
    · rw [if_neg stops, if_neg fun done => stops (.inr done)]
      split
      next behind =>
        rw [ih]
        exact if_congr (by omega) rfl rfl
      next inside =>
        dsimp only
        rw [ih, if_neg (by omega), if_neg (by omega), Option.map_some]
        obtain ⟨room, rfl⟩ := Nat.exists_eq_succ_of_ne_zero fun full => stops (.inl full)
        rfl

theorem iovDiscardFront_eq (iov : List Iovec) (bytes : Nat) :
    cells (iovDiscardFront iov bytes).2.1 = (cells iov).drop bytes ∧
      (iovDiscardFront iov bytes).2.2 = min bytes (cells iov).length := by
  induction iov generalizing bytes with
  | nil => simp [iovDiscardFront, cells]
  | cons e rest ih =>
    obtain ⟨base, len⟩ := e
    rw [iovDiscardFront, length_cells_cons]
    split
    next inside =>
      rw [cells_cons, cells_cons, List.drop_append_of_le_length (by simp; omega), span_drop]
      exact ⟨rfl, (Nat.min_eq_left (by omega : bytes ≤ _)).symm⟩
    next outside =>
      obtain ⟨left, total⟩ := ih (bytes - len)
      rw [drop_behind _ (Nat.le_of_not_lt outside)]
      refine ⟨left, ?_⟩
      dsimp only
      rw [total]
      omega

theorem discardLast_eq (last : List Iovec) (bytes : Nat) :
    cells (discardLast last bytes).1.reverse =
        (cells last.reverse).take ((cells last.reverse).length - bytes) ∧
      (discardLast last bytes).2 = min bytes (cells last.reverse).length := by
  induction last generalizing bytes with
  | nil => simp [discardLast, cells]
  | cons e rest ih =>
    obtain ⟨base, len⟩ := e
    rw [discardLast, List.reverse_cons, cells_concat, List.length_append, length_span]
    split
    next inside =>
      rw [List.reverse_cons, cells_concat, List.take_append, List.take_of_length_le (by omega),
        span_take]
      refine ⟨?_, (Nat.min_eq_left (by omega : bytes ≤ _)).symm⟩
      congr 2
      omega
    next outside =>
      obtain ⟨left, total⟩ := ih (bytes - len)
      dsimp only
      rw [total]
      refine ⟨?_, by omega⟩
      rw [List.take_append_of_le_length (by omega), left]
      congr 1
      omega

/-! ### What is written -/

section Memory

variable {iov : List Iovec} {bytes done : Nat} {mem after : UInt64 → UInt8}

theorem iovFromBuf_eq (iov : List Iovec) (offset : Nat) (buf : List UInt8) (bytes : Nat)
    (mem : UInt64 → UInt8) :
    iovFromBuf iov offset buf bytes mem = if (cells iov).length < offset then none
      else some ((((cells iov).drop offset).take bytes).length,
        writeCells (((cells iov).drop offset).take bytes) buf mem) := by
  refine (iovLoop_eq (fun _ _ => ?_) (fun done front back mem => ?_) iov offset 0 mem).trans ?_
  · simp [writeCells]
  · rw [writeCells_append, List.drop_drop]
  · simp

theorem iovToBuf_eq (iov : List Iovec) (offset bytes : Nat) (mem : UInt64 → UInt8) :
    iovToBuf iov offset bytes mem = if (cells iov).length < offset then none
      else some ((((cells iov).drop offset).take bytes).length,
        (((cells iov).drop offset).take bytes).map mem) := by
  refine (iovLoop_eq (fun _ _ => ?_) (fun done front back mem => ?_) iov offset 0 []).trans ?_
  · simp
  · simp
  · simp

theorem iovMemset_eq (iov : List Iovec) (offset : Nat) (fillc : UInt8) (bytes : Nat)
    (mem : UInt64 → UInt8) :
    iovMemset iov offset fillc bytes mem = if (cells iov).length < offset then none
      else some ((((cells iov).drop offset).take bytes).length,
        fillCells (((cells iov).drop offset).take bytes) fillc mem) := by
  refine (iovLoop_eq (fun _ _ => rfl) (fun done front back mem => ?_) iov offset 0 mem).trans ?_
  · exact List.foldl_append
  · simp

theorem writeCells_frame {cells : List UInt64} {addr : UInt64} (outside : addr ∉ cells)
    (data : List UInt8) (mem : UInt64 → UInt8) : writeCells cells data mem addr = mem addr := by
  induction cells generalizing data mem with
  | nil => cases data <;> rfl
  | cons first rest ih =>
    obtain ⟨other, outside⟩ := not_or.mp (mt List.mem_cons.mpr outside)
    cases data with
    | nil => rfl
    | cons byte data => rw [writeCells, ih outside, Function.update_of_ne other]

theorem map_writeCells {cells : List UInt64} (apart : cells.Nodup) (data : List UInt8)
    (mem : UInt64 → UInt8) (enough : cells.length ≤ data.length) :
    cells.map (writeCells cells data mem) = data.take cells.length := by
  induction cells generalizing data mem with
  | nil => rfl
  | cons first rest ih =>
    obtain ⟨outside, apart⟩ := List.nodup_cons.mp apart
    cases data with
    | nil => cases enough
    | cons byte data =>
      rw [List.map_cons, writeCells, writeCells_frame outside, Function.update_self,
        ih apart _ _ (Nat.le_of_succ_le_succ enough)]
      rfl

theorem fillCells_apply (cells : List UInt64) (fillc : UInt8) (mem : UInt64 → UInt8)
    (addr : UInt64) :
    fillCells cells fillc mem addr = if addr ∈ cells then fillc else mem addr := by
  induction cells generalizing mem with
  | nil => rfl
  | cons first rest ih =>
    rw [fillCells, List.foldl_cons, ← fillCells, ih]
    by_cases same : addr = first
    · simp [same]
    · simp [same]

/-- `iov_to_buf` finds what `iov_from_buf` stores, if no byte is listed twice, and nothing else is
written. -/
theorem iovFromBuf_readBack {buf : List UInt8} (apart : (cells iov).Nodup)
    (enough : bytes ≤ buf.length)
    (stored : iovFromBuf iov offset buf bytes mem = some (done, after)) :
    iovToBuf iov offset bytes after = some (done, buf.take done) ∧
      ∀ addr ∉ cells iov, after addr = mem addr := by
  rw [iovFromBuf_eq, Option.ite_none_left_eq_some] at stored
  obtain ⟨inside, stored⟩ := stored
  cases stored
  have slice := (List.take_sublist bytes ((cells iov).drop offset)).trans (List.drop_sublist _ _)
  refine ⟨?_, fun addr outside => writeCells_frame (fun member => outside (slice.mem member)) _ _⟩
  rw [iovToBuf_eq, if_neg inside, map_writeCells (apart.sublist slice)]
  exact Nat.le_trans (List.length_take_le _ _) enough

/-- What `iov_memset` fills reads as the byte, and nothing else is written. -/
theorem iovMemset_readBack {fillc : UInt8}
    (filled : iovMemset iov offset fillc bytes mem = some (done, after)) :
    iovToBuf iov offset bytes after = some (done, List.replicate done fillc) ∧
      ∀ addr ∉ cells iov, after addr = mem addr := by
  rw [iovMemset_eq, Option.ite_none_left_eq_some] at filled
  obtain ⟨inside, filled⟩ := filled
  cases filled
  have slice := (List.take_sublist bytes ((cells iov).drop offset)).trans (List.drop_sublist _ _)
  refine ⟨?_, fun addr outside => ?_⟩
  · rw [iovToBuf_eq, if_neg inside, ← List.map_const']
    refine congrArg some (congrArg _ (List.map_congr_left fun addr member => ?_))
    rw [fillCells_apply, if_pos member]
  · rw [fillCells_apply, if_neg fun member => outside (slice.mem member)]

end Memory

end VhostUser.Qemu.Iov
