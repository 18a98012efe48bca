import VhostUser.Qemu.NetQueues

/-!
Contract: a batch of commands on the control queue of a virtio network device
(`virtio_net_handle_ctrl`), against the same commands in invocations of their own.

The answer to a command is a local variable of the handler that no round of its loop resets,
and a command of an unknown class leaves it alone.
-/

namespace VhostUser.Qemu.Virtio

open VhostUser.Lib

/-- An element of the control queue: the bytes to read and the room to write. -/
structure CtrlElem where
  out : List UInt8
  inSize : Nat

def supportedClass (out : List UInt8) : Bool :=
  out.head?.any fun cls => [0, 1, 2, 4, 5].contains cls.toNat

/-- A round of the loop of `virtio_net_handle_ctrl`. -/
def ctrlRound (config : NetConfig) (status : CtrlAck) (elem : CtrlElem) (s : NetState) :
    Option (CtrlAck × NetState) :=
  (virtioNetHandleCtrl config status elem.out elem.inSize s.net).map fun result =>
    let s := { s with net := result.2 }
    (result.1, if setsQueues elem.out result.1 then virtioNetSetStatus config s else s)

/-- The rounds over the popped elements: the answers, and the device unless the process ends. -/
def ctrlBatch (config : NetConfig) :
    CtrlAck → List CtrlElem → NetState → List CtrlAck × Option NetState
  | _, [], s => ([], some s)
  | status, elem :: rest, s =>
    match ctrlRound config status elem s with
    | none => ([], none)
    | some (ack, next) =>
      let (acks, last) := ctrlBatch config ack rest next
      (ack :: acks, last)

/-- `virtio_net_handle_ctrl` on a queue that holds the elements. -/
def virtioNetHandleCtrlBatch (config : NetConfig) : List CtrlElem → NetState →
    List CtrlAck × Option NetState :=
  ctrlBatch config .err

def singly (config : NetConfig) : List CtrlElem → NetState → List CtrlAck × Option NetState
  | [], s => ([], some s)
  | elem :: rest, s =>
    match virtioNetHandleCtrlBatch config [elem] s with
    | (acks, none) => (acks, none)
    | (acks, some next) =>
      let (more, last) := singly config rest next
      (acks ++ more, last)

/-- Each command of an unknown class that is reached comes before every command of a known class,
or the last one of those is answered with an error on its own. -/
def AnswersApart (config : NetConfig) (elems : List CtrlElem) (s : NetState) : Prop :=
  ∀ front known between other rest, elems = front ++ known :: (between ++ other :: rest) →
    supportedClass known.out = true → (∀ elem ∈ between, supportedClass elem.out = false) →
    supportedClass other.out = false →
    (singly config (front ++ known :: (between ++ [other])) s).2 ≠ none →
    ∀ mid, (singly config front s).2 = some mid → (singly config [known] mid).1 = [.err]

variable {config : NetConfig} {status ack : CtrlAck} {elem : CtrlElem} {s next : NetState}
  {rest : List CtrlElem}

/-! ### The loop on the queue -/

/-- What the handler sees of an element that was popped with the given number. -/
def seen (mem : Nat → UInt64 → UInt8) (number : Nat) (elem : VirtQueueElement) : CtrlElem :=
  ⟨iovBytes (mem number) elem.outSg, iovSize elem.inSg⟩

/-- A run of the loop over the queue is the batch of the elements that it pops. -/
theorem ctrlLoop_batch {map : GuestMap} {mem : Nat → UInt64 → UInt8} {fuel : Nat} {last : NetState}
    (ran : ctrlLoop config map mem fuel status s = .ok last) :
    ∃ taken : List VirtQueueElement,
      last.ctrl.popped = s.ctrl.popped ++ taken.map (·.index) ∧
      ∃ acks, ctrlBatch config status
        (taken.mapIdx fun k => seen mem (s.ctrl.popped.length + 1 + k))
          { s with ctrl := last.ctrl } = (acks, some last) := by
  induction fuel generalizing status s with
  | zero => cases ran
  | succ fuel ih =>
    rw [ctrlLoop, bind_ok_iff] at ran
    obtain ⟨⟨popped, run⟩, taken, ran⟩ := ran
    have returned := popElem_ok (popFor_ok taken)
    cases popped with
    | none =>
      obtain ⟨-, rfl⟩ | ⟨elem, _, popped, -⟩ := returned
      · cases ran
        exact ⟨[], (List.append_nil _).symm, [], rfl⟩
      · cases popped
    | some elem =>
      obtain ⟨none, -⟩ | ⟨same, availEvent, isSame, -, isRun⟩ := returned
      · cases none
      cases isSame
      have number : run.popped.length = s.ctrl.popped.length + 1 := by simp [isRun]
      dsimp only at ran
      split at ran
      · cases ran
      next ack net handled =>
        obtain ⟨later, popped, acks, batch⟩ := ih ran
        have pushed (after : NetState) (queue : after.ctrl =
            (run.push elem 1).notify s.net.notifyOnEmpty s.net.eventIdx) :
            after.ctrl.popped = s.ctrl.popped ++ [elem.index] := by
          rw [queue, (notify_same _ _ _).popped, isRun]
          rfl
        refine ⟨elem :: later, ?_, ack :: acks, ?_⟩
        · rw [popped, pushed _ (by split <;> rfl), List.append_assoc]
          rfl
        rw [pushed _ (by split <;> rfl), List.length_append, List.length_singleton] at batch
        have shift (k : Nat) : run.popped.length + (k + 1) = s.ctrl.popped.length + 1 + 1 + k := by
          omega
        rw [List.mapIdx_cons, ctrlBatch, ctrlRound, seen, Nat.add_zero, ← number, handled,
          Option.map_some]
        simp only [shift]
        by_cases sets : setsQueues (iovBytes (mem run.popped.length) elem.outSg) ack = true
        all_goals
          simp only [sets, if_true, if_false, Bool.false_eq_true] at batch ⊢
          exact congrArg (fun result => (ack :: result.1, result.2)) batch

/-! ### Independence -/

theorem handleCtrl_supported {out : List UInt8} {inSize : Nat} {n : VirtIONet}
    (known : supportedClass out = true) : virtioNetHandleCtrl config status out inSize n =
      virtioNetHandleCtrl config .err out inSize n := by
  unfold virtioNetHandleCtrl
  split
  · rfl
  cases out with
  | nil => rfl
  | cons cls out =>
    cases out with
    | nil => rfl
    | cons cmd data =>
      dsimp only
      split <;> first | rfl | simp_all [supportedClass]

theorem ctrlRound_supported (known : supportedClass elem.out = true) :
    ctrlRound config status elem s = ctrlRound config .err elem s := by
  rw [ctrlRound, ctrlRound, handleCtrl_supported known]

theorem handleCtrl_other {out : List UInt8} {inSize : Nat} {n : VirtIONet}
    (other : supportedClass out = false) : virtioNetHandleCtrl config status out inSize n =
      if inSize < 1 ∨ out.length < 2 then none else some (status, n) := by
  unfold virtioNetHandleCtrl
  split
  next none => rw [if_pos (.inl none)]
  next room =>
    split
    next cls cmd data =>
      rw [if_neg (by simp [room])]
      split <;> first | rfl | simp_all [supportedClass]
    next short =>
      refine (if_pos (.inr ?_)).symm
      match out, short with
      | [], _ | [_], _ => simp
      | cls :: cmd :: data, short => exact (short cls cmd data rfl).elim

/-- A command of an unknown class is answered like the one before it and changes nothing. -/
theorem ctrlRound_other (other : supportedClass elem.out = false) :
    ctrlRound config status elem s =
      if elem.inSize < 1 ∨ elem.out.length < 2 then none else some (status, s) := by
  have unset : setsQueues elem.out status = false := by
    unfold setsQueues
    by_contra sets
    simp_all [supportedClass]
  rw [ctrlRound, handleCtrl_other other]
  split
  · rfl
  · simp [unset]

theorem singly_cons (rest : List CtrlElem) : singly config (elem :: rest) s =
    match ctrlRound config .err elem s with
    | none => ([], none)
    | some (ack, next) => (ack :: (singly config rest next).1, (singly config rest next).2) := by
  rw [singly, virtioNetHandleCtrlBatch, ctrlBatch]
  cases ctrlRound config .err elem s <;> rfl

theorem ctrlBatch_state (elems : List CtrlElem) :
    (ctrlBatch config status elems s).2 = (singly config elems s).2 := by
  induction elems generalizing status s with
  | nil => rfl
  | cons elem rest ih =>
    rw [singly_cons, ctrlBatch]
    cases known : supportedClass elem.out with
    | true =>
      rw [ctrlRound_supported known]
      cases ctrlRound config .err elem s with
      | none => rfl
      | some result => exact ih
    | false =>
      rw [ctrlRound_other known, ctrlRound_other known]
      by_cases ends : elem.inSize < 1 ∨ elem.out.length < 2
      · simp only [if_pos ends]
      · simp only [if_neg ends]
        exact ih

/-- A command of an unknown class whose round comes to an end. -/
def Passed (elem : CtrlElem) : Prop :=
  supportedClass elem.out = false ∧ ¬ (elem.inSize < 1 ∨ elem.out.length < 2)

theorem Passed.round (passed : Passed elem) :
    ctrlRound config status elem s = some (status, s) := by
  rw [ctrlRound_other passed.1, if_neg passed.2]

theorem passed_of_reached (other : supportedClass elem.out = false)
    (reached : (singly config (elem :: rest) s).2 ≠ none) : Passed elem := by
  refine ⟨other, fun ends => reached ?_⟩
  rw [singly_cons, ctrlRound_other other, if_pos ends]

theorem singly_round (round : ctrlRound config .err elem s = some (ack, next)) :
    singly config (elem :: rest) s =
      (ack :: (singly config rest next).1, (singly config rest next).2) := by
  rw [singly_cons, round]

/-- A command of a known class that is followed by one of an unknown class has to fail. -/
theorem answersApart_cons (round : ctrlRound config .err elem s = some (ack, next)) :
    AnswersApart config (elem :: rest) s ↔ (supportedClass elem.out = true →
        ∀ other tail, rest = other :: tail → Passed other → ack = .err) ∧
      AnswersApart config rest next := by
  have alone : (singly config [elem] s).1 = [ack] := by
    rw [singly_round round]
    rfl
  constructor
  · refine fun apart => ⟨?_, ?_⟩
    · rintro known other tail rfl passed
      have failed := apart [] elem [] other tail rfl known (List.forall_mem_nil _) passed.1 ?_ s rfl
      · rw [alone] at failed
        exact (List.cons.inj failed).1
      · rw [List.nil_append, List.nil_append, singly_round round, singly_round passed.round]
        nofun
    · rintro front last between other tail rfl known unknown otherUnknown reached mid ends
      refine apart (elem :: front) last between other tail rfl known unknown otherUnknown ?_ mid ?_
      · rwa [List.cons_append, singly_round round]
      · rwa [singly_round round]
  · rintro ⟨fails, apart⟩ front last between other tail split known unknown otherUnknown reached
      mid ends
    cases front with
    | nil =>
      cases split
      cases ends
      rw [List.nil_append, singly_round round] at reached
      rw [alone]
      -- the round after it is the first one of an unknown class
      cases between with
      | nil => rw [fails known other tail rfl (passed_of_reached otherUnknown reached)]
      | cons first between =>
        rw [fails known first _ rfl (passed_of_reached (unknown first List.mem_cons_self) reached)]
    | cons first front =>
      cases split
      rw [List.cons_append, singly_round round] at reached
      rw [singly_round round] at ends
      exact apart front last between other tail rfl known unknown otherUnknown reached mid ends

theorem answersApart_ends (round : ctrlRound config .err elem s = none) :
    AnswersApart config (elem :: rest) s := by
  rintro front last between other tail split - - - reached
  refine absurd ?_ reached
  cases front with
  | nil =>
    cases split
    rw [List.nil_append, singly_cons, round]
  | cons first front =>
    cases split
    rw [List.cons_append, singly_cons, round]

/-- What comes first carries the status on. -/
theorem ctrlBatch_eq_singly (elems : List CtrlElem) :
    ctrlBatch config status elems s = singly config elems s ↔
      (∀ other tail, elems = other :: tail → Passed other → status = .err) ∧
        AnswersApart config elems s := by
  induction elems generalizing status s with
  | nil =>
    refine iff_of_true rfl ⟨nofun, ?_⟩
    rintro (_ | ⟨first, front⟩) last between other tail ⟨⟩
  | cons elem rest ih =>
    rw [singly_cons, ctrlBatch]
    cases known : supportedClass elem.out with
    | true =>
      have lead : ∀ other tail, elem :: rest = other :: tail → Passed other → status = .err := by
        rintro other tail ⟨⟩ passed
        rw [passed.1] at known
        cases known
      rw [ctrlRound_supported known, and_iff_right lead]
      cases round : ctrlRound config .err elem s with
      | none => exact iff_of_true rfl (answersApart_ends round)
      | some result =>
        rw [answersApart_cons round, forall_prop_of_true known, ← ih]
        simp [Prod.ext_iff]
    | false =>
      by_cases ends : elem.inSize < 1 ∨ elem.out.length < 2
      · have round (status : CtrlAck) : ctrlRound config status elem s = none := by
          rw [ctrlRound_other known, if_pos ends]
        rw [round, round]
        refine iff_of_true rfl ⟨?_, answersApart_ends (round .err)⟩
        rintro other tail ⟨⟩ passed
        exact absurd ends passed.2
      have passed : Passed elem := ⟨known, ends⟩
      rw [passed.round, passed.round, answersApart_cons passed.round, known,
        and_iff_right (nofun : false = true → _)]
      constructor
      · intro same
        obtain ⟨acks, last⟩ := Prod.mk.inj same
        obtain ⟨rfl, acks⟩ := List.cons.inj acks
        exact ⟨fun _ _ _ _ => rfl, (ih.mp (Prod.ext acks last)).2⟩
      · rintro ⟨lead, apart⟩
        obtain rfl := lead elem rest rfl passed
        have later := ih.mpr ⟨fun _ _ _ _ => rfl, apart⟩
        exact congrArg (fun result => (CtrlAck.err :: result.1, result.2)) later

/-- A batch is answered like its commands one by one if and only if no command of an unknown class
follows one that succeeds on its own, with none of a known class between them. The device ends in
the same state in any case. -/
theorem virtioNetHandleCtrl_independent_iff (elems : List CtrlElem) (s : NetState) :
    (virtioNetHandleCtrlBatch config elems s = singly config elems s ↔
      AnswersApart config elems s) ∧
    (virtioNetHandleCtrlBatch config elems s).2 = (singly config elems s).2 ∧
    ∀ elem, supportedClass elem.out = false → ∀ status ack next,
      ctrlRound config status elem s = some (ack, next) → ack = status ∧ next = s := by
  refine ⟨?_, ctrlBatch_state elems, ?_⟩
  · rw [virtioNetHandleCtrlBatch, ctrlBatch_eq_singly]
    exact and_iff_right fun _ _ _ _ => rfl
  intro elem other status ack next round
  rw [ctrlRound_other other] at round
  split at round
  · cases round
  · cases round
    exact ⟨rfl, rfl⟩

/-- `VIRTIO_NET_CTRL_RX_PROMISC`, then a command of class 9: both are acknowledged. -/
theorem virtioNetHandleCtrl_acknowledges_unknown :
    (virtioNetHandleCtrlBatch plainNet [⟨[0, 0, 1], 1⟩, ⟨[9, 0], 1⟩] idleNet).1 = [.ok, .ok] ∧
    (singly plainNet [⟨[0, 0, 1], 1⟩, ⟨[9, 0], 1⟩] idleNet).1 = [.ok, .err] := by
  decide

end VhostUser.Qemu.Virtio
