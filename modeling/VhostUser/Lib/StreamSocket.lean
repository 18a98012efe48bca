import Mathlib.Data.List.Basic

/-!
Contract: a stream socket that also passes rights.

A sender makes transfers: data, possibly with rights. The receiver sees one
stream. Each of its reads returns at most `limit` items, may stop anywhere and
may run on into the next transfer, except that transfers with rights are never
joined with others; the rights arrive with the first item of their transfer.

Owns: the reads a sequence of transfers allows, and what they preserve.
-/

namespace VhostUser.Lib

variable {α β : Type*}

/-- One send, or what one read returns. -/
structure Transfer (α β : Type*) where
  data : List α
  rights : List β
deriving DecidableEq, Repr

/-- A transfer that is, at least in part, in the socket; `carries` if it was sent with rights. -/
structure Pending (α β : Type*) where
  data : List α
  rights : List β
  carries : Bool

def Transfer.pending (transfer : Transfer α β) : Pending α β :=
  ⟨transfer.data, transfer.rights, !transfer.rights.isEmpty⟩

inductive Recv (limit : Nat) : List (Pending α β) → Transfer α β → List (Pending α β) → Prop where
  | whole {head : Pending α β} {rest : List (Pending α β)} (fits : head.data.length ≤ limit) :
      Recv limit (head :: rest) ⟨head.data, head.rights⟩ rest
  | cut {front back : List α} {rights : List β} {carries : Bool} {rest : List (Pending α β)}
      (frontNonempty : front ≠ []) (backNonempty : back ≠ []) (fits : front.length ≤ limit) :
      Recv limit (⟨front ++ back, rights, carries⟩ :: rest) ⟨front, rights⟩
        (⟨back, [], carries⟩ :: rest)
  | join {head next : Pending α β} {rest later : List (Pending α β)} {chunk : Transfer α β}
      (headPlain : head.carries = false) (nextPlain : next.carries = false)
      (more : Recv limit (next :: rest) chunk later)
      (fits : (head.data ++ chunk.data).length ≤ limit) :
      Recv limit (head :: next :: rest) ⟨head.data ++ chunk.data, []⟩ later

/-- The reads that empty the socket. -/
inductive Segmentation (limit : Nat) : List (Pending α β) → List (Transfer α β) → Prop where
  | done : Segmentation limit [] []
  | recv {queue later : List (Pending α β)} {chunk : Transfer α β} {chunks : List (Transfer α β)}
      (read : Recv limit queue chunk later) (rest : Segmentation limit later chunks) :
      Segmentation limit queue (chunk :: chunks)

variable {limit : Nat} {queue later : List (Pending α β)} {chunk : Transfer α β}
  {chunks sends : List (Transfer α β)}

theorem Recv.data_eq (read : Recv limit queue chunk later) :
    (queue.map Pending.data).flatten = chunk.data ++ (later.map Pending.data).flatten := by
  induction read with
  | whole _ => rfl
  | cut _ _ _ => simp
  | join _ _ _ _ ih =>
    simp only [List.map_cons, List.flatten_cons] at ih ⊢
    rw [ih, List.append_assoc]

theorem Segmentation.data_eq (segmented : Segmentation limit queue chunks) :
    (chunks.map Transfer.data).flatten = (queue.map Pending.data).flatten := by
  induction segmented with
  | done => rfl
  | recv read _ ih =>
    rw [List.map_cons, List.flatten_cons, ih, read.data_eq]

theorem Recv.rights_le {bound : Nat} (read : Recv limit queue chunk later)
    (small : ∀ pending ∈ queue, pending.rights.length ≤ bound) :
    chunk.rights.length ≤ bound ∧ ∀ pending ∈ later, pending.rights.length ≤ bound := by
  induction read with
  | whole _ => exact ⟨small _ (by simp), fun pending member => small _ (by simp [member])⟩
  | cut _ _ _ =>
    simp only [List.forall_mem_cons] at small ⊢
    exact ⟨small.1, by simp, small.2⟩
  | join _ _ _ _ ih =>
    rw [List.forall_mem_cons] at small
    exact ⟨by simp, (ih small.2).2⟩

theorem Segmentation.rights_le {bound : Nat} (segmented : Segmentation limit queue chunks)
    (small : ∀ pending ∈ queue, pending.rights.length ≤ bound) :
    ∀ chunk ∈ chunks, chunk.rights.length ≤ bound := by
  induction segmented with
  | done => simp
  | recv read _ ih =>
    obtain ⟨here, laterSmall⟩ := read.rights_le small
    exact List.forall_mem_cons.mpr ⟨here, ih laterSmall⟩

theorem segmentation_self (small : ∀ send ∈ sends, send.data.length ≤ limit) :
    Segmentation limit (sends.map Transfer.pending) sends := by
  induction sends with
  | nil => exact .done
  | cons send rest ih =>
    rw [List.forall_mem_cons] at small
    exact .recv (.whole small.1) (ih small.2)

/-- Two ways to cut one stream, the pieces of the first no longer than those of
the second, are the same. -/
theorem eq_of_flatten_eq {left right : List (List α)}
    (shorter : List.Forall₂ (fun piece other => piece.length ≤ other.length) left right)
    (same : left.flatten = right.flatten) : left = right := by
  have total : ∀ {left right : List (List α)},
      List.Forall₂ (fun piece other => piece.length ≤ other.length) left right →
      left.flatten.length ≤ right.flatten.length := by
    intro left right shorter
    induction shorter with
    | nil => simp
    | cons headShorter _ ih =>
      simp only [List.flatten_cons, List.length_append]
      omega
  induction shorter with
  | nil => rfl
  | @cons piece other left right headShorter restShorter ih =>
    have restTotal := total restShorter
    have lengths := congrArg List.length same
    simp only [List.flatten_cons, List.length_append] at lengths
    obtain ⟨headEq, restEq⟩ := List.append_inj same (by omega)
    rw [headEq, ih restEq]

end VhostUser.Lib
