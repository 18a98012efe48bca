import Mathlib.Data.List.Basic
import Mathlib.Data.List.Nodup
import Mathlib.Logic.Function.Basic

/-!
Contract: timers that are kept in a list in order of expiry.

A timer has an expiry time and is in the list while it is pending. A timer that is
not pending has the time `-1`.

Owns: setting, stopping and firing timers, and that the list and the times agree
throughout.
-/

namespace VhostUser.Lib

structure TimerList where
  active : List Nat
  expireTime : Nat → Int

namespace TimerList

variable {list next : TimerList} {timer other : Nat} {time now : Int}

def Pending (list : TimerList) (timer : Nat) : Prop := 0 ≤ list.expireTime timer

instance : Decidable (list.Pending timer) := inferInstanceAs (Decidable (0 ≤ _))

def empty : TimerList := ⟨[], fun _ => -1⟩

def del (list : TimerList) (timer : Nat) : TimerList :=
  ⟨list.active.erase timer, Function.update list.expireTime timer (-1)⟩

def place (expireTime : Nat → Int) (timer : Nat) (time : Int) : List Nat → List Nat
  | [] => [timer]
  | head :: rest =>
    if expireTime head ≤ time then head :: place expireTime timer time rest
    else timer :: head :: rest

def modNs (list : TimerList) (timer : Nat) (time : Int) : TimerList :=
  let list := list.del timer
  ⟨place list.expireTime timer time list.active, Function.update list.expireTime timer (max time 0)⟩

def popExpired (list : TimerList) (now : Int) : Option (Nat × TimerList) :=
  match list.active with
  | [] => none
  | timer :: rest =>
    if list.expireTime timer ≤ now then
      some (timer, ⟨rest, Function.update list.expireTime timer (-1)⟩)
    else none

/-- The timers in the list are those that are pending. -/
structure Consistent (list : TimerList) : Prop where
  nodup : list.active.Nodup
  mem_iff : ∀ timer, timer ∈ list.active ↔ list.Pending timer

theorem place_perm (expireTime : Nat → Int) (timer : Nat) (time : Int) (items : List Nat) :
    (place expireTime timer time items).Perm (timer :: items) := by
  induction items with
  | nil => exact .refl _
  | cons head rest ih =>
    rw [place]
    split
    · exact (ih.cons head).trans (.swap timer head rest)
    · exact .refl _

theorem empty_consistent : Consistent empty :=
  ⟨.nil, fun _ => by simp [empty, Pending]⟩

theorem Consistent.del (consistent : Consistent list) (timer : Nat) :
    Consistent (list.del timer) := by
  refine ⟨consistent.nodup.erase timer, fun other => ?_⟩
  change other ∈ list.active.erase timer ↔ 0 ≤ Function.update list.expireTime timer (-1) other
  rw [consistent.nodup.mem_erase_iff, consistent.mem_iff]
  by_cases same : other = timer
  · subst same
    simp
  · simp [same, Pending]

theorem Consistent.modNs (consistent : Consistent list) (timer : Nat) (time : Int) :
    Consistent (list.modNs timer time) := by
  obtain ⟨nodup, mem_iff⟩ := consistent.del timer
  have placed := place_perm (list.del timer).expireTime timer time (list.del timer).active
  have absent : timer ∉ (list.del timer).active := by
    rw [mem_iff]
    simp [TimerList.del, Pending]
  refine ⟨placed.nodup_iff.mpr (List.nodup_cons.mpr ⟨absent, nodup⟩), fun other => ?_⟩
  change other ∈ place _ timer time _ ↔
    0 ≤ Function.update (list.del timer).expireTime timer (max time 0) other
  rw [placed.mem_iff, List.mem_cons, mem_iff]
  by_cases same : other = timer
  · subst same
    simp only [Function.update_self, true_or, true_iff]
    omega
  · simp [same, Pending]

theorem popExpired_eq (result : list.popExpired now = some (timer, next)) :
    ∃ rest, list.active = timer :: rest ∧ list.expireTime timer ≤ now ∧
      next = ⟨rest, Function.update list.expireTime timer (-1)⟩ := by
  rw [popExpired] at result
  split at result
  · cases result
  next head rest active =>
    split at result
    next due =>
      cases result
      exact ⟨rest, active, due, rfl⟩
    · cases result

theorem Consistent.popExpired (consistent : Consistent list)
    (result : list.popExpired now = some (timer, next)) : Consistent next := by
  obtain ⟨rest, active, -, rfl⟩ := popExpired_eq result
  obtain ⟨nodup, mem_iff⟩ := consistent
  rw [active] at nodup mem_iff
  obtain ⟨absent, restNodup⟩ := List.nodup_cons.mp nodup
  refine ⟨restNodup, fun other => ?_⟩
  change other ∈ rest ↔ 0 ≤ Function.update list.expireTime timer (-1) other
  by_cases same : other = timer
  · subst same
    simp [absent]
  · have before := mem_iff other
    simpa [same, Pending] using before

theorem modNs_expireTime_self : (list.modNs timer time).expireTime timer = max time 0 :=
  Function.update_self ..

theorem modNs_expireTime_of_ne (differ : other ≠ timer) :
    (list.modNs timer time).expireTime other = list.expireTime other := by
  simp [modNs, del, Function.update_of_ne differ]

theorem modNs_pending : (list.modNs timer time).Pending timer := by
  rw [Pending, modNs_expireTime_self]
  omega

end TimerList

end VhostUser.Lib
