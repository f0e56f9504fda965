import Mathlib.Data.List.Induction
import Kyron.Io.WakeAll
import Kyron.Proofs.Containers.IntrusiveList
import Kyron.Proofs.Io.HangUp

/-!
# `Kyron.Proofs.Io.WakeAll`: `wake_all` wakes the matching waiters, each once

`sift_wakeElem` says that the closure of `remove_if` does to the array what `wakeWaiters` does to
the list of wakers that it keeps, so `wake_all` on the intrusive list is `wakeAll` on the sequence
of its waiters. `wake_all_wakes_matching` says which wakers it wakes and what it leaves, below and
above `MAX_WAKEUPS`.
-/

set_option autoImplicit false

namespace Kyron.Proofs.Io

open Kyron.Containers
open Kyron.Proofs.Containers
open Kyron.Io
open Kyron.Io.RegistrationInfo
open Kyron.Io.LinkedWakers

variable {P W : Type}

/-! ### The array -/

/-- The wakers stand at the front of the array, and the iterator behind them. -/
structure Offloaded (o : Offloader W) (kept : List W) : Prop where
  places : o.places = kept.map some ++ List.replicate (maxWakeups - kept.length) none
  iter : o.iter = kept.length
  fits : kept.length ≤ maxWakeups

theorem offloaded_new : Offloaded (.new : Offloader W) [] := ⟨rfl, rfl, Nat.zero_le _⟩

variable {o : Offloader W} {kept : List W}

theorem Offloaded.length (h : Offloaded o kept) : o.places.length = maxWakeups := by
  have hfits := h.fits
  rw [h.places, List.length_append, List.length_map, List.length_replicate]
  omega

/-- A waker finds a place as long as there is one. -/
theorem Offloaded.put (h : Offloaded o kept) (hroom : kept.length < maxWakeups) (waker : W) :
    ∃ o', o.put waker = some o' ∧ Offloaded o' (kept ++ [waker]) := by
  refine ⟨_, if_pos (by rw [h.iter, h.length]; exact hroom), ?_, ?_, ?_⟩
  · obtain ⟨n, hn⟩ : ∃ n, maxWakeups - kept.length = n + 1 := ⟨_, (Nat.succ_pred (by omega)).symm⟩
    have hlength : maxWakeups - (kept ++ [waker]).length = n := by
      rw [List.length_append, List.length_singleton]
      omega
    rw [h.places, h.iter, hn, hlength, List.replicate_succ,
      List.set_append_right _ _ (by rw [List.length_map])]
    simp
  · rw [List.length_append, List.length_singleton, h.iter]
  · rw [List.length_append, List.length_singleton]
    exact hroom

theorem Offloaded.put_full (h : Offloaded o kept) (hfull : ¬ kept.length < maxWakeups) (waker : W) :
    o.put waker = none :=
  if_neg (by rw [h.iter, h.length]; exact hfull)

/-- The last loop takes the wakers of the array. -/
theorem Offloaded.taken (h : Offloaded o kept) : o.taken = kept := by
  unfold Offloader.taken
  rw [h.places, List.takeWhile_append_of_pos (by simp)]
  have hrest : (List.replicate (maxWakeups - kept.length) none).takeWhile
      (Option.isSome : Option W → Bool) = [] := by
    cases maxWakeups - kept.length <;> rfl
  rw [hrest, List.append_nil, List.filterMap_map]
  simp

/-- What `takeSlot` leaves of a slot and adds to the array. -/
theorem Offloaded.takeSlot (h : Offloaded o kept) (hroom : kept.length < maxWakeups) (ready : Bool)
    (slot : Option W) :
    ∃ o', LinkedWakers.takeSlot ready slot o = some (if ready then none else slot, o') ∧
      Offloaded o' (kept ++ if ready then slot.toList else []) := by
  cases ready with
  | false => exact ⟨o, rfl, by simpa using h⟩
  | true =>
      cases slot with
      | none => exact ⟨o, rfl, by simpa using h⟩
      | some waker =>
          obtain ⟨o', hput, ho'⟩ := h.put hroom waker
          refine ⟨o', ?_, ho'⟩
          show (o.put waker).map _ = _
          rw [hput]
          rfl

/-! ### The waiters -/

section Waiters

variable {readiness : ReadinessState} {elem : WakerElem W} {waiters : List (WakerElem W)}

theorem wakeWaiters_of_not_woken (h : wokenFor readiness elem = false) :
    wakeWaiters readiness (elem :: waiters) kept =
      ((wakeWaiters readiness waiters kept).1, (wakeWaiters readiness waiters kept).2.1,
        elem :: (wakeWaiters readiness waiters kept).2.2) := by
  rw [wakeWaiters, Option.isSome_eq_false_iff.mp h |> Option.isNone_iff_eq_none.mp]

theorem wakeWaiters_of_room (h : wokenFor readiness elem = true)
    (hroom : kept.length < maxWakeups) :
    wakeWaiters readiness (elem :: waiters) kept =
      wakeWaiters readiness waiters (kept ++ [elem.waker]) := by
  obtain ⟨r, hr⟩ := Option.isSome_iff_exists.mp h
  rw [wakeWaiters, hr]
  exact if_pos hroom

theorem wakeWaiters_of_full (h : wokenFor readiness elem = true)
    (hfull : ¬ kept.length < maxWakeups) :
    wakeWaiters readiness (elem :: waiters) kept =
      (elem.waker :: (wakeWaiters readiness waiters kept).1,
        (wakeWaiters readiness waiters kept).2) := by
  obtain ⟨r, hr⟩ := Option.isSome_iff_exists.mp h
  rw [wakeWaiters, hr]
  exact if_neg hfull

end Waiters

/-- The waiter of an item, with its waker. -/
def waiterOf (elems : P → WakerElems W) (wakerOf : P → W) (item : P) : WakerElem W :=
  ⟨wakerOf item, (elems item).interest⟩

variable {elems : P → WakerElems W} {wakerOf : P → W}

@[simp] theorem waiterOf_waker (item : P) : (waiterOf elems wakerOf item).waker = wakerOf item :=
  rfl

/-- The closure of `remove_if` over the items does what `wakeWaiters` does over their waiters. -/
theorem sift_wakeElem (readiness : ReadinessState) (xs : List P)
    (hwakers : ∀ item ∈ xs, (elems item).waker = some (wakerOf item)) (h : Offloaded o kept)
    (woken : List W) :
    ∃ o', sift (wakeElem readiness elems) (some (o, woken)) xs =
        (xs.filter fun item => !wokenFor readiness (waiterOf elems wakerOf item),
          some (o', woken ++ (wakeWaiters readiness (xs.map (waiterOf elems wakerOf)) kept).1)) ∧
      Offloaded o' (wakeWaiters readiness (xs.map (waiterOf elems wakerOf)) kept).2.1 := by
  -- On the items. The array holds the wakers that `wakeWaiters` has kept.
  induction xs generalizing o kept woken with
  | nil => exact ⟨o, by simp [sift, wakeWaiters], h⟩
  | cons item xs ih =>
      have hwaker := hwakers item List.mem_cons_self
      have hrest : ∀ item ∈ xs, (elems item).waker = some (wakerOf item) :=
        fun item hitem => hwakers item (List.mem_cons_of_mem _ hitem)
      unfold sift
      rw [List.map_cons]
      cases hmatch : readiness.intersection (.ofInterest (elems item).interest) with
      | none =>
          have hwoken : wokenFor readiness (waiterOf elems wakerOf item) = false := by
            simp [wokenFor, waiterOf, hmatch]
          have hstep : wakeElem readiness elems (some (o, woken)) item =
              (false, some (o, woken)) := by
            simp [wakeElem, hmatch]
          obtain ⟨o', hsift, ho'⟩ := ih hrest h woken
          refine ⟨o', ?_, ?_⟩
          · simp [hstep, hsift, hwoken, wakeWaiters_of_not_woken hwoken]
          · rw [wakeWaiters_of_not_woken hwoken]
            exact ho'
      | some r =>
          have hwoken : wokenFor readiness (waiterOf elems wakerOf item) = true := by
            simp [wokenFor, waiterOf, hmatch]
          by_cases hroom : kept.length < maxWakeups
          · obtain ⟨o₁, hput, ho₁⟩ := h.put hroom (wakerOf item)
            have hstep : wakeElem readiness elems (some (o, woken)) item =
                (true, some (o₁, woken)) := by
              simp [wakeElem, hmatch, hwaker, hput]
            obtain ⟨o', hsift, ho'⟩ := ih hrest ho₁ woken
            refine ⟨o', ?_, ?_⟩
            · simp [hstep, hsift, hwoken, wakeWaiters_of_room hwoken hroom]
            · rw [wakeWaiters_of_room hwoken hroom]
              exact ho'
          · have hstep : wakeElem readiness elems (some (o, woken)) item =
                (true, some (o, woken ++ [wakerOf item])) := by
              simp [wakeElem, hmatch, hwaker, h.put_full hroom]
            obtain ⟨o', hsift, ho'⟩ := ih hrest h (woken ++ [wakerOf item])
            refine ⟨o', ?_, ?_⟩
            · simp [hstep, hsift, hwoken, wakeWaiters_of_full hwoken hroom]
            · rw [wakeWaiters_of_full hwoken hroom]
              exact ho'

/-! ### The call -/

variable [DecidableEq P]

/-- `wake_all` on the intrusive list is `wakeAll` on the sequence of its waiters. -/
theorem linkedWakeAll_eq {s : LinkedWakers P W} {xs : List P}
    (h : Represents s.waiters s.memory xs)
    (hwakers : ∀ item ∈ xs, (elems item).waker = some (wakerOf item)) (readiness : ReadinessState) :
    let wakers := ⟨s.read, s.write, xs.map (waiterOf elems wakerOf)⟩
    let result := RegistrationInfo.wakeAll wakers readiness
    ∃ s', s.wakeAll elems readiness = .ok (some (result.1, s')) ∧ s'.read = result.2.read ∧
      s'.write = result.2.write ∧
      Represents s'.waiters s'.memory
        (xs.filter fun item => !wokenFor readiness (waiterOf elems wakerOf item)) := by
  have hslot : ∀ (b : Bool) (slot : Option W), (if b then slot.toList else []).length ≤ 1 := by
    intro b slot
    cases b <;> cases slot <;> simp
  obtain ⟨o₁, hread, ho₁⟩ :=
    offloaded_new.takeSlot (show 0 < maxWakeups by decide) readiness.isReadable s.read
  rw [List.nil_append] at ho₁
  obtain ⟨o₂, hwrite, ho₂⟩ :=
    ho₁.takeSlot (Nat.lt_of_le_of_lt (hslot _ _) (by decide)) readiness.isWritable s.write
  obtain ⟨o₃, hsift, ho₃⟩ := sift_wakeElem readiness xs hwakers ho₂ []
  obtain ⟨l', m', hremove, hrep, -, -⟩ :=
    h.removeIf (wakeElem readiness elems) (some (o₂, []))
  rw [hsift] at hremove hrep
  refine ⟨⟨_, _, l', m'⟩, ?_, rfl, rfl, hrep⟩
  unfold LinkedWakers.wakeAll
  rw [hread]
  dsimp only
  rw [hwrite]
  dsimp only
  rw [hremove]
  dsimp only [ok_bind, Option.map_some]
  rw [ho₃.taken]
  rfl

/-- The waiter waits for a direction that is ready. -/
def isMatch (readiness : ReadinessState) (interest : IoEventInterest) : Bool :=
  readiness.isReadable && interest.isReadable || readiness.isWritable && interest.isWritable

omit [DecidableEq P] in
theorem wokenFor_waiterOf (readiness : ReadinessState) (item : P) :
    wokenFor readiness (waiterOf elems wakerOf item) =
      isMatch readiness (elems item).interest := by
  rw [Bool.eq_iff_iff]
  refine (intersection_isSome readiness (elems item).interest).trans ?_
  simp only [isMatch, Bool.or_eq_true, Bool.and_eq_true]
  constructor
  · rintro ⟨d, hr, hi⟩
    cases d with
    | readable => exact Or.inl ⟨hr, hi⟩
    | writable => exact Or.inr ⟨hr, hi⟩
  · rintro (⟨hr, hi⟩ | ⟨hr, hi⟩)
    · exact ⟨.readable, hr, hi⟩
    · exact ⟨.writable, hr, hi⟩

/-- For every list of waiters with any interests, any wakers in the two slots and every readiness:
`wake_all` returns. The wakers that it calls are the one in the read slot if the readiness is
readable, the one in the write slot if it is writable and those of the waiters that wait for a
direction that is ready, each once. The slots of the ready directions are empty then, the others are
as before, and the list holds the other waiters in their order. -/
theorem wake_all_wakes_matching (elems : P → WakerElems W) (wakerOf : P → W)
    {s : LinkedWakers P W} {xs : List P} (h : Represents s.waiters s.memory xs)
    (hwakers : ∀ item ∈ xs, (elems item).waker = some (wakerOf item)) (readiness : ReadinessState) :
    ∃ woken s', s.wakeAll elems readiness = .ok (some (woken, s')) ∧
      woken.Perm ((if readiness.isReadable then s.read.toList else []) ++
        (if readiness.isWritable then s.write.toList else []) ++
        (xs.filter fun item => isMatch readiness (elems item).interest).map wakerOf) ∧
      s'.read = (if readiness.isReadable then none else s.read) ∧
      s'.write = (if readiness.isWritable then none else s.write) ∧
      Represents s'.waiters s'.memory
        (xs.filter fun item => !isMatch readiness (elems item).interest) := by
  obtain ⟨s', hcall, hread, hwrite, hrep⟩ := linkedWakeAll_eq h hwakers readiness
  simp only [wokenFor_waiterOf] at hrep
  refine ⟨_, s', hcall, ?_, hread, hwrite, hrep⟩
  refine (wakeWaiters_perm readiness _ _).trans (List.Perm.append_left _ ?_)
  rw [List.filter_map, List.map_map]
  simp only [Function.comp_def, wokenFor_waiterOf, waiterOf_waker]
  exact List.Perm.refl _

/-- Any distinct items can be put into a list. -/
theorem exists_represents (xs : List P) (h : xs.Nodup) :
    ∃ (l : IntrusiveList P) (m : Memory P), Represents l m xs := by
  induction xs using List.reverseRecOn with
  | nil => exact ⟨.empty, fun _ => ⟨none, none⟩, represents_empty _⟩
  | append_singleton xs x ih =>
      obtain ⟨hxs, -, hout⟩ := List.nodup_append.mp h
      obtain ⟨l, m, hrep⟩ := ih hxs
      obtain ⟨l', m', -, hrep', -⟩ :=
        hrep.pushBack fun hmem => hout x hmem x List.mem_cons_self rfl
      exact ⟨l', m', hrep'⟩

/-- Seven readers and a writer wait in the list and one more reader in the slot, and the
registration becomes readable: more than six wakers are called. -/
theorem wake_all_wakes_matching_eight :
    ∃ (s : LinkedWakers Nat Nat) (elems : Nat → WakerElems Nat) (woken : List Nat)
      (s' : LinkedWakers Nat Nat),
      Represents s.waiters s.memory (List.range 8) ∧
      s.wakeAll elems ⟨1⟩ = .ok (some (woken, s')) ∧
      woken.Perm [10, 0, 1, 2, 4, 5, 6, 7] ∧ s'.waiters.items s'.memory = [3] := by
  obtain ⟨l, m, hrep⟩ := exists_represents (List.range 8) List.nodup_range
  obtain ⟨woken, s', hcall, hperm, -, -, hrep'⟩ :=
    wake_all_wakes_matching (s := ⟨some 10, none, l, m⟩)
      (fun p => ⟨some p, if p = 3 then .writable else .readable⟩) id hrep (fun _ _ => rfl) ⟨1⟩
  exact ⟨_, _, woken, s', hrep, hcall, hperm, hrep'.items_eq⟩

end Kyron.Proofs.Io
