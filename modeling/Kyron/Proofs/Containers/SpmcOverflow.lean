import Kyron.Containers.SpmcOverflow
import Kyron.Proofs.Containers.SpmcSystem

/-!
# `Kyron.Proofs.Containers.SpmcOverflow`: when a push is refused

`push` returns `Err` in two places: `push_to_mpmc` has moved nothing, or it has moved items and
the second `push_local_queue` still finds no space. Neither says that the `MpmcQueue` is full.

* `push_refused_with_room`: a queue of one slot moves half of its one item, which is none. With
  a steal in progress half of the one item that is left is none too. And items that move while
  a steal is in progress make no space, because the space ends at `steal`.
* `push_refused_only_when_full`: in every run in which the exchange of `push_to_mpmc` finds no
  steal in progress and at least two items, and the free space of the `MpmcQueue` is below
  `2 ^ 32`, a push that is refused has seen a full `MpmcQueue`.

From the exchange on, the space that was made stays until the owner uses it: other threads only
move `steal` forward (`FromOutside.room_le`).
-/

set_option autoImplicit false

namespace Kyron.Proofs.Containers

open Kyron.Containers
open Kyron.Lib
open Function
open SpmcSystem

variable {Q V : Type} [DecidableEq Q]
variable {s s' : SpmcSystem Q V} {t : Q} {a : SpmcAction Q V}

/-! ### The condition -/

/-- The free space of the `MpmcQueue` is a `u32` when `push_to_mpmc` asks for it. When its
exchange succeeds with space in the `MpmcQueue`, nobody is stealing from the queue and there
are two items or more. -/
def overflowFitsAt (s : SpmcSystem Q V) (t : Q) : Pc Q V → Bool
  | .overflowLock _ _ => s.mpmc.capacity - s.mpmc.items.length < UInt32.size
  | .overflowExchange _ head free tail =>
      (s.queues t).tail = tail → free ≠ 0 →
        stealOf tail = realOf tail ∧ 2 ≤ dist (realOf tail) head
  | _ => true

def OverflowFits (s : SpmcSystem Q V) : SpmcAction Q V → Prop
  | .advance t => overflowFitsAt s t (s.threads t) = true
  | _ => True

/-- A step that meets the conditions on steals and fetches and the one on overflows. -/
def OverflowGuarded (s : OverflowLog Q V) (a : SpmcAction Q V) : Prop :=
  FetchGuarded s.system a ∧ OverflowFits s.system a

instance decidableOverflowFits (s : SpmcSystem Q V) :
    (a : SpmcAction Q V) → Decidable (OverflowFits s a)
  | .advance t => inferInstanceAs (Decidable (overflowFitsAt s t (s.threads t) = true))
  | .push _ _ | .pop _ | .steal _ _ _ | .fetch _ | .mpmcPush _ => .isTrue trivial

instance (s : OverflowLog Q V) (a : SpmcAction Q V) : Decidable (OverflowGuarded s a) :=
  inferInstanceAs (Decidable (_ ∧ _))

/-! ### What a push knows of the space -/

/-- There is space in front of `steal`. -/
def HasRoom (q : SpmcStealQueue V) : Prop := stolen q + live q < q.capacity.toNat

/-- What a push knows on its way from the lock of the `MpmcQueue` to its return: what it has
seen there, or that there is space in its own queue now. -/
def RefusalOk (q : SpmcStealQueue V) (seen : Option Nat) : Pc Q V → Prop
  | .overflowLoadTail _ _ free | .overflowExchange _ _ free _ => seen = some free.toNat
  | .overflowMove _ _ left successful =>
      (seen = some 0 ∧ left + successful = 0) ∨ (0 < left + successful ∧ HasRoom q)
  | .overflowUnlock _ successful =>
      (seen = some 0 ∧ successful = 0) ∨ (0 < successful ∧ HasRoom q)
  | .pushLoadHead _ true | .pushLoadTail _ true _ => HasRoom q
  | _ => True

variable {seen : Option Nat} {l : OverflowLog Q V}

omit [DecidableEq Q] in
theorem RefusalOk.mono {q q' : SpmcStealQueue V} {pc : Pc Q V} (h : RefusalOk q seen pc)
    (hroom : HasRoom q → HasRoom q') : RefusalOk q' seen pc := by
  cases pc with
  | overflowLoadTail | overflowExchange => exact h
  | overflowMove => exact h.imp_right fun ⟨hpos, hq⟩ => ⟨hpos, hroom hq⟩
  | overflowUnlock => exact h.imp_right fun ⟨hpos, hq⟩ => ⟨hpos, hroom hq⟩
  | pushLoadHead v retry | pushLoadTail v retry head =>
      cases retry with
      | false => trivial
      | true => exact hroom h
  | _ => trivial

/-- The exchange of `push_to_mpmc`: half of two items or more is at least one, and without a
steal in progress the items that leave make space. -/
theorem hasRoom_exchange {q : SpmcStealQueue V} (q' : SpmcStealQueue V) {free : UInt32}
    (hfree : free ≠ 0)
    (htail : q'.tail = advanceTail q.tail (overflowCount q.head q.tail free none))
    (hhead : q'.head = q.head) (hcapacity : q'.capacity = q.capacity)
    (hsteal : stealOf q.tail = realOf q.tail) (htwo : 2 ≤ dist (realOf q.tail) q.head)
    (hroom : stolen q + live q ≤ q.capacity.toNat) :
    0 < (overflowCount q.head q.tail free none).toNat ∧ HasRoom q' := by
  have hle := (overflowCount_le q.head q.tail free none).2
  have hpos : 0 < (overflowCount q.head q.tail free none).toNat := by
    have hfree : 0 < free.toNat :=
      Nat.pos_of_ne_zero fun h0 => hfree (UInt32.toNat_inj.mp h0)
    have hcount : (countInternal q.head q.tail).toNat = dist (realOf q.tail) q.head := rfl
    rw [overflowCount, toNat_min, UInt32.toNat_div, hcount]
    show 0 < min free.toNat (dist (realOf q.tail) q.head / 2)
    omega
  have hlive := live_take hhead (by rw [htail, realOf_advanceTail]) hle
  rcases stolen_advance htail hle hroom with ⟨hzero, hzero'⟩ | ⟨hne, -⟩
  · refine ⟨hpos, ?_⟩
    unfold HasRoom
    rw [hcapacity]
    have : live q = dist (realOf q.tail) q.head := rfl
    omega
  · exact absurd (stolen_eq_zero.mpr hsteal) hne

omit [DecidableEq Q] in
theorem refusalOk_of_eq {q' : SpmcStealQueue V} {pc' : Pc Q V} (hthread : s'.threads t = pc')
    (hqueue : s'.queues t = q') (h : RefusalOk q' seen pc') :
    RefusalOk (s'.queues t) seen (s'.threads t) := by
  rw [hthread, hqueue]
  exact h

variable [Fintype Q]

/-- The exchange of `push_to_mpmc` takes nothing, because the `MpmcQueue` was full, or it makes
space. -/
theorem exchange_refusalOk {v : V} {head free : UInt32} {tail : UInt64} (hok : SystemOk s)
    (hfits : overflowFitsAt s t (s.threads t) = true)
    (hpc : s.threads t = .overflowExchange v head free tail)
    (h : RefusalOk (s.queues t) seen (.overflowExchange v head free tail : Pc Q V))
    (hstep : s.advancePush t = some s') : RefusalOk (s'.queues t) seen (s'.threads t) := by
  have hthread := hok.thread t
  rw [hpc] at hfits hthread
  have hhead : head = (s.queues t).head := hthread.head head rfl
  simp only [advancePush, hpc] at hstep
  split at hstep
  · rename_i htail
    cases hstep
    subst hhead htail
    refine refusalOk_of_eq (update_self ..) (update_self ..) ?_
    by_cases hfree : free = 0
    · subst hfree
      have hzero := (overflowCount_le (s.queues t).head (s.queues t).tail 0 none).1
      exact Or.inl ⟨h, by rw [Nat.add_zero]; exact Nat.le_zero.mp hzero⟩
    · obtain ⟨hsteal, htwo⟩ := of_decide_eq_true hfits rfl hfree
      obtain ⟨hpos, hroom⟩ := hasRoom_exchange { s.queues t with tail := _ } hfree rfl rfl rfl
        hsteal htwo (hok.room_le t)
      exact Or.inr ⟨hpos, hroom⟩
  · cases hstep
    exact refusalOk_of_eq (update_self ..) rfl h

/-- An item that moves to the `MpmcQueue` finds room there. -/
theorem move_refusalOk {v : V} {counter : UInt32} {left successful : Nat} (hok : SystemOk s)
    (hpc : s.threads t = .overflowMove v counter left successful)
    (h : RefusalOk (s.queues t) seen (.overflowMove v counter left successful : Pc Q V))
    (hstep : s.advancePush t = some s') : RefusalOk (s'.queues t) seen (s'.threads t) := by
  have hthread := hok.thread t
  rw [hpc] at hthread
  cases left with
  | zero =>
      simp only [advancePush, hpc] at hstep
      cases hstep
      rw [RefusalOk, Nat.zero_add] at h
      exact refusalOk_of_eq (update_self ..) rfl h
  | succ left =>
      have hspare : left + 1 + s.mpmc.items.length ≤ s.mpmc.capacity := hthread.spare
      simp only [advancePush, hpc] at hstep
      split at hstep
      · cases hstep
        exact refusalOk_of_eq (update_self ..) rfl trivial
      · rename_i item _
        obtain ⟨mpmc, hpush, -⟩ := exists_push item (show _ < s.mpmc.capacity by omega)
        rw [hpush] at hstep
        cases hstep
        refine refusalOk_of_eq (update_self ..) (update_self ..) ?_
        rw [RefusalOk, Nat.add_right_comm] at h
        exact h

/-- The steps of a push keep what it knows. -/
theorem advancePush_refusalOk (hok : SystemOk l.system)
    (hfits : overflowFitsAt l.system t (l.system.threads t) = true)
    (h : RefusalOk (l.system.queues t) (l.freeSeen t) (l.system.threads t))
    (hpush : l.system.advancePush t = some s') :
    RefusalOk (s'.queues t) (l.note (.advance t) t) (s'.threads t) := by
  have hstep := hpush
  unfold advancePush at hstep
  unfold OverflowLog.note
  dsimp only at hstep ⊢
  cases hpc : l.system.threads t with
  | pushLoadHead v retry =>
      rw [hpc] at hstep h
      cases hstep
      refine refusalOk_of_eq (update_self ..) rfl ?_
      cases retry <;> exact h
  | pushLoadTail v retry head =>
      rw [hpc] at hstep
      dsimp only at hstep
      repeat' split at hstep
      all_goals
        cases hstep
        exact refusalOk_of_eq (update_self ..) rfl trivial
  | overflowLock v head =>
      rw [hpc] at hstep hfits
      obtain ⟨-, rfl⟩ := Option.ite_some_none_eq_some.mp hstep
      refine refusalOk_of_eq (update_self ..) rfl ?_
      show Function.update l.freeSeen t _ t = some l.system.mpmc.freeSpace.toNat
      rw [update_self, MpmcQueue.freeSpace, UInt32.toNat_ofNat_of_lt' (of_decide_eq_true hfits)]
  | overflowLoadTail v head free =>
      rw [hpc] at hstep h
      cases hstep
      exact refusalOk_of_eq (update_self ..) rfl h
  | overflowExchange v head free tail =>
      rw [hpc] at h
      exact exchange_refusalOk hok hfits hpc h hpush
  | overflowMove v counter left successful =>
      rw [hpc] at h
      exact move_refusalOk hok hpc h hpush
  | overflowUnlock v successful =>
      rw [hpc] at hstep h
      dsimp only at hstep
      split at hstep
      · cases hstep
        exact refusalOk_of_eq (update_self ..) rfl trivial
      · rename_i hne
        cases hstep
        rcases h with ⟨-, hzero⟩ | ⟨-, hroom⟩
        · exact absurd hzero hne
        · exact refusalOk_of_eq (update_self ..) rfl hroom
  | overflowLoadHead v | pushWrite v head | pushStore v head =>
      rw [hpc] at hstep
      cases hstep
      exact refusalOk_of_eq (update_self ..) rfl trivial
  | _ =>
      rw [hpc] at hstep
      cases hstep

omit [Fintype Q] in
/-- A thread in another operation is not on its way to a refusal. -/
theorem advance_refusalOk_of_not_push
    (hstep : s.advancePop t = some s' ∨ s.advanceSteal t = some s' ∨ s.advanceFetch t = some s') :
    RefusalOk (s'.queues t) seen (s'.threads t) := by
  rcases hstep with hstep | hstep | hstep
  · unfold advancePop at hstep
    dsimp only at hstep
    repeat' split at hstep
    all_goals
      cases hstep
      try exact refusalOk_of_eq (update_self ..) rfl trivial
  · unfold advanceSteal at hstep
    dsimp only at hstep
    repeat' split at hstep
    all_goals
      cases hstep
      try exact refusalOk_of_eq (update_self ..) rfl trivial
  · unfold advanceFetch at hstep
    repeat' split at hstep
    all_goals
      cases hstep
      try exact refusalOk_of_eq (update_self ..) rfl trivial

/-- A thread's own step keeps what its push knows. -/
theorem own_refusalOk (hok : SystemOk l.system) (hfits : OverflowFits l.system a)
    (h : RefusalOk (l.system.queues t) (l.freeSeen t) (l.system.threads t)) (ht : actor a = some t)
    (hstep : l.system.step a = some s') : RefusalOk (s'.queues t) (l.note a t) (s'.threads t) := by
  rcases ownStep_cases ht hstep with ⟨-, pc', hstart, rfl⟩ | rfl
  · refine refusalOk_of_eq (update_self ..) rfl ?_
    cases hstart <;> trivial
  · rcases advance_cases hstep with hpush | hother
    · exact advancePush_refusalOk hok hfits h hpush
    · exact advance_refusalOk_of_not_push hother

omit [Fintype Q] in
/-- Nobody else writes a thread's note. -/
theorem note_other (ht : actor a ≠ some t) : l.note a t = l.freeSeen t := by
  cases a with
  | push u v => exact update_of_ne (fun heq => ht (congrArg some heq.symm)) _ _
  | advance u =>
      have hne : t ≠ u := fun heq => ht (congrArg some heq.symm)
      unfold OverflowLog.note
      dsimp only
      cases l.system.threads u with
      | overflowLock v head => exact update_of_ne hne _ _
      | _ => rfl
  | pop u | steal u src divider | fetch u | mpmcPush v => rfl

/-- What the pushes know in every state of a guarded run. -/
structure OverflowOk (l : OverflowLog Q V) : Prop where
  system : SystemOk l.system
  refusal : ∀ t, RefusalOk (l.system.queues t) (l.freeSeen t) (l.system.threads t)

theorem OverflowOk.step {l' : OverflowLog Q V} (h : OverflowOk l) (hguard : OverflowGuarded l a)
    (hstep : l.step a = some l') : OverflowOk l' := by
  obtain ⟨s', hs', rfl⟩ := Option.map_eq_some_iff.mp hstep
  have hok' : SystemOk s' := step_ok h.system hguard.1.1 hguard.1.2 hs'
  refine ⟨hok', ?_⟩
  intro t
  by_cases ht : actor a = some t
  · exact own_refusalOk h.system hguard.2 (h.refusal t) ht hs'
  · obtain ⟨hthread, houtside⟩ := step_other hs' ht
    show RefusalOk (s'.queues t) (l.note a t) (s'.threads t)
    rw [hthread, note_other ht]
    refine (h.refusal t).mono ?_
    intro hroom
    have hle := houtside.room_le (h.system.room_le t) (hok'.room_le t)
    unfold HasRoom at hroom ⊢
    rw [houtside.capacity]
    omega

theorem start_overflowOk (sizes : Q → UInt32) (hsizes : ∀ q, ∃ k < 32, (sizes q).toNat = 2 ^ k)
    (mpmcCapacity : Nat) :
    OverflowOk (.start (.new sizes hsizes mpmcCapacity) : OverflowLog Q V) :=
  ⟨new_ok sizes hsizes mpmcCapacity, fun _ => trivial⟩

/-- A push that is about to be refused has seen a full `MpmcQueue`. -/
theorem OverflowOk.freeSeen_eq (h : OverflowOk l) (hrefuses : l.system.refuses t = true) :
    l.freeSeen t = some 0 := by
  have hrefusal := h.refusal t
  have hthread := h.system.thread t
  unfold refuses at hrefuses
  split at hrefuses
  · rename_i v successful hpc
    rw [hpc] at hrefusal
    have hzero : successful = 0 := of_decide_eq_true hrefuses
    rcases hrefusal with ⟨hseen, -⟩ | ⟨hpos, -⟩
    · exact hseen
    · omega
  · -- The second `push_local_queue` finds the space that the overflow has made.
    rename_i v head hpc
    rw [hpc] at hrefusal hthread
    have hhead : head = (l.system.queues t).head := hthread.head head rfl
    have hspace := (hasSpace_iff (h.system.room_le t)).mpr hrefusal
    rw [hhead, hspace] at hrefuses
    cases hrefuses
  · cases hrefuses

/-- In every run in which the exchanges of `push_to_mpmc` find no steal in progress and two items
or more, a push returns `Err` only if the `MpmcQueue` was full when `push_to_mpmc` looked. -/
theorem push_refused_only_when_full (sizes : Q → UInt32)
    (hsizes : ∀ q, ∃ k < 32, (sizes q).toNat = 2 ^ k) (mpmcCapacity : Nat) {l : OverflowLog Q V}
    (hrun : Reaches OverflowLog.step OverflowGuarded
      (.start (.new sizes hsizes mpmcCapacity)) l) (t : Q)
    (hrefuses : l.system.refuses t = true) : l.freeSeen t = some 0 := by
  have hok : OverflowOk l := by
    refine hrun.invariant (start_overflowOk sizes hsizes mpmcCapacity) ?_
    intro l a l' hok hguard hstep
    exact hok.step hguard hstep
  exact hok.freeSeen_eq hrefuses

/-- Both slots of the queue and the `MpmcQueue` are in use, and a third push is refused. -/
theorem push_refused_only_when_full_third :
    ∃ l : OverflowLog (Fin 2) Nat,
      Reaches OverflowLog.step OverflowGuarded (.start (.new twoSizes twoSizes_pow 1)) l ∧
      l.system.threads 0 = .overflowUnlock 3 0 ∧ l.freeSeen 0 = some 0 := by
  have hexists : ∃ l : OverflowLog (Fin 2) Nat,
      Reaches OverflowLog.step OverflowGuarded (.start (.new twoSizes twoSizes_pow 1)) l ∧
        l.system.threads 0 = .overflowUnlock 3 0 ∧ l.system.refuses 0 = true :=
    exists_reaches (pushFirst 1 ++ pushFirst 2 ++ [SpmcAction.mpmcPush 9, .push 0 3] ++
      List.replicate 7 (SpmcAction.advance 0)) (by decide)
  obtain ⟨l, hrun, hpc, hrefuses⟩ := hexists
  exact ⟨l, hrun, hpc, push_refused_only_when_full twoSizes twoSizes_pow 1 hrun 0 hrefuses⟩

/-- Two queues of one slot. -/
def oneSlot (_ : Fin 2) : UInt32 := 1

theorem oneSlot_pow (q : Fin 2) : ∃ k < 32, (oneSlot q).toNat = 2 ^ k := ⟨0, by decide, rfl⟩

/-- Two queues of four slots. -/
def fourSlots (_ : Fin 2) : UInt32 := 4

theorem fourSlots_pow (q : Fin 2) : ∃ k < 32, (fourSlots q).toNat = 2 ^ k := ⟨2, by decide, rfl⟩

/-- Pushes that are refused while the `MpmcQueue` is empty and has room for two items. The queue
of one slot is full of one item, and half of it is none. In the queue of two slots one of two
items is being stolen, and half of the other is none. In the queue of four slots two items are
being stolen, one of the other two moves to the `MpmcQueue`, and there is still no space. -/
theorem push_refused_with_room :
    (∃ l : OverflowLog (Fin 2) Nat,
      Reaches OverflowLog.step anyStep (.start (.new oneSlot oneSlot_pow 2)) l ∧
      l.system.threads 0 = .overflowUnlock 2 0 ∧ l.system.threads 1 = .idle ∧
      l.system.refuses 0 = true ∧ l.freeSeen 0 = some 2) ∧
    (∃ l : OverflowLog (Fin 2) Nat,
      Reaches OverflowLog.step anyStep (.start (.new twoSizes twoSizes_pow 2)) l ∧
      l.system.threads 0 = .overflowUnlock 3 0 ∧ l.system.threads 1 = .stealRead 0 0 0 1 0 ∧
      l.system.refuses 0 = true ∧ l.freeSeen 0 = some 2) ∧
    ∃ l : OverflowLog (Fin 2) Nat,
      Reaches OverflowLog.step anyStep (.start (.new fourSlots fourSlots_pow 2)) l ∧
      l.system.threads 0 = .pushLoadTail 5 true 4 ∧ l.system.threads 1 = .stealRead 0 0 0 2 0 ∧
      l.system.refuses 0 = true ∧ l.freeSeen 0 = some 2 ∧ l.system.mpmc.items = [3] := by
  refine ⟨?_, ?_, ?_⟩
  · exact exists_reaches (pushFirst 1 ++ SpmcAction.push 0 2 ::
      List.replicate 7 (SpmcAction.advance 0)) (by decide)
  · exact exists_reaches (pushFirst 1 ++ pushFirst 2 ++ claimFirst ++ SpmcAction.push 0 3 ::
      List.replicate 7 (SpmcAction.advance 0)) (by decide)
  · exact exists_reaches (pushFirst 1 ++ pushFirst 2 ++ pushFirst 3 ++ pushFirst 4 ++ claimFirst ++
      SpmcAction.push 0 5 :: List.replicate 10 (SpmcAction.advance 0)) (by decide)

end Kyron.Proofs.Containers
