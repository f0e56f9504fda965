import Kyron.Containers.Sequential
import Kyron.Proofs.Containers.Queue
import Kyron.Proofs.Containers.SpmcQueue

/-!
# `Kyron.Proofs.Containers.SpmcRing`: a stealing queue is a list between operations

`StealHolds q l` says of a stealing queue what `QueueHolds` says of the global one: the slots from
`real_tail` on hold the list `l`, unread, and there is space for them after the items that are
being stolen. `SpmcHolds q l` says also that no steal is in progress. `StealHolds.take` and
`StealHolds.publish` are the two ways in which the list changes: `real_tail` goes past its first
items, or `head` goes past new ones.

Each loop that moves items between two rings has one lemma, by induction on the items
(`moveToMpmc_spec`, `copyFrom_spec`, `copyInto_spec`): what it takes from the front of one list it
appends to the other. From these follows one lemma for each outcome of an operation.
-/

set_option autoImplicit false

namespace Kyron.Proofs.Containers

open Kyron.Containers
open Kyron.Containers.Sequential
open Kyron.Lib

variable {V : Type} {q q' dst : SpmcStealQueue V} {m : Queue V} {l g : List V} {v : V}

/-! ### Slots and counters -/

/-- The slots by number. -/
def spmcSlots (q : SpmcStealQueue V) (k : Nat) : Option V := unread (q.data (UInt32.ofNat k))

theorem capacity_pos (q : SpmcStealQueue V) : 0 < q.capacity.toNat :=
  pow_pos_of_exists q.capacity_pow

theorem index_toNat (q : SpmcStealQueue V) (x : UInt32) :
    (q.index x).toNat = x.toNat % q.capacity.toNat :=
  toNat_and_mask q.capacity_pow q.accessMask_eq x

theorem index_eq (q : SpmcStealQueue V) (x : UInt32) :
    q.index x = UInt32.ofNat (x.toNat % q.capacity.toNat) := by
  rw [← index_toNat, UInt32.ofNat_toNat]

/-- A later counter has the slot of the sum. -/
theorem add_mod_capacity (q : SpmcStealQueue V) (x : UInt32) (n : Nat) :
    (x + UInt32.ofNat n).toNat % q.capacity.toNat = (x.toNat + n) % q.capacity.toNat := by
  rw [UInt32.toNat_add, UInt32.toNat_ofNat', Nat.add_mod_mod,
    Nat.mod_mod_of_dvd _ (dvd_two_pow q.capacity_pow)]

theorem index_toNat_mod (q : SpmcStealQueue V) (x : UInt32) :
    (q.index x).toNat % q.capacity.toNat = x.toNat % q.capacity.toNat := by
  rw [index_toNat, Nat.mod_mod]

/-- Different slots of the ring have different indices. -/
theorem ofNat_ne (q : SpmcStealQueue V) {i k : Nat} (hi : i < q.capacity.toNat)
    (hk : k < q.capacity.toNat) (hne : k ≠ i) : UInt32.ofNat k ≠ UInt32.ofNat i := by
  have hlt := capacity_lt q
  intro heq
  have hnat := congrArg UInt32.toNat heq
  rw [UInt32.toNat_ofNat_of_lt' (hk.trans hlt), UInt32.toNat_ofNat_of_lt' (hi.trans hlt)] at hnat
  exact hne hnat

/-! ### One item -/

/-- The items of a list lie in the ring from the slot of the counter `start` on. -/
def Lies (q : SpmcStealQueue V) (start : Nat) (l : List V) : Prop :=
  RingHolds q.capacity.toNat (spmcSlots q) start l

/-- Everything but the slots is as before. -/
structure SameCounters (q q' : SpmcStealQueue V) : Prop where
  head : q'.head = q.head
  tail : q'.tail = q.tail
  capacity : q'.capacity = q.capacity

theorem SameCounters.refl (q : SpmcStealQueue V) : SameCounters q q := ⟨rfl, rfl, rfl⟩

theorem SameCounters.trans {q'' : SpmcStealQueue V} (h : SameCounters q q')
    (h' : SameCounters q' q'') : SameCounters q q'' :=
  ⟨h'.head.trans h.head, h'.tail.trans h.tail, h'.capacity.trans h.capacity⟩

theorem sameCounters_read (q : SpmcStealQueue V) (i : UInt32) : SameCounters q (q.read i) :=
  ⟨rfl, rfl, rfl⟩

theorem sameCounters_write (q : SpmcStealQueue V) (i : UInt32) (v : V) :
    SameCounters q (q.write i v) := ⟨rfl, rfl, rfl⟩

/-- The slots outside the index are as before. -/
theorem spmcSlots_ne {q' : SpmcStealQueue V} {i k : Nat} (hi : i < q.capacity.toNat)
    (hk : k < q.capacity.toNat) (hne : k ≠ i)
    (hdata : ∀ j, j ≠ UInt32.ofNat i → q'.data j = q.data j) :
    spmcSlots q' k = spmcSlots q k := by
  rw [spmcSlots, spmcSlots, hdata _ (ofNat_ne q hi hk hne)]

namespace Lies

variable {start : Nat} {x : UInt32}

/-- The first item, at a counter with the same slot. -/
theorem data_index (h : Lies q start (v :: l)) (hx : x.toNat % q.capacity.toNat =
    start % q.capacity.toNat) : q.data (q.index x) = .full v := by
  rw [index_eq, hx]
  exact unread_eq_some.mp (RingHolds.head h)

/-- Reading the first item leaves the others. -/
theorem read (h : Lies q start (v :: l)) (hle : (v :: l).length ≤ q.capacity.toNat)
    (hx : x.toNat % q.capacity.toNat = start % q.capacity.toNat) :
    Lies (q.read (q.index x)) (start + 1) l := by
  have hpos := capacity_pos q
  rw [List.length_cons] at hle
  refine RingHolds.frame (RingHolds.tail h) ?_
  intro i hi
  have hne := slot_ne (c := q.capacity.toNat) start (show 0 < 1 + i by omega) (by omega)
  rw [Nat.add_assoc]
  refine spmcSlots_ne (Nat.mod_lt start hpos) (Nat.mod_lt _ hpos) hne.symm ?_
  intro j hj
  rw [index_eq, hx]
  exact if_neg hj

/-- Filling the slot after the last item appends. -/
theorem concat (h : Lies q start l) (hroom : l.length < q.capacity.toNat)
    (hx : x.toNat % q.capacity.toNat = (start + l.length) % q.capacity.toNat) :
    Lies (q.write (q.index x) v) start (l ++ [v]) := by
  have hpos := capacity_pos q
  refine RingHolds.concat h hroom ?_ ?_
  · rw [index_eq, hx]
    exact unread_eq_some.mpr (if_pos rfl)
  · intro k hk hne
    refine spmcSlots_ne (Nat.mod_lt _ hpos) hk hne ?_
    intro j hj
    rw [index_eq, hx]
    exact if_neg hj

end Lies

/-! ### The loops -/

/-- The loop of `push_to_mpmc` appends the first items to the global queue. -/
theorem moveToMpmc_spec (moving rest : List V) {start : Nat} (index successful : UInt32)
    (h : Lies q start (moving ++ rest)) (hle : (moving ++ rest).length ≤ q.capacity.toNat)
    (hindex : index.toNat % q.capacity.toNat = start % q.capacity.toNat)
    (hm : QueueHolds m g) (hroom : g.length + moving.length ≤ m.capacity.toNat) :
    ∃ q' m', moveToMpmc q m index successful moving.length =
        (q', m', successful + UInt32.ofNat moving.length) ∧
      SameCounters q q' ∧ Lies q' (start + moving.length) rest ∧
      QueueHolds m' (g ++ moving) ∧ m'.capacity = m.capacity := by
  -- On the items: one of them leaves the ring and enters the global queue in each round.
  induction moving generalizing q m g start index successful with
  | nil =>
      refine ⟨q, m, ?_, SameCounters.refl q, h, ?_, rfl⟩
      · show (q, m, successful) = (q, m, successful + 0)
        rw [UInt32.add_zero]
      · rwa [List.append_nil]
  | cons v moving ih =>
      rw [List.length_cons] at hroom
      obtain ⟨m₁, hpush, hm₁, hcap₁⟩ := hm.push (by omega) v
      have hread := Lies.read h hle hindex
      -- The index is masked before it is incremented.
      have hnext : (q.index index + 1).toNat % q.capacity.toNat =
          (start + 1) % q.capacity.toNat := by
        have hmasked := (index_toNat_mod q index).trans hindex
        exact (add_mod_capacity q (q.index index) 1).trans (Nat.ModEq.add_right 1 hmasked)
      obtain ⟨q', m', hrun, hsame, hrest, hm', hcap'⟩ :=
        ih _ (successful + 1) hread
          (by rw [List.cons_append, List.length_cons] at hle; exact Nat.le_of_succ_le hle) hnext hm₁
          (by rw [hcap₁, List.length_append, List.length_singleton]; omega)
      refine ⟨q', m', ?_, (sameCounters_read q _).trans hsame, ?_, ?_, hcap'.trans hcap₁⟩
      · rw [List.length_cons, moveToMpmc, Lies.data_index h hindex]
        dsimp only [Slot.value?]
        rw [hpush]
        dsimp only
        rw [hrun, UInt32.add_assoc, Nat.add_comm moving.length 1, UInt32.ofNat_add]
        rfl
      · rwa [List.length_cons, Nat.add_comm moving.length 1, ← Nat.add_assoc]
      · rwa [List.append_assoc, List.singleton_append] at hm'

/-- The loop of `fetch_from` appends the first items of the global queue. -/
theorem copyFrom_spec (moving : List V) {start : Nat} {head : UInt32} (numItems : Nat)
    (h : Lies q start l) (hroom : l.length + moving.length ≤ q.capacity.toNat)
    (hhead : (head.toNat + numItems) % q.capacity.toNat = (start + l.length) % q.capacity.toNat)
    (hm : QueueHolds m (moving ++ g)) :
    ∃ q' m', copyFrom q head m numItems moving.length = (q', m', numItems + moving.length) ∧
      SameCounters q q' ∧ Lies q' start (l ++ moving) ∧
      QueueHolds m' g ∧ m'.capacity = m.capacity := by
  -- On the items. `start` stays, and the list in the ring grows.
  induction moving generalizing q m l numItems with
  | nil =>
      refine ⟨q, m, rfl, SameCounters.refl q, ?_, hm, rfl⟩
      rwa [List.append_nil]
  | cons v moving ih =>
      rw [List.length_cons] at hroom
      have hslot : (head + UInt32.ofNat numItems).toNat % q.capacity.toNat =
          (start + l.length) % q.capacity.toNat := (add_mod_capacity q head numItems).trans hhead
      have hwrite := Lies.concat (v := v) h (by omega) hslot
      have hnext : (head.toNat + (numItems + 1)) % q.capacity.toNat =
          (start + (l ++ [v]).length) % q.capacity.toNat := by
        rw [List.length_append, List.length_singleton]
        exact Nat.ModEq.add_right 1 hhead
      have hm₁ := QueueHolds.rest hm (m.data (m.index m.tail)).read
      obtain ⟨q', m', hrun, hsame, hlies, hm', hcap'⟩ :=
        ih (numItems + 1) hwrite
          (by rw [List.length_append, List.length_singleton]; show _ ≤ q.capacity.toNat; omega)
          hnext hm₁
      refine ⟨q', m', ?_, (sameCounters_write q _ v).trans hsame, ?_, hm', hcap'⟩
      · rw [List.length_cons, copyFrom, QueueHolds.next hm]
        dsimp only
        rw [Nat.add_comm moving.length 1, ← Nat.add_assoc, ← hrun, QueueHolds.data_tail hm]
        rfl
      · rwa [List.append_assoc, List.singleton_append] at hlies

/-- The loop of `steal_internal` appends the first items to the other queue. -/
theorem copyInto_spec (moving rest : List V) {start dstStart : Nat} (startIdx dstHead : UInt32)
    (i : Nat)
    (h : Lies q start (moving ++ rest)) (hle : (moving ++ rest).length ≤ q.capacity.toNat)
    (hstart : (startIdx.toNat + i) % q.capacity.toNat = start % q.capacity.toNat)
    (hdst : Lies dst dstStart l) (hroom : l.length + moving.length ≤ dst.capacity.toNat)
    (hhead : (dstHead.toNat + i) % dst.capacity.toNat =
      (dstStart + l.length) % dst.capacity.toNat) :
    ∃ q' dst', copyInto q dst startIdx dstHead i moving.length = (q', dst') ∧
      SameCounters q q' ∧ Lies q' (start + moving.length) rest ∧
      SameCounters dst dst' ∧ Lies dst' dstStart (l ++ moving) := by
  -- On the items. The counters of both rings advance with `i`, each modulo its own capacity.
  induction moving generalizing q dst l start i with
  | nil =>
      refine ⟨q, dst, rfl, SameCounters.refl q, h, SameCounters.refl dst, ?_⟩
      rwa [List.append_nil]
  | cons v moving ih =>
      rw [List.length_cons] at hroom
      have hsrc : (startIdx + UInt32.ofNat i).toNat % q.capacity.toNat =
          start % q.capacity.toNat := (add_mod_capacity q startIdx i).trans hstart
      have hslot : (dstHead + UInt32.ofNat i).toNat % dst.capacity.toNat =
          (dstStart + l.length) % dst.capacity.toNat :=
        (add_mod_capacity dst dstHead i).trans hhead
      have hread := Lies.read h hle hsrc
      have hwrite := Lies.concat (v := v) hdst (by omega) hslot
      have hnext : (dstHead.toNat + (i + 1)) % dst.capacity.toNat =
          (dstStart + (l ++ [v]).length) % dst.capacity.toNat := by
        rw [List.length_append, List.length_singleton]
        exact Nat.ModEq.add_right 1 hhead
      obtain ⟨q', dst', hrun, hsame, hrest, hsame', hlies⟩ :=
        ih (i + 1) hread
          (by rw [List.cons_append, List.length_cons] at hle; exact Nat.le_of_succ_le hle)
          (Nat.ModEq.add_right 1 hstart) hwrite
          (by rw [List.length_append, List.length_singleton]; show _ ≤ dst.capacity.toNat; omega)
          hnext
      refine ⟨q', dst', ?_, (sameCounters_read q _).trans hsame, ?_,
        (sameCounters_write dst _ v).trans hsame', ?_⟩
      · rw [List.length_cons, copyInto, Lies.data_index h hsrc]
        exact hrun
      · rwa [List.length_cons, Nat.add_comm moving.length 1, ← Nat.add_assoc]
      · rwa [List.append_assoc, List.singleton_append] at hlies

/-! ### The list of a stealing queue -/

/-- The ring holds the list, with space for it after the items that are being stolen. -/
structure StealHolds (q : SpmcStealQueue V) (l : List V) : Prop where
  live_eq : live q = l.length
  room : stolen q + l.length ≤ q.capacity.toNat
  lies : Lies q (realOf q.tail).toNat l

namespace StealHolds

theorem length_le (h : StealHolds q l) : l.length ≤ q.capacity.toNat :=
  (Nat.le_add_left _ _).trans h.room

theorem room_live (h : StealHolds q l) : stolen q + live q ≤ q.capacity.toNat := by
  rw [h.live_eq]
  exact h.room

/-- The first items are gone, and `real_tail` is behind them. -/
theorem take (h : StealHolds q l) {n : UInt32} (hn : n.toNat ≤ l.length) (hhead : q'.head = q.head)
    (hreal : realOf q'.tail = realOf q.tail + n) (hcap : q'.capacity = q.capacity)
    (hroom : stolen q' ≤ stolen q + n.toNat)
    (hlies : Lies q' ((realOf q.tail).toNat + n.toNat) (l.drop n.toNat)) :
    StealHolds q' (l.drop n.toNat) := by
  have hle := h.room
  refine ⟨?_, ?_, ?_⟩
  · rw [live_take hhead hreal (by rw [h.live_eq]; exact hn), h.live_eq, List.length_drop]
  · rw [List.length_drop, hcap]
    omega
  · have hmod := add_mod_capacity q' (realOf q.tail) n.toNat
    rw [UInt32.ofNat_toNat, ← hreal] at hmod
    exact RingHolds.congr_start hlies hmod.symm

/-- More items are in their slots, and `head` is behind them. -/
theorem publish (h : StealHolds q l) {items : List V}
    (hroom : stolen q + l.length + items.length ≤ q.capacity.toNat) (htail : q'.tail = q.tail)
    (hhead : q'.head = q.head + UInt32.ofNat items.length) (hcap : q'.capacity = q.capacity)
    (hlies : Lies q' (realOf q.tail).toNat (l ++ items)) : StealHolds q' (l ++ items) := by
  have hlive := live_publish htail hhead (by rw [h.live_eq]; exact hroom)
  refine ⟨?_, ?_, ?_⟩
  · rw [hlive, h.live_eq, List.length_append]
  · rw [hcap, List.length_append, stolen, htail, ← Nat.add_assoc]
    exact hroom
  · rw [htail]
    exact hlies

theorem count_eq (h : StealHolds q l) : (countInternal q.head q.tail).toNat = l.length := h.live_eq

/-- The space in use, as `push_local_queue` and `steal_into` compute it. -/
theorem space_eq (h : StealHolds q l) :
    (q.head - (unpackTail q.tail).1).toNat = stolen q + l.length := by
  rw [← h.live_eq, ← dist_steal_head h.room_live]
  rfl

/-- The counter `head` is at the slot after the last item. -/
theorem head_mod (h : StealHolds q l) : q.head.toNat % q.capacity.toNat =
    ((realOf q.tail).toNat + l.length) % q.capacity.toNat := by
  rw [← add_mod_capacity, ← h.live_eq, live, add_dist]

theorem head_eq_iff (h : StealHolds q l) : q.head = realOf q.tail ↔ l = [] := by
  rw [← List.length_eq_zero_iff, ← h.live_eq, live, Lib.dist_eq_zero, eq_comm]

/-- `push_local_queue` with space. -/
theorem pushLocalQueue (h : StealHolds q l) (hroom : stolen q + l.length < q.capacity.toNat)
    (v : V) : ∃ q', q.pushLocalQueue v = some q' ∧ StealHolds q' (l ++ [v]) ∧ q'.tail = q.tail ∧
      q'.capacity = q.capacity := by
  have hspace : q.hasSpace q.head q.tail = true := by
    rw [hasSpace_iff h.room_live, h.live_eq]
    exact hroom
  refine ⟨{ q.write (q.index q.head) v with head := q.head + 1 }, if_pos hspace, ?_, rfl, rfl⟩
  exact h.publish hroom rfl rfl rfl (Lies.concat h.lies (by omega) h.head_mod)

theorem pushLocalQueue_full (h : StealHolds q l) (hfull : q.capacity.toNat ≤ stolen q + l.length)
    (v : V) : q.pushLocalQueue v = none := by
  have hspace : ¬ q.hasSpace q.head q.tail = true := by
    rw [hasSpace_iff h.room_live, h.live_eq]
    omega
  exact if_neg hspace

/-- The items that `push_to_mpmc` moves go to the end of the global queue. -/
theorem pushToMpmc (h : StealHolds q l) (hm : QueueHolds m g) {n : UInt32}
    (hn : overflowCount q.head q.tail (m.capacity - m.len).toUInt32 none = n) :
    ∃ q' m', Sequential.pushToMpmc q m none = (q', m', n) ∧
      StealHolds q' (l.drop n.toNat) ∧ q'.tail = advanceTail q.tail n ∧
      q'.capacity = q.capacity ∧
      QueueHolds m' (g ++ l.take n.toNat) ∧ m'.capacity = m.capacity := by
  have hmle := hm.length_le
  -- The cast of the free space can only make it smaller.
  have hfree : (m.capacity - m.len).toUInt32.toNat ≤ m.capacity.toNat - g.length := by
    rw [UInt64.toNat_toUInt32, UInt64.toNat_sub_of_le, hm.len]
    · exact Nat.mod_le _ _
    · rw [UInt64.le_iff_toNat_le, hm.len]
      exact hmle
  obtain ⟨hnfree, hnlive⟩ := overflowCount_le q.head q.tail (m.capacity - m.len).toUInt32 none
  rw [hn] at hnfree hnlive
  have hnle : n.toNat ≤ l.length := h.live_eq ▸ hnlive
  have hlen : (l.take n.toNat).length = n.toNat := by
    rw [List.length_take, Nat.min_eq_left hnle]
  let claimed : SpmcStealQueue V := { q with tail := advanceTail q.tail n }
  have hlies : Lies claimed (realOf q.tail).toNat (l.take n.toNat ++ l.drop n.toNat) := by
    rw [List.take_append_drop]
    exact h.lies
  obtain ⟨q', m', hrun, hsame, hrest, hm', hcap'⟩ :=
    moveToMpmc_spec (l.take n.toNat) (l.drop n.toNat) (realOf q.tail) 0 hlies
      (by rw [List.take_append_drop]; exact h.length_le) rfl hm (by rw [hlen]; omega)
  rw [hlen] at hrun hrest
  have htail : q'.tail = advanceTail q.tail n := hsame.tail
  refine ⟨q', m', ?_, ?_, htail, hsame.capacity, hm', hcap'⟩
  · rw [Sequential.pushToMpmc, hn]
    rw [UInt32.zero_add, UInt32.ofNat_toNat] at hrun
    exact hrun
  · refine h.take hnle hsame.head (by rw [htail, realOf_advanceTail]) hsame.capacity ?_ hrest
    rcases stolen_advance htail (by rw [h.live_eq]; exact hnle) h.room_live with ⟨-, hzero⟩ |
      ⟨-, -, hgrow⟩ <;> omega

/-- The list is what the ring says. -/
theorem contents_eq (h : StealHolds q l) : contents q = l := by
  have hvalues : RingHolds q.capacity.toNat (fun k => (q.data (UInt32.ofNat k)).value?)
      (realOf q.tail).toNat l := by
    refine RingHolds.mono h.lies ?_
    intro k v hk
    have hdata : q.data (UInt32.ofNat k) = .full v := unread_eq_some.mp hk
    rw [hdata]
    rfl
  have hlist := hvalues.filterMap_range
  rw [contents, count, h.count_eq]
  refine Eq.trans ?_ hlist
  congr 1
  funext k
  rw [index_eq, add_mod_capacity]
  rfl

end StealHolds

/-- No steal is in progress, and the ring holds the list. -/
structure SpmcHolds (q : SpmcStealQueue V) (l : List V) : Prop extends StealHolds q l where
  steal : stealOf q.tail = realOf q.tail

namespace SpmcHolds

theorem stolen_eq (h : SpmcHolds q l) : stolen q = 0 := stolen_eq_zero.mpr h.steal

/-- The first items are gone, and both counters of the tail are behind them. -/
theorem take (h : SpmcHolds q l) {n : UInt32} (hn : n.toNat ≤ l.length) (hhead : q'.head = q.head)
    (hreal : realOf q'.tail = realOf q.tail + n) (hsteal : stealOf q'.tail = realOf q'.tail)
    (hcap : q'.capacity = q.capacity)
    (hlies : Lies q' ((realOf q.tail).toNat + n.toNat) (l.drop n.toNat)) :
    SpmcHolds q' (l.drop n.toNat) := by
  refine ⟨h.toStealHolds.take hn hhead hreal hcap ?_ hlies, hsteal⟩
  rw [stolen_eq_zero.mpr hsteal]
  exact Nat.zero_le _

/-- More items are in their slots, and `head` is behind them. -/
theorem publish (h : SpmcHolds q l) {items : List V}
    (hroom : l.length + items.length ≤ q.capacity.toNat) (htail : q'.tail = q.tail)
    (hhead : q'.head = q.head + UInt32.ofNat items.length) (hcap : q'.capacity = q.capacity)
    (hlies : Lies q' (realOf q.tail).toNat (l ++ items)) : SpmcHolds q' (l ++ items) := by
  refine ⟨h.toStealHolds.publish ?_ htail hhead hcap hlies, ?_⟩
  · rwa [h.stolen_eq, Nat.zero_add]
  · rw [htail]
    exact h.steal

theorem used_eq (h : SpmcHolds q l) : (q.head - (unpackTail q.tail).1).toNat = l.length := by
  rw [h.space_eq, h.stolen_eq, Nat.zero_add]

/-! ### The operations -/

theorem pushLocalQueue (h : SpmcHolds q l) (hroom : l.length < q.capacity.toNat) (v : V) :
    ∃ q', q.pushLocalQueue v = some q' ∧ SpmcHolds q' (l ++ [v]) ∧ q'.capacity = q.capacity := by
  obtain ⟨q', hpush, hq', htail, hcap⟩ :=
    h.toStealHolds.pushLocalQueue (by rwa [h.stolen_eq, Nat.zero_add]) v
  refine ⟨q', hpush, ⟨hq', ?_⟩, hcap⟩
  rw [htail]
  exact h.steal

theorem pushLocalQueue_full (h : SpmcHolds q l) (hfull : q.capacity.toNat ≤ l.length) (v : V) :
    q.pushLocalQueue v = none :=
  h.toStealHolds.pushLocalQueue_full (by rwa [h.stolen_eq, Nat.zero_add]) v

theorem popLocal (h : SpmcHolds q (v :: l)) :
    ∃ q', popLocal q = (q', some v) ∧ SpmcHolds q' l ∧ q'.capacity = q.capacity := by
  have hnot : ¬ q.head = (unpackTail q.tail).2 := fun heq =>
    List.cons_ne_nil v l (h.head_eq_iff.mp heq)
  refine ⟨{ q.read (q.index (realOf q.tail)) with tail := advanceTail q.tail 1 }, ?_, ?_, rfl⟩
  · rw [Sequential.popLocal]
    dsimp only
    rw [if_neg hnot]
    have hdata : q.data (q.index (unpackTail q.tail).2) = .full v := h.lies.data_index rfl
    rw [hdata]
    rfl
  · refine h.take (n := 1) ?_ rfl (realOf_advanceTail q.tail 1) ?_ rfl ?_
    · rw [List.length_cons, UInt32.toNat_one]
      omega
    · show stealOf (advanceTail q.tail 1) = realOf (advanceTail q.tail 1)
      rw [stealOf_advanceTail, if_pos h.steal, realOf_advanceTail]
    · exact h.lies.read h.length_le rfl

theorem popLocal_nil (h : SpmcHolds q []) : Sequential.popLocal q = (q, none) :=
  if_pos (h.head_eq_iff.mpr rfl)

/-- The items that `push_to_mpmc` moves, if the free space is a 32-bit number. -/
theorem pushToMpmc (h : SpmcHolds q l) (hm : QueueHolds m g)
    (hfits : m.capacity.toNat - g.length < 2 ^ 32) {n : Nat}
    (hn : n = min (m.capacity.toNat - g.length) (l.length / 2)) :
    ∃ q' m', Sequential.pushToMpmc q m none = (q', m', UInt32.ofNat n) ∧
      SpmcHolds q' (l.drop n) ∧ q'.capacity = q.capacity ∧
      QueueHolds m' (g ++ l.take n) ∧ m'.capacity = m.capacity := by
  -- Only here the bound on the free space is needed: the cast keeps it.
  have hfree : (m.capacity - m.len).toUInt32.toNat = m.capacity.toNat - g.length := by
    rw [UInt64.toNat_toUInt32, UInt64.toNat_sub_of_le, hm.len, Nat.mod_eq_of_lt hfits]
    rw [UInt64.le_iff_toNat_le, hm.len]
    exact hm.length_le
  obtain ⟨q', m', hrun, hq', htail, hcap, hm', hmcap⟩ := h.toStealHolds.pushToMpmc hm rfl
  have hnum : (overflowCount q.head q.tail (m.capacity - m.len).toUInt32 none).toNat = n := by
    rw [overflowCount, toNat_min, hfree, UInt32.toNat_div, h.count_eq, hn]
    rfl
  rw [hnum] at hq' hm'
  refine ⟨q', m', ?_, ⟨hq', ?_⟩, hcap, hm', hmcap⟩
  · rw [hrun, ← hnum, UInt32.ofNat_toNat]
  · rw [htail, stealOf_advanceTail, if_pos h.steal, realOf_advanceTail]

/-- A push to a queue with room. -/
theorem push (h : SpmcHolds q l) (hroom : l.length < q.capacity.toNat) (v : V) (m : Queue V) :
    ∃ q', Sequential.push q v m = (q', m, none) ∧
      SpmcHolds q' (l ++ [v]) ∧ q'.capacity = q.capacity := by
  obtain ⟨q', hpush, hq', hcap⟩ := h.pushLocalQueue hroom v
  refine ⟨q', ?_, hq', hcap⟩
  rw [Sequential.push, hpush]

/-- A push to a full queue that moves no item changes neither list. -/
theorem push_refused (h : SpmcHolds q l) (hfull : q.capacity.toNat ≤ l.length)
    (hm : QueueHolds m g) (hfits : m.capacity.toNat - g.length < 2 ^ 32)
    (hn : min (m.capacity.toNat - g.length) (l.length / 2) = 0) (v : V) :
    ∃ q' m', Sequential.push q v m = (q', m', some v) ∧
      SpmcHolds q' l ∧ q'.capacity = q.capacity ∧ QueueHolds m' g ∧ m'.capacity = m.capacity := by
  obtain ⟨q', m', hmove, hq', hcap, hm', hmcap⟩ := h.pushToMpmc hm hfits hn.symm
  rw [List.take_zero, List.append_nil] at hm'
  refine ⟨q', m', ?_, hq', hcap, hm', hmcap⟩
  rw [Sequential.push, h.pushLocalQueue_full hfull, hmove]
  rfl

/-- A push to a full queue that moves items. -/
theorem push_overflow (h : SpmcHolds q l) (hfull : q.capacity.toNat ≤ l.length)
    (hm : QueueHolds m g) (hfits : m.capacity.toNat - g.length < 2 ^ 32) {n : Nat}
    (hn : n = min (m.capacity.toNat - g.length) (l.length / 2)) (hpos : n ≠ 0) (v : V) :
    ∃ q' m', Sequential.push q v m = (q', m', none) ∧
      SpmcHolds q' (l.drop n ++ [v]) ∧ q'.capacity = q.capacity ∧
      QueueHolds m' (g ++ l.take n) ∧ m'.capacity = m.capacity := by
  have hle := h.length_le
  obtain ⟨q₁, m', hmove, hq₁, hcap₁, hm', hmcap⟩ := h.pushToMpmc hm hfits hn
  obtain ⟨q', hpush, hq', hcap'⟩ :=
    hq₁.pushLocalQueue (by rw [List.length_drop, hcap₁]; omega) v
  -- Items were moved, so the second attempt to push is made and finds room.
  have hmoved : ¬ UInt32.ofNat n = 0 := by
    intro hzero
    have hnat := congrArg UInt32.toNat hzero
    rw [UInt32.toNat_ofNat_of_lt' (show n < 2 ^ 32 by omega), UInt32.toNat_zero] at hnat
    exact hpos hnat
  refine ⟨q', m', ?_, hq', hcap'.trans hcap₁, hm', hmcap⟩
  rw [Sequential.push, h.pushLocalQueue_full hfull]
  rw [hmove]
  dsimp only
  rw [if_neg hmoved, hpush]

theorem fetchFrom (h : SpmcHolds q l) (hm : QueueHolds m g) {n : Nat}
    (hn : n = min g.length (q.capacity.toNat - l.length)) :
    ∃ q' m', Sequential.fetchFrom q m = (q', m', n) ∧
      SpmcHolds q' (l ++ g.take n) ∧ q'.capacity = q.capacity ∧
      QueueHolds m' (g.drop n) ∧ m'.capacity = m.capacity := by
  have hle := h.length_le
  have hpossible : q.fetchCount q.head q.tail m.len.toNat = n := by
    rw [SpmcStealQueue.fetchCount, UInt32.toNat_sub_of_le, h.count_eq, hm.len, hn]
    rw [UInt32.le_iff_toNat_le, h.count_eq]
    exact hle
  have hlen : (g.take n).length = n := by rw [List.length_take]; omega
  have hsplit : QueueHolds m (g.take n ++ g.drop n) := by
    rw [List.take_append_drop]
    exact hm
  obtain ⟨q₁, m', hrun, hsame, hlies, hm', hmcap⟩ :=
    copyFrom_spec (g.take n) 0 h.lies (by rw [hlen]; omega) h.head_mod hsplit
  rw [hlen, Nat.zero_add] at hrun
  refine ⟨{ q₁ with head := q.head + UInt32.ofNat n }, m', ?_, ?_, hsame.capacity, hm', hmcap⟩
  · rw [Sequential.fetchFrom, hpossible, hrun]
  · refine h.publish (by rw [hlen]; omega) hsame.tail ?_ hsame.capacity hlies
    rw [hlen]

/-- A steal that finds items, for another queue with room. -/
theorem stealInternal (h : SpmcHolds q l) (hne : l ≠ []) {l' : List V} (hdst : SpmcHolds dst l')
    {maxStealSize : UInt32} (hmax : maxStealSize.toNat = dst.capacity.toNat - l'.length)
    (hroom : l'.length < dst.capacity.toNat) {divider : UInt8} {n : Nat}
    (hn : n = max 1 (min (l.length / divider.toNat) (dst.capacity.toNat - l'.length))) :
    ∃ q' dst', Sequential.stealInternal q dst dst.head maxStealSize divider =
        (q', dst', UInt32.ofNat n) ∧
      SpmcHolds q' (l.drop n) ∧ q'.capacity = q.capacity ∧
      SameCounters dst dst' ∧ Lies dst' (realOf dst.tail).toNat (l' ++ l.take n) := by
  have hle := h.length_le
  have hpos : 0 < l.length := List.length_pos_iff.mpr hne
  have hdiv : l.length / divider.toNat ≤ l.length := Nat.div_le_self _ _
  have hhead : ¬ q.head = (unpackTail q.tail).2 := fun heq => hne (h.head_eq_iff.mp heq)
  have hsteal : ¬ (unpackTail q.tail).1 ≠ (unpackTail q.tail).2 := fun hsteal => hsteal h.steal
  generalize hcount : stealCount q.head q.tail maxStealSize divider = count
  have hnum : count.toNat = n := by
    rw [← hcount, stealCount, toNat_max, toNat_min, UInt32.toNat_div, h.count_eq, hmax,
      UInt8.toNat_toUInt32, UInt32.toNat_one, hn, Nat.max_comm]
  have hnle : n ≤ l.length := by omega
  have hnot : ¬ count = 0 := by
    intro hzero
    rw [hzero, UInt32.toNat_zero] at hnum
    omega
  have hlen : (l.take n).length = n := by rw [List.length_take, Nat.min_eq_left hnle]
  -- The claim moves `real_tail` only; the items are still in their slots.
  let claimed : SpmcStealQueue V := { q with tail := claimTail q.tail count }
  have hlies : Lies claimed (realOf q.tail).toNat (l.take n ++ l.drop n) := by
    rw [List.take_append_drop]
    exact h.lies
  obtain ⟨q₁, dst', hrun, hsame, hrest, hsame', hlies'⟩ :=
    copyInto_spec (l.take n) (l.drop n) (q.index (realOf q.tail)) dst.head 0 hlies
      (by rw [List.take_append_drop]; exact hle) (index_toNat_mod q (realOf q.tail)) hdst.lies
      (by rw [hlen]; omega) hdst.head_mod
  rw [hlen] at hrun hrest
  have hcountn : count = UInt32.ofNat n := by rw [← hnum, UInt32.ofNat_toNat]
  refine ⟨{ q₁ with tail := alignTail q₁.tail }, dst', ?_, ?_, hsame.capacity, hsame', hlies'⟩
  · rw [Sequential.stealInternal]
    dsimp only
    rw [if_neg hhead, if_neg hsteal, hcount, if_neg hnot, hnum]
    have hrun' : copyInto { q with tail := claimTail q.tail count } dst
        (q.index (unpackTail q.tail).2) dst.head 0 n = (q₁, dst') := hrun
    rw [hrun', hcountn]
  · have htail : q₁.tail = claimTail q.tail count := hsame.tail
    rw [← hnum] at hrest ⊢
    refine h.take (by omega) hsame.head ?_ ?_ hsame.capacity hrest
    · show realOf (alignTail q₁.tail) = realOf q.tail + count
      rw [realOf_alignTail, htail, realOf_claimTail]
    · show stealOf (alignTail q₁.tail) = realOf (alignTail q₁.tail)
      rw [stealOf_alignTail, realOf_alignTail]

theorem stealInternal_nil (h : SpmcHolds q []) (dst : SpmcStealQueue V)
    (dstHead maxStealSize : UInt32) (divider : UInt8) :
    Sequential.stealInternal q dst dstHead maxStealSize divider = (q, dst, 0) :=
  if_pos (h.head_eq_iff.mpr rfl)

theorem stealInto (h : SpmcHolds q l) (hne : l ≠ []) {l' : List V} (hdst : SpmcHolds dst l')
    (hroom : l'.length < dst.capacity.toNat) {divider : Option UInt8}
    (hdivider : divider.getD 0 ≤ 253) {n : Nat}
    (hn : n = max 1 (min (l.length / ((divider.getD 0).toNat + 2))
      (dst.capacity.toNat - l'.length))) :
    ∃ q' dst' k, Sequential.stealInto q dst divider = (q', dst', some k) ∧ k.toNat = n ∧
      SpmcHolds q' (l.drop n) ∧ q'.capacity = q.capacity ∧
      SpmcHolds dst' (l' ++ l.take n) ∧ dst'.capacity = dst.capacity := by
  have hle := h.length_le
  have hlt := capacity_lt q
  have hpos : 0 < l.length := List.length_pos_iff.mpr hne
  have hdiv : l.length / ((divider.getD 0).toNat + 2) ≤ l.length := Nat.div_le_self _ _
  have hnle : n ≤ l.length := by omega
  have hspace : ¬ dst.capacity ≤ dst.head - (unpackTail dst.tail).1 := by
    rw [UInt32.le_iff_toNat_le, hdst.used_eq]
    omega
  have hmax : (dst.capacity - (dst.head - (unpackTail dst.tail).1)).toNat =
      dst.capacity.toNat - l'.length := by
    rw [UInt32.toNat_sub_of_le, hdst.used_eq]
    exact UInt32.le_of_lt (UInt32.not_le.mp hspace)
  -- The divider of at most 253 leaves room for the 2.
  have hadd : (divider.getD 0 + 2).toNat = (divider.getD 0).toNat + 2 := by
    have hnat : (divider.getD 0).toNat ≤ 253 := UInt8.le_iff_toNat_le.mp hdivider
    rw [UInt8.toNat_add]
    exact Nat.mod_eq_of_lt (show (divider.getD 0).toNat + 2 < 2 ^ 8 by omega)
  have hn' : n = max 1 (min (l.length / (divider.getD 0 + 2).toNat)
      (dst.capacity.toNat - l'.length)) := by rw [hadd]; exact hn
  obtain ⟨q', dst₁, hrun, hq', hcap, hsame, hlies⟩ := h.stealInternal hne hdst hmax hroom hn'
  have hk : (UInt32.ofNat n).toNat = n := UInt32.toNat_ofNat_of_lt' (show n < 2 ^ 32 by omega)
  have hnot : ¬ UInt32.ofNat n = 0 := by
    intro hzero
    rw [hzero, UInt32.toNat_zero] at hk
    omega
  have hlen : (l.take n).length = n := by rw [List.length_take, Nat.min_eq_left hnle]
  refine ⟨q', { dst₁ with head := dst.head + UInt32.ofNat n }, UInt32.ofNat n, ?_, hk, hq', hcap,
    ?_, hsame.capacity⟩
  · rw [Sequential.stealInto]
    rw [if_neg hspace, hrun]
    dsimp only
    rw [if_neg hnot]
  · refine hdst.publish (by rw [hlen]; omega) hsame.tail ?_ hsame.capacity hlies
    rw [hlen]

/-- There is nothing to steal, or no room for it. -/
theorem stealInto_none (h : SpmcHolds q l) {l' : List V} (hdst : SpmcHolds dst l')
    (hnone : l = [] ∨ dst.capacity.toNat ≤ l'.length) (divider : Option UInt8) :
    Sequential.stealInto q dst divider = (q, dst, none) := by
  rw [Sequential.stealInto]
  by_cases hspace : dst.capacity ≤ dst.head - (unpackTail dst.tail).1
  · rw [if_pos hspace]
  · rw [if_neg hspace]
    rw [UInt32.le_iff_toNat_le, hdst.used_eq] at hspace
    have hnil := hnone.resolve_right hspace
    subst hnil
    rw [h.stealInternal_nil]
    rfl

end SpmcHolds

theorem QueueHolds.contents_eq (h : QueueHolds m g) : mpmcContents m = g := by
  have hvalues : RingHolds m.capacity.toNat (fun k => (m.data (UInt64.ofNat k)).value?)
      m.tail.toNat g := by
    refine RingHolds.mono h.ring ?_
    intro k v hk
    have hdata : m.data (UInt64.ofNat k) = .full v := unread_eq_some.mp hk
    rw [hdata]
    rfl
  have hlist := hvalues.filterMap_range
  rw [mpmcContents, h.len]
  refine Eq.trans ?_ hlist
  congr 1
  funext k
  rw [queue_index_eq, queue_add_mod]

end Kyron.Proofs.Containers
