import Kyron.Io.Fds

/-!
# `Kyron.Proofs.Io.Fds`: the table of file descriptors is a map

`IndexOk` ties the three parts of the table together: a file descriptor has the index `i` in
`fd_to_index` exactly if the entry `i` belongs to it, where `select` may have negated the file
descriptor of the entry. `infoOf` is what the table stands for, a map from file descriptors to
infos.

There is one lemma for each operation. A call that returns keeps `IndexOk`, and changes the map as
its name says or not at all. The events of `select` come from entries behind the first one, which is
the internal waker and stays where it is.
-/

set_option autoImplicit false

namespace Kyron.Proofs.Io

open Kyron.Io
open Function

/-! ### `swap_remove` -/

variable {index i : Nat} {α : Type} {pollfd : PollFd} {r : Except CommonErrors Unit}

/-- `swap_remove` moves the last element to the hole. -/
theorem getElem?_swapRemove {l : List α} (h : index < l.length) (j : Nat) :
    (swapRemove l index)[j]? =
      if j < l.length - 1 then if j = index then l[l.length - 1]? else l[j]? else none := by
  unfold swapRemove
  split
  · rename_i last hlast
    rw [List.getLast?_eq_getElem?] at hlast
    rw [List.getElem?_dropLast, List.length_set, List.getElem?_set, hlast]
    by_cases hj : j < l.length - 1
    · rw [if_pos hj, if_pos hj]
      by_cases hindex : j = index
      · rw [if_pos hindex.symm, if_pos h, if_pos hindex]
      · rw [if_neg fun heq => hindex heq.symm, if_neg hindex]
    · rw [if_neg hj, if_neg hj]
  · rename_i hnone
    rw [List.getLast?_eq_none_iff.mp hnone] at h
    exact absurd h (Nat.not_lt_zero _)

theorem length_swapRemove {l : List α} (h : index < l.length) :
    (swapRemove l index).length = l.length - 1 := by
  unfold swapRemove
  split
  · rw [List.length_dropLast, List.length_set]
  · rename_i hnone
    rw [List.getLast?_eq_none_iff.mp hnone] at h
    exact absurd h (Nat.not_lt_zero _)

theorem map_swapRemove {β : Type} (f : α → β) (l : List α) (index : Nat) :
    (swapRemove l index).map f = swapRemove (l.map f) index := by
  unfold swapRemove
  rw [List.getLast?_map]
  cases l.getLast? with
  | none => rfl
  | some last =>
      show List.map f (List.dropLast _) = List.dropLast _
      rw [List.map_dropLast, List.map_set]

theorem getElem?_concat_eq_some {l : List α} {a b : α} :
    (l ++ [a])[i]? = some b ↔ l[i]? = some b ∨ i = l.length ∧ b = a := by
  rcases Nat.lt_trichotomy i l.length with hlt | rfl | hgt
  · rw [List.getElem?_append_left hlt]
    exact ⟨Or.inl, fun h => h.resolve_right fun heq => Nat.ne_of_lt hlt heq.1⟩
  · rw [List.getElem?_concat_length, List.getElem?_eq_none (Nat.le_refl _)]
    simp [eq_comm]
  · rw [List.getElem?_eq_none (by simp; omega), List.getElem?_eq_none (by omega)]
    simp
    omega

theorem set_of_getElem? {l : List α} {a : α} (h : l[i]? = some a) : l.set i a = l := by
  obtain ⟨hlt, rfl⟩ := List.getElem?_eq_some_iff.mp h
  exact List.set_getElem_self hlt

/-! ### Negated file descriptors -/

theorem not_lt_zero_of_nonneg {fd : Int32} (h : ¬ fd < 0) : ~~~fd < 0 := by
  have hlt := fd.toInt_lt
  rw [Int32.lt_iff_toInt_lt] at h ⊢
  rw [Int32.toInt_not, Int.bmod_eq_of_le]
  all_goals
    simp only [Int32.toInt_zero] at h ⊢
    omega

/-- The file descriptor of an entry, also after `select` has negated it. -/
def ownFd (pollfd : PollFd) : Int32 := if pollfd.fd < 0 then ~~~pollfd.fd else pollfd.fd

theorem ownFd_ne_minus_one (pollfd : PollFd) : ownFd pollfd ≠ ~~~0 := by
  intro heq
  unfold ownFd at heq
  split at heq
  · rename_i hneg
    rw [Int32.not_inj.mp heq] at hneg
    exact absurd hneg (by decide)
  · rename_i hnonneg
    rw [heq] at hnonneg
    exact hnonneg (by decide)

/-- What `remove` computes for an entry other than that of file descriptor 0. -/
theorem ownFd_eq_of_ne_zero (h : pollfd.fd ≠ 0) :
    (if 0 < pollfd.fd then pollfd.fd else ~~~pollfd.fd) = ownFd pollfd := by
  unfold ownFd
  by_cases hpos : 0 < pollfd.fd
  · rw [if_pos hpos, if_neg (Int32.lt_asymm hpos)]
  · have hneg : pollfd.fd < 0 := Int32.lt_of_le_of_ne (Int32.not_lt.mp hpos) h
    rw [if_neg hpos, if_pos hneg]

/-- An entry with a negative file descriptor is quiet. -/
def Quiet (pollfd : PollFd) : Prop := pollfd.fd < 0 → pollfd.revents = 0

theorem fd_reportFd (info : FdInfo) (pollfd : PollFd) :
    (reportFd info pollfd).2.fd =
      if pollfd.revents &&& (pollHup ||| pollErr) ≠ 0 then ~~~pollfd.fd else pollfd.fd := by
  unfold reportFd
  by_cases hrevents : pollfd.revents = 0
  · rw [if_pos hrevents, hrevents, if_neg (by simp)]
  · rw [if_neg hrevents]
    cases info.isWaker <;> rfl

theorem ownFd_reportFd (info : FdInfo) (h : Quiet pollfd) :
    ownFd (reportFd info pollfd).2 = ownFd pollfd := by
  unfold ownFd
  rw [fd_reportFd]
  by_cases hgone : pollfd.revents &&& (pollHup ||| pollErr) ≠ 0
  · have hnonneg : ¬ pollfd.fd < 0 := fun hneg => hgone (by rw [h hneg]; simp)
    rw [if_pos hgone, if_pos (not_lt_zero_of_nonneg hnonneg), if_neg hnonneg, Int32.not_not]
  · rw [if_neg hgone]

theorem id_reportFd {info : FdInfo} {event : IoEvent} (h : (reportFd info pollfd).1 = some event) :
    event.id = info.id := by
  unfold reportFd at h
  split at h
  · cases h
  · dsimp only at h
    split at h <;> cases h <;> rfl

/-! ### The table -/

/-- The file descriptors of the entries. -/
def owners (fds : Fds) : List Int32 := fds.pollfds.map ownFd

structure IndexOk (fds : Fds) : Prop where
  length_eq : fds.infos.length = (owners fds).length
  index : ∀ fd i, fds.fdToIndex.lookup fd = some i ↔ (owners fds)[i]? = some fd

/-- What a list in the order of the entries holds for a file descriptor. -/
def valueOf {α : Type} (fds : Fds) (values : List α) (fd : Int32) : Option α :=
  (fds.fdToIndex.lookup fd).bind fun i => values[i]?

/-- The table as a map. -/
def infoOf (fds : Fds) (fd : Int32) : Option FdInfo :=
  (fds.fdToIndex.lookup fd).bind fun i => fds.infos[i]?

variable {fds fds' : Fds} {fd : Int32}

theorem indexOk_new (capacity : Nat) : IndexOk (Fds.new capacity) where
  length_eq := rfl
  index := fun fd i => by
    show AList.lookup fd (∅ : AList fun _ : Int32 => Nat) = some i ↔ ([] : List Int32)[i]? = some fd
    rw [AList.lookup_empty, List.getElem?_nil]
    exact iff_of_false (by simp) (by simp)

/-- Two file descriptors with one index are the same. -/
theorem IndexOk.inj (h : IndexOk fds) {fd' : Int32} (hfd : fds.fdToIndex.lookup fd = some i)
    (hfd' : fds.fdToIndex.lookup fd' = some i) : fd = fd' := by
  rw [h.index] at hfd hfd'
  rw [hfd] at hfd'
  exact Option.some.inj hfd'

theorem IndexOk.lt_length (h : IndexOk fds) (hfd : fds.fdToIndex.lookup fd = some i) :
    i < fds.infos.length := by
  rw [h.length_eq]
  exact (List.getElem?_eq_some_iff.mp ((h.index fd i).mp hfd)).1

/-- A value at the end of such a list belongs to the new file descriptor. -/
theorem IndexOk.valueOf_append (h : IndexOk fds) {values : List α} (value : α)
    (hlen : values.length = fds.infos.length)
    (hindex : fds'.fdToIndex = fds.fdToIndex.insert fd fds.infos.length) :
    valueOf fds' (values ++ [value]) = Function.update (valueOf fds values) fd (some value) := by
  funext fd'
  unfold valueOf
  rw [hindex]
  by_cases hfd : fd' = fd
  · rw [hfd, update_self, AList.lookup_insert, ← hlen]
    exact List.getElem?_concat_length
  · rw [update_of_ne hfd, AList.lookup_insert_ne hfd]
    exact Option.bind_congr fun i hi => List.getElem?_append_left (hlen ▸ h.lt_length hi)

/-- An entry at the end. -/
theorem IndexOk.append (h : IndexOk fds) {info : FdInfo} (hnone : fds.fdToIndex.lookup fd = none)
    (hindex : fds'.fdToIndex = fds.fdToIndex.insert fd fds.infos.length)
    (hinfos : fds'.infos = fds.infos ++ [info]) (howners : owners fds' = owners fds ++ [fd]) :
    IndexOk fds' ∧ infoOf fds' = Function.update (infoOf fds) fd (some info) := by
  refine ⟨⟨?_, fun fd' i => ?_⟩, ?_⟩
  · rw [hinfos, howners, List.length_append, List.length_append, h.length_eq]
    rfl
  · rw [hindex, howners, getElem?_concat_eq_some, ← h.index, ← h.length_eq]
    by_cases hfd : fd' = fd
    · rw [hfd, AList.lookup_insert, hnone]
      simp [eq_comm]
    · rw [AList.lookup_insert_ne hfd]
      simp [hfd]
  · show valueOf fds' fds'.infos = Function.update (valueOf fds fds.infos) fd (some info)
    rw [hinfos]
    exact h.valueOf_append info rfl hindex

/-- `add` that returns. -/
theorem add_cases (h : IndexOk fds) {id : UInt64} {interest : IoEventInterest} {isWaker : Bool}
    (hadd : fds.add fd id interest isWaker = some (fds', r)) : fds' = fds ∧ r ≠ .ok () ∨
      r = .ok () ∧ fds.fdToIndex.lookup fd = none ∧
        fds'.fdToIndex = fds.fdToIndex.insert fd fds.infos.length ∧
        IndexOk fds' ∧ infoOf fds' = Function.update (infoOf fds) fd (some ⟨id, isWaker⟩) := by
  unfold Fds.add at hadd
  by_cases hneg : fd < 0
  · rw [if_pos hneg] at hadd
    cases hadd
    exact Or.inl ⟨rfl, by simp⟩
  · rw [if_neg hneg] at hadd
    by_cases hthere : fds.contains fd = true
    · rw [if_pos hthere] at hadd
      cases hadd
      exact Or.inl ⟨rfl, by simp⟩
    · rw [if_neg hthere] at hadd
      split at hadd
      · cases hadd
        exact Or.inl ⟨rfl, by simp⟩
      · split at hadd <;> cases hadd
        have hnone : fds.fdToIndex.lookup fd = none := by
          simpa [Fds.contains] using hthere
        refine Or.inr ⟨rfl, hnone, rfl, h.append hnone rfl rfl ?_⟩
        simp [owners, ownFd, hneg]

/-- `fds'` is the table without `fd`. -/
structure Removed (fds fds' : Fds) (fd : Int32) : Prop where
  ok : IndexOk fds'
  infoOf_eq : infoOf fds' = Function.update (infoOf fds) fd none
  first : ∀ fd₀, fd₀ ≠ fd → fds.fdToIndex.lookup fd₀ = some 0 → fds'.fdToIndex.lookup fd₀ = some 0

/-- The index of `fd` is free and the file descriptor of the last entry has got it. -/
def MovedLast (fds fds' : Fds) (fd : Int32) (index : Nat) : Prop :=
  ∀ fd', fds'.fdToIndex.lookup fd' =
    if fd' = fd then none
    else if fds.fdToIndex.lookup fd' = some (fds.infos.length - 1) then some index
    else fds.fdToIndex.lookup fd'

/-- Another file descriptor has another index. -/
theorem IndexOk.index_ne (h : IndexOk fds) (hfd : fds.fdToIndex.lookup fd = some index)
    {fd' : Int32} (hne : fd' ≠ fd) (hi : fds.fdToIndex.lookup fd' = some i) :
    i < fds.infos.length ∧ i ≠ index := by
  refine ⟨h.lt_length hi, fun heq => hne ?_⟩
  rw [heq] at hi
  exact h.inj hi hfd

/-- A list in the order of the entries keeps its values if its last one moves too. -/
theorem IndexOk.valueOf_swapRemove (h : IndexOk fds) {values : List α}
    (hlen : values.length = fds.infos.length) (hfd : fds.fdToIndex.lookup fd = some index)
    (hindex : MovedLast fds fds' fd index) :
    valueOf fds' (swapRemove values index) = Function.update (valueOf fds values) fd none := by
  have hlt : index < values.length := hlen ▸ h.lt_length hfd
  funext fd'
  unfold valueOf
  rw [hindex]
  by_cases hself : fd' = fd
  · rw [hself, update_self, if_pos rfl]
    rfl
  · rw [update_of_ne hself, if_neg hself]
    cases hlookup : fds.fdToIndex.lookup fd' with
    | none => rfl
    | some j =>
        obtain ⟨hj, hne⟩ := h.index_ne hfd hself hlookup
        by_cases hlast : j = fds.infos.length - 1
        · rw [if_pos (by rw [hlast])]
          show (Kyron.Io.swapRemove _ _)[_]? = values[j]?
          rw [getElem?_swapRemove hlt, if_pos (by omega), if_pos rfl, hlast, hlen]
        · rw [if_neg (by simpa using hlast)]
          show (Kyron.Io.swapRemove _ _)[j]? = values[j]?
          rw [getElem?_swapRemove hlt, if_pos (by omega), if_neg hne]

/-- The last entry is moved to the index of a removed one. -/
theorem IndexOk.swapRemove (h : IndexOk fds) (hfd : fds.fdToIndex.lookup fd = some index)
    (hindex : MovedLast fds fds' fd index)
    (hinfos : fds'.infos = Kyron.Io.swapRemove fds.infos index)
    (howners : owners fds' = Kyron.Io.swapRemove (owners fds) index) : Removed fds fds' fd := by
  have hlt := h.lt_length hfd
  have hlt' : index < (owners fds).length := h.length_eq ▸ hlt
  refine ⟨⟨?_, fun fd' i => ?_⟩, ?_, fun fd₀ hne hfirst => ?_⟩
  · rw [hinfos, howners, length_swapRemove hlt, length_swapRemove hlt', h.length_eq]
  · have hmoved : (if i < fds.infos.length - 1 then
          if i = index then (owners fds)[fds.infos.length - 1]? else (owners fds)[i]?
        else none) = some fd' ↔
        i < fds.infos.length - 1 ∧
          if i = index then fds.fdToIndex.lookup fd' = some (fds.infos.length - 1)
          else fds.fdToIndex.lookup fd' = some i := by
      rw [h.index, h.index]
      split
      · rename_i hi
        split
        · exact ⟨fun heq => ⟨hi, heq⟩, And.right⟩
        · exact ⟨fun heq => ⟨hi, heq⟩, And.right⟩
      · rename_i hi
        exact iff_of_false (by simp) fun hmem => hi hmem.1
    rw [hindex, howners, getElem?_swapRemove hlt', ← h.length_eq, hmoved]
    by_cases hself : fd' = fd
    · rw [if_pos hself, hself, hfd]
      refine iff_of_false (by simp) ?_
      rintro ⟨hi, heq⟩
      split at heq <;> cases heq <;> omega
    · rw [if_neg hself]
      cases hlookup : fds.fdToIndex.lookup fd' with
      | none =>
          rw [if_neg (by simp)]
          refine iff_of_false (by simp) ?_
          rintro ⟨-, heq⟩
          split at heq <;> cases heq
      | some j =>
          obtain ⟨hj, hne⟩ := h.index_ne hfd hself hlookup
          simp only [Option.some.injEq]
          split <;> split <;> simp only [Option.some.injEq] <;> omega
  · show valueOf fds' fds'.infos = Function.update (valueOf fds fds.infos) fd none
    rw [hinfos]
    exact h.valueOf_swapRemove rfl hfd hindex
  · obtain ⟨-, hzero⟩ := h.index_ne hfd hne hfirst
    rw [hindex, if_neg hne, hfirst, if_neg]
    simp only [Option.some.injEq]
    omega

/-- The last entry is removed. -/
theorem IndexOk.lookup_erase (h : IndexOk fds)
    (hfd : fds.fdToIndex.lookup fd = some (fds.infos.length - 1)) (fd' : Int32) :
    (fds.fdToIndex.erase fd).lookup fd' =
      if fd' = fd then none
      else if fds.fdToIndex.lookup fd' = some (fds.infos.length - 1)
        then some (fds.infos.length - 1)
      else fds.fdToIndex.lookup fd' := by
  by_cases hself : fd' = fd
  · rw [if_pos hself, hself, AList.lookup_erase]
  · rw [if_neg hself, if_neg fun hlast => hself (h.inj hlast hfd), AList.lookup_erase_ne hself]

/-- Another entry is removed, and the last one gets its index. -/
theorem IndexOk.lookup_insert_erase (h : IndexOk fds) {moved : Int32}
    (hmoved : fds.fdToIndex.lookup moved = some (fds.infos.length - 1)) (hne : moved ≠ fd)
    (fd' : Int32) : ((fds.fdToIndex.erase fd).insert moved index).lookup fd' =
      if fd' = fd then none
      else if fds.fdToIndex.lookup fd' = some (fds.infos.length - 1) then some index
      else fds.fdToIndex.lookup fd' := by
  by_cases hself : fd' = moved
  · rw [hself, if_neg hne, if_pos hmoved, AList.lookup_insert]
  · rw [AList.lookup_insert_ne hself]
    by_cases hfd : fd' = fd
    · rw [if_pos hfd, hfd, AList.lookup_erase]
    · rw [if_neg hfd, if_neg fun hlast => hself (h.inj hlast hmoved), AList.lookup_erase_ne hfd]

/-- The file descriptor that `remove` computes for the moved entry, if it finds it. -/
theorem IndexOk.fd_of_contains (h : IndexOk fds) (hfound : ((fds.fdToIndex.erase fd).lookup
      (if 0 < pollfd.fd then pollfd.fd else ~~~pollfd.fd)).isSome = true) :
    (if 0 < pollfd.fd then pollfd.fd else ~~~pollfd.fd) = ownFd pollfd ∧ ownFd pollfd ≠ fd := by
  obtain ⟨i, hi⟩ := Option.isSome_iff_exists.mp hfound
  have hne : (if 0 < pollfd.fd then pollfd.fd else ~~~pollfd.fd) ≠ fd := by
    intro heq
    rw [heq, AList.lookup_erase] at hi
    cases hi
  have hzero : pollfd.fd ≠ 0 := by
    intro hzero
    -- The negation of file descriptor 0 belongs to no entry.
    rw [AList.lookup_erase_ne hne, hzero, h.index] at hi
    obtain ⟨p, -, hp⟩ := List.mem_map.mp (List.mem_of_getElem? hi)
    exact ownFd_ne_minus_one p hp
  rw [ownFd_eq_of_ne_zero hzero] at hne ⊢
  exact ⟨rfl, hne⟩

theorem IndexOk.pollfds_length (h : IndexOk fds) : fds.pollfds.length = fds.infos.length := by
  rw [h.length_eq, owners, List.length_map]

/-- The index of an entry is found by its own file descriptor. -/
theorem IndexOk.lookup_ownFd (h : IndexOk fds) (hpollfd : fds.pollfds[i]? = some pollfd) :
    fds.fdToIndex.lookup (ownFd pollfd) = some i := by
  rw [h.index, owners, List.getElem?_map, hpollfd]
  rfl

/-- `remove` that returns: it has not found the file descriptor, or it has moved the last entry to
the index of the removed one. -/
theorem remove_moves (h : IndexOk fds) (hremove : fds.remove fd = some (fds', r)) :
    fds' = fds ∧ fds.fdToIndex.lookup fd = none ∧ r = .error .notFound ∨
      ∃ index, fds.fdToIndex.lookup fd = some index ∧ r = .ok () ∧ MovedLast fds fds' fd index ∧
        fds'.infos = swapRemove fds.infos index ∧ fds'.pollfds = swapRemove fds.pollfds index ∧
        fds'.capacity = fds.capacity := by
  unfold Fds.remove at hremove
  cases hfd : fds.fdToIndex.lookup fd with
  | none =>
      rw [hfd] at hremove
      cases hremove
      exact Or.inl ⟨rfl, rfl, rfl⟩
  | some index =>
      have hlt := h.lt_length hfd
      have hlt' : index < fds.pollfds.length := h.pollfds_length ▸ hlt
      rw [hfd] at hremove
      dsimp only at hremove
      rw [if_pos ⟨hlt, hlt'⟩, getElem?_swapRemove hlt'] at hremove
      refine Or.inr ⟨index, rfl, ?_⟩
      by_cases hlast : index < fds.pollfds.length - 1
      · rw [if_pos hlast, if_pos rfl] at hremove
        split at hremove
        · rename_i hnone
          rw [List.getElem?_eq_none_iff] at hnone
          omega
        · rename_i pollfd hpollfd
          generalize hfd₁ : (if 0 < pollfd.fd then pollfd.fd else ~~~pollfd.fd) = fd₁ at hremove
          split at hremove <;> cases hremove
          rename_i hfound
          rw [← hfd₁] at hfound
          obtain ⟨heq, hne⟩ := h.fd_of_contains hfound
          rw [h.pollfds_length] at hpollfd
          have hmoved := h.lookup_ownFd hpollfd
          rw [← hfd₁, heq]
          exact ⟨rfl, h.lookup_insert_erase hmoved hne, rfl, rfl, rfl⟩
      · rw [if_neg hlast] at hremove
        cases hremove
        rw [h.pollfds_length] at hlast
        obtain rfl : index = fds.infos.length - 1 := by omega
        exact ⟨rfl, h.lookup_erase hfd, rfl, rfl, rfl⟩

theorem remove_cases (h : IndexOk fds) (hremove : fds.remove fd = some (fds', r)) :
    fds' = fds ∧ fds.fdToIndex.lookup fd = none ∨ Removed fds fds' fd := by
  rcases remove_moves h hremove with ⟨hsame, hnone, -⟩ |
    ⟨index, hfd, -, hmoved, hinfos, hpollfds, -⟩
  · exact Or.inl ⟨hsame, hnone⟩
  · refine Or.inr (h.swapRemove hfd hmoved hinfos ?_)
    unfold owners
    rw [hpollfds]
    exact map_swapRemove _ _ _

/-- `IndexOk` depends on the owners of the entries and the number of infos alone. -/
theorem IndexOk.congr (h : IndexOk fds) (hindex : fds'.fdToIndex = fds.fdToIndex)
    (hlen : fds'.infos.length = fds.infos.length) (howners : owners fds' = owners fds) :
    IndexOk fds' := by
  refine ⟨?_, fun fd i => ?_⟩
  · rw [hlen, howners, h.length_eq]
  · rw [hindex, howners, h.index]

/-- A list in the order of the entries with a new value at the index of `fd`. -/
theorem IndexOk.valueOf_set (h : IndexOk fds) {values : List α} (value : α)
    (hlen : values.length = fds.infos.length) (hfd : fds.fdToIndex.lookup fd = some index)
    (hindex : fds'.fdToIndex = fds.fdToIndex) : valueOf fds' (values.set index value) =
      Function.update (valueOf fds values) fd (some value) := by
  funext fd'
  unfold valueOf
  rw [hindex]
  by_cases hself : fd' = fd
  · rw [hself, update_self, hfd]
    exact List.getElem?_set_self (hlen ▸ h.lt_length hfd)
  · rw [update_of_ne hself]
    refine Option.bind_congr fun i hi => List.getElem?_set_ne fun heq => hself ?_
    rw [← heq] at hi
    exact h.inj hi hfd

/-- The requested events of an entry have nothing to do with its owner. -/
theorem map_ownFd_set {pollfds : List PollFd} (hpollfd : pollfds[index]? = some pollfd)
    (events : UInt16) :
    (pollfds.set index { pollfd with events }).map ownFd = pollfds.map ownFd := by
  rw [List.map_set, show ownFd { pollfd with events } = ownFd pollfd from rfl]
  exact set_of_getElem? (by rw [List.getElem?_map, hpollfd]; rfl)

/-- `update` that returns. -/
theorem update_cases (h : IndexOk fds) {id : UInt64} {interest : IoEventInterest}
    (hupdate : fds.update fd id interest = some (fds', r)) : fds' = fds ∨
      IndexOk fds' ∧ fds'.fdToIndex = fds.fdToIndex ∧ ∃ info, infoOf fds fd = some info ∧
        infoOf fds' = Function.update (infoOf fds) fd (some { info with id }) := by
  unfold Fds.update at hupdate
  split at hupdate
  · rename_i index hfd
    split at hupdate
    · rename_i info pollfd hinfo hpollfd
      split at hupdate <;> cases hupdate
      · exact Or.inl rfl
      · refine Or.inr ⟨?_, rfl, info, ?_, ?_⟩
        · exact h.congr rfl List.length_set (map_ownFd_set hpollfd _)
        · unfold infoOf
          rw [hfd]
          exact hinfo
        · exact h.valueOf_set { info with id } rfl hfd rfl
    · cases hupdate
  · cases hupdate
    exact Or.inl rfl

/-! ### `select` -/

/-- The loop keeps the owners of the entries, and its events come from the entries. -/
theorem reportFds_spec (capacity pollResult : Nat) (entries : List (FdInfo × PollFd))
    (eventsProcessed : Nat) (events : List IoEvent) (hquiet : ∀ e ∈ entries, Quiet e.2) :
    (Fds.reportFds capacity pollResult entries eventsProcessed events).1.map ownFd =
        entries.map (fun e => ownFd e.2) ∧
      ∀ reported, (Fds.reportFds capacity pollResult entries eventsProcessed events).2 =
        .ok reported → ∀ event ∈ reported, event ∈ events ∨ ∃ e ∈ entries, e.1.id = event.id := by
  induction entries generalizing eventsProcessed events with
  | nil =>
      refine ⟨rfl, fun reported hreported event hevent => Or.inl ?_⟩
      cases hreported
      exact hevent
  | cons entry rest ih =>
      obtain ⟨info, pollfd⟩ := entry
      have hself := ownFd_reportFd info (hquiet (info, pollfd) List.mem_cons_self)
      have hrest := fun e he => hquiet e (List.mem_cons_of_mem _ he)
      unfold Fds.reportFds
      by_cases hdone : eventsProcessed = pollResult
      · rw [if_pos hdone]
        refine ⟨by simp, fun reported hreported event hevent => Or.inl ?_⟩
        cases hreported
        exact hevent
      · rw [if_neg hdone]
        by_cases hfull : events.length = capacity
        · rw [if_pos hfull]
          refine ⟨by simp, fun reported hreported => ?_⟩
          cases hreported
        · rw [if_neg hfull]
          cases hreport : reportFd info pollfd with
          | mk reported pollfd' =>
              rw [hreport] at hself
              cases reported with
              | none =>
                  obtain ⟨howners, hevents⟩ := ih eventsProcessed events hrest
                  refine ⟨congrArg₂ _ hself howners, fun reported hreported event hevent => ?_⟩
                  refine (hevents reported hreported event hevent).imp_right ?_
                  exact fun ⟨e, he, hid⟩ => ⟨e, List.mem_cons_of_mem _ he, hid⟩
              | some pushed =>
                  obtain ⟨howners, hevents⟩ := ih (eventsProcessed + 1) (events ++ [pushed]) hrest
                  refine ⟨congrArg₂ _ hself howners, fun reported hreported event hevent => ?_⟩
                  have hid : pushed.id = info.id := id_reportFd (by rw [hreport])
                  rcases hevents reported hreported event hevent with hmem | ⟨e, he, hid'⟩
                  · rcases List.mem_append.mp hmem with hold | hnew
                    · exact Or.inl hold
                    · rw [List.mem_singleton.mp hnew]
                      exact Or.inr ⟨(info, pollfd), List.mem_cons_self, hid.symm⟩
                  · exact Or.inr ⟨e, List.mem_cons_of_mem _ he, hid'⟩

theorem owners_poll (fds : Fds) (revents : Nat → UInt16) :
    owners (fds.poll revents) = owners fds := by
  refine List.ext_getElem? fun i => ?_
  unfold owners Fds.poll
  rw [List.getElem?_map, List.getElem?_map, List.getElem?_mapIdx, Option.map_map]
  rfl

theorem quiet_poll {revents : Nat → UInt16} (hmem : pollfd ∈ (fds.poll revents).pollfds) :
    Quiet pollfd := by
  obtain ⟨i, hi, rfl⟩ := List.mem_mapIdx.mp hmem
  intro hneg
  exact if_pos hneg

/-- With the same infos the map depends on the owners of the entries alone. -/
theorem IndexOk.of_owners (h : IndexOk fds) (hindex : fds'.fdToIndex = fds.fdToIndex)
    (hinfos : fds'.infos = fds.infos) (howners : owners fds' = owners fds) :
    IndexOk fds' ∧ infoOf fds' = infoOf fds := by
  refine ⟨h.congr hindex (by rw [hinfos]) howners, funext fun fd => ?_⟩
  unfold infoOf
  rw [hindex, hinfos]

/-- What the loop of `select` leaves of the entries behind the first one, if it stops early. -/
theorem map_ownFd_reported {infos : List FdInfo} {pollfds reported : List PollFd} {k : Nat}
    (hlen : pollfds.length ≤ infos.length)
    (hreported : reported.map ownFd = ((infos.zip pollfds).take k).map fun e => ownFd e.2) :
    (reported ++ pollfds.drop reported.length).map ownFd = pollfds.map ownFd := by
  have htake : ((infos.zip pollfds).take k).map (fun e => ownFd e.2) =
      (pollfds.take k).map ownFd := by
    show List.map (ownFd ∘ Prod.snd) _ = _
    rw [← List.map_map, List.map_take, List.map_snd_zip hlen]
  have hlength := congrArg List.length (hreported.trans htake)
  rw [List.length_map, List.length_map, List.length_take] at hlength
  rw [List.map_append, hreported, htake, ← List.map_append, hlength, List.take_eq_take_min,
    List.take_append_drop]

/-- `select` that returns. -/
theorem select_cases (h : IndexOk fds) {capacity : Nat} {revents : Nat → UInt16}
    {result : Fds.SelectResult} (hselect : fds.select capacity revents = some (fds', result)) :
    IndexOk fds' ∧ infoOf fds' = infoOf fds ∧ fds'.fdToIndex = fds.fdToIndex ∧
      ∀ events, result = .done (.ok events) → ∀ event ∈ events, ∃ fd i info,
        fds.fdToIndex.lookup fd = some (i + 1) ∧ infoOf fds fd = some info ∧
          info.id = event.id := by
  have hpoll : IndexOk (fds.poll revents) ∧ infoOf (fds.poll revents) = infoOf fds :=
    h.of_owners rfl rfl (owners_poll fds revents)
  obtain ⟨hok, hinfo⟩ := hpoll
  unfold Fds.select at hselect
  dsimp only at hselect
  split at hselect
  · cases hselect
    exact ⟨hok, hinfo, rfl, fun events hevents => by cases hevents⟩
  · split at hselect
    · cases hselect
    · rename_i internal pollfds hpollfds
      split at hselect
      · cases hselect
        exact ⟨hok, hinfo, rfl, fun events hevents => by cases hevents⟩
      · generalize hentries : ((fds.poll revents).infos.tail.zip pollfds).take
          ((fds.poll revents).len - 1) = entries at hselect
        have hquiet : ∀ e ∈ entries, Quiet e.2 := by
          intro e he
          rw [← hentries] at he
          have hmem := (List.of_mem_zip (List.mem_of_mem_take he)).2
          exact quiet_poll (hpollfds ▸ List.mem_cons_of_mem internal hmem)
        obtain ⟨howners, hevents⟩ := reportFds_spec capacity (fds.poll revents).pollResult entries
          (if internal.revents ≠ 0 then 1 else 0) [] hquiet
        have hlen : pollfds.length ≤ (fds.poll revents).infos.tail.length := by
          rw [List.length_tail, hok.length_eq, owners, List.length_map, hpollfds]
          exact Nat.le_refl _
        have hkept := map_ownFd_reported hlen (howners.trans (congrArg _ hentries.symm))
        obtain ⟨hfds, hresult⟩ := Prod.mk.inj (Option.some.inj hselect)
        have hindex : fds'.fdToIndex = (fds.poll revents).fdToIndex := by rw [← hfds]
        have hinfos : fds'.infos = (fds.poll revents).infos := by rw [← hfds]
        have hsame : owners fds' = owners (fds.poll revents) := by
          rw [← hfds]
          show List.map ownFd (internal :: (_ ++ _)) = List.map ownFd _
          rw [hpollfds, List.map_cons, List.map_cons, hkept]
        obtain ⟨hok', hinfo'⟩ := hok.of_owners hindex hinfos hsame
        refine ⟨hok', hinfo'.trans hinfo, hindex, fun events hdone event hevent => ?_⟩
        rw [← hresult] at hdone
        injection hdone with hdone
        rcases hevents events hdone event hevent with hnil | ⟨e, he, hid⟩
        · cases hnil
        · -- The entry at `i` of the rest has the index `i + 1`.
          rw [← hentries] at he
          obtain ⟨i, hi⟩ := List.mem_iff_getElem?.mp (List.mem_of_mem_take he)
          obtain ⟨hinfo₁, hpollfd₁⟩ := List.getElem?_zip_eq_some.mp hi
          rw [List.getElem?_tail] at hinfo₁
          have hfd : fds.fdToIndex.lookup (ownFd e.2) = some (i + 1) := by
            rw [h.index, ← owners_poll fds revents, owners, hpollfds, List.getElem?_map,
              List.getElem?_cons_succ, hpollfd₁]
            rfl
          refine ⟨ownFd e.2, i, e.1, hfd, ?_, hid⟩
          unfold infoOf
          rw [hfd]
          exact hinfo₁

end Kyron.Proofs.Io
