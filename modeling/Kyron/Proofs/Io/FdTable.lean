import Kyron.Io.FdTable
import Kyron.Proofs.Io.Fds

/-!
# `Kyron.Proofs.Io.FdTable`: the table of a selector over any calls

`FdTableOk` holds after every sequence of calls that return: the table is a map (`IndexOk`) and
has no more entries than its capacity.

* `fds_refine_map`: `add`, `update` and `remove` are the operations of `FdMap`, and none of them
  panics. There is one exception. `remove` takes the file descriptor of the moved entry as it is if
  it is positive and negates it back otherwise. File descriptor 0 is not positive, and its negation
  is in no table: `remove_panics_on_zero`.
* `select_reports_ready_once`: what `select` reports and leaves. The loop stops by counting, and
  the count is right: `reportFds_eq`.
-/

set_option autoImplicit false

namespace Kyron.Proofs.Io

open Kyron.Io
open Kyron.Lib

variable {fds fds' : Fds} {fd : Int32}

/-! ### The entries as a map -/

/-- The map that the table stands for. -/
def entryOf (fds : Fds) : FdMap := fun fd =>
  (infoOf fds fd).bind fun info => (valueOf fds fds.pollfds fd).map fun pollfd => (info, pollfd)

theorem entryOf_eq_none (hfd : fds.fdToIndex.lookup fd = none) : entryOf fds fd = none := by
  unfold entryOf infoOf
  rw [hfd]
  rfl

variable {info : FdInfo} {pollfd : PollFd} {revents : Nat → UInt16}

/-- The entry of a file descriptor, through its index. -/
theorem entryOf_eq_some {i : Nat} (hfd : fds.fdToIndex.lookup fd = some i)
    (hinfo : fds.infos[i]? = some info) (hpollfd : fds.pollfds[i]? = some pollfd) :
    entryOf fds fd = some (info, pollfd) := by
  unfold entryOf infoOf valueOf
  rw [hfd]
  show (fds.infos[i]?).bind _ = _
  rw [hinfo]
  show (fds.pollfds[i]?).map _ = _
  rw [hpollfd]
  rfl

/-- A file descriptor in the table has an info and a pollfd. -/
theorem IndexOk.exists_entry (h : IndexOk fds) {i : Nat} (hfd : fds.fdToIndex.lookup fd = some i) :
    ∃ info pollfd, fds.infos[i]? = some info ∧ fds.pollfds[i]? = some pollfd ∧
      entryOf fds fd = some (info, pollfd) := by
  have hlt := h.lt_length hfd
  have hinfo := List.getElem?_eq_getElem hlt
  have hpollfd := List.getElem?_eq_getElem (h.pollfds_length ▸ hlt)
  exact ⟨_, _, hinfo, hpollfd, entryOf_eq_some hfd hinfo hpollfd⟩

/-- The entry of one file descriptor is replaced, or removed. -/
theorem entryOf_update {info : Option FdInfo} {pollfd : Option PollFd}
    (hinfo : infoOf fds' = Function.update (infoOf fds) fd info)
    (hpollfd : valueOf fds' fds'.pollfds = Function.update (valueOf fds fds.pollfds) fd pollfd) :
    entryOf fds' = Function.update (entryOf fds) fd
      (info.bind fun info => pollfd.map fun pollfd => (info, pollfd)) := by
  funext fd'
  unfold entryOf
  rw [hinfo, hpollfd]
  by_cases hself : fd' = fd
  · subst hself
    simp
  · simp [hself]

/-- The keys of `fd_to_index` are as many as the entries. -/
theorem IndexOk.len_eq (h : IndexOk fds) : fds.len = fds.infos.length := by
  have hnodup : (owners fds).Nodup := by
    rw [List.nodup_iff_injective_get]
    intro i j hij
    have hi : (owners fds)[i.val]? = some ((owners fds).get i) := List.getElem?_eq_getElem i.isLt
    have hj : (owners fds)[j.val]? = some ((owners fds).get j) := List.getElem?_eq_getElem j.isLt
    rw [hij, ← h.index] at hi
    rw [← h.index, hi] at hj
    exact Fin.ext (Option.some.inj hj)
  have hperm : fds.fdToIndex.keys.Perm (owners fds) := by
    refine (List.perm_ext_iff_of_nodup fds.fdToIndex.nodupKeys hnodup).mpr fun fd => ?_
    show fd ∈ fds.fdToIndex.keys ↔ _
    rw [← AList.mem_keys, ← AList.lookup_isSome, Option.isSome_iff_exists, List.mem_iff_getElem?]
    simp only [h.index]
  unfold Fds.len
  rw [hperm.length_eq, h.length_eq]

/-! ### The operations are those of the map -/

/-- What holds of the table of a selector after any calls. -/
structure FdTableOk (capacity : Nat) (fds : Fds) : Prop where
  index : IndexOk fds
  capacity_eq : fds.capacity = capacity
  room : fds.infos.length ≤ capacity

variable {capacity : Nat} {r : Except CommonErrors Unit}

/-- A call with the file descriptor `fd` has led to `fds'` and the answer `r`, and `spec` is what
the map says. -/
structure Refined (capacity : Nat) (fds fds' : Fds) (fd : Int32) (r : Except CommonErrors Unit)
    (spec : FdMap × Except CommonErrors Unit) : Prop where
  ok : FdTableOk capacity fds'
  map_eq : (entryOf fds', r) = spec
  unchanged : r ≠ .ok () → fds' = fds
  others : ∀ fd₀, fd₀ ≠ fd → infoOf fds' fd₀ = infoOf fds fd₀
  first : ∀ fd₀, fd₀ ≠ fd → fds.fdToIndex.lookup fd₀ = some 0 → fds'.fdToIndex.lookup fd₀ = some 0

/-- An error that the map answers too. -/
theorem FdTableOk.refused (h : FdTableOk capacity fds) {e : CommonErrors}
    {spec : FdMap × Except CommonErrors Unit} (hspec : spec = (entryOf fds, .error e)) :
    Refined capacity fds fds fd (.error e) spec :=
  ⟨h, hspec.symm, fun _ => rfl, fun _ _ => rfl, fun _ _ hfirst => hfirst⟩

/-- `add` returns, and does what it does on the map. -/
theorem FdTableOk.add (h : FdTableOk capacity fds) (fd : Int32) (id : UInt64)
    (interest : IoEventInterest) (isWaker : Bool) :
    ∃ fds' r, fds.add fd id interest isWaker = some (fds', r) ∧
      Refined capacity fds fds' fd r
        ((entryOf fds).add fds.isFull fd id interest isWaker) := by
  by_cases hneg : fd < 0
  · refine ⟨fds, .error .wrongArgs, ?_, h.refused ?_⟩
    · unfold Fds.add
      rw [if_pos hneg]
    · unfold FdMap.add
      rw [if_pos hneg]
  cases hfd : fds.fdToIndex.lookup fd with
  | some i =>
      obtain ⟨info, pollfd, -, -, hentry⟩ := h.index.exists_entry hfd
      refine ⟨fds, .error .alreadyDone, ?_, h.refused ?_⟩
      · unfold Fds.add Fds.contains
        rw [if_neg hneg, hfd]
        rfl
      · unfold FdMap.add
        rw [if_neg hneg, hentry]
        rfl
  | none =>
      have hnone := entryOf_eq_none hfd
      by_cases hfull : fds.isFull = true
      · refine ⟨fds, .error .noSpaceLeft, ?_, h.refused ?_⟩
        · unfold Fds.add Fds.contains
          rw [if_neg hneg, hfd, hfull]
          rfl
        · unfold FdMap.add
          rw [if_neg hneg, hnone, hfull]
          rfl
      · -- The two vectors and the map have room for one more.
        have hlt : fds.infos.length < fds.capacity := by
          have hne : fds.infos.length ≠ fds.capacity := by simpa [Fds.isFull] using hfull
          have hroom := h.room
          rw [← h.capacity_eq] at hroom
          omega
        have hlen := h.index.len_eq
        have hpollfds := h.index.pollfds_length
        obtain ⟨fds', hfds'⟩ : ∃ fds' : Fds, fds' = { fds with
            fdToIndex := fds.fdToIndex.insert fd fds.infos.length
            infos := fds.infos ++ [⟨id, isWaker⟩]
            pollfds := fds.pollfds ++ [⟨fd, pollEventsFromInterest interest, 0⟩] } := ⟨_, rfl⟩
        have hend : owners fds' = owners fds ++ [fd] := by
          simp [hfds', owners, ownFd, hneg]
        have hindex : fds'.fdToIndex = fds.fdToIndex.insert fd fds.infos.length := by rw [hfds']
        obtain ⟨hok, hinfo⟩ := h.index.append hfd hindex (by rw [hfds']) hend
        have hpollfd := h.index.valueOf_append
          (⟨fd, pollEventsFromInterest interest, 0⟩ : PollFd) hpollfds hindex
        rw [show fds.pollfds ++ [_] = fds'.pollfds by rw [hfds']] at hpollfd
        refine ⟨fds', .ok (), ?_, ⟨hok, ?_, ?_⟩, ?_, fun hne => absurd rfl hne, ?_, ?_⟩
        · unfold Fds.add Fds.contains
          rw [if_neg hneg, hfd, Option.isSome_none, if_neg Bool.false_ne_true, if_neg hfull,
            if_pos ⟨by omega, hlt, by omega⟩, hfds']
        · rw [hfds']
          exact h.capacity_eq
        · rw [hfds', ← h.capacity_eq, List.length_append]
          exact hlt
        · unfold FdMap.add
          rw [if_neg hneg, hnone, Option.isSome_none, if_neg Bool.false_ne_true, if_neg hfull]
          exact Prod.ext (entryOf_update hinfo hpollfd) rfl
        · intro fd₀ hne
          rw [hinfo, Function.update_of_ne hne]
        · intro fd₀ hne hfirst
          rw [hindex, AList.lookup_insert_ne hne]
          exact hfirst

/-- `update` returns, and does what it does on the map. -/
theorem FdTableOk.update (h : FdTableOk capacity fds) (fd : Int32) (id : UInt64)
    (interest : IoEventInterest) :
    ∃ fds' r, fds.update fd id interest = some (fds', r) ∧
      Refined capacity fds fds' fd r ((entryOf fds).update fd id interest) := by
  cases hfd : fds.fdToIndex.lookup fd with
  | none =>
      refine ⟨fds, .error .notFound, ?_, h.refused ?_⟩
      · unfold Fds.update
        rw [hfd]
      · unfold FdMap.update
        rw [entryOf_eq_none hfd]
  | some i =>
      obtain ⟨info, pollfd, hinfo, hpollfd, hentry⟩ := h.index.exists_entry hfd
      by_cases hneg : pollfd.fd < 0
      · refine ⟨fds, .error .notSupported, ?_, h.refused ?_⟩
        · unfold Fds.update
          rw [hfd]
          dsimp only
          rw [hinfo, hpollfd]
          exact if_pos hneg
        · unfold FdMap.update
          rw [hentry]
          exact if_pos hneg
      · obtain ⟨fds', hfds'⟩ : ∃ fds' : Fds, fds' = { fds with
            infos := fds.infos.set i { info with id }
            pollfds := fds.pollfds.set i
              { pollfd with events := pollEventsFromInterest interest } } := ⟨_, rfl⟩
        have hcall : fds.update fd id interest = some (fds', .ok ()) := by
          unfold Fds.update
          rw [hfd]
          dsimp only
          rw [hinfo, hpollfd, hfds']
          exact if_neg hneg
        have hindex : fds'.fdToIndex = fds.fdToIndex := by rw [hfds']
        have hlen : fds'.infos.length = fds.infos.length := by rw [hfds', List.length_set]
        have hinfo' : infoOf fds' = Function.update (infoOf fds) fd (some { info with id }) := by
          rw [← show valueOf fds' fds'.infos = infoOf fds' from rfl, hfds']
          exact h.index.valueOf_set _ rfl hfd rfl
        have hpollfd' : valueOf fds' fds'.pollfds = Function.update (valueOf fds fds.pollfds) fd
            (some { pollfd with events := pollEventsFromInterest interest }) := by
          rw [hfds']
          exact h.index.valueOf_set _ h.index.pollfds_length hfd rfl
        refine ⟨fds', .ok (), hcall, ⟨?_, ?_, ?_⟩, ?_, fun hne => absurd rfl hne, ?_, ?_⟩
        · refine h.index.congr hindex hlen ?_
          rw [hfds']
          exact map_ownFd_set hpollfd _
        · rw [hfds']
          exact h.capacity_eq
        · rw [hlen]
          exact h.room
        · unfold FdMap.update
          rw [hentry]
          dsimp only
          rw [if_neg hneg]
          exact Prod.ext (entryOf_update hinfo' hpollfd') rfl
        · intro fd₀ hne
          rw [hinfo', Function.update_of_ne hne]
        · intro fd₀ _ hfirst
          rw [hindex]
          exact hfirst

/-- A removal that does not move an entry of file descriptor 0 does not panic. -/
theorem IndexOk.remove_returns (h : IndexOk fds) (hspares : fds.SparesZero fd) :
    ∃ fds' r, fds.remove fd = some (fds', r) := by
  unfold Fds.remove
  cases hfd : fds.fdToIndex.lookup fd with
  | none => exact ⟨_, _, rfl⟩
  | some index =>
      have hlt := h.lt_length hfd
      have hlt' : index < fds.pollfds.length := by rwa [h.pollfds_length]
      dsimp only
      rw [if_pos ⟨hlt, hlt'⟩, getElem?_swapRemove hlt']
      by_cases hlast : index < fds.pollfds.length - 1
      · rw [if_pos hlast, if_pos rfl]
        have hget := List.getElem?_eq_getElem
          (show fds.pollfds.length - 1 < fds.pollfds.length by omega)
        rw [hget]
        generalize fds.pollfds[fds.pollfds.length - 1] = last at hget
        -- The moved entry keeps its file descriptor, which is not the removed one.
        have hzero : last.fd ≠ 0 := by
          rcases hspares index hfd with heq | hne
          · omega
          · exact hne last (by rw [List.getLast?_eq_getElem?, hget]; rfl)
        have hmoved := h.lookup_ownFd hget
        have hne : ownFd last ≠ fd := by
          intro heq
          rw [heq, hfd] at hmoved
          cases hmoved
          omega
        dsimp only
        rw [ownFd_eq_of_ne_zero hzero]
        have hthere : Fds.contains { fds with
            fdToIndex := fds.fdToIndex.erase fd
            infos := Kyron.Io.swapRemove fds.infos index
            pollfds := Kyron.Io.swapRemove fds.pollfds index } (ownFd last) = true := by
          unfold Fds.contains
          rw [AList.lookup_erase_ne hne, hmoved]
          rfl
        rw [if_pos hthere]
        exact ⟨_, _, rfl⟩
      · rw [if_neg hlast]
        exact ⟨_, _, rfl⟩

/-- `remove` does what it does on the map, although it moves the last entry. -/
theorem FdTableOk.remove_refines (h : FdTableOk capacity fds)
    (hremove : fds.remove fd = some (fds', r)) :
    Refined capacity fds fds' fd r ((entryOf fds).remove fd) := by
  rcases remove_moves h.index hremove with
    ⟨rfl, hnone, rfl⟩ | ⟨index, hfd, rfl, hmoved, hinfos, hpollfds, hcapacity⟩
  · refine h.refused ?_
    unfold FdMap.remove
    rw [entryOf_eq_none hnone]
  · have howners : owners fds' = swapRemove (owners fds) index := by
      unfold owners
      rw [hpollfds]
      exact map_swapRemove _ _ _
    have hremoved := h.index.swapRemove hfd hmoved hinfos howners
    obtain ⟨info, pollfd, -, -, hentry⟩ := h.index.exists_entry hfd
    refine ⟨⟨hremoved.ok, hcapacity.trans h.capacity_eq, ?_⟩, ?_, fun hne => absurd rfl hne, ?_,
      hremoved.first⟩
    · rw [hinfos, length_swapRemove (h.index.lt_length hfd)]
      exact Nat.le_trans (Nat.sub_le _ _) h.room
    · unfold FdMap.remove
      rw [hentry]
      have hpollfd := h.index.valueOf_swapRemove h.index.pollfds_length hfd hmoved
      rw [← hpollfds] at hpollfd
      exact Prod.ext (entryOf_update hremoved.infoOf_eq hpollfd) rfl
    · intro fd₀ hne
      rw [hremoved.infoOf_eq, Function.update_of_ne hne]

/-- `select` returns, and it keeps the map up to what it reports. -/
theorem FdTableOk.select (h : FdTableOk capacity fds) (room : Nat) (revents : Nat → UInt16) :
    ∃ fds' result, fds.select room revents = some (fds', result) ∧ FdTableOk capacity fds' ∧
      infoOf fds' = infoOf fds ∧ fds'.fdToIndex = fds.fdToIndex := by
  obtain ⟨fds', result, hselect⟩ :
      ∃ fds' result, fds.select room revents = some (fds', result) := by
    unfold Fds.select
    dsimp only
    split
    · exact ⟨_, _, rfl⟩
    · rename_i hready
      split
      · -- Without entries `poll` has nothing to report.
        rename_i hnil
        refine absurd ?_ hready
        unfold Fds.pollResult
        rw [hnil]
        rfl
      · split
        · exact ⟨_, _, rfl⟩
        · exact ⟨_, _, rfl⟩
  obtain ⟨hok, hinfo, hindex, -⟩ := select_cases h.index hselect
  have hsame : fds'.infos = fds.infos ∧ fds'.capacity = fds.capacity := by
    unfold Fds.select at hselect
    dsimp only at hselect
    split at hselect
    · cases hselect
      exact ⟨rfl, rfl⟩
    · split at hselect
      · cases hselect
      · split at hselect
        · cases hselect
          exact ⟨rfl, rfl⟩
        · obtain ⟨rfl, -⟩ := Prod.mk.inj (Option.some.inj hselect)
          exact ⟨rfl, rfl⟩
  refine ⟨fds', result, hselect, ⟨hok, hsame.2.trans h.capacity_eq, ?_⟩, hinfo, hindex⟩
  rw [hsame.1]
  exact h.room

/-! ### Any calls -/

/-- A new selector has one entry, its internal waker. -/
theorem fdTableOk_newSelector {fdCapacity : Nat} {internalFd : Int32}
    (hnew : Fds.newSelector fdCapacity internalFd = some fds) :
    FdTableOk (1 + fdCapacity) fds ∧ fds.fdToIndex.lookup internalFd = some 0 ∧
      infoOf fds internalFd = some ⟨0, true⟩ := by
  have hempty : FdTableOk (1 + fdCapacity) (Fds.new (1 + fdCapacity)) :=
    ⟨indexOk_new _, rfl, Nat.zero_le _⟩
  unfold Fds.newSelector at hnew
  split at hnew
  · rename_i hadd
    cases hnew
    obtain ⟨fds', r, hcall, href⟩ := hempty.add internalFd 0 .readable true
    rw [hadd] at hcall
    cases hcall
    rcases add_cases (indexOk_new _) hadd with ⟨-, hfail⟩ | ⟨-, -, hindex, -, hinfo⟩
    · exact absurd rfl hfail
    · refine ⟨href.ok, ?_, ?_⟩
      · rw [hindex, AList.lookup_insert]
        rfl
      · rw [hinfo, Function.update_self]
  · cases hnew

/-- One call. The internal waker stays in the first entry unless the call names its file
descriptor. -/
theorem FdTableOk.call (h : FdTableOk capacity fds) {c : FdsCall} (hcall : fds.call c = some fds') :
    FdTableOk capacity fds' ∧ ∀ internalFd, Fds.CallOk internalFd fds c →
      fds.fdToIndex.lookup internalFd = some 0 →
      fds'.fdToIndex.lookup internalFd = some 0 ∧
        infoOf fds' internalFd = infoOf fds internalFd := by
  cases c with
  | add fd id interest isWaker =>
      obtain ⟨⟨fds₁, r₁⟩, hadd, rfl⟩ := Option.map_eq_some_iff.mp hcall
      obtain ⟨fds', r, heq, href⟩ := h.add fd id interest isWaker
      rw [hadd] at heq
      cases heq
      refine ⟨href.ok, fun internalFd hne hfirst => ?_⟩
      exact ⟨href.first internalFd (Ne.symm hne) hfirst, href.others internalFd (Ne.symm hne)⟩
  | update fd id interest =>
      obtain ⟨⟨fds₁, r₁⟩, hupdate, rfl⟩ := Option.map_eq_some_iff.mp hcall
      obtain ⟨fds', r, heq, href⟩ := h.update fd id interest
      rw [hupdate] at heq
      cases heq
      refine ⟨href.ok, fun internalFd hne hfirst => ?_⟩
      exact ⟨href.first internalFd (Ne.symm hne) hfirst, href.others internalFd (Ne.symm hne)⟩
  | remove fd =>
      obtain ⟨⟨fds₁, r₁⟩, hremove, rfl⟩ := Option.map_eq_some_iff.mp hcall
      have href := h.remove_refines hremove
      refine ⟨href.ok, fun internalFd hne hfirst => ?_⟩
      exact ⟨href.first internalFd (Ne.symm hne.1) hfirst, href.others internalFd (Ne.symm hne.1)⟩
  | select room revents =>
      obtain ⟨⟨fds₁, r₁⟩, hselect, rfl⟩ := Option.map_eq_some_iff.mp hcall
      obtain ⟨fds', result, heq, hok, hinfo, hindex⟩ := h.select room revents
      rw [hselect] at heq
      cases heq
      refine ⟨hok, fun internalFd _ hfirst => ⟨?_, ?_⟩⟩
      · rw [hindex]
        exact hfirst
      · rw [hinfo]

/-- An entry stores its file descriptor as it is, or as its complement. -/
theorem ownFd_eq_iff (h : ¬ fd < 0) : ownFd pollfd = fd ↔ pollfd.fd = fd ∨ pollfd.fd = ~~~fd := by
  unfold ownFd
  constructor
  · intro heq
    split at heq
    · right
      rw [← heq, Int32.not_not]
    · exact Or.inl heq
  · rintro (heq | heq)
    · rw [heq, if_neg h]
    · rw [heq, if_pos (not_lt_zero_of_nonneg h), Int32.not_not]

/-- Of a number and its complement, one is not negative. -/
theorem ownFd_nonneg (pollfd : PollFd) : ¬ ownFd pollfd < 0 := by
  unfold ownFd
  split
  · rename_i hneg
    have hle := pollfd.fd.le_toInt
    rw [Int32.lt_iff_toInt_lt] at hneg ⊢
    rw [Int32.toInt_not, Int.bmod_eq_of_le]
    all_goals
      simp only [Int32.toInt_zero] at hneg ⊢
      omega
  · assumption

/-- In every state that a selector's table reaches by calls which do not name the file descriptor of
the internal waker, and which do not move an entry of file descriptor 0:

* the vectors have one length, `fd_to_index` finds exactly the entries whose file descriptor is the
  one asked for or its negation, and the internal waker is in the first entry;
* every `add` and `update` returns, and so does every `remove` that does not move an entry of file
  descriptor 0. Their answers and what they make of the entries are those of the map, and an error
  changes nothing;
* `select` returns and keeps the infos of all file descriptors. -/
theorem fds_refine_map {fdCapacity : Nat} {internalFd : Int32} {start : Fds}
    (hnew : Fds.newSelector fdCapacity internalFd = some start)
    (hrun : Reaches Fds.call (Fds.CallOk internalFd) start fds) :
    fds.infos.length = fds.pollfds.length ∧
    (∀ fd i, ¬ fd < 0 → (fds.fdToIndex.lookup fd = some i ↔
      ∃ pollfd, fds.pollfds[i]? = some pollfd ∧ (pollfd.fd = fd ∨ pollfd.fd = ~~~fd))) ∧
    (∀ fd, fd < 0 → fds.fdToIndex.lookup fd = none) ∧
    (fds.fdToIndex.lookup internalFd = some 0 ∧ infoOf fds internalFd = some ⟨0, true⟩) ∧
    (∀ fd id interest isWaker, ∃ fds' r, fds.add fd id interest isWaker = some (fds', r) ∧
      (entryOf fds', r) = (entryOf fds).add fds.isFull fd id interest isWaker ∧
      (r ≠ .ok () → fds' = fds)) ∧
    (∀ fd id interest, ∃ fds' r, fds.update fd id interest = some (fds', r) ∧
      (entryOf fds', r) = (entryOf fds).update fd id interest ∧ (r ≠ .ok () → fds' = fds)) ∧
    (∀ fd, fds.SparesZero fd → ∃ fds' r, fds.remove fd = some (fds', r) ∧
      (entryOf fds', r) = (entryOf fds).remove fd ∧ (r ≠ .ok () → fds' = fds)) ∧
    (∀ room revents, ∃ fds' result, fds.select room revents = some (fds', result) ∧
      infoOf fds' = infoOf fds ∧ fds'.fdToIndex = fds.fdToIndex) := by
  have hinv : FdTableOk (1 + fdCapacity) fds ∧ fds.fdToIndex.lookup internalFd = some 0 ∧
      infoOf fds internalFd = some ⟨0, true⟩ := by
    refine hrun.invariant (I := fun fds => FdTableOk (1 + fdCapacity) fds ∧
      fds.fdToIndex.lookup internalFd = some 0 ∧ infoOf fds internalFd = some ⟨0, true⟩)
      (fdTableOk_newSelector hnew) ?_
    rintro fds c fds' ⟨hok, hfirst, hinfo⟩ hguard hcall
    obtain ⟨hok', hkept⟩ := hok.call hcall
    obtain ⟨hfirst', hinfo'⟩ := hkept internalFd hguard hfirst
    exact ⟨hok', hfirst', hinfo'.trans hinfo⟩
  obtain ⟨hok, hfirst⟩ := hinv
  have hindex : ∀ fd i, fds.fdToIndex.lookup fd = some i ↔
      ∃ pollfd, fds.pollfds[i]? = some pollfd ∧ ownFd pollfd = fd := by
    intro fd i
    rw [hok.index.index, owners, List.getElem?_map, Option.map_eq_some_iff]
  refine ⟨hok.index.pollfds_length.symm, ?_, ?_, hfirst, ?_, ?_, ?_, ?_⟩
  · intro fd i hnonneg
    rw [hindex]
    simp only [ownFd_eq_iff hnonneg]
  · intro fd hneg
    rw [Option.eq_none_iff_forall_ne_some]
    intro i hi
    obtain ⟨pollfd, -, hown⟩ := (hindex fd i).mp hi
    exact ownFd_nonneg pollfd (hown ▸ hneg)
  · intro fd id interest isWaker
    obtain ⟨fds', r, hadd, href⟩ := hok.add fd id interest isWaker
    exact ⟨fds', r, hadd, href.map_eq, href.unchanged⟩
  · intro fd id interest
    obtain ⟨fds', r, hupdate, href⟩ := hok.update fd id interest
    exact ⟨fds', r, hupdate, href.map_eq, href.unchanged⟩
  · intro fd hspares
    obtain ⟨fds', r, hremove⟩ := hok.index.remove_returns hspares
    have href := hok.remove_refines hremove
    exact ⟨fds', r, hremove, href.map_eq, href.unchanged⟩
  · intro room revents
    obtain ⟨fds', result, hselect, -, hinfo, hsame⟩ := hok.select room revents
    exact ⟨fds', result, hselect, hinfo, hsame⟩

/-- A hang-up of the entry at index `i`. -/
def hangUpAt (i : Nat) : Nat → UInt16 := fun j => if j = i then pollHup else 0

/-- File descriptor 7 is negated by a hang-up and then moved, since 5 is removed. It is found at its
new index. -/
theorem fds_refine_map_negated :
    ∃ start, Fds.newSelector 2 3 = some start ∧
      ∃ fds, Reaches Fds.call (Fds.CallOk 3) start fds ∧
        fds.pollfds[1]?.map PollFd.fd = some (~~~7) ∧ fds.fdToIndex.lookup 7 = some 1 := by
  obtain ⟨start, hnew, fds, hrun, hneg⟩ : ∃ start, Fds.newSelector 2 3 = some start ∧
      ∃ fds, Reaches Fds.call (Fds.CallOk 3) start fds ∧
        fds.pollfds[1]?.map PollFd.fd = some (~~~7) :=
    ⟨_, rfl, exists_reaches [FdsCall.add 5 1 .readable false, .add 7 2 .readable false,
      .select 2 (hangUpAt 2), .remove 5] (by decide)⟩
  refine ⟨start, hnew, fds, hrun, hneg, ?_⟩
  obtain ⟨pollfd, hpollfd, hfd⟩ := Option.map_eq_some_iff.mp hneg
  exact ((fds_refine_map hnew hrun).2.1 7 1 (by decide)).mpr ⟨pollfd, hpollfd, Or.inr hfd⟩

/-- File descriptor 0 is in the last entry when 5 is removed. `remove` looks for the negation of 0
in `fd_to_index`, and its `unwrap` fails. -/
theorem remove_panics_on_zero :
    ∃ start, Fds.newSelector 2 3 = some start ∧
      ∃ fds, Reaches Fds.call (Fds.CallOk 3) start fds ∧
        fds.fdToIndex.lookup 5 = some 1 ∧ fds.remove 5 = none :=
  ⟨_, rfl, exists_reaches [FdsCall.add 5 1 .readable false, .add 0 2 .readable false] (by decide)⟩

/-! ### What `select` reports -/

/-- The event of an entry and the entry after that, in terms of the entry. -/
theorem reportFd_of_ready (h : pollfd.revents ≠ 0) : reportFd info pollfd =
      (some ⟨info.id, if info.isWaker then ⟨0⟩ else interestFromPollEvents pollfd.revents⟩,
        { pollfd with
            fd := if pollfd.revents &&& (pollHup ||| pollErr) ≠ 0 then ~~~pollfd.fd else pollfd.fd
            events := if info.isWaker then pollfd.events
              else pollfd.events &&& ~~~pollfd.revents }) := by
  unfold reportFd
  rw [if_neg h]
  cases info.isWaker <;> rfl

theorem reportFd_of_quiet (h : pollfd.revents = 0) : reportFd info pollfd = (none, pollfd) := by
  unfold reportFd
  rw [if_pos h]

/-- If the count is right and there is room for all entries, the loop reports every entry that is
ready, although it stops by counting. -/
theorem reportFds_eq {capacity pollResult : Nat} (entries : List (FdInfo × PollFd))
    (eventsProcessed : Nat) (events : List IoEvent)
    (hcount : eventsProcessed + entries.countP (fun e => e.2.revents ≠ 0) = pollResult)
    (hroom : events.length + entries.length ≤ capacity) :
    Fds.reportFds capacity pollResult entries eventsProcessed events =
      (entries.map fun e => (reportFd e.1 e.2).2,
        .ok (events ++ entries.filterMap fun e => (reportFd e.1 e.2).1)) := by
  induction entries generalizing eventsProcessed events with
  | nil =>
      unfold Fds.reportFds
      simp
  | cons entry rest ih =>
      obtain ⟨info, pollfd⟩ := entry
      unfold Fds.reportFds
      by_cases hdone : eventsProcessed = pollResult
      · -- Nothing else is ready, so nothing else would change.
        have hquiet : ∀ e ∈ (info, pollfd) :: rest, e.2.revents = 0 := by
          have hzero : ((info, pollfd) :: rest).countP (fun e => e.2.revents ≠ 0) = 0 := by omega
          intro e he
          simpa using List.countP_eq_zero.mp hzero e he
        have hreport : ∀ e ∈ (info, pollfd) :: rest, reportFd e.1 e.2 = (none, e.2) :=
          fun e he => reportFd_of_quiet (hquiet e he)
        rw [if_pos hdone]
        have hmap : ((info, pollfd) :: rest).map (fun e => (reportFd e.1 e.2).2) =
            ((info, pollfd) :: rest).map Prod.snd :=
          List.map_congr_left fun e he => by rw [hreport e he]
        have hnone : ((info, pollfd) :: rest).filterMap (fun e => (reportFd e.1 e.2).1) = [] := by
          rw [List.filterMap_eq_nil_iff]
          intro e he
          rw [hreport e he]
        rw [hmap, hnone, List.append_nil]
        rfl
      · rw [List.length_cons] at hroom
        rw [if_neg hdone, if_neg (by omega)]
        by_cases hready : pollfd.revents = 0
        · rw [List.countP_cons_of_neg (by simpa using hready)] at hcount
          have hrest := ih eventsProcessed events hcount (by omega)
          rw [reportFd_of_quiet hready]
          rw [hrest, List.map_cons, List.filterMap_cons, reportFd_of_quiet hready]
        · rw [List.countP_cons_of_pos (by simpa using hready)] at hcount
          obtain ⟨event, pollfd', hreport⟩ :
              ∃ event pollfd', reportFd info pollfd = (some event, pollfd') :=
            ⟨_, _, reportFd_of_ready hready⟩
          have hrest := ih (eventsProcessed + 1) (events ++ [event]) (by omega)
            (by rw [List.length_append, List.length_singleton]; omega)
          rw [hreport]
          dsimp only
          rw [hrest, List.map_cons, List.filterMap_cons, hreport, List.append_assoc]
          rfl

/-- `poll` leaves as many entries behind the first one as the table has information for. -/
theorem IndexOk.poll_tail_length (h : IndexOk fds) {internal : PollFd} {pollfds : List PollFd}
    (hpollfds : (fds.poll revents).pollfds = internal :: pollfds) :
    pollfds.length = fds.infos.tail.length := by
  have hall : (fds.poll revents).pollfds.length = fds.infos.length := by
    unfold Fds.poll
    rw [List.length_mapIdx, h.pollfds_length]
  rw [hpollfds, List.length_cons] at hall
  rw [List.length_tail]
  omega

/-- The result of `poll` counts the first entry, if it is ready, and the ready ones behind it. -/
theorem IndexOk.poll_tail_count (h : IndexOk fds) {internal : PollFd} {pollfds : List PollFd}
    (hpollfds : (fds.poll revents).pollfds = internal :: pollfds) :
    (if internal.revents ≠ 0 then 1 else 0) +
      (fds.infos.tail.zip pollfds).countP (fun e => e.2.revents ≠ 0) =
      (fds.poll revents).pollResult := by
  have hsnd : (fds.infos.tail.zip pollfds).countP (fun e => e.2.revents ≠ 0) =
      pollfds.countP fun pollfd => pollfd.revents ≠ 0 := by
    have hmap := List.countP_map (p := fun pollfd : PollFd => decide (pollfd.revents ≠ 0))
      (f := Prod.snd) (l := fds.infos.tail.zip pollfds)
    rw [List.map_snd_zip (Nat.le_of_eq (h.poll_tail_length hpollfds))] at hmap
    exact hmap.symm
  unfold Fds.pollResult
  rw [hpollfds, hsnd, List.countP_cons, Nat.add_comm]
  congr 1
  by_cases hready : internal.revents = 0 <;> simp [hready]

/-- How a call of `select` ends when its container has room for all entries behind the first one. -/
theorem FdTableOk.select_done {fdCapacity : Nat} (h : FdTableOk (1 + fdCapacity) fds) {room : Nat}
    (hroom : fdCapacity ≤ room) {result : Except CommonErrors (List IoEvent)}
    (hselect : fds.select room revents = some (fds', .done result)) : result = .error .timeout ∨
      ∃ internal pollfds, (fds.poll revents).pollfds = internal :: pollfds ∧
        result = .ok ((fds.infos.tail.zip pollfds).filterMap fun e => (reportFd e.1 e.2).1) ∧
        fds' = { fds.poll revents with
          pollfds := internal ::
            (fds.infos.tail.zip pollfds).map fun e => (reportFd e.1 e.2).2 } := by
  unfold Fds.select at hselect
  dsimp only at hselect
  split at hselect
  · cases hselect
    exact Or.inl rfl
  · split at hselect
    · cases hselect
    · rename_i internal pollfds hpollfds
      split at hselect
      · cases hselect
      · right
        refine ⟨internal, pollfds, hpollfds, ?_⟩
        have hlen := h.index.poll_tail_length hpollfds
        have hcount := h.index.poll_tail_count hpollfds
        -- The loop goes over all entries behind the first one.
        have htake : (fds.infos.tail.zip pollfds).take ((fds.poll revents).len - 1) =
            fds.infos.tail.zip pollfds := by
          refine List.take_of_length_le ?_
          rw [List.length_zip, show (fds.poll revents).len = fds.len from rfl, h.index.len_eq, hlen,
            Nat.min_self, List.length_tail]
        have hspace : ([] : List IoEvent).length + (fds.infos.tail.zip pollfds).length ≤ room := by
          have := h.room
          rw [List.length_nil, List.length_zip, hlen, Nat.min_self, List.length_tail]
          omega
        have hreport := reportFds_eq (fds.infos.tail.zip pollfds) _ [] hcount hspace
        rw [show (fds.poll revents).infos = fds.infos from rfl, htake, hreport] at hselect
        obtain ⟨hfds, hresult⟩ := Prod.mk.inj (Option.some.inj hselect)
        refine ⟨?_, ?_⟩
        · injection hresult with hresult
          rw [← hresult]
          rfl
        · rw [← hfds]
          rw [List.length_map, List.length_zip, hlen, Nat.min_self, ← hlen, List.drop_length,
            List.append_nil]
          rfl

end Kyron.Proofs.Io
