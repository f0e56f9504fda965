import Mathlib.Data.Fintype.Card
import Kyron.Io.Registrations
import Kyron.Proofs.Io.Fds

/-!
# `Kyron.Proofs.Io.Registrations`: an event finds its registration

`BooksOk` is about the keys. Each source between the creation of its info and its release or
disposal has a key of its own, which is tracked and does not wait for its release. The keys that
wait are tracked as well. So a disposal adds one more tracked key to those that wait, and there are
no more keys than places.

An identifier that `process_io` still has to look at is tracked under a key that no failed
registration can release. The other release is the cleanup, which runs when there are no events.
`TableOk` is where such an identifier comes from: every entry of the table behind the internal waker
is that of the other waker, or of a source that is registered.

* `registration_tracked_while_processed`: the two of them in every run.
-/

set_option autoImplicit false

namespace Kyron.Proofs.Io

open Kyron.Io
open Kyron.Lib
open Function

variable {S : Type} {count : Nat}

/-! ### The keys -/

/-- The info that a source holds, and whether it was in the table at some time. -/
def holding : SourceState count → Option (InfoRef count × Bool)
  | .absent => none
  | .registering src | .releasing src => some (src.info, false)
  | .registered src | .disposing src | .panicked src => some (src.info, true)

/-- The registrations are right for what the sources hold and for the identifiers in hand. -/
structure BooksOk (r : Registrations count) (held : S → Option (InfoRef count × Bool))
    (ids : List UInt64) : Prop where
  tracked : ∀ t info b, held t = some (info, b) →
    r.tracking info.key = some info.identifier ∧ info.key ∉ r.waitingRelease
  distinct : ∀ t t' info info' b b', held t = some (info, b) → held t' = some (info', b') →
    info.key = info'.key → t = t'
  nodup : r.waitingRelease.Nodup
  waiting : ∀ key ∈ r.waitingRelease, r.tracking key ≠ none
  ids : ∀ id ∈ ids, ∃ key, r.tracking key = some id ∧
    ∀ t info, held t = some (info, false) → info.key ≠ key

namespace BooksOk

variable {r : Registrations count} {held : S → Option (InfoRef count × Bool)} {ids : List UInt64}
  {t : S} {info : InfoRef count} {b : Bool}

/-- There is a place for the key of a source. -/
theorem length_lt (h : BooksOk r held ids) (ht : held t = some (info, b)) :
    r.waitingRelease.length < count := by
  have hnodup : (info.key :: r.waitingRelease).Nodup :=
    List.nodup_cons.mpr ⟨(h.tracked t info b ht).2, h.nodup⟩
  have hle := hnodup.length_le_card
  rw [Fintype.card_fin, List.length_cons] at hle
  exact hle

/-- A cleanup forgets the keys of its list, and no others. -/
theorem tracking_foldr_untrack (keys : List (Fin count)) (key : Fin count) :
    (keys.foldr (fun key r => r.untrack key) r).tracking key =
      if key ∈ keys then none else r.tracking key := by
  induction keys with
  | nil => rfl
  | cons k keys ih =>
      show Function.update (Registrations.tracking (List.foldr _ _ _)) k none key = _
      by_cases hk : key = k
      · rw [hk, update_self, if_pos List.mem_cons_self]
      · rw [update_of_ne hk, ih]
        simp [hk]

/-- The cleanup, while there are no events. -/
theorem cleanup (h : BooksOk r held ids) :
    BooksOk r.cleanupDisposedRegistrations held [] := by
  refine ⟨fun t info b ht => ?_, h.distinct, List.nodup_nil, fun key hkey => ?_, fun id hid => ?_⟩
  · refine ⟨?_, List.not_mem_nil⟩
    show Registrations.tracking (List.foldr _ _ _) info.key = _
    rw [tracking_foldr_untrack, if_neg (h.tracked t info b ht).2]
    exact (h.tracked t info b ht).1
  · cases hkey
  · cases hid

end BooksOk

/-! ### The table -/

/-- Every entry behind the internal waker is that of the other waker or of a registered source. -/
structure TableOk (internalFd : Int32) (fds : Fds) (sources : S → SourceState count) : Prop where
  index : IndexOk fds
  internal : fds.fdToIndex.lookup internalFd = some 0
  foreign : ∀ t src, sources t = .registered src → src.fd ≠ internalFd
  owned : ∀ fd info, fd ≠ internalFd → infoOf fds fd = some info → info.id = wakerIoId ∨
    ∃ t src, sources t = .registered src ∧ src.fd = fd ∧ src.info.identifier = info.id

namespace TableOk

variable {internalFd : Int32} {fds fds' : Fds} {sources : S → SourceState count} {t : S}
  {src : IoSource count} {r : Except CommonErrors Unit}

/-- A source is registered again with its own identifier. -/
theorem reregister (h : TableOk internalFd fds sources) (ht : sources t = .registered src)
    (hupdate : fds.update src.fd src.info.identifier src.interest = some (fds', r)) :
    TableOk internalFd fds' sources := by
  rcases update_cases h.index hupdate with rfl | ⟨hok, hindex, info₀, -, hinfos⟩
  · exact h
  · refine ⟨hok, ?_, h.foreign, fun fd info hfd hinfo => ?_⟩
    · rw [hindex]
      exact h.internal
    · rw [hinfos] at hinfo
      by_cases hself : fd = src.fd
      · rw [hself, update_self] at hinfo
        cases hinfo
        exact Or.inr ⟨t, src, ht, hself.symm, rfl⟩
      · rw [update_of_ne hself] at hinfo
        exact h.owned fd info hfd hinfo

/-- `select` keeps the table, and what it reports comes from it. -/
theorem select (h : TableOk internalFd fds sources) {capacity : Nat} {revents : Nat → UInt16}
    {result : Fds.SelectResult} (hselect : fds.select capacity revents = some (fds', result)) :
    TableOk internalFd fds' sources ∧ ∀ events, result = .done (.ok events) → ∀ event ∈ events,
      event.id = wakerIoId ∨
        ∃ t src, sources t = .registered src ∧ src.info.identifier = event.id := by
  obtain ⟨hok, hinfos, hindex, hevents⟩ := select_cases h.index hselect
  refine ⟨⟨hok, ?_, h.foreign, ?_⟩, fun events hresult event hevent => ?_⟩
  · rw [hindex]
    exact h.internal
  · rw [hinfos]
    exact h.owned
  · obtain ⟨fd, i, info, hfd, hinfo, hid⟩ := hevents events hresult event hevent
    have hne : fd ≠ internalFd := by
      rintro rfl
      rw [h.internal] at hfd
      cases hfd
    rw [← hid]
    refine (h.owned fd info hne hinfo).imp_right ?_
    exact fun ⟨t, src, ht, _, hsrc⟩ => ⟨t, src, ht, hsrc⟩

end TableOk

variable [DecidableEq S]

/-! ### The keys, when a source moves -/

/-- What a source holds after one of them has changed. -/
theorem update_eq_some {V : Type} {held : S → Option V} {t t' : S} {v : Option V} {x : V}
    (h : Function.update held t v t' = some x) :
    t' = t ∧ v = some x ∨ t' ≠ t ∧ held t' = some x := by
  by_cases ht : t' = t
  · rw [ht, update_self] at h
    exact Or.inl ⟨ht, h⟩
  · rw [update_of_ne ht] at h
    exact Or.inr ⟨ht, h⟩

namespace BooksOk

variable {r : Registrations count} {held : S → Option (InfoRef count × Bool)} {ids : List UInt64}
  {t : S} {info : InfoRef count} {b : Bool}

/-- A source gets an info under a free key. -/
theorem create (h : BooksOk r held ids) (hnone : held t = none) {key : Fin count}
    (hfree : r.tracking key = none) (address : UInt64) :
    BooksOk { r with tracking := Function.update r.tracking key (some address) }
      (Function.update held t (some (⟨address, key⟩, false))) ids := by
  -- What is tracked has another key.
  have hother : ∀ key', r.tracking key' ≠ none → key' ≠ key := by
    rintro key' hsome rfl
    exact hsome hfree
  have hkept : ∀ key', r.tracking key' ≠ none →
      Function.update r.tracking key (some address) key' = r.tracking key' :=
    fun key' hsome => update_of_ne (hother key' hsome) _ _
  have hheld : ∀ t' info b, held t' = some (info, b) → r.tracking info.key ≠ none := by
    intro t' info b ht'
    rw [(h.tracked t' info b ht').1]
    exact Option.some_ne_none _
  refine ⟨fun t' info b ht' => ?_, fun t₁ t₂ info₁ info₂ b₁ b₂ h₁ h₂ heq => ?_, h.nodup,
    fun key' hkey' => ?_, fun id hid => ?_⟩
  · rcases update_eq_some ht' with ⟨-, heq⟩ | ⟨-, hold⟩
    · cases heq
      exact ⟨update_self .., fun hmem => h.waiting key hmem hfree⟩
    · dsimp only
      rw [hkept _ (hheld t' info b hold)]
      exact h.tracked t' info b hold
  · rcases update_eq_some h₁ with ⟨rfl, hnew₁⟩ | ⟨-, hold₁⟩ <;>
      rcases update_eq_some h₂ with ⟨rfl, hnew₂⟩ | ⟨-, hold₂⟩
    · rfl
    · cases hnew₁
      exact absurd heq.symm (hother _ (hheld _ _ _ hold₂))
    · cases hnew₂
      exact absurd heq (hother _ (hheld _ _ _ hold₁))
    · exact h.distinct t₁ t₂ info₁ info₂ b₁ b₂ hold₁ hold₂ heq
  · dsimp only
    rw [hkept key' (h.waiting key' hkey')]
    exact h.waiting key' hkey'
  · obtain ⟨key', hkey', hheld'⟩ := h.ids id hid
    have hsome : r.tracking key' ≠ none := by
      rw [hkey']
      exact Option.some_ne_none _
    refine ⟨key', (hkept key' hsome).trans hkey', fun t' info ht' => ?_⟩
    rcases update_eq_some ht' with ⟨-, heq⟩ | ⟨-, hold⟩
    · cases heq
      exact (hother key' hsome).symm
    · exact hheld' t' info hold

/-- A source goes on with its info, which stays in the table once it was there. -/
theorem keep (h : BooksOk r held ids) (ht : held t = some (info, b)) {b' : Bool}
    (hb : b = true → b' = true) : BooksOk r (Function.update held t (some (info, b'))) ids := by
  -- Everybody holds what they held before.
  have hsame : ∀ t' info' c, Function.update held t (some (info, b')) t' = some (info', c) →
      ∃ c', held t' = some (info', c') ∧ (c' = true → c = true) := by
    intro t' info' c ht'
    rcases update_eq_some ht' with ⟨rfl, heq⟩ | ⟨-, hold⟩
    · cases heq
      exact ⟨b, ht, hb⟩
    · exact ⟨c, hold, id⟩
  refine ⟨fun t' info' c ht' => ?_, fun t₁ t₂ info₁ info₂ c₁ c₂ h₁ h₂ heq => ?_, h.nodup, h.waiting,
    fun id hid => ?_⟩
  · obtain ⟨c', hold, -⟩ := hsame t' info' c ht'
    exact h.tracked t' info' c' hold
  · obtain ⟨c₁', hold₁, -⟩ := hsame t₁ info₁ c₁ h₁
    obtain ⟨c₂', hold₂, -⟩ := hsame t₂ info₂ c₂ h₂
    exact h.distinct t₁ t₂ info₁ info₂ c₁' c₂' hold₁ hold₂ heq
  · obtain ⟨key, hkey, hheld⟩ := h.ids id hid
    refine ⟨key, hkey, fun t' info' ht' => ?_⟩
    obtain ⟨c', hold, hc⟩ := hsame t' info' false ht'
    have hfalse : c' = false := Bool.eq_false_iff.mpr fun htrue => Bool.false_ne_true (hc htrue)
    exact hheld t' info' (hfalse ▸ hold)

/-- A source lets go of its info, which stays tracked. -/
theorem leave (h : BooksOk r held ids) : BooksOk r (Function.update held t none) ids := by
  have hsame : ∀ t' x, Function.update held t none t' = some x → held t' = some x := by
    intro t' x ht'
    rcases update_eq_some ht' with ⟨-, heq⟩ | ⟨-, hold⟩
    · cases heq
    · exact hold
  refine ⟨fun t' info c ht' => h.tracked t' info c (hsame t' _ ht'),
    fun t₁ t₂ info₁ info₂ c₁ c₂ h₁ h₂ heq =>
      h.distinct t₁ t₂ info₁ info₂ c₁ c₂ (hsame t₁ _ h₁) (hsame t₂ _ h₂) heq,
    h.nodup, h.waiting, fun id hid => ?_⟩
  obtain ⟨key, hkey, hheld⟩ := h.ids id hid
  exact ⟨key, hkey, fun t' info ht' => hheld t' info (hsame t' _ ht')⟩

/-- A source that never was in the table releases its key. -/
theorem release (h : BooksOk r held ids) (ht : held t = some (info, false)) :
    BooksOk (r.untrack info.key) (Function.update held t none) ids := by
  have hleft := h.leave (t := t)
  have hkept : ∀ key, key ≠ info.key → (r.untrack info.key).tracking key = r.tracking key :=
    fun key hne => update_of_ne hne _ _
  refine ⟨fun t' info' c ht' => ?_, hleft.distinct, h.nodup, fun key hkey => ?_, fun id hid => ?_⟩
  · rcases update_eq_some ht' with ⟨-, heq⟩ | ⟨hne, hold⟩
    · cases heq
    · rw [hkept info'.key fun heq => hne (h.distinct t' t info' info c false hold ht heq)]
      exact h.tracked t' info' c hold
  · rw [hkept key fun heq => (h.tracked t info false ht).2 (heq ▸ hkey)]
    exact h.waiting key hkey
  · obtain ⟨key', hkey', hheld'⟩ := h.ids id hid
    refine ⟨key', (hkept key' (hheld' t info ht).symm).trans hkey', fun t' info' ht' => ?_⟩
    rcases update_eq_some ht' with ⟨-, heq⟩ | ⟨-, hold⟩
    · cases heq
    · exact hheld' t' info' hold

/-- The key of a source is put on the list of those that wait. -/
theorem schedule (h : BooksOk r held ids) (ht : held t = some (info, b)) {pending : Bool} :
    BooksOk { r with
        waitingRelease := r.waitingRelease ++ [info.key], pendingReleaseCount := pending }
      (Function.update held t none) ids := by
  have hleft := h.leave (t := t)
  obtain ⟨htracked, hnot⟩ := h.tracked t info b ht
  refine ⟨fun t' info' c ht' => ?_, hleft.distinct, ?_, fun key hkey => ?_, hleft.ids⟩
  · rcases update_eq_some ht' with ⟨-, heq⟩ | ⟨hne, hold⟩
    · cases heq
    · refine ⟨(h.tracked t' info' c hold).1, fun hmem => ?_⟩
      rcases List.mem_append.mp hmem with hmem | hmem
      · exact (h.tracked t' info' c hold).2 hmem
      · exact hne (h.distinct t' t info' info c b hold ht (List.mem_singleton.mp hmem))
  · rw [List.nodup_append]
    refine ⟨h.nodup, List.nodup_singleton _, fun key hkey key' hkey' => ?_⟩
    rw [List.mem_singleton.mp hkey']
    exact fun heq => hnot (heq ▸ hkey)
  · rcases List.mem_append.mp hkey with hkey | hkey
    · exact h.waiting key hkey
    · rw [List.mem_singleton.mp hkey]
      show r.tracking info.key ≠ none
      rw [htracked]
      exact Option.some_ne_none _

end BooksOk

/-! ### The table, when a source moves -/

namespace TableOk

variable {internalFd : Int32} {fds fds' : Fds} {sources : S → SourceState count} {t : S}
  {src : IoSource count} {r : Except CommonErrors Unit}

variable {state : SourceState count}

omit [DecidableEq S] in
theorem not_registered (ht : sources t = state) (hstate : ∀ src, state ≠ .registered src)
    (src : IoSource count) : sources t ≠ .registered src := by
  rw [ht]
  exact hstate src

/-- A source that was not registered moves. -/
theorem exists_registered_update {p : IoSource count → Prop}
    (hbefore : ∀ src, sources t ≠ .registered src)
    (h : ∃ t' src', sources t' = .registered src' ∧ p src') :
    ∃ t' src', Function.update sources t state t' = .registered src' ∧ p src' := by
  obtain ⟨t', src', ht', hp⟩ := h
  have hne : t' ≠ t := by
    rintro rfl
    exact hbefore src' ht'
  exact ⟨t', src', (update_of_ne hne _ _).trans ht', hp⟩

theorem foreign_update (h : TableOk internalFd fds sources)
    (hstate : ∀ src, state = .registered src → src.fd ≠ internalFd) (t' : S) (src' : IoSource count)
    (ht' : Function.update sources t state t' = .registered src') : src'.fd ≠ internalFd := by
  by_cases heq : t' = t
  · rw [heq, update_self] at ht'
    exact hstate src' ht'
  · rw [update_of_ne heq] at ht'
    exact h.foreign t' src' ht'

/-- The table and the registered sources stay. -/
theorem other (h : TableOk internalFd fds sources) (hbefore : ∀ src, sources t ≠ .registered src)
    (hafter : ∀ src, state ≠ .registered src) :
    TableOk internalFd fds (Function.update sources t state) where
  index := h.index
  internal := h.internal
  foreign := h.foreign_update fun src hsrc => absurd hsrc (hafter src)
  owned := fun fd info hfd hinfo =>
    (h.owned fd info hfd hinfo).imp_right (exists_registered_update hbefore)

/-- The file descriptor of a source is in the table from now on. -/
theorem register (h : TableOk internalFd fds sources) (hbefore : ∀ src, sources t ≠ .registered src)
    (hadd : fds.add src.fd src.info.identifier src.interest false = some (fds', .ok ())) :
    TableOk internalFd fds' (Function.update sources t (.registered src)) := by
  rcases add_cases h.index hadd with ⟨-, hfail⟩ | ⟨-, hnone, hindex, hok, hinfos⟩
  · exact absurd rfl hfail
  have hne : internalFd ≠ src.fd := by
    intro heq
    rw [← heq, h.internal] at hnone
    cases hnone
  refine ⟨hok, ?_, h.foreign_update fun src' hsrc' => ?_, fun fd info hfd hinfo => ?_⟩
  · rw [hindex, AList.lookup_insert_ne hne]
    exact h.internal
  · cases hsrc'
    exact hne.symm
  · rw [hinfos] at hinfo
    by_cases hself : fd = src.fd
    · rw [hself, update_self] at hinfo
      cases hinfo
      exact Or.inr ⟨t, src, update_self .., hself.symm, rfl⟩
    · rw [update_of_ne hself] at hinfo
      exact (h.owned fd info hfd hinfo).imp_right (exists_registered_update hbefore)

/-- The file descriptor of a source leaves the table. -/
theorem remove (h : TableOk internalFd fds sources) (ht : sources t = .registered src)
    (hremove : fds.remove src.fd = some (fds', r)) (hafter : ∀ src, state ≠ .registered src) :
    TableOk internalFd fds' (Function.update sources t state) := by
  have hforeign := h.foreign_update (t := t) fun src hsrc => absurd hsrc (hafter src)
  -- An entry that is left has another file descriptor, so it has another owner.
  have howned : ∀ fd info, fd ≠ src.fd → fd ≠ internalFd → infoOf fds fd = some info →
      info.id = wakerIoId ∨ ∃ t' src', Function.update sources t state t' = .registered src' ∧
        src'.fd = fd ∧ src'.info.identifier = info.id := by
    intro fd info hne hfd hinfo
    refine (h.owned fd info hfd hinfo).imp_right fun ⟨t', src', ht', hfd', hid⟩ => ?_
    have hother : t' ≠ t := by
      rintro rfl
      rw [ht] at ht'
      cases ht'
      exact hne hfd'.symm
    exact ⟨t', src', (update_of_ne hother _ _).trans ht', hfd', hid⟩
  rcases remove_cases h.index hremove with ⟨rfl, hnone⟩ | hremoved
  · refine ⟨h.index, h.internal, hforeign, fun fd info hfd hinfo => howned fd info ?_ hfd hinfo⟩
    rintro rfl
    rw [infoOf, hnone] at hinfo
    cases hinfo
  · refine ⟨hremoved.ok, hremoved.first internalFd (h.foreign t src ht).symm h.internal, hforeign,
      fun fd info hfd hinfo => ?_⟩
    rw [hremoved.infoOf_eq] at hinfo
    by_cases hself : fd = src.fd
    · rw [hself, update_self] at hinfo
      cases hinfo
    · rw [update_of_ne hself] at hinfo
      exact howned fd info hself hfd hinfo

end TableOk

/-! ### Runs -/

/-- What the sources hold. -/
def held (sources : S → SourceState count) (t : S) : Option (InfoRef count × Bool) :=
  holding (sources t)

theorem held_update (sources : S → SourceState count) (t : S) (state : SourceState count) :
    held (Function.update sources t state) = Function.update (held sources) t (holding state) := by
  funext t'
  unfold held
  by_cases heq : t' = t
  · rw [heq, update_self, update_self]
  · rw [update_of_ne heq, update_of_ne heq]

/-- What holds of the driver in every run. -/
structure IoDriverOk (internalFd : Int32) (s : IoDriver S count) : Prop where
  books : BooksOk s.registrations (held s.sources) s.dereferences
  table : s.fdsPoisoned = false → TableOk internalFd s.fds s.sources

omit [DecidableEq S] in
theorem mem_dereferences {s : IoDriver S count} {events : List IoEvent}
    (hpc : s.processIo = .events events) {id : UInt64} :
    id ∈ s.dereferences ↔ (∃ event ∈ events, event.id = id) ∧ id ≠ wakerIoId := by
  unfold IoDriver.dereferences
  rw [hpc]
  simp

omit [DecidableEq S] in
/-- A new driver has no registrations. -/
theorem ioDriverOk_new {internalFd wakerFd : Int32} {s : IoDriver S count}
    (hnew : IoDriver.new internalFd wakerFd = some s) : IoDriverOk internalFd s := by
  unfold IoDriver.new at hnew
  split at hnew
  · rename_i fds₁ hfirst
    split at hnew <;> cases hnew
    rename_i fds₂ hsecond
    rcases add_cases (indexOk_new _) hfirst with ⟨-, hfail⟩ | ⟨-, -, hindex₁, hok₁, hinfos₁⟩
    · exact absurd rfl hfail
    rcases add_cases hok₁ hsecond with ⟨-, hfail⟩ | ⟨-, hnone, hindex₂, hok₂, hinfos₂⟩
    · exact absurd rfl hfail
    have hinternal : fds₁.fdToIndex.lookup internalFd = some 0 := by
      rw [hindex₁, AList.lookup_insert]
      rfl
    have hne : internalFd ≠ wakerFd := by
      intro heq
      rw [← heq, hinternal] at hnone
      cases hnone
    refine ⟨⟨nofun, nofun, List.nodup_nil, nofun, nofun⟩, fun _ => ⟨hok₂, ?_, nofun, ?_⟩⟩
    · rw [hindex₂, AList.lookup_insert_ne hne]
      exact hinternal
    · intro fd info hfd hinfo
      left
      rw [hinfos₂] at hinfo
      by_cases hwaker : fd = wakerFd
      · rw [hwaker, update_self] at hinfo
        cases hinfo
        rfl
      · rw [update_of_ne hwaker, hinfos₁, update_of_ne hfd] at hinfo
        cases hinfo
  · cases hnew

namespace IoDriverOk

variable {internalFd : Int32} {s s' : IoDriver S count} {t : S} {src : IoSource count}

/-- An access to the table by a source that holds its info before and after. -/
theorem accessFds (h : IoDriverOk internalFd s) {b : Bool}
    (ht : held s.sources t = some (src.info, b))
    {accessor : Fds → Option (Fds × Except CommonErrors Unit)}
    {next : Except CommonErrors Unit → SourceState count}
    (hnext : ∀ r, ∃ b', holding (next r) = some (src.info, b') ∧ (b = true → b' = true))
    (htable : TableOk internalFd s.fds s.sources → ∀ fds r, accessor s.fds = some (fds, r) →
      TableOk internalFd fds (Function.update s.sources t (next r))) :
    IoDriverOk internalFd (s.accessFds t src accessor next) := by
  have hpanic : BooksOk s.registrations (held (Function.update s.sources t (.panicked src)))
      s.dereferences := by
    rw [held_update]
    exact h.books.keep ht fun _ => rfl
  unfold IoDriver.accessFds
  cases hpoisoned : s.fdsPoisoned with
  | true =>
      rw [if_pos rfl]
      refine ⟨hpanic, fun hclean => ?_⟩
      rw [show s.fdsPoisoned = false from hclean] at hpoisoned
      cases hpoisoned
  | false =>
      rw [if_neg Bool.false_ne_true]
      cases hcall : accessor s.fds with
      | none => exact ⟨hpanic, fun hclean => by cases hclean⟩
      | some res =>
          obtain ⟨fds, r⟩ := res
          refine ⟨?_, fun _ => htable (h.table hpoisoned) fds r hcall⟩
          obtain ⟨b', hholding, hb⟩ := hnext r
          show BooksOk s.registrations (held (Function.update s.sources t (next r))) s.dereferences
          rw [held_update, hholding]
          exact h.books.keep ht hb

/-- The selector takes the source, or its info is to be released. -/
theorem register (h : IoDriverOk internalFd s) (ht : s.sources t = .registering src) :
    IoDriverOk internalFd (s.register t src) := by
  have hbefore := TableOk.not_registered ht nofun
  refine h.accessFds (b := false) (congrArg holding ht) (fun r => ?_) fun htable fds r hadd => ?_
  · cases r with
    | ok _ => exact ⟨true, rfl, nofun⟩
    | error e => exact ⟨false, rfl, nofun⟩
  · cases r with
    | ok _ => exact htable.register hbefore hadd
    | error e =>
        rcases add_cases htable.index hadd with ⟨rfl, -⟩ | ⟨hok, -⟩
        · exact htable.other hbefore nofun
        · cases hok

/-- A source lets go of its info. -/
theorem goAbsent (h : IoDriverOk internalFd s) (hbefore : ∀ src', s.sources t ≠ .registered src')
    {registrations : Registrations count}
    (hbooks : BooksOk registrations (Function.update (held s.sources) t none) s.dereferences) :
    IoDriverOk internalFd ({ s with registrations }.goto t .absent) := by
  refine ⟨?_, fun hclean => (h.table hclean).other hbefore nofun⟩
  show BooksOk registrations (held (Function.update s.sources t .absent)) s.dereferences
  rw [held_update]
  exact hbooks

/-- A registration that failed gives its info back. -/
theorem release (h : IoDriverOk internalFd s) (ht : s.sources t = .releasing src) :
    IoDriverOk internalFd (s.release t src) := by
  have hbefore := TableOk.not_registered ht nofun
  have hheld : held s.sources t = some (src.info, false) := congrArg holding ht
  unfold IoDriver.release
  split
  · rename_i key hkey
    unfold InfoRef.trackingKey at hkey
    split at hkey <;> cases hkey
    exact h.goAbsent hbefore (h.books.release hheld)
  · exact h.goAbsent hbefore h.books.leave

/-- The key waits for the next cleanup. There is room for it. -/
theorem dispose (h : IoDriverOk internalFd s) (ht : s.sources t = .disposing src) :
    IoDriverOk internalFd (s.dispose t src) := by
  have hbefore := TableOk.not_registered ht nofun
  have hheld : held s.sources t = some (src.info, true) := congrArg holding ht
  unfold IoDriver.dispose
  split
  · rename_i key hkey
    unfold InfoRef.trackingKey at hkey
    split at hkey <;> cases hkey
    rw [Registrations.scheduleRegistrationForDisposal, if_pos (h.books.length_lt hheld)]
    exact h.goAbsent hbefore (h.books.schedule hheld)
  · exact h.goAbsent hbefore h.books.leave

/-- The next step of a source. -/
theorem advance (h : IoDriverOk internalFd s) (hstep : s.advance t = some s') :
    IoDriverOk internalFd s' := by
  unfold IoDriver.advance at hstep
  split at hstep <;> cases hstep
  · rename_i src ht
    exact h.register ht
  · rename_i src ht
    exact h.release ht
  · rename_i src ht
    exact h.dispose ht

/-- A new registration gets a key that nobody has. -/
theorem add (h : IoDriverOk internalFd s) {fd : Int32} {interest : IoEventInterest}
    {nextFreeKey : Option (Fin count)} {address : UInt64}
    (hstep : s.step (.add t fd interest nextFreeKey address) = some s') :
    IoDriverOk internalFd s' := by
  simp only [IoDriver.step] at hstep
  split at hstep
  · rename_i hfree
    cases nextFreeKey with
    | none =>
        cases hstep
        exact h
    | some key =>
        cases hstep
        have hbefore := TableOk.not_registered hfree.1 nofun
        have hkey : s.registrations.tracking key = none := by
          simpa using hfree.2
        refine ⟨?_, fun hclean => (h.table hclean).other hbefore nofun⟩
        show BooksOk _ (held (Function.update s.sources t _)) s.dereferences
        rw [held_update]
        exact h.books.create (congrArg holding hfree.1) hkey address
  · cases hstep

theorem reregister (h : IoDriverOk internalFd s) (hstep : s.step (.reregister t) = some s') :
    IoDriverOk internalFd s' := by
  simp only [IoDriver.step] at hstep
  split at hstep <;> cases hstep
  rename_i src ht
  refine h.accessFds (b := true) (congrArg holding ht) (fun r => ⟨true, rfl, id⟩)
    fun htable fds r hupdate => ?_
  rw [← ht, update_eq_self]
  exact htable.reregister ht hupdate

theorem remove (h : IoDriverOk internalFd s) (hstep : s.step (.remove t) = some s') :
    IoDriverOk internalFd s' := by
  simp only [IoDriver.step] at hstep
  split at hstep <;> cases hstep
  rename_i src ht
  exact h.accessFds (b := true) (congrArg holding ht) (fun r => ⟨true, rfl, id⟩)
    fun htable fds r hremove => htable.remove ht hremove nofun

omit [DecidableEq S] in
/-- `process_io` goes on with fewer events. -/
theorem goProcessIo (h : IoDriverOk internalFd s) {pc : ProcessIoPc}
    (hids : ∀ id ∈ ({ s with processIo := pc } : IoDriver S count).dereferences,
      id ∈ s.dereferences) : IoDriverOk internalFd { s with processIo := pc } :=
  ⟨{ h.books with ids := fun id hid => h.books.ids id (hids id hid) }, h.table⟩

omit [DecidableEq S] in
/-- The next step of `process_io`, a cleanup among them. -/
theorem advanceProcessIo (h : IoDriverOk internalFd s) (hstep : s.advanceProcessIo = some s') :
    IoDriverOk internalFd s' := by
  unfold IoDriver.advanceProcessIo at hstep
  split at hstep <;> cases hstep
  · refine h.goProcessIo fun id hid => ?_
    cases hpending : s.registrations.pendingReleaseCount <;> rw [hpending] at hid <;> cases hid
  · exact ⟨h.books.cleanup, h.table⟩
  · exact h.goProcessIo nofun
  · rename_i event events hpc
    refine h.goProcessIo fun id hid => ?_
    rw [mem_dereferences rfl] at hid
    rw [mem_dereferences hpc]
    exact ⟨hid.1.imp fun e he => ⟨List.mem_cons_of_mem event he.1, he.2⟩, hid.2⟩

omit [DecidableEq S] in
/-- What `select` reports is held by a registered source. -/
theorem select (h : IoDriverOk internalFd s) (revents : Nat → UInt16) :
    IoDriverOk internalFd (s.select revents) := by
  unfold IoDriver.select
  by_cases hpoisoned : s.fdsPoisoned = true
  · rw [if_pos hpoisoned]
    exact h.goProcessIo nofun
  · rw [if_neg hpoisoned]
    have htable := h.table (Bool.eq_false_iff.mpr hpoisoned)
    split
    · rename_i fds hselect
      exact ⟨h.books, fun _ => (htable.select hselect).1⟩
    · rename_i fds events hselect
      obtain ⟨htable', hevents⟩ := htable.select hselect
      refine ⟨{ h.books with ids := fun id hid => ?_ }, fun _ => htable'⟩
      rw [mem_dereferences rfl] at hid
      obtain ⟨⟨event, hmem, rfl⟩, hwaker⟩ := hid
      rcases hevents events rfl event hmem with heq | ⟨t, src, ht, hsrc⟩
      · exact absurd heq hwaker
      · have hheld : held s.sources t = some (src.info, true) := congrArg holding ht
        refine ⟨src.info.key, hsrc ▸ (h.books.tracked t src.info true hheld).1,
          fun t' info hheld' heq => ?_⟩
        -- The key belongs to one source, and this one is registered.
        obtain rfl := h.books.distinct t' t info src.info false true hheld' hheld heq
        rw [hheld] at hheld'
        cases hheld'
    · rename_i fds hselect
      exact ⟨{ h.books with ids := nofun }, fun _ => (htable.select hselect).1⟩
    · rename_i fds e _ hselect
      exact ⟨{ h.books with ids := nofun }, fun _ => (htable.select hselect).1⟩
    · exact ⟨{ h.books with ids := nofun }, nofun⟩

/-- Every step keeps `IoDriverOk`. -/
theorem step (h : IoDriverOk internalFd s) {a : IoDriverAction S count}
    (hstep : s.step a = some s') : IoDriverOk internalFd s' := by
  cases a with
  | add t fd interest nextFreeKey address => exact h.add hstep
  | advance t => exact h.advance hstep
  | reregister t => exact h.reregister hstep
  | remove t => exact h.remove hstep
  | processIo =>
      simp only [IoDriver.step] at hstep
      split at hstep <;> cases hstep
      exact h.goProcessIo nofun
  | advanceProcessIo => exact h.advanceProcessIo hstep
  | select revents =>
      simp only [IoDriver.step] at hstep
      split at hstep <;> cases hstep
      exact h.select revents

end IoDriverOk

/-- In every run of the driver, with any sources that are added, registered again and removed while
`process_io` is called again and again:

* every identifier that `process_io` turns into an info, and every one that it still has to turn
  into an info, is tracked;
* the keys that wait for their release are distinct and tracked;
* when a removed source is disposed of, there is a place for its key. -/
theorem registration_tracked_while_processed {internalFd wakerFd : Int32} {s₀ s : IoDriver S count}
    (hnew : IoDriver.new internalFd wakerFd = some s₀) (hrun : Reaches IoDriver.step anyStep s₀ s) :
    (∀ id ∈ s.dereferences, ∃ key, s.registrations.tracking key = some id) ∧
    s.registrations.waitingRelease.Nodup ∧
    (∀ key ∈ s.registrations.waitingRelease, s.registrations.tracking key ≠ none) ∧
    ∀ t src, s.sources t = .disposing src →
      (s.registrations.scheduleRegistrationForDisposal src.info.key).isSome = true := by
  have h : IoDriverOk internalFd s :=
    hrun.invariant (ioDriverOk_new hnew) fun s a s' h _ hstep => h.step hstep
  refine ⟨fun id hid => ?_, h.books.nodup, h.books.waiting, fun t src ht => ?_⟩
  · obtain ⟨key, hkey, -⟩ := h.books.ids id hid
    exact ⟨key, hkey⟩
  · have hheld : held s.sources t = some (src.info, true) := congrArg holding ht
    rw [Registrations.scheduleRegistrationForDisposal, if_pos (h.books.length_lt hheld)]
    rfl

/-- A source is removed between `select` and the loop over its event. -/
theorem registration_tracked_after_removal :
    ∃ s₀ s : IoDriver Unit 2, IoDriver.new 3 4 = some s₀ ∧ Reaches IoDriver.step anyStep s₀ s ∧
      s.dereferences = [4096] ∧ s.registrations.waitingRelease = [0] ∧
      (∃ key, s.registrations.tracking key = some 4096) ∧
      s.registrations.waitingRelease.Nodup := by
  obtain ⟨s₀, hnew⟩ : ∃ s₀ : IoDriver Unit 2, IoDriver.new 3 4 = some s₀ := ⟨_, rfl⟩
  have hrun : ∃ s, Reaches IoDriver.step anyStep s₀ s ∧ s.dereferences = [4096] ∧
      s.registrations.waitingRelease = [0] := by
    cases hnew
    exact exists_reaches [IoDriverAction.add () 5 .readable (some 0) 4096, .advance (), .processIo,
      .advanceProcessIo, .select (fun i => if i = 2 then pollIn else 0), .remove (), .advance ()]
      (by decide)
  obtain ⟨s, hreaches, hids, hwaiting⟩ := hrun
  obtain ⟨htracked, hnodup, -⟩ := registration_tracked_while_processed hnew hreaches
  exact ⟨s₀, s, hnew, hreaches, hids, hwaiting, htracked 4096 (hids ▸ List.mem_singleton_self _),
    hnodup⟩

end Kyron.Proofs.Io
