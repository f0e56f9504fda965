import Kyron.Io.BridgedFd
import Kyron.Proofs.Io.HangUp

/-!
# `Kyron.Proofs.Io.BridgedFd`: no readiness is lost between the selector and the tasks

`select` takes a direction out of the armed ones when it reports it, and only a task that was told
to wait arms it again. A task clears the readiness that it got after it has armed the file
descriptor, and its clear takes effect only when no event was applied since it got it. So at
that time every direction is armed, or it was reported after the task armed it, and that event
is not applied yet. `RearmedOk` is this fact about a task before its clear.

`readiness_never_lost` follows: every direction of the registered interest is armed, or its bit is
set, or an event for it is on the way, or some task is about to arm it.
-/

set_option autoImplicit false

namespace Kyron.Proofs.Io

open Kyron.Lib
open Kyron.Io
open Kyron.Io.ReadinessState

variable {T : Type} [DecidableEq T]

/-! ### Flags -/

/-- The flag that is armed for a direction. -/
def armedFlag : Direction → UInt16
  | .readable => pollIn
  | .writable => pollOut

theorem uint16_and_ne_zero_iff {x m : UInt16} :
    x &&& m ≠ 0 ↔ ∃ i < 16, x.toBitVec.getLsbD i = true ∧ m.toBitVec.getLsbD i = true := by
  rw [ne_eq, ← UInt16.toBitVec_inj, UInt16.toBitVec_and]
  exact and_ne_zero_iff

/-- A registration arms the directions of its interest. -/
theorem armed_pollEventsFromInterest {i : IoEventInterest} {d : Direction} (h : i.has d = true) :
    pollEventsFromInterest i &&& armedFlag d ≠ 0 := by
  have hread : ∀ w : Bool, (if w then (0 ||| (pollIn ||| pollPri)) ||| pollOut
      else 0 ||| (pollIn ||| pollPri)) &&& pollIn ≠ 0 := by decide
  have hwrite : ∀ r : Bool,
      ((if r then 0 ||| (pollIn ||| pollPri) else 0) ||| pollOut) &&& pollOut ≠ 0 := by decide
  cases d with
  | readable =>
      have hr : i.isReadable = true := h
      simp only [pollEventsFromInterest, hr]
      exact hread i.isWritable
  | writable =>
      have hw : i.isWritable = true := h
      simp only [pollEventsFromInterest, hw]
      exact hwrite i.isReadable

/-- A flag that is armed stays armed, or it is reported. -/
theorem armed_or_reported {events revents : UInt16} {d : Direction}
    (h : events &&& armedFlag d ≠ 0) :
    (events &&& ~~~revents) &&& armedFlag d ≠ 0 ∨
      (interestFromPollEvents revents).has d = true := by
  obtain ⟨i, hi, harmed, hflag⟩ := uint16_and_ne_zero_iff.mp h
  cases hbit : revents.toBitVec.getLsbD i with
  | false =>
      refine Or.inl (uint16_and_ne_zero_iff.mpr ⟨i, hi, ?_, hflag⟩)
      rw [UInt16.toBitVec_and, UInt16.toBitVec_not, BitVec.getLsbD_and, BitVec.getLsbD_not, harmed,
        hbit]
      simp [hi]
  | true =>
      refine Or.inr ((has_interestFromPollEvents revents d).mpr ?_)
      refine uint16_and_ne_zero_iff.mpr ⟨i, hi, hbit, ?_⟩
      have hsub : ∀ d, ∀ i < 16, (armedFlag d).toBitVec.getLsbD i = true →
          (flagsOf d).toBitVec.getLsbD i = true := by
        rintro (_ | _) <;> decide
      exact hsub d i hi hflag

/-! ### The invariant -/

/-- The direction is armed in the table of file descriptors. -/
def Armed (s : BridgedFd T) (d : Direction) : Prop := s.pollfd.events &&& armedFlag d ≠ 0

/-- An event with the direction is collected and not applied yet. -/
def Collected (s : BridgedFd T) (d : Direction) : Prop :=
  ∃ event, s.collected = some event ∧ event.interest.has d = true

/-- The snapshot of a task. -/
def snapshotOf : IoCallPc → Option Snapshot
  | .idle => none
  | .ready snapshot | .blocked snapshot | .rearmed snapshot => some snapshot

/-- The snapshot of a task has the tick of its count. -/
def SnapshotOk (wakes : Nat) (pc : IoCallPc) : Prop :=
  ∀ snapshot, snapshotOf pc = some snapshot →
    snapshot.readiness.tick.toNat = snapshot.wakes % 65536 ∧ snapshot.wakes ≤ wakes

/-- Between the registration of a task and its clear, each direction is armed or reported as long
as no event is applied. -/
def RearmedOk (i : IoEventInterest) (s : BridgedFd T) (pc : IoCallPc) : Prop :=
  ∀ snapshot, pc = .rearmed snapshot → s.wakes = snapshot.wakes →
    ∀ d, i.has d = true → Armed s d ∨ Collected s d

structure BridgedOk (i : IoEventInterest) (s : BridgedFd T) : Prop where
  interest : s.interest = i
  source : s.info.isWaker = false
  enabled : 0 ≤ s.pollfd.fd
  tick : s.readiness.tick.toNat = s.wakes % 65536
  snapshot : ∀ t, SnapshotOk s.wakes (s.tasks t)
  rearmed : ∀ t, RearmedOk i s (s.tasks t)
  kept : ∀ d, i.has d = true → Armed s d ∨ s.readiness.has d = true ∨ Collected s d ∨
    ∃ t snapshot, s.tasks t = .blocked snapshot

/-- The conditions on a step: the file descriptor has no hang-up and no error, and fewer than 65536
events are applied between a snapshot and its clear. -/
def FewWakes (s : BridgedFd T) : IoCallAction T → Prop
  | .report revents => revents &&& (pollHup ||| pollErr) = 0
  | .clear t => ∀ snapshot ∈ snapshotOf (s.tasks t), s.wakes < snapshot.wakes + 65536
  | _ => True

/-! ### The steps -/

variable {i : IoEventInterest} {s s' : BridgedFd T} {t : T} {pc : IoCallPc}

theorem tick_isReady {r readiness : ReadinessState} (h : r.isReady i = some readiness) :
    readiness.tick = r.tick := by
  simp only [isReady, intersection] at h
  split at h
  · cases h
  · cases h
    exact extractTick_fromComponents _ _

/-- A task moves that was not about to arm the file descriptor. -/
theorem BridgedOk.moves (h : BridgedOk i s) (hold : ∀ snapshot, s.tasks t ≠ .blocked snapshot)
    (hsnapshot : SnapshotOk s.wakes pc)
    (hnew : ∀ snapshot, pc ≠ .rearmed snapshot) : BridgedOk i (s.setTask t pc) where
  interest := h.interest
  source := h.source
  enabled := h.enabled
  tick := h.tick
  snapshot := (Function.forall_update_iff s.tasks fun _ pc => SnapshotOk s.wakes pc).mpr
    ⟨hsnapshot, fun t' _ => h.snapshot t'⟩
  rearmed := (Function.forall_update_iff s.tasks fun _ pc => RearmedOk i s pc).mpr
    ⟨fun snapshot hpc => absurd hpc (hnew snapshot), fun t' _ => h.rearmed t'⟩
  kept := by
    intro d hd
    refine (h.kept d hd).imp_right (Or.imp_right (Or.imp_right ?_))
    rintro ⟨t', snapshot, hblocked⟩
    have ht : t' ≠ t := by
      rintro rfl
      exact hold snapshot hblocked
    exact ⟨t', snapshot, (Function.update_of_ne ht ..).trans hblocked⟩

/-- A task gets a readiness. -/
theorem request_ok (h : BridgedOk i s) {interest : IoEventInterest}
    (hstep : s.step (.request t interest) = some s') : BridgedOk i s' := by
  obtain ⟨hidle, hstep⟩ := Option.ite_none_right_eq_some.mp hstep
  split at hstep
  · rename_i readiness hready
    cases hstep
    refine h.moves (by simp [hidle]) ?_ fun _ hpc => nomatch hpc
    rintro _ ⟨⟩
    exact ⟨by rw [tick_isReady hready, h.tick], Nat.le_refl _⟩
  · cases hstep
    exact h

/-- The non-blocking call of a task returns. -/
theorem call_ok (h : BridgedOk i s) {wouldBlock : Bool}
    (hstep : s.step (.call t wouldBlock) = some s') : BridgedOk i s' := by
  simp only [BridgedFd.step] at hstep
  split at hstep
  · rename_i snapshot hpc
    cases hstep
    refine h.moves (by simp [hpc]) ?_ ?_
    · intro snapshot' hsnapshot
      cases wouldBlock with
      | true =>
          cases hsnapshot
          exact h.snapshot t snapshot (by rw [hpc]; rfl)
      | false => cases hsnapshot
    · intro snapshot' hpc'
      cases wouldBlock <;> cases hpc'
  · cases hstep

/-- A task arms all directions. -/
theorem reregister_ok (h : BridgedOk i s) (hstep : s.step (.reregister t) = some s') :
    BridgedOk i s' := by
  simp only [BridgedFd.step] at hstep
  split at hstep
  · rename_i snapshot hpc
    rw [if_neg (Int32.not_lt.mpr h.enabled)] at hstep
    cases hstep
    have harmed : ∀ d, i.has d = true → pollEventsFromInterest s.interest &&& armedFlag d ≠ 0 := by
      intro d hd
      rw [h.interest]
      exact armed_pollEventsFromInterest hd
    exact
      { interest := h.interest
        source := h.source
        enabled := h.enabled
        tick := h.tick
        snapshot := (Function.forall_update_iff s.tasks fun _ pc => SnapshotOk s.wakes pc).mpr
          ⟨fun snapshot' hsnapshot => h.snapshot t snapshot' (by rwa [hpc]),
            fun t' _ => h.snapshot t'⟩
        rearmed := fun _ _ _ _ d hd => Or.inl (harmed d hd)
        kept := fun d hd => Or.inl (harmed d hd) }
  · cases hstep

/-- A clear that takes effect finds the tick of its snapshot, so no event was applied since. -/
theorem wakes_eq_of_clear {snapshot : Snapshot} {r : ReadinessState} {wakes : Nat}
    (htick : r.tick.toNat = wakes % 65536)
    (hsnapshot : snapshot.readiness.tick.toNat = snapshot.wakes % 65536)
    (hle : snapshot.wakes ≤ wakes) (hfew : wakes < snapshot.wakes + 65536)
    {cleared : ReadinessState}
    (hclear : r.clearReadiness snapshot.readiness snapshot.interest = some cleared) :
    wakes = snapshot.wakes ∧ cleared.tick = r.tick := by
  unfold clearReadiness at hclear
  split at hclear
  · cases hclear
  · rename_i hsame
    have hsame : snapshot.readiness.tick = r.tick := not_not.mp hsame
    split at hclear
    · cases hclear
    · cases hclear
      refine ⟨?_, tick_clear _ _⟩
      rw [hsame] at hsnapshot
      omega

/-- A task clears the readiness that it got. -/
theorem clear_ok (h : BridgedOk i s) (hguard : FewWakes s (.clear t))
    (hstep : s.step (.clear t) = some s') : BridgedOk i s' := by
  simp only [BridgedFd.step] at hstep
  split at hstep
  · rename_i snapshot hpc
    cases hstep
    have hsome : snapshotOf (s.tasks t) = some snapshot := by rw [hpc]; rfl
    obtain ⟨htick, hle⟩ := h.snapshot t snapshot hsome
    have hmoved : BridgedOk i (s.setTask t .idle) :=
      h.moves (by simp [hpc]) (fun _ hnone => nomatch hnone) fun _ hidle => nomatch hidle
    cases hclear : s.readiness.clearReadiness snapshot.readiness snapshot.interest with
    | none => exact hmoved
    | some cleared =>
        obtain ⟨hwakes, hcleared⟩ :=
          wakes_eq_of_clear h.tick htick hle (hguard snapshot hsome) hclear
        exact
          { hmoved with
            tick := (congrArg UInt16.toNat hcleared).trans h.tick
            kept := fun d hd =>
              (h.rearmed t snapshot hpc hwakes d hd).imp_right fun hc => Or.inr (Or.inl hc) }
  · cases hstep

/-- What `select` does when there is no hang-up and no error. -/
theorem reportFd_of_source {info : FdInfo} (pollfd : PollFd) (hsource : info.isWaker = false)
    (hrevents : pollfd.revents ≠ 0) (hhup : pollfd.revents &&& (pollHup ||| pollErr) = 0) :
    reportFd info pollfd = (some ⟨info.id, interestFromPollEvents pollfd.revents⟩,
      { pollfd with events := pollfd.events &&& ~~~pollfd.revents }) := by
  simp [reportFd, hrevents, hsource, hhup]

/-- `select` reports the file descriptor. -/
theorem report_ok (h : BridgedOk i s) {revents : UInt16} (hguard : FewWakes s (.report revents))
    (hstep : s.step (.report revents) = some s') : BridgedOk i s' := by
  simp only [BridgedFd.step, Option.ite_some_none_eq_some] at hstep
  obtain ⟨⟨hnone, -, hrevents, -⟩, rfl⟩ := hstep
  rw [reportFd_of_source { s.pollfd with revents } h.source hrevents hguard]
  have hcollected : ∀ d, ¬ Collected s d := by
    rintro d ⟨event, hsome, -⟩
    rw [hnone] at hsome
    cases hsome
  have harmed : ∀ d, Armed s d →
      (s.pollfd.events &&& ~~~revents) &&& armedFlag d ≠ 0 ∨
        ∃ event, some (⟨s.info.id, interestFromPollEvents revents⟩ : IoEvent) = some event ∧
          event.interest.has d = true :=
    fun d hd => (armed_or_reported hd).imp_right fun hreported => ⟨_, rfl, hreported⟩
  exact
    { interest := h.interest
      source := h.source
      enabled := h.enabled
      tick := h.tick
      snapshot := h.snapshot
      rearmed := fun t snapshot hpc hwakes d hd =>
        harmed d ((h.rearmed t snapshot hpc hwakes d hd).resolve_right (hcollected d))
      kept := fun d hd => by
        rcases h.kept d hd with hd' | hd' | hd' | hd'
        · exact (harmed d hd').imp_right fun hc => Or.inr (Or.inl hc)
        · exact Or.inr (Or.inl hd')
        · exact absurd hd' (hcollected d)
        · exact Or.inr (Or.inr (Or.inr hd')) }

/-- `process_io` applies the event. -/
theorem apply_ok (h : BridgedOk i s) (hstep : s.step .apply = some s') : BridgedOk i s' := by
  simp only [BridgedFd.step] at hstep
  split at hstep
  · rename_i event hevent
    cases hstep
    exact
      { interest := h.interest
        source := h.source
        enabled := h.enabled
        tick := by
          have htick := h.tick
          rw [tick_markState, UInt16.toNat_add]
          simp only [UInt16.toNat_one]
          omega
        snapshot := fun t snapshot hpc =>
          (h.snapshot t snapshot hpc).imp_right fun hle => Nat.le_succ_of_le hle
        rearmed := fun t snapshot hpc hwakes => by
          -- The snapshot is older than this event.
          have hle := (h.snapshot t snapshot (by rw [hpc]; rfl)).2
          simp only at hwakes
          omega
        kept := fun d hd => by
          rcases h.kept d hd with hd' | hd' | ⟨event', hsome, hd'⟩ | hd'
          · exact Or.inl hd'
          · exact Or.inr (Or.inl (by simp [hd']))
          · rw [hevent] at hsome
            cases hsome
            exact Or.inr (Or.inl (by simp [fromMioEvent_eq, hd']))
          · exact Or.inr (Or.inr (Or.inr hd')) }
  · cases hstep

/-- Every step that meets the conditions keeps the invariant. -/
theorem bridgedStep_ok (h : BridgedOk i s) {a : IoCallAction T} (hguard : FewWakes s a)
    (hstep : s.step a = some s') : BridgedOk i s' := by
  cases a with
  | request t interest => exact request_ok h hstep
  | call t wouldBlock => exact call_ok h hstep
  | reregister t => exact reregister_ok h hstep
  | clear t => exact clear_ok h hguard hstep
  | report revents => exact report_ok h hguard hstep
  | apply => exact apply_ok h hstep

omit [DecidableEq T] in
/-- After `register` every direction of the interest is armed. -/
theorem bridgedOk_register {fd : Int32} {id : UInt64} (hreg : BridgedFd.register fd id i = some s) :
    BridgedOk i s := by
  unfold BridgedFd.register at hreg
  split at hreg
  · cases hreg
  · rename_i hfd
    cases hreg
    exact
      { interest := rfl
        source := rfl
        enabled := Int32.not_lt.mp hfd
        tick := show (⟨0⟩ : ReadinessState).tick.toNat = 0 % 65536 by decide
        snapshot := fun _ _ hnone => nomatch hnone
        rearmed := fun _ _ hidle => nomatch hidle
        kept := fun _ hd => Or.inl (armed_pollEventsFromInterest hd) }

/-! ### Runs -/

/-- In every run of a registered file descriptor without hang-up and error, of any number of tasks
that use it and of the driver, in which fewer than 65536 events are applied between a snapshot
and its clear: each direction of the registered interest is armed, or its bit is set in the
readiness word, or an event with it is collected and not applied yet, or some task is between
`WouldBlock` and its registration. -/
theorem readiness_never_lost {fd : Int32} {id : UInt64} {s₀ : BridgedFd T}
    (hreg : BridgedFd.register fd id i = some s₀)
    (hrun : Reaches BridgedFd.step FewWakes s₀ s) (d : Direction) (hd : i.has d = true) :
    Armed s d ∨ s.readiness.has d = true ∨ Collected s d ∨
      ∃ t snapshot, s.tasks t = .blocked snapshot :=
  (hrun.invariant (I := BridgedOk i) (bridgedOk_register hreg)
    fun _ _ _ h hguard hstep => bridgedStep_ok h hguard hstep).kept d hd

instance (s : BridgedFd T) : (a : IoCallAction T) → Decidable (FewWakes s a)
  | .report _ => inferInstanceAs (Decidable (_ = _))
  | .clear _ => inferInstanceAs (Decidable (∀ _ ∈ _, _))
  | .request _ _ | .call _ _ | .reregister _ | .apply => .isTrue trivial

/-- A task arms the file descriptor again, which is reported before the task clears its readiness.
Then nothing is armed and no bit is set, and the event is on the way. -/
theorem readiness_never_lost_reported :
    ∃ s₀ s : BridgedFd (Fin 1), BridgedFd.register 5 1 .readable = some s₀ ∧
      Reaches BridgedFd.step FewWakes s₀ s ∧ ¬ Armed s .readable ∧
      s.readiness.has .readable = false ∧ Collected s .readable := by
  obtain ⟨s₀, hreg⟩ : ∃ s₀ : BridgedFd (Fin 1), BridgedFd.register 5 1 .readable = some s₀ :=
    ⟨_, rfl⟩
  obtain ⟨s, hrun, harmed, hready, hidle⟩ : ∃ s : BridgedFd (Fin 1),
      Reaches BridgedFd.step FewWakes s₀ s ∧ s.pollfd.events &&& pollIn = 0 ∧
        s.readiness.has .readable = false ∧ ∀ t, s.tasks t = .idle := by
    cases hreg
    exact exists_reaches ([IoCallAction.report pollIn, .apply]
      ++ [IoCallAction.request 0 .readable, .call 0 true]
      ++ [IoCallAction.reregister 0, .report pollIn, .clear 0]) (by decide +kernel)
  have harmed : ¬ Armed s .readable := not_not.mpr harmed
  refine ⟨s₀, s, hreg, hrun, harmed, hready, ?_⟩
  have hkept := readiness_never_lost hreg hrun .readable rfl
  simpa [harmed, hready, hidle] using hkept

end Kyron.Proofs.Io
